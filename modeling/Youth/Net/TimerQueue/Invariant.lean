/-
  Youth.Net.TimerQueue.Invariant

  The two sets of the timer queue describe the same timers, in every state.

  `Agree w out` states both sets at once: they hold the timers that were given to the
  queue and are not deleted, except those at the addresses `out` (the batch being
  fired).  The sizes, the erase counts and the insert results that the source asserts
  follow from it, and so does that no freed timer is used.  A pointer in a stale
  `TimerId` does no harm, because an active entry also holds the sequence number.

  The operations change `out` one timer at a time: an insert takes an address out of
  it, `getExpired` puts the batch into it.
-/

import Youth.Lib.Machine
import Youth.Net.TimerQueue.Basic

namespace Youth.Net
namespace TimerQueue

open Youth.Lib
open Youth.Core (DateTime)

/-- The timer at `a` is one the queue has to keep: given to it, not deleted, not being
    fired. -/
def Kept (w : World) (out : List Addr) (a : Addr) (t : Timer) : Prop :=
  w.heap a = some t ∧ t.sequence ∈ w.given ∧ a ∉ out

/-- Both sets hold the kept timers, each under its own key. -/
structure Agree (w : World) (out : List Addr) : Prop where
  timers : ∀ x, x ∈ w.timers ↔ ∃ t, Kept w out (ofLex x).2 t ∧ t.expiration = (ofLex x).1
  active : ∀ id, id ∈ w.activeTimers ↔ ∃ t, Kept w out id.1 t ∧ t.sequence = id.2

/-- The heap and the sequence numbers. -/
structure Alive (w : World) : Prop where
  made : ∀ a t, w.heap a = some t → t.sequence < w.numCreated ∧ a < UINTPTR_MAX ∧
    ∃ t₀, w.born t.sequence = some t₀ ∧ t₀.repeat_ = t.repeat_
  unique : ∀ a b t u, w.heap a = some t → w.heap b = some u → t.sequence = u.sequence → a = b
  given : ∀ q ∈ w.given, q < w.numCreated
  deletedOnce : w.deleted.Nodup
  deleted : ∀ q ∈ w.deleted, q < w.numCreated
  gone : ∀ a t, w.heap a = some t → t.sequence ∉ w.deleted

/-- The callbacks of one-shot timers; `done` are the addresses of the batch that have
    been run. -/
structure RunOnce (w : World) (done : List Addr) : Prop where
  known : ∀ q ∈ w.runs, q < w.numCreated
  once : ∀ q t₀, w.born q = some t₀ → t₀.repeat_ = false → w.runs.count q ≤ 1
  unfired : ∀ a t, w.heap a = some t → t.repeat_ = false → a ∉ done → t.sequence ∉ w.runs

/-- The batch: distinct timers, all of them there. -/
structure Held (w : World) (out : List Addr) : Prop where
  nodup : out.Nodup
  held : ∀ a ∈ out, ∃ t, w.heap a = some t ∧ t.sequence ∈ w.given

/-- Everything, with `out` off the sets and `done` of it run. -/
structure Good (w : World) (out done : List Addr) : Prop where
  faults : w.faults = []
  alive : Alive w
  agree : Agree w out
  held : Held w out
  runs : RunOnce w done

variable {w : World} {out done : List Addr} {a : Addr} {t : Timer}

/-- The heap and its numbers do not depend on the sets, nor on what has been run. -/
theorem Alive.of_same {w' : World} (h : Alive w)
    (e : w' = { w with
      timers := w'.timers
      activeTimers := w'.activeTimers
      callingExpiredTimers := w'.callingExpiredTimers
      cancelingTimers := w'.cancelingTimers
      firing := w'.firing
      timerfd := w'.timerfd
      armedAt := w'.armedAt
      runs := w'.runs }) : Alive w' := by
  rw [e]
  exact ⟨h.made, h.unique, h.given, h.deletedOnce, h.deleted, h.gone⟩

/-- The sets depend on the kept timers only. -/
theorem Agree.of_kept {w' : World} {out' : List Addr} (h : Agree w out)
    (htimers : w'.timers = w.timers) (hactive : w'.activeTimers = w.activeTimers)
    (hkept : ∀ b u, Kept w' out' b u ↔ Kept w out b u) : Agree w' out' := by
  refine ⟨fun x => ?_, fun id => ?_⟩
  · simpa only [htimers, hkept] using h.timers x
  · simpa only [hactive, hkept] using h.active id

/-- An address outside the batch may take or lose a timer. -/
theorem Held.update (h : Held w out) (ha : a ∉ out) (v : Option Timer) {w' : World}
    (hheap : w'.heap = Function.update w.heap a v) (hgiven : w'.given = w.given) : Held w' out := by
  refine ⟨h.nodup, fun b hb => ?_⟩
  obtain ⟨u, hu, hg⟩ := h.held b hb
  have hba : b ≠ a := fun hba => ha (hba ▸ hb)
  rw [hheap, hgiven]
  exact ⟨u, (Function.update_of_ne hba _ _).trans hu, hg⟩

/-- The timerfd and the progress of `handleRead` are not part of it. -/
theorem Good.of_same {w' : World} (h : Good w out done)
    (e : w' = { w with
      callingExpiredTimers := w'.callingExpiredTimers
      cancelingTimers := w'.cancelingTimers
      firing := w'.firing
      timerfd := w'.timerfd
      armedAt := w'.armedAt }) : Good w' out done := by
  rw [e]
  exact ⟨h.faults, h.alive.of_same rfl, ⟨h.agree.timers, h.agree.active⟩,
    ⟨h.held.nodup, h.held.held⟩, ⟨h.runs.known, h.runs.once, h.runs.unfired⟩⟩

/-! ## Checks that hold -/

theorem check_pos {p : Prop} {_ : Decidable p} (hp : p) (f : Fault) : w.check p f = w := by
  simp only [World.check, if_pos hp, List.append_nil]

theorem touch_of (h : w.heap a = some t) : w.touch a = w :=
  check_pos (by rw [h]; rfl) _

theorem timer_of (h : w.heap a = some t) : w.timer a = t := by
  rw [World.timer, h, Option.getD_some]

theorem delete_of (h : w.heap a = some t) :
    w.delete a = { w with
      heap := Function.update w.heap a none
      deleted := w.deleted ++ [t.sequence] } := by
  have hcheck : w.check ((w.heap a).isSome = true) (.doubleFree a) = w :=
    check_pos (by rw [h]; rfl) _
  simp only [World.delete, hcheck, timer_of h]

/-- An address stands for one timer, so it is in each set at most once; hence the sizes. -/
theorem Agree.card_eq (h : Agree w out) : w.timers.card = w.activeTimers.card := by
  -- On each set the address is injective
  have htimers : (w.timers.image fun x => (ofLex x).2).card = w.timers.card := by
    refine Finset.card_image_of_injOn ?_
    intro x hx y hy hxy
    obtain ⟨t, ⟨ht, -, -⟩, hexp⟩ := (h.timers x).mp hx
    obtain ⟨u, ⟨hu, -, -⟩, hexp'⟩ := (h.timers y).mp hy
    have hxy' : (ofLex x).2 = (ofLex y).2 := hxy
    rw [hxy', hu] at ht
    cases ht
    exact ofLex.injective (Prod.ext (hexp.symm.trans hexp') hxy')
  have hactive : (w.activeTimers.image Prod.fst).card = w.activeTimers.card := by
    refine Finset.card_image_of_injOn ?_
    intro x hx y hy hxy
    obtain ⟨t, ⟨ht, -, -⟩, hseq⟩ := (h.active x).mp hx
    obtain ⟨u, ⟨hu, -, -⟩, hseq'⟩ := (h.active y).mp hy
    rw [show x.1 = y.1 from hxy, hu] at ht
    cases ht
    exact Prod.ext hxy (hseq.symm.trans hseq')
  -- Both sets have the addresses of the kept timers
  have himage : (w.timers.image fun x => (ofLex x).2) = w.activeTimers.image Prod.fst := by
    ext b
    simp only [Finset.mem_image]
    constructor
    · rintro ⟨x, hx, rfl⟩
      obtain ⟨t, hkept, -⟩ := (h.timers x).mp hx
      exact ⟨((ofLex x).2, t.sequence), (h.active _).mpr ⟨t, hkept, rfl⟩, rfl⟩
    · rintro ⟨id, hid, rfl⟩
      obtain ⟨t, hkept, -⟩ := (h.active id).mp hid
      exact ⟨toLex (t.expiration, id.1), (h.timers _).mpr ⟨t, hkept, rfl⟩, rfl⟩
  rw [← htimers, himage, hactive]

theorem checkSizes_of (h : Agree w out) : w.checkSizes = w := check_pos h.card_eq _

/-! ## Insert -/

/-- A timer that is off the sets goes into both. -/
theorem insert_eq (h : Agree w (a :: out)) (ht : w.heap a = some t) :
    (insert w a).1 = { w with
      timers := Insert.insert (toLex (t.expiration, a)) w.timers
      activeTimers := Insert.insert (a, t.sequence) w.activeTimers } := by
  have hnew : toLex (t.expiration, a) ∉ w.timers := by
    intro hmem
    obtain ⟨u, ⟨-, -, hout⟩, -⟩ := (h.timers _).mp hmem
    exact hout List.mem_cons_self
  have hnew' : (a, t.sequence) ∉ w.activeTimers := by
    intro hmem
    obtain ⟨u, ⟨-, -, hout⟩, -⟩ := (h.active _).mp hmem
    exact hout List.mem_cons_self
  have hcard : (Insert.insert (toLex (t.expiration, a)) w.timers).card =
      (Insert.insert (a, t.sequence) w.activeTimers).card := by
    rw [Finset.card_insert_of_notMem hnew, Finset.card_insert_of_notMem hnew', h.card_eq]
  simp only [insert, checkSizes_of h, touch_of ht, timer_of ht, check_pos hnew]
  rw [check_pos hnew']
  exact check_pos hcard _

/-- The timers kept without `a` off the sets are those kept with it, and the one at `a`. -/
theorem kept_cons_iff (ht : w.heap a = some t) (hgiven : t.sequence ∈ w.given) (ha : a ∉ out)
    (b : Addr) (u : Timer) :
    Kept w out b u ↔ b = a ∧ u = t ∨ Kept w (a :: out) b u := by
  constructor
  · rintro ⟨hu, hg, hout⟩
    by_cases hba : b = a
    · left
      rw [hba, ht] at hu
      exact ⟨hba, (Option.some.inj hu).symm⟩
    · exact .inr ⟨hu, hg, fun hmem => (List.mem_cons.mp hmem).elim hba hout⟩
  · rintro (⟨rfl, rfl⟩ | ⟨hu, hg, hout⟩)
    · exact ⟨ht, hgiven, ha⟩
    · exact ⟨hu, hg, fun hmem => hout (List.mem_cons_of_mem _ hmem)⟩

theorem entry_eq_iff (x : Entry) (e : DateTime) (b : Addr) :
    x = toLex (e, b) ↔ (ofLex x).2 = b ∧ e = (ofLex x).1 := by
  constructor
  · rintro rfl
    exact ⟨rfl, rfl⟩
  · rintro ⟨rfl, rfl⟩
    rfl

theorem insert_agree (h : Agree w (a :: out)) (ht : w.heap a = some t)
    (hgiven : t.sequence ∈ w.given) (ha : a ∉ out) : Agree (insert w a).1 out := by
  have hkept := kept_cons_iff ht hgiven ha
  rw [insert_eq h ht]
  -- the same argument for the set by time and for the set by address
  constructor
  · intro x
    show x ∈ Insert.insert (toLex (t.expiration, a)) w.timers ↔
      ∃ u, Kept w out (ofLex x).2 u ∧ u.expiration = (ofLex x).1
    rw [Finset.mem_insert, h.timers x, entry_eq_iff]
    constructor
    · rintro (⟨hxa, hexp⟩ | ⟨u, hu, hexp⟩)
      · exact ⟨t, (hkept _ _).mpr (.inl ⟨hxa, rfl⟩), hexp⟩
      · exact ⟨u, (hkept _ _).mpr (.inr hu), hexp⟩
    · rintro ⟨u, hu, hexp⟩
      rcases (hkept _ _).mp hu with ⟨hxa, rfl⟩ | hu
      · exact .inl ⟨hxa, hexp⟩
      · exact .inr ⟨u, hu, hexp⟩
  · intro id
    show id ∈ Insert.insert (a, t.sequence) w.activeTimers ↔
      ∃ u, Kept w out id.1 u ∧ u.sequence = id.2
    rw [Finset.mem_insert, h.active id, Prod.ext_iff]
    constructor
    · rintro (⟨hia, hseq⟩ | ⟨u, hu, hseq⟩)
      · exact ⟨t, (hkept _ _).mpr (.inl ⟨hia, rfl⟩), hseq.symm⟩
      · exact ⟨u, (hkept _ _).mpr (.inr hu), hseq⟩
    · rintro ⟨u, hu, hseq⟩
      rcases (hkept _ _).mp hu with ⟨hia, rfl⟩ | hu
      · exact .inl ⟨hia, hseq.symm⟩
      · exact .inr ⟨u, hu, hseq⟩

/-! ## Off the sets -/

/-- Sets cut down to the addresses outside `more` describe the timers outside it too. -/
theorem agree_filter (h : Agree w out) (more : List Addr) {timers : Finset Entry}
    {active : Finset ActiveTimer}
    (htimers : ∀ x, x ∈ timers ↔ x ∈ w.timers ∧ (ofLex x).2 ∉ more)
    (hactive : ∀ id, id ∈ active ↔ id ∈ w.activeTimers ∧ id.1 ∉ more) :
    Agree { w with timers := timers, activeTimers := active } (more ++ out) := by
  have hkept (b : Addr) (u : Timer) : Kept w (more ++ out) b u ↔ Kept w out b u ∧ b ∉ more := by
    unfold Kept
    rw [List.mem_append, not_or]
    tauto
  constructor
  · intro x
    show x ∈ timers ↔ ∃ u, Kept w (more ++ out) (ofLex x).2 u ∧ u.expiration = (ofLex x).1
    rw [htimers x, h.timers x]
    constructor
    · rintro ⟨⟨u, hu, hexp⟩, hmore⟩
      exact ⟨u, (hkept _ _).mpr ⟨hu, hmore⟩, hexp⟩
    · rintro ⟨u, hu, hexp⟩
      obtain ⟨hu, hmore⟩ := (hkept _ _).mp hu
      exact ⟨⟨u, hu, hexp⟩, hmore⟩
  · intro id
    show id ∈ active ↔ ∃ u, Kept w (more ++ out) id.1 u ∧ u.sequence = id.2
    rw [hactive id, h.active id]
    constructor
    · rintro ⟨⟨u, hu, hseq⟩, hmore⟩
      exact ⟨u, (hkept _ _).mpr ⟨hu, hmore⟩, hseq⟩
    · rintro ⟨u, hu, hseq⟩
      obtain ⟨hu, hmore⟩ := (hkept _ _).mp hu
      exact ⟨⟨u, hu, hseq⟩, hmore⟩

/-- What becomes of a timer that is off the sets does not matter to them. -/
theorem agree_update (h : Agree w out) (ha : a ∈ out) (v : Option Timer) (deleted : List Int) :
    Agree { w with heap := Function.update w.heap a v, deleted := deleted } out := by
  refine h.of_kept rfl rfl fun b u => ?_
  unfold Kept
  by_cases hba : b = a
  · simp [hba, ha]
  · simp [Function.update_of_ne hba]

/-- An address that holds no timer need not be excepted. -/
theorem agree_of_free (h : Agree w (a :: out)) (hfree : w.heap a = none) : Agree w out := by
  refine h.of_kept rfl rfl fun b u => ?_
  unfold Kept
  by_cases hba : b = a
  · rw [hba, hfree]
    simp
  · simp [hba]

/-- In an agreeing state the keys of a kept timer are the only ones of its address. -/
theorem Agree.timers_addr (h : Agree w out) (ht : w.heap a = some t) {x : Entry} (hx : x ∈ w.timers) :
    (ofLex x).2 = a ↔ x = toLex (t.expiration, a) := by
  rw [entry_eq_iff]
  constructor
  · intro hxa
    obtain ⟨u, ⟨hu, -, -⟩, hexp⟩ := (h.timers x).mp hx
    rw [hxa, ht] at hu
    cases hu
    exact ⟨hxa, hexp⟩
  · exact fun heq => heq.1

theorem Agree.active_addr (h : Agree w out) (ht : w.heap a = some t) {id : ActiveTimer}
    (hid : id ∈ w.activeTimers) : id.1 = a ↔ id = (a, t.sequence) := by
  rw [Prod.ext_iff]
  constructor
  · intro hia
    obtain ⟨u, ⟨hu, -, -⟩, hseq⟩ := (h.active id).mp hid
    rw [hia, ht] at hu
    cases hu
    exact ⟨hia, hseq.symm⟩
  · exact fun heq => heq.1

/-! ## The heap -/

theorem alive_delete (h : Alive w) (ht : w.heap a = some t) :
    Alive { w with
      heap := Function.update w.heap a none
      deleted := w.deleted ++ [t.sequence] } := by
  have hold {b : Addr} {u : Timer} (hu : Function.update w.heap a none b = some u) :
      b ≠ a ∧ w.heap b = some u := by
    by_cases hba : b = a
    · rw [hba, Function.update_self] at hu
      cases hu
    · rw [Function.update_of_ne hba] at hu
      exact ⟨hba, hu⟩
  refine ⟨?_, ?_, h.given, ?_, ?_, ?_⟩
  · intro b u hu
    exact h.made b u (hold hu).2
  · intro b c u v hu hv hseq
    exact h.unique b c u v (hold hu).2 (hold hv).2 hseq
  · -- the timer was alive, so it has not been deleted before
    exact List.nodup_append.mpr ⟨h.deletedOnce, List.nodup_singleton _, fun q hq r hr heq =>
      h.gone a t ht (by rw [← List.mem_singleton.mp hr, ← heq]; exact hq)⟩
  · intro q hq
    rcases List.mem_append.mp hq with hq | hq
    · exact h.deleted q hq
    · rw [List.mem_singleton.mp hq]
      exact (h.made a t ht).1
  · intro b u hu hmem
    obtain ⟨hba, hu⟩ := hold hu
    rcases List.mem_append.mp hmem with hmem | hmem
    · exact h.gone b u hu hmem
    · exact hba (h.unique b a u t hu ht (List.mem_singleton.mp hmem))

/-- A restart keeps what `Alive` and `RunOnce` know of a timer. -/
theorem update_restart {now : DateTime} {b : Addr} {u : Timer} (ht : w.heap a = some t)
    (hu : Function.update w.heap a (some (t.restart now)) b = some u) :
    ∃ v, w.heap b = some v ∧ v.sequence = u.sequence ∧ v.repeat_ = u.repeat_ := by
  by_cases hba : b = a
  · rw [hba, Function.update_self] at hu
    cases hu
    exact ⟨t, hba ▸ ht, rfl, rfl⟩
  · rw [Function.update_of_ne hba] at hu
    exact ⟨u, hu, rfl, rfl⟩

theorem alive_restart (h : Alive w) (ht : w.heap a = some t) (now : DateTime) :
    Alive { w with heap := Function.update w.heap a (some (t.restart now)) } := by
  refine ⟨?_, ?_, h.given, h.deletedOnce, h.deleted, ?_⟩
  · intro b u hu
    obtain ⟨v, hv, hseq, hrepeat⟩ := update_restart ht hu
    rw [← hseq, ← hrepeat]
    exact h.made b v hv
  · intro b c u v hu hv hseq
    obtain ⟨u', hu', hseq', -⟩ := update_restart ht hu
    obtain ⟨v', hv', hseq'', -⟩ := update_restart ht hv
    exact h.unique b c u' v' hu' hv' (by rw [hseq', hseq'', hseq])
  · intro b u hu
    obtain ⟨v, hv, hseq, -⟩ := update_restart ht hu
    rw [← hseq]
    exact h.gone b v hv

/-! ## Add and cancel -/

/-- A timer counts as given before it is in the sets. -/
theorem agree_give (h : Agree w out) (halive : Alive w) (ht : w.heap a = some t)
    (hnot : t.sequence ∉ w.given) :
    Agree { w with given := w.given ++ [t.sequence] } (a :: out) := by
  refine h.of_kept rfl rfl fun b u => ?_
  constructor
  · rintro ⟨hu, hg, hout⟩
    obtain ⟨hba, hout⟩ := not_or.mp (mt List.mem_cons.mpr hout)
    refine ⟨hu, ?_, hout⟩
    rcases List.mem_append.mp hg with hg | hg
    · exact hg
    · -- the number is that of the timer at `a` alone
      exact absurd (halive.unique b a u t hu ht (List.mem_singleton.mp hg)) hba
  · rintro ⟨hu, hg, hout⟩
    refine ⟨hu, List.mem_append_left _ hg, fun hmem => ?_⟩
    rcases List.mem_cons.mp hmem with rfl | hmem
    · rw [ht] at hu
      cases hu
      exact hnot hg
    · exact hout hmem

theorem exists_of_awaiting (hwait : w.awaiting a = true) :
    ∃ t, w.heap a = some t ∧ t.sequence ∉ w.given := by
  unfold World.awaiting at hwait
  cases ht : w.heap a with
  | none =>
      rw [ht] at hwait
      cases hwait
  | some t =>
      rw [ht, Option.any_some] at hwait
      exact ⟨t, rfl, by simpa using hwait⟩

theorem addTimerInLoop_good (h : Good w out done) (hwait : w.awaiting a = true)
    (clock : DateTime) : Good (addTimerInLoop w a clock) out done := by
  obtain ⟨t, ht, hnot⟩ := exists_of_awaiting hwait
  -- The timers of the batch have been given before
  have ha : a ∉ out := by
    intro hmem
    obtain ⟨u, hu, hgiven⟩ := h.held.held a hmem
    rw [ht] at hu
    cases hu
    exact hnot hgiven
  have hgiven := agree_give h.agree h.alive ht hnot
  have hmem : t.sequence ∈ w.given ++ [t.sequence] := List.mem_append_right _ List.mem_cons_self
  have hinsert := insert_agree hgiven ht hmem ha
  have heq := insert_eq hgiven ht
  have hgood : Good (insert { w with given := w.given ++ [t.sequence] } a).1 out done := by
    rw [heq] at hinsert ⊢
    refine ⟨h.faults, ⟨h.alive.made, h.alive.unique, ?_, h.alive.deletedOnce, h.alive.deleted,
      h.alive.gone⟩, hinsert, ⟨h.held.nodup, ?_⟩, ⟨h.runs.known, h.runs.once, h.runs.unfired⟩⟩
    · intro q hq
      rcases List.mem_append.mp hq with hq | hq
      · exact h.alive.given q hq
      · rw [List.mem_singleton.mp hq]
        exact (h.alive.made a t ht).1
    · intro b hb
      obtain ⟨u, hu, hg⟩ := h.held.held b hb
      exact ⟨u, hu, List.mem_append_left _ hg⟩
  have htouch : (insert { w with given := w.given ++ [t.sequence] } a).1.touch a =
      (insert { w with given := w.given ++ [t.sequence] } a).1 := by
    rw [heq]
    exact touch_of (w := { w with
      given := w.given ++ [t.sequence]
      timers := Insert.insert (toLex (t.expiration, a)) w.timers
      activeTimers := Insert.insert (a, t.sequence) w.activeTimers }) ht
  simp only [addTimerInLoop, timer_of ht, htouch]
  split
  · exact hgood.of_same rfl
  · exact hgood

/-- The `delete` of a timer that is off the sets. -/
theorem delete_good (hfaults : w.faults = []) (halive : Alive w) (hagree : Agree w (a :: out))
    (hheld : Held w out) (ha : a ∉ out) (ht : w.heap a = some t) (hruns : RunOnce w (a :: done)) :
    Good (w.delete a) out done := by
  rw [delete_of ht]
  have hfree : Function.update w.heap a none a = none := Function.update_self _ _ _
  refine ⟨hfaults, alive_delete halive ht,
    agree_of_free (agree_update hagree List.mem_cons_self none _) hfree,
    hheld.update ha none rfl rfl, ⟨hruns.known, hruns.once, ?_⟩⟩
  intro b u hu hrepeat hdone
  have hu' : Function.update w.heap a none b = some u := hu
  by_cases hba : b = a
  · rw [hba, hfree] at hu'
    cases hu'
  · rw [Function.update_of_ne hba] at hu'
    exact hruns.unfired b u hu' hrepeat fun hmem => (List.mem_cons.mp hmem).elim hba hdone

theorem cancelActive_good (h : Good w out done) {id : ActiveTimer} (hid : id ∈ w.activeTimers) :
    Good (cancelActive w id) out done := by
  obtain ⟨t, hkept, hseq⟩ := (h.agree.active id).mp hid
  have ht := hkept.1
  have hidEq : id = (id.1, t.sequence) := Prod.ext rfl hseq.symm
  have hentry : toLex (t.expiration, id.1) ∈ w.timers := (h.agree.timers _).mpr ⟨t, hkept, rfl⟩
  -- The deletion stands between the two erases; it touches neither set
  have heq : cancelActive w id = { w with
      timers := w.timers.erase (toLex (t.expiration, id.1))
      activeTimers := w.activeTimers.erase id }.delete id.1 := by
    simp only [cancelActive, touch_of ht, timer_of ht, check_pos hentry]
    rw [delete_of (w := { w with timers := w.timers.erase (toLex (t.expiration, id.1)) }) ht,
      delete_of (w := { w with
        timers := w.timers.erase (toLex (t.expiration, id.1))
        activeTimers := w.activeTimers.erase id }) ht]
  -- Each erased key is the only one of its address
  have hagree : Agree { w with
      timers := w.timers.erase (toLex (t.expiration, id.1))
      activeTimers := w.activeTimers.erase id } (id.1 :: out) := by
    refine agree_filter h.agree [id.1] ?_ ?_
    · intro x
      rw [Finset.mem_erase, List.mem_singleton, and_comm]
      refine and_congr_right fun hx => ?_
      rw [h.agree.timers_addr ht hx]
    · intro x
      rw [Finset.mem_erase, List.mem_singleton, and_comm]
      refine and_congr_right fun hx => ?_
      rw [h.agree.active_addr ht hx, ← hidEq]
  rw [heq]
  refine delete_good h.faults (h.alive.of_same rfl) hagree ⟨h.held.nodup, h.held.held⟩
    hkept.2.2 ht ⟨h.runs.known, h.runs.once, ?_⟩
  exact fun b u hu hrepeat hdone =>
    h.runs.unfired b u hu hrepeat fun hmem => hdone (List.mem_cons_of_mem _ hmem)

theorem cancelInLoop_good (h : Good w out done) (id : ActiveTimer) :
    Good (cancelInLoop w id) out done := by
  simp only [cancelInLoop, checkSizes_of h.agree]
  split
  next hid =>
    have hgood := cancelActive_good h hid
    rw [checkSizes_of hgood.agree]
    exact hgood
  · -- not active: a batch that is being fired remembers the id for `reset`
    split
    · have hgood : Good { w with cancelingTimers := Insert.insert id w.cancelingTimers } out done :=
        h.of_same rfl
      rw [checkSizes_of hgood.agree]
      exact hgood
    · rw [checkSizes_of h.agree]
      exact h

/-! ## Taking the batch -/

/-- The addresses of a list of entries. -/
def addrs (xs : List Entry) : List Addr := xs.map fun x => (ofLex x).2

theorem mem_addrs_cons {x : Entry} {xs : List Entry} {b : Addr} :
    b ∈ addrs (x :: xs) ↔ b = (ofLex x).2 ∨ b ∈ addrs xs := List.mem_cons

theorem mem_inOrder {s : Finset Entry} {x : Entry} : x ∈ inOrder s ↔ x ∈ s := by
  obtain ⟨m, hm⟩ := s
  induction m using Quot.inductionOn with
  | h l => exact List.mem_insertionSort (· ≤ ·)

theorem pairwise_inOrder (s : Finset Entry) : (inOrder s).Pairwise (· ≤ ·) := by
  obtain ⟨m, hm⟩ := s
  induction m using Quot.inductionOn with
  | h l => exact l.sortedLE_insertionSort.pairwise

theorem nodup_inOrder (s : Finset Entry) : (inOrder s).Nodup := by
  obtain ⟨m, hm⟩ := s
  induction m using Quot.inductionOn with
  | h l => exact (List.perm_insertionSort (· ≤ ·) l).nodup_iff.mpr hm

theorem mem_below {timers : Finset Entry} {sentry x : Entry} :
    x ∈ below timers sentry ↔ x ∈ timers ∧ x < sentry := by
  rw [below, mem_inOrder, Finset.mem_filter]

/-- The loop that takes the batch out of the second set. -/
theorem foldl_eraseActive {xs : List Entry} (hnodup : (addrs xs).Nodup)
    (hxs : ∀ x ∈ xs, ∃ t, w.heap (ofLex x).2 = some t ∧
      ((ofLex x).2, t.sequence) ∈ w.activeTimers)
    (hkey : ∀ id ∈ w.activeTimers, ∀ t, w.heap id.1 = some t → t.sequence = id.2) :
    xs.foldl eraseActive w =
      { w with activeTimers := w.activeTimers.filter fun id => id.1 ∉ addrs xs } := by
  induction xs generalizing w with
  | nil => simp [addrs]
  | cons x xs ih =>
      obtain ⟨hx, hxs⟩ := List.forall_mem_cons.mp hxs
      obtain ⟨t, ht, hmem⟩ := hx
      obtain ⟨hfresh, hnodup⟩ := List.nodup_cons.mp hnodup
      have hone : eraseActive w x =
          { w with activeTimers := w.activeTimers.erase ((ofLex x).2, t.sequence) } := by
        simp only [eraseActive, touch_of ht, timer_of ht, check_pos hmem]
      rw [List.foldl_cons, hone, ih hnodup ?_ ?_]
      · -- nothing else stands at this address
        congr 1
        ext id
        simp only [Finset.mem_filter, Finset.mem_erase, mem_addrs_cons, not_or]
        constructor
        · rintro ⟨⟨hne, hid⟩, hrest⟩
          refine ⟨hid, fun hia => hne ?_, hrest⟩
          exact Prod.ext hia (hkey id hid t (hia ▸ ht)).symm
        · rintro ⟨hid, hia, hrest⟩
          exact ⟨⟨fun heq => hia (congrArg Prod.fst heq), hid⟩, hrest⟩
      · intro y hy
        obtain ⟨u, hu, hmemy⟩ := hxs y hy
        refine ⟨u, hu, Finset.mem_erase.mpr ⟨fun heq => hfresh ?_, hmemy⟩⟩
        exact List.mem_map.mpr ⟨y, hy, congrArg Prod.fst heq⟩
      · exact fun id hid => hkey id (Finset.mem_of_mem_erase hid)

/-- The assertion after `lower_bound`: no timer lies at `UINTPTR_MAX`. -/
theorem lt_of_not_below (h : Agree w out) (halive : Alive w) (now : DateTime) :
    ∀ x ∈ w.timers, ¬x < toLex (now, UINTPTR_MAX) → now < (ofLex x).1 := by
  intro x hx hge
  obtain ⟨t, ⟨ht, -, -⟩, -⟩ := (h.timers x).mp hx
  have haddr := (halive.made _ t ht).2.1
  rw [Prod.Lex.lt_iff, not_or] at hge
  obtain ⟨hlt, heq⟩ := hge
  have hle : now ≤ (ofLex x).1 := not_lt.mp hlt
  exact lt_of_le_of_ne hle fun hnow => heq ⟨hnow.symm, haddr⟩

theorem nodup_addrs_below (h : Agree w out) (sentry : Entry) :
    (addrs (below w.timers sentry)).Nodup := by
  refine List.Nodup.map_on ?_ (nodup_inOrder _)
  intro x hx y hy hxy
  have hx := (mem_below.mp hx).1
  have hy := (mem_below.mp hy).1
  obtain ⟨t, ⟨ht, -, -⟩, -⟩ := (h.timers x).mp hx
  rw [(h.timers_addr ht hx).mp rfl, (h.timers_addr ht hy).mp hxy.symm]

/-- An entry leaves the first set when its address is in the batch. -/
theorem mem_addrs_below (h : Agree w out) {sentry x : Entry} (hx : x ∈ w.timers) :
    (ofLex x).2 ∈ addrs (below w.timers sentry) ↔ x < sentry := by
  constructor
  · intro hin
    obtain ⟨y, hy, hyx⟩ := List.mem_map.mp hin
    obtain ⟨hy, hlt⟩ := mem_below.mp hy
    obtain ⟨t, ⟨ht, -, -⟩, -⟩ := (h.timers y).mp hy
    rw [(h.timers_addr ht hx).mp hyx.symm, ← (h.timers_addr ht hy).mp rfl]
    exact hlt
  · exact fun hlt => List.mem_map.mpr ⟨x, mem_below.mpr ⟨hx, hlt⟩, rfl⟩

/-- Both sets without the batch. -/
theorem agree_below (h : Agree w out) (sentry : Entry) :
    Agree { w with
      timers := w.timers.filter (¬· < sentry)
      activeTimers := w.activeTimers.filter fun id => id.1 ∉ addrs (below w.timers sentry) }
      (addrs (below w.timers sentry) ++ out) := by
  refine agree_filter h _ ?_ ?_
  · intro x
    rw [Finset.mem_filter]
    exact and_congr_right fun hx => not_congr (mem_addrs_below h hx).symm
  · intro id
    rw [Finset.mem_filter]

theorem getExpired_eq (h : Good w [] []) (now : DateTime) :
    getExpired w now = ({ w with
      timers := w.timers.filter (¬· < toLex (now, UINTPTR_MAX))
      activeTimers := w.activeTimers.filter fun id =>
        id.1 ∉ addrs (below w.timers (toLex (now, UINTPTR_MAX))) },
      below w.timers (toLex (now, UINTPTR_MAX))) := by
  have hloop : (below w.timers (toLex (now, UINTPTR_MAX))).foldl eraseActive { w with
        timers := w.timers.filter (¬· < toLex (now, UINTPTR_MAX)) } =
      { w with
        timers := w.timers.filter (¬· < toLex (now, UINTPTR_MAX))
        activeTimers := w.activeTimers.filter fun id =>
          id.1 ∉ addrs (below w.timers (toLex (now, UINTPTR_MAX))) } := by
    refine foldl_eraseActive (nodup_addrs_below h.agree _) ?_ ?_
    · intro x hx
      obtain ⟨t, hk, -⟩ := (h.agree.timers x).mp (mem_below.mp hx).1
      exact ⟨t, hk.1, (h.agree.active _).mpr ⟨t, hk, rfl⟩⟩
    · intro id hid t ht
      exact congrArg Prod.snd ((h.agree.active_addr ht hid).mp rfl).symm
  simp only [getExpired, checkSizes_of h.agree, check_pos (lt_of_not_below h.agree h.alive now),
    hloop]
  rw [checkSizes_of (agree_below h.agree _)]

theorem getExpired_good (h : Good w [] []) (now : DateTime) :
    Good (getExpired w now).1 (addrs (getExpired w now).2) [] := by
  have hagree := agree_below h.agree (toLex (now, UINTPTR_MAX))
  rw [List.append_nil] at hagree
  rw [getExpired_eq h now]
  refine ⟨h.faults, h.alive.of_same rfl, hagree, ⟨nodup_addrs_below h.agree _, ?_⟩,
    ⟨h.runs.known, h.runs.once, h.runs.unfired⟩⟩
  -- What is taken out was in the set, so it is there and given
  intro b hb
  obtain ⟨x, hx, rfl⟩ := List.mem_map.mp hb
  obtain ⟨t, ⟨ht, hg, -⟩, -⟩ := (h.agree.timers x).mp (mem_below.mp hx).1
  exact ⟨t, ht, hg⟩

/-! ## Running and resetting the batch -/

/-- A callback of the batch that has not been run yet. -/
theorem runTimer_good (h : Good w out done) (hout : a ∈ out) (hdone : a ∉ done) :
    Good (runTimer w a) out (done ++ [a]) := by
  obtain ⟨t, ht, -⟩ := h.held.held a hout
  obtain ⟨hseq, -, t₀, hborn, hrepeat⟩ := h.alive.made a t ht
  simp only [runTimer, touch_of ht, timer_of ht]
  refine ⟨h.faults, h.alive.of_same rfl, ⟨h.agree.timers, h.agree.active⟩,
    ⟨h.held.nodup, h.held.held⟩, ⟨?_, ?_, ?_⟩⟩
  · intro q hq
    rcases List.mem_append.mp hq with hq | hq
    · exact h.runs.known q hq
    · rw [List.mem_singleton.mp hq]
      exact hseq
  · intro q u hu hshot
    show (w.runs ++ [t.sequence]).count q ≤ 1
    rw [List.count_append]
    by_cases hq : t.sequence = q
    · -- a one-shot timer: this is its first run
      rw [← hq, hborn] at hu
      cases hu
      have hfresh := h.runs.unfired a t ht (hrepeat.symm.trans hshot) hdone
      rw [← hq, List.count_eq_zero_of_not_mem hfresh]
      simp
    · rw [List.count_singleton, if_neg (by simpa using hq)]
      exact h.runs.once q u hu hshot
  · intro b u hu hshot hmem hrun
    have hba : b ≠ a := fun hba => hmem (List.mem_append_right _ (List.mem_singleton.mpr hba))
    rcases List.mem_append.mp hrun with hrun | hrun
    · exact h.runs.unfired b u hu hshot (fun hb => hmem (List.mem_append_left _ hb)) hrun
    · exact hba (h.alive.unique b a u t hu ht (List.mem_singleton.mp hrun))

/-- One timer of the batch is put back, or deleted. -/
theorem resetTimer_good {x : Entry} (h : Good w ((ofLex x).2 :: out) ((ofLex x).2 :: out))
    (now : DateTime) : Good (resetTimer now w x) out out := by
  obtain ⟨t, ht, hgiven⟩ := h.held.held _ List.mem_cons_self
  obtain ⟨ha, hnodup⟩ := List.nodup_cons.mp h.held.nodup
  have hheld : Held w out :=
    ⟨hnodup, fun b hb => h.held.held b (List.mem_cons_of_mem _ hb)⟩
  simp only [resetTimer, touch_of ht, timer_of ht]
  split
  next hrepeat =>
    have hself : Function.update w.heap (ofLex x).2 (some (t.restart now)) (ofLex x).2 =
        some (t.restart now) := Function.update_self _ _ _
    have hagree : Agree { w with
        heap := Function.update w.heap (ofLex x).2 (some (t.restart now)) } ((ofLex x).2 :: out) :=
      agree_update h.agree List.mem_cons_self (some (t.restart now)) w.deleted
    have hagree' := insert_agree hagree hself hgiven ha
    rw [insert_eq hagree hself] at hagree' ⊢
    have halive := alive_restart h.alive ht now
    refine ⟨h.faults, halive.of_same rfl, hagree', hheld.update ha _ rfl rfl,
      ⟨h.runs.known, h.runs.once, ?_⟩⟩
    intro b u hu hshot hout hrun
    obtain ⟨v, hv, hseq, hrep⟩ := update_restart ht hu
    rw [← hseq] at hrun
    refine h.runs.unfired b v hv (hrep.trans hshot) (fun hmem => ?_) hrun
    rcases List.mem_cons.mp hmem with rfl | hmem
    · -- the timer put back is a repeating one
      rw [ht] at hv
      cases hv
      rw [hrepeat.1] at hrep
      rw [← hrep] at hshot
      cases hshot
    · exact hout hmem
  · exact delete_good h.faults h.alive h.agree hheld ha ht h.runs

theorem foldl_resetTimer_good {xs : List Entry} (h : Good w (addrs xs) (addrs xs)) (now : DateTime) :
    Good (xs.foldl (resetTimer now) w) [] [] := by
  induction xs generalizing w with
  | nil => exact h
  | cons x xs ih => exact ih (resetTimer_good h now)

theorem armNext_good (h : Good w [] []) (clock : DateTime) : Good (armNext w clock) [] [] := by
  unfold armNext
  split
  · exact h
  next x hx =>
    have hmem : x ∈ w.timers := by
      exact mem_inOrder.mp (List.mem_of_head? hx)
    obtain ⟨t, ⟨ht, -, -⟩, -⟩ := (h.agree.timers x).mp hmem
    simp only [touch_of ht]
    split
    · exact h.of_same rfl
    · exact h

/-! ## New timers -/

/-- `new Timer` at `a`, with the next number. -/
def World.withNew (w : World) (a : Addr) (when_ : DateTime) (interval : ℚ) : World :=
  { w with
    heap := Function.update w.heap a (some (Timer.new when_ interval w.numCreated))
    born := Function.update w.born w.numCreated (some (Timer.new when_ interval w.numCreated))
    numCreated := w.numCreated + 1 }

variable {when_ : DateTime} {interval : ℚ}

theorem heap_withNew {b : Addr} {u : Timer} (hu : (w.withNew a when_ interval).heap b = some u) :
    b = a ∧ u = Timer.new when_ interval w.numCreated ∨ b ≠ a ∧ w.heap b = some u := by
  have hu' : Function.update w.heap a (some (Timer.new when_ interval w.numCreated)) b =
    some u := hu
  by_cases hba : b = a
  · rw [hba, Function.update_self] at hu'
    exact .inl ⟨hba, (Option.some.inj hu').symm⟩
  · rw [Function.update_of_ne hba] at hu'
    exact .inr ⟨hba, hu'⟩

/-- The new number is not in use. -/
theorem alive_withNew (h : Alive w) (hmax : a < UINTPTR_MAX) :
    Alive (w.withNew a when_ interval) := by
  -- the number is a new one
  have hne {b : Addr} {u : Timer} (hu : w.heap b = some u) : u.sequence ≠ w.numCreated :=
    ne_of_lt (h.made b u hu).1
  refine ⟨?_, ?_, ?_, h.deletedOnce, ?_, ?_⟩
  · intro b u hu
    rcases heap_withNew hu with ⟨rfl, rfl⟩ | ⟨-, hu⟩
    · exact ⟨lt_add_one _, hmax, _, Function.update_self _ _ _, rfl⟩
    · obtain ⟨hlt, hb, t₀, hborn, hrepeat⟩ := h.made b u hu
      exact ⟨lt_trans hlt (lt_add_one _), hb, t₀,
        (Function.update_of_ne (hne hu) _ _).trans hborn, hrepeat⟩
  · intro b c u v hu hv hseq
    rcases heap_withNew hu with ⟨rfl, rfl⟩ | ⟨-, hu⟩
    · rcases heap_withNew hv with ⟨rfl, -⟩ | ⟨-, hv⟩
      · rfl
      · exact absurd hseq.symm (hne hv)
    · rcases heap_withNew hv with ⟨-, rfl⟩ | ⟨-, hv⟩
      · exact absurd hseq (hne hu)
      · exact h.unique b c u v hu hv hseq
  · exact fun q hq => lt_trans (h.given q hq) (lt_add_one _)
  · exact fun q hq => lt_trans (h.deleted q hq) (lt_add_one _)
  · intro b u hu hmem
    rcases heap_withNew hu with ⟨-, rfl⟩ | ⟨-, hu⟩
    · exact absurd (h.deleted _ hmem) (lt_irrefl _)
    · exact h.gone b u hu hmem

/-- A new timer has not been given to the queue, so the sets do not have it. -/
theorem agree_withNew (h : Agree w out) (halive : Alive w) (hfree : w.heap a = none) :
    Agree (w.withNew a when_ interval) out := by
  refine h.of_kept rfl rfl fun b u => ?_
  constructor
  · rintro ⟨hu, hg, hout⟩
    rcases heap_withNew hu with ⟨-, rfl⟩ | ⟨-, hu⟩
    · exact absurd (halive.given _ hg) (lt_irrefl _)
    · exact ⟨hu, hg, hout⟩
  · rintro ⟨hu, hg, hout⟩
    have hba : b ≠ a := by
      rintro rfl
      rw [hfree] at hu
      cases hu
    exact ⟨(Function.update_of_ne hba _ _).trans hu, hg, hout⟩

theorem runs_withNew (h : RunOnce w done) : RunOnce (w.withNew a when_ interval) done := by
  refine ⟨fun q hq => lt_trans (h.known q hq) (lt_add_one _), ?_, ?_⟩
  · intro q u hu hshot
    by_cases hq : q = w.numCreated
    · have hfresh : w.numCreated ∉ w.runs := fun hmem => lt_irrefl _ (h.known _ hmem)
      show w.runs.count q ≤ 1
      rw [hq, List.count_eq_zero_of_not_mem hfresh]
      exact Nat.zero_le _
    · have hu' : w.born q = some u := by
        rw [← hu]
        exact (Function.update_of_ne hq _ _).symm
      exact h.once q u hu' hshot
  · intro b u hu hshot hdone hrun
    rcases heap_withNew hu with ⟨-, rfl⟩ | ⟨-, hu⟩
    · exact absurd (h.known _ hrun) (lt_irrefl _)
    · exact h.unfired b u hu hshot hdone hrun

theorem newTimer_good (h : Good w out done) (hfree : w.heap a = none) (hmax : a < UINTPTR_MAX) :
    Good (w.withNew a when_ interval) out done := by
  have ha : a ∉ out := by
    intro hmem
    obtain ⟨u, hu, -⟩ := h.held.held a hmem
    rw [hfree] at hu
    cases hu
  exact ⟨h.faults, alive_withNew h.alive hmax, agree_withNew h.agree h.alive hfree,
    h.held.update ha _ rfl rfl, runs_withNew h.runs⟩

theorem otherTimer_good (h : Good w out done) :
    Good { w with numCreated := w.numCreated + 1 } out done := by
  refine ⟨h.faults, ⟨?_, h.alive.unique, ?_, h.alive.deletedOnce, ?_, h.alive.gone⟩,
    ⟨h.agree.timers, h.agree.active⟩, ⟨h.held.nodup, h.held.held⟩, ⟨?_, h.runs.once, h.runs.unfired⟩⟩
  · intro b u hu
    obtain ⟨hlt, hrest⟩ := h.alive.made b u hu
    exact ⟨lt_trans hlt (lt_add_one _), hrest⟩
  · exact fun q hq => lt_trans (h.alive.given q hq) (lt_add_one _)
  · exact fun q hq => lt_trans (h.alive.deleted q hq) (lt_add_one _)
  · exact fun q hq => lt_trans (h.runs.known q hq) (lt_add_one _)

/-! ## Whole runs -/

/-- The addresses of the batch being fired. -/
def World.batch (w : World) : List Addr := w.firing.elim [] fun f => addrs f.expired

/-- Outside `handleRead` nothing is off the sets; inside, the batch is, and a front part of
    it has been run. -/
def Inv (w : World) : Prop :=
  match w.firing with
  | none => Good w [] []
  | some f => ∃ ran, f.expired = ran ++ f.todo ∧ Good w (addrs f.expired) (addrs ran)

/-- An operation that leaves `handleRead` where it is. -/
theorem Inv.of_good {w' : World} (h : Inv w) (hfiring : w'.firing = w.firing)
    (hop : ∀ {out done : List Addr}, Good w out done → Good w' out done) : Inv w' := by
  unfold Inv at h ⊢
  rw [hfiring]
  cases hf : w.firing with
  | none =>
      rw [hf] at h
      exact hop h
  | some f =>
      rw [hf] at h
      obtain ⟨ran, hran, hgood⟩ := h
      exact ⟨ran, hran, hop hgood⟩

theorem addTimerInLoop_firing (w : World) (a : Addr) (clock : DateTime) :
    (addTimerInLoop w a clock).firing = w.firing := by
  simp only [addTimerInLoop]
  split <;> rfl

theorem cancelInLoop_firing (w : World) (id : ActiveTimer) :
    (cancelInLoop w id).firing = w.firing := by
  simp only [cancelInLoop]
  split
  · rfl
  · split <;> rfl

/-- The loop of `reset` works on the timers only. -/
theorem foldl_resetTimer_rest (w : World) (xs : List Entry) (now : DateTime) :
    (xs.foldl (resetTimer now) w).firing = w.firing ∧
      (xs.foldl (resetTimer now) w).given = w.given ∧
      (xs.foldl (resetTimer now) w).numCreated = w.numCreated ∧
      (xs.foldl (resetTimer now) w).timerfd = w.timerfd ∧
      (xs.foldl (resetTimer now) w).armedAt = w.armedAt := by
  have hone (w : World) (x : Entry) : (resetTimer now w x).firing = w.firing ∧
      (resetTimer now w x).given = w.given ∧ (resetTimer now w x).numCreated = w.numCreated ∧
      (resetTimer now w x).timerfd = w.timerfd ∧ (resetTimer now w x).armedAt = w.armedAt := by
    simp only [resetTimer]
    split <;> exact ⟨rfl, rfl, rfl, rfl, rfl⟩
  induction xs generalizing w with
  | nil => exact ⟨rfl, rfl, rfl, rfl, rfl⟩
  | cons x xs ih =>
      obtain ⟨hfiring, hgiven, hnum, hfd, harmed⟩ := ih (resetTimer now w x)
      obtain ⟨hfiring', hgiven', hnum', hfd', harmed'⟩ := hone w x
      exact ⟨hfiring.trans hfiring', hgiven.trans hgiven', hnum.trans hnum', hfd.trans hfd',
        harmed.trans harmed'⟩

/-- `reset` works on the timers and the timerfd only. -/
theorem reset_rest (w : World) (expired : List Entry) (now clock : DateTime) :
    (reset w expired now clock).firing = w.firing ∧ (reset w expired now clock).given = w.given ∧
      (reset w expired now clock).numCreated = w.numCreated := by
  obtain ⟨hfiring, hgiven, hnum, -, -⟩ := foldl_resetTimer_rest w expired now
  rw [reset, armNext, ← hfiring, ← hgiven, ← hnum]
  split
  · exact ⟨rfl, rfl, rfl⟩
  · dsimp only
    split <;> exact ⟨rfl, rfl, rfl⟩

/-- The steps, with their guards. -/
inductive Steps (w : World) : Action → World → Prop
  | newTimer (a : Addr) (when_ : DateTime) (interval : ℚ) (hfree : w.heap a = none)
      (hmax : a < UINTPTR_MAX) : Steps w (.newTimer a when_ interval) (w.withNew a when_ interval)
  | otherTimer : Steps w .otherTimer { w with numCreated := w.numCreated + 1 }
  | addTimerInLoop (a : Addr) (clock : DateTime) (hwait : w.awaiting a = true) :
      Steps w (.addTimerInLoop a clock) (addTimerInLoop w a clock)
  | cancelInLoop (id : ActiveTimer) : Steps w (.cancelInLoop id) (cancelInLoop w id)
  | handleRead (now clock : DateTime) (hidle : w.firing = none) :
      Steps w (.handleRead now clock) (handleRead w now clock)
  | runNext (now : DateTime) (expired : List Entry) (x : Entry) (todo : List Entry)
      (hfiring : w.firing = some { now := now, expired := expired, todo := x :: todo }) :
      Steps w .runNext { runTimer w (ofLex x).2 with
        firing := some { now := now, expired := expired, todo := todo } }
  | finishRead (clock now : DateTime) (expired : List Entry)
      (hfiring : w.firing = some { now := now, expired := expired, todo := [] }) :
      Steps w (.finishRead clock)
        (reset { w with callingExpiredTimers := false, firing := none } expired now clock)

theorem steps_of_step {a : Action} {w' : World} (h : step w a = some w') : Steps w a w' := by
  cases a with
  | newTimer a when_ interval =>
      simp only [step] at h
      split at h
      next hfree =>
        cases h
        exact .newTimer a when_ interval hfree.1 hfree.2.2
      · cases h
  | otherTimer =>
      cases h
      exact .otherTimer
  | addTimerInLoop a clock =>
      simp only [step] at h
      split at h
      next hwait =>
        cases h
        exact .addTimerInLoop a clock hwait
      · cases h
  | cancelInLoop id =>
      cases h
      exact .cancelInLoop id
  | handleRead now clock =>
      simp only [step] at h
      split at h
      next hidle =>
        cases h
        exact .handleRead now clock hidle
      · cases h
  | runNext =>
      simp only [step] at h
      split at h
      next now expired x todo hfiring =>
        cases h
        exact .runNext now expired x todo hfiring
      · cases h
  | finishRead clock =>
      simp only [step] at h
      split at h
      next now expired hfiring =>
        cases h
        exact .finishRead clock now expired hfiring
      · cases h

/-- `handleRead` in an idle queue takes out what is below the sentry. -/
theorem handleRead_eq (h : Inv w) (hidle : w.firing = none) (now clock : DateTime) :
    handleRead w now clock = { w with
      timerfd := w.timerfd.filter (clock < ·)
      timers := w.timers.filter (¬· < toLex (now, UINTPTR_MAX))
      activeTimers := w.activeTimers.filter fun id =>
        id.1 ∉ addrs (below w.timers (toLex (now, UINTPTR_MAX)))
      callingExpiredTimers := true
      cancelingTimers := ∅
      firing := some
        { now := now
          expired := below w.timers (toLex (now, UINTPTR_MAX))
          todo := below w.timers (toLex (now, UINTPTR_MAX)) } } := by
  simp only [Inv, hidle] at h
  have hread : Good { w with timerfd := w.timerfd.filter (clock < ·) } [] [] := h.of_same rfl
  simp only [handleRead, getExpired_eq hread now]

/-- The next callback of the batch: its timer is behind those that have been run. -/
theorem runNext_inv {now : DateTime} {expired todo : List Entry} {x : Entry} (h : Inv w)
    (hfiring : w.firing = some { now := now, expired := expired, todo := x :: todo }) :
    Inv { runTimer w (ofLex x).2 with
      firing := some { now := now, expired := expired, todo := todo } } := by
  simp only [Inv, hfiring] at h
  obtain ⟨ran, hran, hgood⟩ := h
  have haddrs : addrs expired = addrs ran ++ (ofLex x).2 :: addrs todo := by
    rw [hran, addrs, List.map_append]
    rfl
  have hout : (ofLex x).2 ∈ addrs expired := by
    rw [haddrs]
    exact List.mem_append_right _ List.mem_cons_self
  have hdone : (ofLex x).2 ∉ addrs ran := by
    have hnodup := hgood.held.nodup
    rw [haddrs] at hnodup
    exact fun hmem => (List.nodup_append.mp hnodup).2.2 _ hmem _ List.mem_cons_self rfl
  refine ⟨ran ++ [x], by rw [hran, List.append_assoc]; rfl, ?_⟩
  have hrun := runTimer_good hgood hout hdone
  have hsnoc : addrs (ran ++ [x]) = addrs ran ++ [(ofLex x).2] := List.map_append
  rw [hsnoc]
  exact hrun.of_same rfl

/-- The end of a batch: nothing is left to run, so all of it has been run. -/
theorem finishRead_inv {now : DateTime} {expired : List Entry} (h : Inv w)
    (hfiring : w.firing = some { now := now, expired := expired, todo := [] }) (clock : DateTime) :
    Inv (reset { w with callingExpiredTimers := false, firing := none } expired now clock) := by
  simp only [Inv, hfiring] at h
  obtain ⟨ran, hran, hgood⟩ := h
  rw [List.append_nil] at hran
  rw [← hran] at hgood
  have hdone : Good { w with callingExpiredTimers := false, firing := none }
      (addrs expired) (addrs expired) := hgood.of_same rfl
  have hreset := armNext_good (foldl_resetTimer_good hdone now) clock
  have hfiring' : (reset { w with callingExpiredTimers := false, firing := none }
      expired now clock).firing = none := (reset_rest _ _ _ _).1
  simp only [Inv, hfiring']
  exact hreset

theorem step_inv {a : Action} {w' : World} (h : Inv w) (hstep : step w a = some w') : Inv w' := by
  cases steps_of_step hstep with
  | newTimer a when_ interval hfree hmax =>
      exact h.of_good rfl fun hgood => newTimer_good hgood hfree hmax
  | otherTimer => exact h.of_good rfl otherTimer_good
  | addTimerInLoop a clock hwait =>
      exact h.of_good (addTimerInLoop_firing w a clock)
        fun hgood => addTimerInLoop_good hgood hwait clock
  | cancelInLoop id =>
      exact h.of_good (cancelInLoop_firing w id) fun hgood => cancelInLoop_good hgood id
  | handleRead now clock hidle =>
      simp only [Inv, hidle] at h
      have hread : Good { w with timerfd := w.timerfd.filter (clock < ·) } [] [] := h.of_same rfl
      exact ⟨[], rfl, (getExpired_good hread now).of_same rfl⟩
  | runNext now expired x todo hfiring => exact runNext_inv h hfiring
  | finishRead clock now expired hfiring => exact finishRead_inv h hfiring clock

theorem inv_initial : Inv {} := by
  refine ⟨rfl, ⟨?_, ?_, ?_, List.nodup_nil, ?_, ?_⟩, ⟨?_, ?_⟩, ⟨List.nodup_nil, ?_⟩, ⟨?_, ?_, ?_⟩⟩
  · intro a t ht
    cases ht
  · intro a b t u ht
    cases ht
  · intro q hq
    cases hq
  · intro q hq
    cases hq
  · intro a t ht
    cases ht
  · intro x
    refine iff_of_false (Finset.notMem_empty x) ?_
    rintro ⟨t, ⟨ht, -⟩, -⟩
    cases ht
  · intro id
    refine iff_of_false (Finset.notMem_empty id) ?_
    rintro ⟨t, ⟨ht, -⟩, -⟩
    cases ht
  · intro a ha
    cases ha
  · intro q hq
    cases hq
  · intro q t ht
    cases ht
  · intro a t ht
    cases ht

/-- The invariant, with what is off the sets spelled out. -/
theorem Inv.good (h : Inv w) : ∃ done, Good w w.batch done := by
  unfold Inv at h
  unfold World.batch
  cases hf : w.firing with
  | none =>
      rw [hf] at h
      exact ⟨[], h⟩
  | some f =>
      rw [hf] at h
      obtain ⟨ran, -, hgood⟩ := h
      exact ⟨addrs ran, hgood⟩

/-- **The timer queue.**  In every state of every run: both sets hold exactly the timers
    that were given to the queue, are not deleted and are not in the batch being fired;
    no assertion has failed, no timer was used after its deletion or deleted twice; and
    no one-shot timer has been run more than once. -/
theorem timerQueue_run {actions : List Action} {w : World} (hrun : run step {} actions = some w) :
    Agree w w.batch ∧ w.faults = [] ∧ w.deleted.Nodup ∧
      ∀ q t₀, w.born q = some t₀ → t₀.repeat_ = false → w.runs.count q ≤ 1 := by
  have hinv : Inv w := run_invariant (fun _ _ _ h hstep => step_inv h hstep) inv_initial hrun
  obtain ⟨done, hgood⟩ := hinv.good
  exact ⟨hgood.agree, hgood.faults, hgood.alive.deletedOnce, hgood.runs.once⟩

/-- A one-shot and a repeating timer fire together; the first callback cancels the second
    timer and adds a third; the freed address is used again and a stale id names it. -/
def sampleActions : List Action :=
  [.newTimer 16 10 0, .addTimerInLoop 16 1, .newTimer 32 20 (1 / 2), .addTimerInLoop 32 2,
    .cancelInLoop (nullptr, 0), .handleRead 25 25, .runNext, .cancelInLoop (32, 1),
    .newTimer 48 40 0, .addTimerInLoop 48 26, .runNext, .finishRead 27, .newTimer 16 50 1,
    .addTimerInLoop 16 28, .cancelInLoop (16, 0)]

theorem timerQueue_run_sampleActions :
    ∃ w, run step {} sampleActions = some w ∧ w.runs = [0, 1] ∧ w.deleted = [0, 1] ∧
      Agree w w.batch ∧ w.faults = [] ∧ w.deleted.Nodup ∧
      ∀ q t₀, w.born q = some t₀ → t₀.repeat_ = false → w.runs.count q ≤ 1 := by
  have hlogs : ((run step {} sampleActions).map fun w => (w.runs, w.deleted)) =
      some ([0, 1], [0, 1]) := by decide +kernel
  obtain ⟨w, hrun, hlogs⟩ := Option.map_eq_some_iff.mp hlogs
  exact ⟨w, hrun, congrArg Prod.fst hlogs, congrArg Prod.snd hlogs, timerQueue_run hrun⟩

end TimerQueue
end Youth.Net
