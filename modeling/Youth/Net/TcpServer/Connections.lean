/-
  Youth.Net.TcpServer.Connections

  The connection map holds the accepted connections that are not removed yet.

  A close hops from the loop of the connection to the base loop and back.  Each hop is a
  functor that one event posts and another completes.  The queues are determined by the
  log: a functor is in the queue of its loop iff it has been posted and not completed
  (`Good.queue`), and every event was allowed by those before it (`Good.history`).  While
  a functor is being run, or is about to be queued, it is owed: posted and in no queue.

  The names differ because none of them is cut off: the text of an address has at most 51
  characters, so `-ip:port#id` fits into the 64 bytes of the buffer.
-/

import Mathlib.Data.List.Nodup
import Youth.Lib.History
import Youth.Lib.Machine
import Youth.Net.TcpServer.Basic

namespace Youth.Net
namespace TcpServer

open Youth.Lib
open Youth.Core (int32 int32_of_inRange)

/-! ## Names -/

/-- The name of the connection accepted after `i` others, in full. -/
def fullName (name ipPort : List Char) (i : Nat) : List Char :=
  name ++ ('-' :: ipPort ++ '#' :: formatNat (i + 1))

theorem fullName_injective (name ipPort : List Char) : (fullName name ipPort).Injective := by
  intro i j h
  have htail := List.append_cancel_left h
  rw [List.cons_append, List.cons_append, List.cons.injEq] at htail
  have hdigits := (List.cons.inj (List.append_cancel_left htail.2)).2
  exact Nat.succ.inj (formatNat_injective hdigits)

theorem int32_of_lt {n : Nat} (h : n < 0x80000000) : int32 n = n :=
  int32_of_inRange (by omega) (by omega)

/-- The buffer of `newConnection` is large enough. -/
theorem connName_eq {w : World} {addr : HostAddress} {i : Nat} (haddr : w.ipPort = addr.ipAndPort)
    (hid : w.nextConnId = int32 (i + 1)) (hi : i + 1 < 0x80000000) :
    connName w = fullName w.name w.ipPort i := by
  have haddr' := haddr ▸ addr.length_ipAndPort
  have hdigits : (formatNat (i + 1)).length ≤ 10 :=
    length_formatNat (by decide) (Nat.lt_trans hi (by decide))
  have hnext : w.nextConnId = .ofNat (i + 1) := hid.trans (int32_of_lt hi)
  unfold connName fullName
  rw [hnext, formatInt, snprintf_eq_self]
  simp only [List.length_append, List.length_cons]
  omega

/-! ## Hops -/

/-- The loop that runs a functor. -/
def Functor.home : Functor → LoopId
  | .connectEstablished conn => conn.eventLoop
  | .removeConnectionInLoop _ => baseLoop
  | .connectDestroyed conn => conn.eventLoop

/-- The functor that an event posts. -/
def Event.posts : Event → Option Functor
  | .accepted conn => some (.connectEstablished conn)
  | .closed conn => some (.removeConnectionInLoop conn)
  | .removed conn _ => some (.connectDestroyed conn)
  | _ => none

/-- The functor whose run an event is. -/
def Event.completes : Event → Option Functor
  | .established conn _ => some (.connectEstablished conn)
  | .removed conn _ => some (.removeConnectionInLoop conn)
  | .destroyed conn _ => some (.connectDestroyed conn)
  | _ => none

/-- Posted, and not completed. -/
structure Pending (log : List Event) (f : Functor) : Prop where
  posted : ∃ e ∈ log, e.posts = some f
  open_ : ∀ e ∈ log, e.completes ≠ some f

/-- The event happens in the right loop, and after what it needs. -/
def Event.Fits (log : List Event) : Event → Prop
  | .accepted _ => True
  | .established conn loop => loop = conn.eventLoop
  | .closed conn => .established conn conn.eventLoop ∈ log
  | .removed _ n => n = 1
  | .destroyed conn loop => loop = conn.eventLoop

/-- After `log` the event `e` may happen: it completes a functor that is pending, and
    posts one that was never posted. -/
structure Allowed (log : List Event) (e : Event) : Prop where
  fits : e.Fits log
  completes : ∀ f, e.completes = some f → Pending log f
  posts : ∀ f, e.posts = some f → ∀ e' ∈ log, e'.posts ≠ some f

section history

variable {log : List Event} {conn : Connection} {f : Functor} {e : Event}

theorem pending_append_singleton : Pending (log ++ [e]) f ↔
    (Pending log f ∨ (e.posts = some f ∧ ∀ e' ∈ log, e'.completes ≠ some f)) ∧
      e.completes ≠ some f := by
  constructor
  · rintro ⟨⟨e', he', hposts⟩, hopen⟩
    have hopen' : ∀ e' ∈ log, e'.completes ≠ some f := fun e' he' =>
      hopen e' (List.mem_append_left _ he')
    refine ⟨?_, hopen e (List.mem_append_right _ (List.mem_singleton_self e))⟩
    rcases List.mem_append.mp he' with he' | he'
    · exact .inl ⟨⟨e', he', hposts⟩, hopen'⟩
    · cases List.mem_singleton.mp he'
      exact .inr ⟨hposts, hopen'⟩
  · rintro ⟨hbefore, hlast⟩
    have hopen : ∀ e' ∈ log, e'.completes ≠ some f := hbefore.elim (·.open_) (·.2)
    refine ⟨?_, fun e' he' => ?_⟩
    · rcases hbefore with ⟨⟨e', he', hposts⟩, -⟩ | ⟨hposts, -⟩
      · exact ⟨e', List.mem_append_left _ he', hposts⟩
      · exact ⟨e, List.mem_append_right _ (List.mem_singleton_self e), hposts⟩
    · rcases List.mem_append.mp he' with he' | he'
      · exact hopen e' he'
      · cases List.mem_singleton.mp he'
        exact hlast

/-- What was completed had been posted. -/
theorem posted_of_completed (h : Justified Allowed log) (he : e ∈ log) (hf : e.completes = some f) :
    ∃ e' ∈ log, e'.posts = some f := by
  obtain ⟨xs, ys, rfl, -, hallowed⟩ := h.exists_of_mem he
  obtain ⟨e', he', hposts⟩ := (hallowed.completes f hf).posted
  exact ⟨e', List.mem_append_left _ he', hposts⟩

theorem accepted_of_posts (h : e.posts = some (.connectEstablished conn)) : e = .accepted conn := by
  cases e <;> cases h
  rfl

theorem closed_of_posts (h : e.posts = some (.removeConnectionInLoop conn)) : e = .closed conn := by
  cases e <;> cases h
  rfl

theorem removed_of_posts (h : e.posts = some (.connectDestroyed conn)) : ∃ n, e = .removed conn n := by
  cases e <;> cases h
  exact ⟨_, rfl⟩

theorem fits_of_mem (h : Justified Allowed log) (he : e ∈ log) : e.Fits log := by
  obtain ⟨xs, ys, rfl, -, hallowed⟩ := h.exists_of_mem he
  have hfits := hallowed.fits
  cases e with
  | closed conn => exact List.mem_append_left _ hfits
  | accepted | established | removed | destroyed => exact hfits

theorem accepted_of_established {loop : LoopId} (h : Justified Allowed log)
    (he : .established conn loop ∈ log) : .accepted conn ∈ log := by
  obtain ⟨e', he', hposts⟩ := posted_of_completed h he rfl
  exact accepted_of_posts hposts ▸ he'

theorem closed_of_removed {n : Nat} (h : Justified Allowed log) (he : .removed conn n ∈ log) :
    .closed conn ∈ log := by
  obtain ⟨e', he', hposts⟩ := posted_of_completed h he rfl
  exact closed_of_posts hposts ▸ he'

theorem accepted_of_pending_remove (h : Justified Allowed log)
    (hf : Pending log (.removeConnectionInLoop conn)) : .accepted conn ∈ log := by
  obtain ⟨e', he', hposts⟩ := hf.posted
  have hclosed : Event.closed conn ∈ log := closed_of_posts hposts ▸ he'
  exact accepted_of_established h (fits_of_mem h hclosed)

/-- What an allowed event posts is pending. -/
theorem pending_of_posts {log : List Event} (h : Justified Allowed log) (he : Allowed log e)
    (hposts : e.posts = some f) (hother : e.completes ≠ some f) : Pending (log ++ [e]) f := by
  refine pending_append_singleton.mpr ⟨.inr ⟨hposts, fun e' he' hcompletes => ?_⟩, hother⟩
  obtain ⟨e'', he'', hposts'⟩ := posted_of_completed h he' hcompletes
  exact he.posts _ hposts e'' he'' hposts'

end history

/-! ## The invariant -/

/-- The map holds the accepted connections that are not removed, each under its name. -/
def Holds (map : List Char → Option Connection) (log : List Event) : Prop :=
  ∀ nm conn, map nm = some conn ↔
    nm = conn.name ∧ .accepted conn ∈ log ∧ ∀ n, .removed conn n ∉ log

structure Good (addr : HostAddress) (w : World) (owed : Option Functor) : Prop where
  addr : w.ipPort = addr.ipAndPort
  next : w.nextConnId = int32 (w.accepted.length + 1)
  ids : w.accepted.map (·.id) = List.range w.accepted.length
  names : ∀ conn ∈ w.accepted, conn.name = fullName w.name w.ipPort conn.id
  history : Justified Allowed w.log
  queue : ∀ loop f, f ∈ w.queues loop ↔ loop = f.home ∧ Pending w.log f ∧ owed ≠ some f
  once : ∀ loop, (w.queues loop).Nodup
  map : Holds w.connectionMap w.log

variable {addr : HostAddress} {w w' : World} {f : Functor} {e : Event} {conn : Connection}

theorem mem_accepted : conn ∈ w.accepted ↔ .accepted conn ∈ w.log := by
  unfold World.accepted
  rw [List.mem_filterMap]
  constructor
  · rintro ⟨e, he, hconn⟩
    cases e <;> cases hconn
    exact he
  · exact fun he => ⟨_, he, rfl⟩

/-- An event leaves the queues as the log determines them, with what it posts owed. -/
theorem queue_record (h : Good addr w e.completes) (he : Allowed w.log e) (loop : LoopId)
    (f : Functor) :
    f ∈ w.queues loop ↔ loop = f.home ∧ Pending (w.log ++ [e]) f ∧ e.posts ≠ some f := by
  rw [h.queue, pending_append_singleton]
  constructor
  · rintro ⟨hhome, hf, hcompletes⟩
    refine ⟨hhome, ⟨.inl hf, hcompletes⟩, fun hposts => ?_⟩
    obtain ⟨e', he', hposts'⟩ := hf.posted
    exact he.posts f hposts e' he' hposts'
  · rintro ⟨hhome, ⟨hf, hcompletes⟩, hposts⟩
    exact ⟨hhome, hf.resolve_right fun hnew => hposts hnew.1, hcompletes⟩

theorem record_good {map : List Char → Option Connection} (h : Good addr w e.completes)
    (he : Allowed w.log e) (hnew : e.accepted? = none) (hmap : Holds map (w.log ++ [e])) :
    Good addr { w with connectionMap := map, log := w.log ++ [e] } e.posts := by
  have haccepted : (World.accepted { w with connectionMap := map, log := w.log ++ [e] }) =
      w.accepted := by
    simp [World.accepted, List.filterMap_append, hnew]
  exact
    { addr := h.addr
      next := haccepted ▸ h.next
      ids := haccepted ▸ h.ids
      names := haccepted ▸ h.names
      history := justified_append_singleton.mpr ⟨h.history, he⟩
      queue := queue_record h he
      once := h.once
      map := hmap }

/-- Events other than `accepted` and `removed` do not concern the map. -/
theorem holds_record {map : List Char → Option Connection} {log : List Event} (h : Holds map log)
    (hnew : e.accepted? = none) (hrem : ∀ conn n, e ≠ .removed conn n) : Holds map (log ++ [e]) := by
  intro nm conn
  have haccepted : Event.accepted conn ≠ e := by
    rintro rfl
    cases hnew
  simp [h nm conn, haccepted, (hrem conn _).symm]

/-- `erase` takes the connection out, and no other. -/
theorem holds_removed {map : List Char → Option Connection} {log : List Event} (h : Holds map log)
    (hfound : map conn.name = some conn) :
    Holds (Function.update map conn.name none) (log ++ [.removed conn 1]) := by
  intro nm c
  by_cases hc : c = conn
  · subst hc
    have hne : Function.update map c.name none nm ≠ some c := by
      intro heq
      by_cases hnm : nm = c.name
      · rw [hnm, Function.update_self] at heq
        cases heq
      · rw [Function.update_of_ne hnm] at heq
        exact hnm ((h _ _).mp heq).1
    refine iff_of_false hne fun hin => hin.2.2 1 ?_
    exact List.mem_append_right _ (List.mem_singleton_self _)
  · -- another connection has another name
    have hout : ∀ n, (.removed c n ∉ log ++ [.removed conn 1]) ↔ .removed c n ∉ log := by
      simp [hc]
    have hmem : (.accepted c ∈ log ++ [.removed conn 1]) ↔ .accepted c ∈ log := by simp
    simp only [hout, hmem, ← h nm c]
    by_cases hnm : nm = conn.name
    · subst hnm
      rw [Function.update_self]
      refine iff_of_false nofun fun heq => hc ?_
      rw [hfound] at heq
      exact (Option.some.inj heq).symm
    · rw [Function.update_of_ne hnm]

theorem queueInLoop_good (h : Good addr w (some f)) (hf : Pending w.log f) :
    Good addr (queueInLoop w f.home f) none := by
  have hout : f ∉ w.queues f.home := fun hmem => ((h.queue _ _).mp hmem).2.2 rfl
  refine { h with queue := fun loop g => ?_, once := fun loop => ?_ }
  · by_cases hloop : loop = f.home
    · subst hloop
      simp only [queueInLoop, Function.update_self, List.mem_append, List.mem_singleton, h.queue]
      constructor
      · rintro (⟨hhome, hg, -⟩ | rfl)
        · exact ⟨hhome, hg, nofun⟩
        · exact ⟨rfl, hf, nofun⟩
      · rintro ⟨hhome, hg, -⟩
        by_cases hgf : g = f
        · exact .inr hgf
        · exact .inl ⟨hhome, hg, fun heq => hgf (Option.some.inj heq).symm⟩
    · simp only [queueInLoop, Function.update_of_ne hloop, h.queue]
      constructor
      · rintro ⟨hhome, hg, -⟩
        exact ⟨hhome, hg, nofun⟩
      · rintro ⟨hhome, hg, -⟩
        refine ⟨hhome, hg, fun heq => hloop ?_⟩
        rw [hhome, Option.some.inj heq]
  · by_cases hloop : loop = f.home
    · subst hloop
      simp only [queueInLoop, Function.update_self]
      exact (h.once _).append (List.nodup_singleton f) (List.disjoint_singleton.mpr hout)
    · simp only [queueInLoop, Function.update_of_ne hloop]
      exact h.once loop

/-! ## The operations -/

/-- `erase` finds the connection. -/
theorem connectionMap_of_pending (h : Good addr w (some (.removeConnectionInLoop conn)))
    (hf : Pending w.log (.removeConnectionInLoop conn)) :
    w.connectionMap conn.name = some conn :=
  (h.map _ _).mpr ⟨rfl, accepted_of_pending_remove h.history hf, fun _ hmem => hf.open_ _ hmem rfl⟩

theorem removeConnectionInLoop_good (h : Good addr w (some (.removeConnectionInLoop conn)))
    (hf : Pending w.log (.removeConnectionInLoop conn)) :
    Good addr (removeConnectionInLoop w conn) none := by
  have hfound := connectionMap_of_pending h hf
  have hnew : ∀ n, .removed conn n ∉ w.log := fun n hmem => hf.open_ _ hmem rfl
  have hallowed : Allowed w.log (.removed conn 1) := by
    refine ⟨rfl, ?_, ?_⟩
    · rintro f hcompletes
      cases hcompletes
      exact hf
    · rintro f hposts e' he' hposts'
      cases hposts
      obtain ⟨n, rfl⟩ := removed_of_posts hposts'
      exact hnew n he'
  have hgood := record_good h hallowed rfl (holds_removed h.map hfound)
  unfold removeConnectionInLoop
  rw [hfound]
  exact queueInLoop_good (f := .connectDestroyed conn) hgood
    (pending_of_posts h.history hallowed rfl nofun)

theorem runFunctor_good (h : Good addr w (some f)) (hf : Pending w.log f) :
    Good addr (runFunctor w f.home f) none := by
  have hcompletes : ∀ g, some f = some g → Pending w.log g := by
    rintro g hg
    cases hg
    exact hf
  cases f with
  | connectEstablished conn =>
      exact record_good (e := .established conn conn.eventLoop) h ⟨rfl, hcompletes, nofun⟩ rfl
        (holds_record h.map rfl nofun)
  | removeConnectionInLoop conn => exact removeConnectionInLoop_good h hf
  | connectDestroyed conn =>
      exact record_good (e := .destroyed conn conn.eventLoop) h ⟨rfl, hcompletes, nofun⟩ rfl
        (holds_record h.map rfl nofun)

theorem runInLoop_good {current : LoopId} (h : Good addr w (some f)) (hf : Pending w.log f) :
    Good addr (runInLoop w current f.home f) none := by
  unfold runInLoop
  split
  · exact runFunctor_good h hf
  · exact queueInLoop_good h hf

theorem removeConnection_good (h : Good addr w none)
    (hest : .established conn conn.eventLoop ∈ w.log) (hopen : .closed conn ∉ w.log) :
    Good addr (removeConnection (w.record (.closed conn)) conn) none := by
  have hallowed : Allowed w.log (.closed conn) := by
    refine ⟨hest, nofun, ?_⟩
    rintro f hposts e' he' hposts'
    cases hposts
    exact hopen (closed_of_posts hposts' ▸ he')
  have hgood := record_good (e := .closed conn) h hallowed rfl (holds_record h.map rfl nofun)
  exact runInLoop_good (f := .removeConnectionInLoop conn) hgood
    (pending_of_posts h.history hallowed rfl nofun)

/-- The connection made by `newConnection`, and the rest of the call. -/
theorem newConnection_eq (w : World) : ∃ conn threadPool, conn.id = w.accepted.length ∧
    conn.name = connName w ∧ newConnection w =
      runInLoop
        { w with
          threadPool := threadPool
          nextConnId := int32 (w.nextConnId + 1)
          connectionMap := Function.update w.connectionMap conn.name (some conn)
          log := w.log ++ [.accepted conn] }
        baseLoop (Functor.connectEstablished conn).home (.connectEstablished conn) :=
  ⟨⟨w.accepted.length, connName w, w.threadPool.getNextLoop.1⟩, w.threadPool.getNextLoop.2,
    rfl, rfl, rfl⟩

/-- The connections accepted before have smaller numbers. -/
theorem id_lt_of_accepted (h : Good addr w none) (hmem : conn ∈ w.accepted) :
    conn.id < w.accepted.length := by
  have hrange := List.mem_map_of_mem (f := (·.id)) hmem
  rwa [h.ids, List.mem_range] at hrange

/-- The map takes up a connection with a new name. -/
theorem holds_accepted (h : Good addr w none) (hnew : .accepted conn ∉ w.log)
    (hname : ∀ c ∈ w.accepted, c.name ≠ conn.name) :
    Holds (Function.update w.connectionMap conn.name (some conn)) (w.log ++ [.accepted conn]) := by
  intro nm c
  by_cases hnm : nm = conn.name
  · subst hnm
    rw [Function.update_self, Option.some.injEq]
    constructor
    · rintro rfl
      refine ⟨rfl, by simp, fun n hmem => hnew ?_⟩
      have hremoved : Event.removed conn n ∈ w.log := by simpa using hmem
      have hclosed := closed_of_removed h.history hremoved
      exact accepted_of_established h.history (fits_of_mem h.history hclosed)
    · rintro ⟨hsame, hmem, -⟩
      rcases List.mem_append.mp hmem with hmem | hmem
      · exact absurd hsame.symm (hname c (mem_accepted.mpr hmem))
      · cases List.mem_singleton.mp hmem
        rfl
  · rw [Function.update_of_ne hnm, h.map nm c]
    refine and_congr_right fun hc => ?_
    have hne : c ≠ conn := fun heq => hnm (heq ▸ hc)
    simp [hne]

theorem accepted_append (hlog : w'.log = w.log ++ [.accepted conn]) :
    w'.accepted = w.accepted ++ [conn] := by
  simp [World.accepted, hlog, List.filterMap_append, Event.accepted?]

theorem newConnection_good (h : Good addr w none) (hfew : w.accepted.length + 1 < 0x80000000) :
    Good addr (newConnection w) none := by
  obtain ⟨conn, threadPool, hid, hconnName, hrun⟩ := newConnection_eq w
  rw [hrun]
  have hname : conn.name = fullName w.name w.ipPort conn.id := by
    rw [hid, hconnName]
    exact connName_eq h.addr h.next hfew
  have hbefore : ∀ c ∈ w.accepted, c.id < conn.id := fun c hc => hid ▸ id_lt_of_accepted h hc
  have hnew : .accepted conn ∉ w.log := fun hmem =>
    Nat.lt_irrefl _ (hbefore conn (mem_accepted.mpr hmem))
  -- no earlier connection has this name
  have hother : ∀ c ∈ w.accepted, c.name ≠ conn.name := by
    intro c hc hsame
    rw [h.names c hc, hname] at hsame
    exact Nat.ne_of_lt (hbefore c hc) (fullName_injective _ _ hsame)
  have hallowed : Allowed w.log (.accepted conn) := by
    refine ⟨trivial, nofun, ?_⟩
    rintro f hposts e' he' hposts'
    cases hposts
    exact hnew (accepted_of_posts hposts' ▸ he')
  have hnext : w.nextConnId = (w.accepted.length + 1 : Nat) := h.next.trans (int32_of_lt hfew)
  refine runInLoop_good ?_ (pending_of_posts (e := .accepted conn) h.history hallowed rfl nofun)
  exact
    { addr := h.addr
      next := by
        rw [accepted_append rfl, List.length_append, List.length_singleton]
        exact congrArg (fun n => int32 (n + 1)) hnext
      ids := by
        rw [accepted_append rfl, List.map_append, h.ids]
        simp [hid, List.range_succ]
      names := by
        rw [accepted_append rfl]
        intro c hc
        rcases List.mem_append.mp hc with hc | hc
        · exact h.names c hc
        · cases List.mem_singleton.mp hc
          exact hname
      history := justified_append_singleton.mpr ⟨h.history, hallowed⟩
      queue := queue_record (e := .accepted conn) h hallowed
      once := h.once
      map := holds_accepted h hnew hother }

/-! ## Runs -/

theorem log_prefix_runFunctor (w : World) (loop : LoopId) : w.log <+: (runFunctor w loop f).log := by
  cases f <;> exact List.prefix_append _ _

theorem log_prefix_runInLoop (w : World) (current loop : LoopId) :
    w.log <+: (runInLoop w current loop f).log := by
  unfold runInLoop
  split
  · exact log_prefix_runFunctor w loop
  · exact List.prefix_refl _

theorem log_prefix_newConnection (w : World) :
    ∃ conn, w.log ++ [.accepted conn] <+: (newConnection w).log := by
  obtain ⟨conn, threadPool, -, -, hrun⟩ := newConnection_eq w
  rw [hrun]
  refine ⟨conn, List.IsPrefix.trans ?_ (log_prefix_runInLoop _ _ _)⟩
  exact List.prefix_refl _

theorem log_prefix_of_step {a : Action} (h : step w a = some w') :
    w.log <+: w'.log := by
  cases a with
  | accept =>
      cases h
      obtain ⟨conn, hlog⟩ := log_prefix_newConnection w
      exact (List.prefix_append _ _).trans hlog
  | close conn =>
      simp only [step] at h
      split at h
      · cases h
        refine List.IsPrefix.trans ?_ (log_prefix_runInLoop _ _ _)
        exact List.prefix_append _ _
      · cases h
  | runFunctor loop =>
      simp only [step] at h
      split at h
      · cases h
      · cases h
        refine List.IsPrefix.trans ?_ (log_prefix_runFunctor _ loop)
        exact List.prefix_refl _

theorem start_good (name : List Char) (addr : HostAddress) (numThreads : Nat) :
    Good addr (start name addr numThreads) none where
  addr := rfl
  next := (int32_of_lt (by decide)).symm
  ids := rfl
  names := nofun
  history := justified_nil
  queue := by
    intro loop f
    refine iff_of_false nofun ?_
    rintro ⟨-, hf, -⟩
    obtain ⟨e, he, -⟩ := hf.posted
    cases he
  once := fun _ => List.nodup_nil
  map := fun _ _ => iff_of_false nofun nofun

/-- The functor at the head of a queue is taken out to be run. -/
theorem pop_good {loop : LoopId} {fs : List Functor} (h : Good addr w none)
    (hq : w.queues loop = f :: fs) :
    Good addr { w with queues := Function.update w.queues loop fs } (some f) := by
  have hnodup := hq ▸ h.once loop
  have hhome : loop = f.home := ((h.queue loop f).mp (hq ▸ List.mem_cons_self)).1
  refine { h with queue := fun loop' g => ?_, once := fun loop' => ?_ }
  · by_cases hloop : loop' = loop
    · -- the queue has no doubles, so `f` is no longer in it
      subst hloop
      have hmem := h.queue loop' g
      rw [hq, List.mem_cons] at hmem
      simp only [Function.update_self]
      constructor
      · intro hg
        obtain ⟨hhome', hpending, -⟩ := hmem.mp (.inr hg)
        refine ⟨hhome', hpending, fun heq => ?_⟩
        exact (List.nodup_cons.mp hnodup).1 (Option.some.inj heq ▸ hg)
      · rintro ⟨hhome', hpending, hne⟩
        refine (hmem.mpr ⟨hhome', hpending, nofun⟩).resolve_left fun heq => hne ?_
        rw [heq]
    · simp only [Function.update_of_ne hloop, h.queue]
      constructor
      · rintro ⟨hhome', hpending, -⟩
        refine ⟨hhome', hpending, fun heq => hloop ?_⟩
        rw [hhome', hhome, Option.some.inj heq]
      · rintro ⟨hhome', hpending, -⟩
        exact ⟨hhome', hpending, nofun⟩
  · by_cases hloop : loop' = loop
    · subst hloop
      simp only [Function.update_self]
      exact hnodup.of_cons
    · simp only [Function.update_of_ne hloop]
      exact h.once loop'

/-- The number of connections, in a state that a step leads to and before it. -/
theorem accepted_length_le {a : Action} (h : step w a = some w') :
    w.accepted.length ≤ w'.accepted.length :=
  ((log_prefix_of_step h).filterMap _).length_le

theorem step_good {a : Action} (h : Good addr w none) (hstep : step w a = some w')
    (hfew : w'.accepted.length < 0x80000000) : Good addr w' none := by
  cases a with
  | accept =>
      cases hstep
      obtain ⟨conn, hlog⟩ := log_prefix_newConnection w
      have hlen := (hlog.filterMap Event.accepted?).length_le
      rw [List.filterMap_append, List.length_append] at hlen
      exact newConnection_good h (Nat.lt_of_le_of_lt hlen hfew)
  | close conn =>
      simp only [step] at hstep
      split at hstep
      next hclose =>
        cases hstep
        exact removeConnection_good h hclose.1 hclose.2
      next => cases hstep
  | runFunctor loop =>
      simp only [step] at hstep
      split at hstep
      next => cases hstep
      next f fs hq =>
        cases hstep
        obtain ⟨hhome, hf, -⟩ := (h.queue loop f).mp (hq ▸ List.mem_cons_self)
        have hrun := runFunctor_good (pop_good h hq) hf
        rwa [← hhome] at hrun

theorem good_of_run {name : List Char} {numThreads : Nat} {actions : List Action}
    (h : run step (start name addr numThreads) actions = some w)
    (hfew : w.accepted.length < 0x80000000) : Good addr w none := by
  refine run_invariant (I := fun w => w.accepted.length < 0x80000000 → Good addr w none) ?_
    (fun _ => start_good name addr numThreads) h hfew
  intro w a w' hgood hstep hfew
  exact step_good (hgood (Nat.lt_of_le_of_lt (accepted_length_le hstep) hfew)) hstep hfew

/-- A connection is destroyed in its loop, once, established and removed before. -/
theorem destroyed_history {xs ys : List Event} {loop : LoopId}
    (h : Justified Allowed (xs ++ .destroyed conn loop :: ys)) :
    loop = conn.eventLoop ∧ .established conn conn.eventLoop ∈ xs ∧ .removed conn 1 ∈ xs ∧
      ∀ loop', .destroyed conn loop' ∉ xs := by
  obtain ⟨hfits, hcompletes, -⟩ := h xs _ ys rfl
  have hpending := hcompletes _ rfl
  have hxs : Justified Allowed xs := h.of_append
  obtain ⟨e, he, hposts⟩ := hpending.posted
  obtain ⟨n, rfl⟩ := removed_of_posts hposts
  obtain rfl : n = 1 := fits_of_mem hxs he
  exact ⟨hfits, fits_of_mem hxs (closed_of_removed hxs he), he,
    fun loop' hmem => hpending.open_ _ hmem rfl⟩

/-- For every number of I/O loops and every order of accepts, closes and functors: the
    names are complete and differ, the map holds what is accepted and not removed, every
    removal erases one entry, and a connection is destroyed at most once, in its loop,
    after it was established and removed. -/
theorem connectionMap_holds (name : List Char) (addr : HostAddress) (numThreads : Nat)
    (actions : List Action) (w : World)
    (h : run step (start name addr numThreads) actions = some w)
    (hfew : w.accepted.length < 0x80000000) :
    (w.accepted.map (·.name)).Nodup ∧
    (∀ conn ∈ w.accepted, conn.name =
      w.name ++ ('-' :: w.ipPort ++ '#' :: formatNat (conn.id + 1))) ∧
    (∀ nm conn, w.connectionMap nm = some conn ↔
      nm = conn.name ∧ conn ∈ w.accepted ∧ ∀ n, .removed conn n ∉ w.log) ∧
    (∀ conn n, .removed conn n ∈ w.log → n = 1) ∧
    (∀ xs conn loop ys, w.log = xs ++ .destroyed conn loop :: ys →
      loop = conn.eventLoop ∧ .established conn conn.eventLoop ∈ xs ∧ .removed conn 1 ∈ xs ∧
        ∀ loop', .destroyed conn loop' ∉ xs) := by
  have hgood := good_of_run h hfew
  refine ⟨?_, hgood.names, ?_, ?_, ?_⟩
  · have hnames : w.accepted.map (·.name) =
        (w.accepted.map (·.id)).map (fullName w.name w.ipPort) := by
      rw [List.map_map]
      exact List.map_congr_left hgood.names
    rw [hnames, hgood.ids]
    exact List.nodup_range.map (fullName_injective _ _)
  · intro nm conn
    rw [hgood.map nm conn, mem_accepted]
  · intro conn n hmem
    exact fits_of_mem hgood.history hmem
  · rintro xs conn loop ys hlog
    exact destroyed_history (hlog ▸ hgood.history)

/-- The first connection of a server `s` with one I/O loop. -/
def firstConnection : Connection :=
  ⟨0, ['s', '-', '1', '.', '0', '.', '0', '.', '2', ':', '8', '0', '#', '1'], 1⟩

/-- It is accepted, established, closed, removed and destroyed, with a second one accepted
    on the way. -/
def twoAccepted : List Action :=
  [.accept, .runFunctor 1, .accept, .close firstConnection, .runFunctor 0, .runFunctor 1,
    .runFunctor 1]

theorem connectionMap_holds_twoAccepted :
    ∃ w, run step (start ['s'] (.inet 1 0 0 2 80) 1) twoAccepted = some w ∧
      .destroyed firstConnection 1 ∈ w.log ∧ w.accepted.length = 2 ∧
      (w.accepted.map (·.name)).Nodup ∧ ∀ nm, w.connectionMap nm ≠ some firstConnection := by
  have hrun : ∃ w, run step (start ['s'] (.inet 1 0 0 2 80) 1) twoAccepted = some w ∧
      .destroyed firstConnection 1 ∈ w.log ∧ .removed firstConnection 1 ∈ w.log ∧
      w.accepted.length = 2 :=
    ⟨_, rfl, by decide, by decide, rfl⟩
  obtain ⟨w, hrun, hdestroyed, hremoved, hlen⟩ := hrun
  obtain ⟨hnames, -, hmap, -⟩ := connectionMap_holds _ _ _ _ w hrun (by omega)
  exact ⟨w, hrun, hdestroyed, hlen, hnames,
    fun nm heq => ((hmap nm firstConnection).mp heq).2.2 1 hremoved⟩

end TcpServer
end Youth.Net
