/-
  Youth.Utils.LogFile.Kept

  No message gets lost, doubled or torn in the files of `LogFile`.

  A file is what it was before, then what the stream has handed on, then what is still in
  the buffer; these are the messages for it, whole and in order (`Kept`).  A roll closes a
  file, which empties the buffer, and takes a second that is later than that of any file
  before (`Ordered`).
-/

import Youth.Utils.LogFile.Rolling

namespace Youth.Utils.LogFile

open Youth.Lib Youth.Core

variable {w w' : World}

/-! ## Nothing is lost -/

/-- The bytes for a file that are in the buffer. -/
def World.pending (w : World) (i : Nat) : List UInt8 :=
  match w.file with
  | some f => if f.inode = some i then f.buffer else []
  | none => []

/-- The messages for a file, one after the other. -/
def World.written (w : World) (i : Nat) : List UInt8 :=
  (w.entries.filter fun e => e.inode = some i).flatMap Entry.message

/-- What was in a file before the program. -/
def Disk.before (d : Disk) (i : Nat) : List UInt8 := if i < d.next then (d.inodes i).content else []

/-- Each file has what it had, and then its messages, but for those in the buffer. -/
structure Kept (d : Disk) (w : World) : Prop where
  bytes : ∀ i < w.disk.next, (w.disk.inodes i).content ++ w.pending i = d.before i ++ w.written i
  grown : d.next ≤ w.disk.next
  entries : ∀ e ∈ w.entries, ∀ i, e.inode = some i → i < w.disk.next
  file : ∀ i, w.file.bind File.inode = some i → i < w.disk.next

variable {d : Disk}

theorem Disk.append_content (d : Disk) (i j : Nat) (bytes : List UInt8) (now : DateTime) :
    ((d.append i bytes now).inodes j).content =
      (d.inodes j).content ++ if i = j then bytes else [] := by
  unfold Disk.append
  by_cases hbytes : bytes = []
  · simp [hbytes]
  · rw [if_neg hbytes]
    by_cases hij : i = j
    · subst hij
      simp
    · simp [Function.update_of_ne (Ne.symm hij), hij]

@[simp] theorem Disk.append_next (d : Disk) (i : Nat) (bytes : List UInt8) (now : DateTime) :
    (d.append i bytes now).next = d.next := by
  unfold Disk.append
  split <;> rfl

theorem sync_bytes (w : World) (k : Nat) (now : DateTime) (j : Nat) :
    ((w.sync k now).disk.inodes j).content ++ (w.sync k now).pending j =
      (w.disk.inodes j).content ++ w.pending j := by
  unfold World.sync
  split
  next name i buffer hfile =>
    unfold World.pending
    dsimp only
    rw [hfile, Disk.append_content]
    by_cases hij : i = j
    · subst hij
      simp
    · simp [hij]
  next => rfl

theorem sync_next (w : World) (k : Nat) (now : DateTime) :
    (w.sync k now).disk.next = w.disk.next := by
  unfold World.sync
  split
  · exact Disk.append_next _ _ _ _
  · rfl

theorem sync_kept (h : Kept d w) (k : Nat) (now : DateTime) : Kept d (w.sync k now) := by
  have hbytes := sync_bytes w k now
  have hnext := sync_next w k now
  obtain ⟨disk, file, hsync, hinode⟩ := sync_frame w k now
  rw [hsync] at hbytes hnext ⊢
  dsimp only at hnext
  refine ⟨fun i hi => ?_, ?_, ?_, ?_⟩
  · rw [hbytes i]
    exact h.bytes i (by simpa only [hnext] using hi)
  · simpa only [hnext] using h.grown
  · simpa only [hnext] using h.entries
  · dsimp only
    rw [hnext, hinode]
    exact h.file

/-- A flush leaves nothing in the buffer. -/
theorem pending_flushLogFile (w : World) (now : DateTime) (j : Nat) :
    (w.flushLogFile now).pending j = [] := by
  unfold World.flushLogFile World.sync World.buffered World.pending
  rcases hfile : w.file with _ | ⟨name, _ | i, buffer⟩ <;> simp [hfile]

/-- A step that touches neither the files nor the messages. -/
theorem Kept.of_eq (h : Kept d w) (hinodes : w'.disk.inodes = w.disk.inodes)
    (hnext : w'.disk.next = w.disk.next) (hfile : w'.file = w.file)
    (hentries : w'.entries = w.entries) : Kept d w' := by
  refine ⟨?_, ?_, ?_, ?_⟩
  · unfold World.pending World.written
    rw [hinodes, hnext, hfile, hentries]
    exact h.bytes
  · rw [hnext]
    exact h.grown
  · rw [hentries, hnext]
    exact h.entries
  · rw [hfile, hnext]
    exact h.file

theorem reopen_kept (h : Kept d w) (name : List Char) (now : DateTime) (opens : Bool) :
    Kept d (w.reopen name now opens) := by
  have hflushed : Kept d (w.flushLogFile now) := sync_kept h _ now
  have hempty : ∀ j, (w.flushLogFile now).pending j = [] := pending_flushLogFile w now
  unfold World.reopen
  generalize w.flushLogFile now = v at hflushed hempty
  dsimp only
  have hbytes : ∀ i < v.disk.next, (v.disk.inodes i).content = d.before i ++ v.written i := by
    intro i hi
    rw [← hflushed.bytes i hi, hempty, List.append_nil]
  split
  · split
    next i hname =>
      refine ⟨fun j hj => ?_, hflushed.grown, hflushed.entries, ?_⟩
      · have hpending : World.pending { v with file := some ⟨name, some i, []⟩ } j = [] := by
          simp [World.pending]
        rw [hpending, List.append_nil]
        exact hbytes j hj
      · rintro j hj
        cases hj
        exact v.disk.inRange name i hname
    next hname =>
      -- the file is a new one
      have hgrown : v.disk.next ≤ (v.disk.create name now).next := Nat.le_succ _
      refine ⟨fun j hj => ?_, Nat.le_trans hflushed.grown hgrown, fun e he i hi =>
        Nat.lt_of_lt_of_le (hflushed.entries e he i hi) hgrown, ?_⟩
      · have hpending : World.pending { v with
            file := some ⟨name, some v.disk.next, []⟩, disk := v.disk.create name now } j = [] := by
          simp [World.pending]
        rw [hpending, List.append_nil]
        show (Function.update v.disk.inodes v.disk.next ⟨[], now⟩ j).content =
          d.before j ++ v.written j
        by_cases hjn : j = v.disk.next
        · have hwritten : v.written j = [] := by
            unfold World.written
            rw [List.flatMap_eq_nil_iff]
            intro e he
            obtain ⟨he, hinode⟩ := List.mem_filter.mp he
            have hlt := hflushed.entries e he j (of_decide_eq_true hinode)
            omega
          have hbefore : d.before j = [] := if_neg (by have := hflushed.grown; omega)
          rw [hwritten, hbefore, hjn, Function.update_self]
          rfl
        · rw [Function.update_of_ne hjn]
          exact hbytes j (Nat.lt_of_le_of_ne (Nat.le_of_lt_succ hj) hjn)
      · rintro j hj
        cases hj
        exact Nat.lt_succ_self _
  · refine ⟨fun j hj => ?_, hflushed.grown, hflushed.entries, nofun⟩
    have hpending : World.pending { v with file := some ⟨name, none, []⟩ } j = [] := by
      simp [World.pending]
    rw [hpending, List.append_nil]
    exact hbytes j hj

theorem rollFile_kept (h : Kept d w) (count : Int) (now : DateTime) (opens : Bool) :
    Kept d (w.rollFile count now opens) := by
  have hdel : Kept d (if count ≠ 0 then w else w.delLogFile now) := by
    split
    · exact h
    · exact h.of_eq rfl rfl rfl rfl
  unfold World.rollFile
  generalize (if count ≠ 0 then w else w.delLogFile now) = v at hdel
  dsimp only
  split
  · have hrolled : Kept d { v with
        startTime := period (secondsSinceEpoch now), lastRoll := secondsSinceEpoch now
        rolled := v.rolled ++ [(now, count)] } := hdel.of_eq rfl rfl rfl rfl
    exact reopen_kept hrolled _ now opens
  · exact hdel

theorem rollIfNeeded_kept (h : Kept d w) (size : Int) (now later : DateTime) (opens : Bool) :
    Kept d (w.rollIfNeeded size now later opens) := by
  have hcount : ∀ count, Kept d { w with count := count } := fun _ => h.of_eq rfl rfl rfl rfl
  unfold World.rollIfNeeded
  split
  · exact rollFile_kept (hcount _) _ later opens
  · split
    · exact rollFile_kept (hcount _) _ later opens
    · exact h

/-- The message is behind the others for its file. -/
theorem write_kept (h : Kept d w) {e : Entry} (hinode : e.inode = w.file.bind File.inode)
    (clock : DateTime) : Kept d { w.write e.message with
      entries := w.entries ++ [e], clock := clock } := by
  have hwritten : ∀ v : World, v.entries = w.entries ++ [e] → ∀ j,
      v.written j = w.written j ++ if e.inode = some j then e.message else [] := by
    intro v hv j
    unfold World.written
    rw [hv, List.filter_append, List.flatMap_append]
    by_cases hj : e.inode = some j <;> simp [hj]
  have hentries : ∀ e' ∈ w.entries ++ [e], ∀ i, e'.inode = some i → i < w.disk.next := by
    intro e' he' i hi
    rcases List.mem_append.mp he' with he' | he'
    · exact h.entries e' he' i hi
    · rw [List.mem_singleton.mp he', hinode] at hi
      exact h.file i hi
  rcases hfile : w.file with _ | ⟨name, _ | i, buffer⟩
  all_goals rw [hfile] at hinode
  · have heq : w.write e.message = w := by simp [World.write, hfile]
    rw [heq]
    refine ⟨fun j hj => ?_, h.grown, hentries, h.file⟩
    rw [hwritten _ rfl, if_neg (by rw [hinode]; exact nofun), List.append_nil]
    exact h.bytes j hj
  · -- the file is not open: the message is dropped
    have heq : w.write e.message = w := by simp [World.write, hfile]
    rw [heq]
    refine ⟨fun j hj => ?_, h.grown, hentries, h.file⟩
    rw [hwritten _ rfl, if_neg (by rw [hinode]; exact nofun), List.append_nil]
    exact h.bytes j hj
  · have heq : w.write e.message =
        { w with file := some ⟨name, some i, buffer ++ e.message⟩ } := by simp [World.write, hfile]
    have hold : ∀ j, w.pending j = if some i = some j then buffer else [] := by
      intro j
      simp [World.pending, hfile]
    rw [heq]
    refine ⟨fun j hj => ?_, h.grown, hentries, ?_⟩
    · have hbytes := h.bytes j hj
      rw [hold] at hbytes
      rw [hwritten _ rfl, hinode]
      have hnew : World.pending { w with
          file := some ⟨name, some i, buffer ++ e.message⟩, entries := w.entries ++ [e]
          clock := clock } j = if some i = some j then buffer ++ e.message else [] := rfl
      rw [hnew]
      show (w.disk.inodes j).content ++ _ = _
      by_cases hij : some i = some j
      · rw [if_pos hij] at hbytes
        rw [if_pos hij, ← List.append_assoc, hbytes, List.append_assoc]
        congr 2
        exact (if_pos hij).symm
      · rw [if_neg hij] at hbytes
        rw [if_neg hij, hbytes]
        have hne : ¬(Option.bind (some ⟨name, some i, buffer⟩) File.inode = some j) := hij
        rw [if_neg hne, List.append_nil]
    · rintro j hj
      have hinode' : w.file.bind File.inode = some i := by rw [hfile]; rfl
      cases hj
      exact h.file i hinode'

theorem rollIfNeeded_entries (w : World) (size : Int) (now later : DateTime) (opens : Bool) :
    (w.rollIfNeeded size now later opens).entries = w.entries := by
  rcases rollIfNeeded_cases w size now later opens with
    ⟨-, disk, count, heq⟩ | ⟨-, disk, file, count, c, heq⟩ <;> rw [heq]

theorem step_kept {a : Action} (h : Kept d w) (hstep : step w a = some w') : Kept d w' := by
  cases a with
  | output msg now later opens =>
      obtain ⟨f, -, rfl⟩ := Option.map_eq_some_iff.mp hstep
      have hrolled := rollIfNeeded_kept h (f.size w.disk) now later opens
      unfold World.outputLogFile
      rw [← rollIfNeeded_entries w (f.size w.disk) now later opens]
      exact write_kept (e := ⟨msg, _, _, _, _, now, later⟩) hrolled rfl later
  | sync k now =>
      cases hstep
      exact sync_kept h k now
  | flush now =>
      cases hstep
      exact sync_kept h _ now
  | setRollSize size =>
      cases hstep
      exact h.of_eq rfl rfl rfl rfl
  | setDelLogFileDays days =>
      cases hstep
      exact h.of_eq rfl rfl rfl rfl

theorem start_kept (naming : Naming) (now : DateTime) (opens : Bool) :
    Kept d (start naming d now opens) := by
  have hnew : Kept d { naming := naming, disk := d, clock := now } := by
    refine ⟨fun i hi => ?_, Nat.le_refl _, List.forall_mem_nil _, nofun⟩
    exact congrArg (· ++ ([] : List UInt8)) (if_pos hi).symm
  exact rollFile_kept hnew 0 now opens

/-! ## The order of the files -/

/-- A later message goes to the same file or to one that is opened later. -/
def InOrder (e e' : Entry) : Prop := e.opened < e'.opened ∨ e.opened = e'.opened ∧ e.inode = e'.inode

structure Ordered (w : World) : Prop where
  entries : w.entries.Pairwise InOrder
  last : ∀ e ∈ w.entries, e.opened < w.lastRoll ∨
    e.opened = w.lastRoll ∧ e.inode = w.file.bind File.inode
  rolled : w.rolled.Pairwise fun r r' => secondsSinceEpoch r.1 < secondsSinceEpoch r'.1
  lastRolled : ∀ r ∈ w.rolled, secondsSinceEpoch r.1 ≤ w.lastRoll

theorem Ordered.of_eq (h : Ordered w) (hentries : w'.entries = w.entries)
    (hroll : w'.lastRoll = w.lastRoll) (hinode : w'.file.bind File.inode = w.file.bind File.inode)
    (hrolled : w'.rolled = w.rolled) : Ordered w' := by
  refine ⟨?_, ?_, ?_, ?_⟩
  · rw [hentries]
    exact h.entries
  · rw [hentries, hroll, hinode]
    exact h.last
  · rw [hrolled]
    exact h.rolled
  · rw [hrolled, hroll]
    exact h.lastRolled

/-- After a roll everything is older than the file. -/
theorem Ordered.roll (h : Ordered w) {now : DateTime} {c : Int} (hentries : w'.entries = w.entries)
    (hnew : w.lastRoll < secondsSinceEpoch now) (hroll : w'.lastRoll = secondsSinceEpoch now)
    (hrolled : w'.rolled = w.rolled ++ [(now, c)]) : Ordered w' := by
  refine ⟨?_, ?_, ?_, ?_⟩
  · rw [hentries]
    exact h.entries
  · rw [hentries, hroll]
    intro e he
    left
    rcases h.last e he with hlt | ⟨heq, -⟩ <;> omega
  · rw [hrolled, List.pairwise_append]
    refine ⟨h.rolled, List.pairwise_singleton _ _, fun r hr r' hr' => ?_⟩
    rw [List.mem_singleton.mp hr']
    have := h.lastRolled r hr
    show secondsSinceEpoch r.1 < secondsSinceEpoch now
    omega
  · rw [hrolled, hroll]
    intro r hr
    rcases List.mem_append.mp hr with hr | hr
    · have := h.lastRolled r hr
      omega
    · rw [List.mem_singleton.mp hr]

theorem rollFile_ordered (h : Ordered w) (count : Int) (now : DateTime) (opens : Bool) :
    Ordered (w.rollFile count now opens) := by
  rcases rollFile_cases w count now opens with ⟨-, disk, heq⟩ | ⟨hnew, disk, file, heq⟩
  · rw [heq]
    exact h.of_eq rfl rfl rfl rfl
  · rw [heq]
    exact h.roll rfl hnew rfl rfl

theorem rollIfNeeded_ordered (h : Ordered w) (size : Int) (now later : DateTime) (opens : Bool) :
    Ordered (w.rollIfNeeded size now later opens) := by
  rcases rollIfNeeded_cases w size now later opens with
    ⟨-, disk, count, heq⟩ | ⟨hnew, disk, file, count, c, heq⟩
  · rw [heq]
    exact h.of_eq rfl rfl rfl rfl
  · rw [heq]
    exact h.roll rfl hnew rfl rfl

theorem write_ordered (h : Ordered w) {e : Entry} (hopened : e.opened = w.lastRoll)
    (hinode : e.inode = w.file.bind File.inode) (clock : DateTime) :
    Ordered { w.write e.message with entries := w.entries ++ [e], clock := clock } := by
  obtain ⟨file, hwrite, hfile⟩ := write_frame w e.message
  rw [hwrite]
  refine ⟨?_, ?_, h.rolled, h.lastRolled⟩
  · refine List.pairwise_append.mpr ⟨h.entries, List.pairwise_singleton _ _, fun e₀ he₀ e₁ he₁ => ?_⟩
    rw [List.mem_singleton.mp he₁, InOrder, hopened, hinode]
    exact h.last e₀ he₀
  · intro e' he'
    rcases List.mem_append.mp he' with he' | he'
    · dsimp only
      rw [hfile]
      exact h.last e' he'
    · rw [List.mem_singleton.mp he']
      exact .inr ⟨hopened, hinode.trans hfile.symm⟩

theorem step_ordered {a : Action} (h : Ordered w) (hstep : step w a = some w') : Ordered w' := by
  cases a with
  | output msg now later opens =>
      obtain ⟨f, -, rfl⟩ := Option.map_eq_some_iff.mp hstep
      have hrolled := rollIfNeeded_ordered h (f.size w.disk) now later opens
      unfold World.outputLogFile
      rw [← rollIfNeeded_entries w (f.size w.disk) now later opens]
      exact write_ordered (e := ⟨msg, _, _, _, _, now, later⟩) hrolled rfl rfl later
  | sync k now =>
      cases hstep
      obtain ⟨disk, file, hsync, hinode⟩ := sync_frame w k now
      rw [hsync]
      exact h.of_eq rfl rfl hinode rfl
  | flush now =>
      cases hstep
      obtain ⟨disk, file, hsync, hinode⟩ := sync_frame w w.buffered now
      unfold World.flushLogFile
      rw [hsync]
      exact h.of_eq rfl rfl hinode rfl
  | setRollSize size =>
      cases hstep
      exact h.of_eq rfl rfl rfl rfl
  | setDelLogFileDays days =>
      cases hstep
      exact h.of_eq rfl rfl rfl rfl

theorem start_ordered (naming : Naming) (disk : Disk) (now : DateTime) (opens : Bool) :
    Ordered (start naming disk now opens) :=
  rollFile_ordered ⟨.nil, List.forall_mem_nil _, .nil, List.forall_mem_nil _⟩ 0 now opens

/-! ## Runs -/

def Action.message? : Action → Option (List UInt8)
  | .output msg _ _ _ => some msg
  | _ => none

theorem step_messages {a : Action} (hstep : step w a = some w') :
    w'.entries.map Entry.message = w.entries.map Entry.message ++ a.message?.toList := by
  cases a with
  | output msg now later opens =>
      obtain ⟨f, -, rfl⟩ := Option.map_eq_some_iff.mp hstep
      exact List.map_append
  | sync k now =>
      cases hstep
      obtain ⟨disk, file, hsync, -⟩ := sync_frame w k now
      rw [hsync]
      exact (List.append_nil _).symm
  | flush now =>
      cases hstep
      obtain ⟨disk, file, hsync, -⟩ := sync_frame w w.buffered now
      unfold World.flushLogFile
      rw [hsync]
      exact (List.append_nil _).symm
  | setRollSize | setDelLogFileDays =>
      cases hstep
      exact (List.append_nil _).symm

theorem run_messages {acts : List Action} (hrun : run step w acts = some w') :
    w'.entries.map Entry.message = w.entries.map Entry.message ++ acts.filterMap Action.message? := by
  induction acts generalizing w with
  | nil =>
      cases hrun
      exact (List.append_nil _).symm
  | cons a acts ih =>
      obtain ⟨v, hstep, hrest⟩ := run_cons_eq_some.mp hrun
      rw [ih hrest, step_messages hstep, List.append_assoc]
      congr 1
      cases hm : a.message? <;> simp [hm]

/-- There is a file, and it is open. -/
def World.Opened (w : World) : Prop := (w.file.bind File.inode).isSome

/-- `open` succeeds, should it be called. -/
def Action.Opens : Action → Prop
  | .output _ _ _ opens => opens = true
  | _ => True

theorem reopen_opened (w : World) (name : List Char) (now : DateTime) :
    (w.reopen name now true).Opened := by
  unfold World.reopen
  dsimp only
  rw [if_pos rfl]
  split <;> rfl

theorem rollFile_opened (h : w.Opened) (count : Int) (now : DateTime) :
    (w.rollFile count now true).Opened := by
  have hdel : (if count ≠ 0 then w else w.delLogFile now).Opened := by
    split <;> exact h
  unfold World.rollFile
  generalize (if count ≠ 0 then w else w.delLogFile now) = v at hdel
  dsimp only
  split
  · exact reopen_opened _ _ now
  · exact hdel

theorem rollIfNeeded_opened (h : w.Opened) (size : Int) (now later : DateTime) :
    (w.rollIfNeeded size now later true).Opened := by
  unfold World.rollIfNeeded
  split
  · exact rollFile_opened (w := { w with count := w.count + 1 }) h _ later
  · split
    · exact rollFile_opened (w := { w with count := 0 }) h _ later
    · exact h

/-- Nothing has been dropped. -/
def World.Whole (w : World) : Prop :=
  (w.file = none ∨ w.Opened) ∧ ∀ e ∈ w.entries, e.inode ≠ none

theorem sync_whole (h : w.Whole) (k : Nat) (now : DateTime) : (w.sync k now).Whole := by
  unfold World.sync
  split
  next name i buffer hfile => exact ⟨.inr rfl, h.2⟩
  next => exact h

theorem step_whole (w : World) (a : Action) (w' : World) (ha : a.Opens) (h : w.Whole)
    (hstep : step w a = some w') : w'.Whole := by
  cases a with
  | output msg now later opens =>
      obtain ⟨f, hfile, rfl⟩ := Option.map_eq_some_iff.mp hstep
      obtain rfl : opens = true := ha
      have hopened : w.Opened := h.1.resolve_left (by rw [hfile]; exact nofun)
      have hrolled := rollIfNeeded_opened hopened (f.size w.disk) now later
      unfold World.outputLogFile
      dsimp only
      generalize w.rollIfNeeded (f.size w.disk) now later true = v at hrolled
      obtain ⟨file, hwrite, hinode⟩ := write_frame v msg
      rw [hwrite]
      refine ⟨.inr ?_, fun e he => ?_⟩
      · show (file.bind File.inode).isSome
        rw [hinode]
        exact hrolled
      · rcases List.mem_append.mp he with he | he
        · exact h.2 e he
        · rw [List.mem_singleton.mp he]
          exact Option.isSome_iff_ne_none.mp hrolled
  | sync k now =>
      cases hstep
      exact sync_whole h k now
  | flush now =>
      cases hstep
      exact sync_whole h _ now
  | setRollSize | setDelLogFileDays =>
      cases hstep
      exact h

theorem start_whole (naming : Naming) (disk : Disk) (now : DateTime) :
    (start naming disk now true).Whole := by
  have hdel : ∀ w : World, w.file = none → w.entries = [] →
      (w.rollFile 0 now true).Whole := by
    intro w hfile hentries
    rcases rollFile_cases w 0 now true with ⟨-, disk, heq⟩ | ⟨hnew, disk, file, heq⟩
    · rw [heq]
      exact ⟨.inl hfile, by simp [hentries]⟩
    · refine ⟨.inr ?_, by rw [heq]; simp [hentries]⟩
      unfold World.rollFile
      dsimp only
      rw [if_pos (by exact hnew)]
      exact reopen_opened _ _ now
  exact hdel _ rfl rfl

/-- Whatever the clock says and whenever the stream writes, rolls and removals included: each
    message is whole in one file, the files have what they had before and then their
    messages, but for those that are still in the buffer, and messages and files have the
    same order.  Where no `open` fails, no message is dropped. -/
theorem messages_kept (naming : Naming) (disk : Disk) (now : DateTime) (opens : Bool)
    (acts : List Action) (w : World) (hrun : run step (start naming disk now opens) acts = some w) :
    w.entries.map Entry.message = acts.filterMap Action.message? ∧
      (∀ i < w.disk.next,
        (w.disk.inodes i).content ++ w.pending i = disk.before i ++ w.written i) ∧
      w.entries.Pairwise InOrder ∧
      (opens = true → (∀ a ∈ acts, a.Opens) → ∀ e ∈ w.entries, e.inode ≠ none) := by
  have hkept : Kept disk w :=
    run_invariant (fun _ _ _ => step_kept) (start_kept naming now opens) hrun
  have hordered : Ordered w :=
    run_invariant (fun _ _ _ => step_ordered) (start_ordered naming disk now opens) hrun
  refine ⟨?_, hkept.bytes, hordered.entries, ?_⟩
  · have hstart : (start naming disk now opens).entries = [] := by
      rcases rollFile_cases { naming := naming, disk := disk, clock := now } 0 now opens with
        ⟨-, disk, heq⟩ | ⟨-, disk, file, heq⟩ <;> exact congrArg World.entries heq
    rw [run_messages hrun, hstart]
    rfl
  · rintro rfl hacts
    exact (run_invariant_of step_whole hacts (start_whole naming disk now) hrun).2

def emptyDisk : Disk := ⟨fun _ => none, fun _ => ⟨[], 0⟩, 0, nofun⟩

def sampleNaming : Naming := ⟨['l', 'o', 'g', '.'], ['h'], 7, .utc⟩

/-- Three messages around a midnight; the second one finds the file too long, but is of the
    same second. -/
def midnightActions : List Action :=
  [.setRollSize 0, .output [1] 86399000000 86399000000 true, .flush 86399000000,
   .output [2] 86399000000 86399000001 true, .output [3] 86400000000 86400000000 true,
   .flush 86400000000]

theorem exists_midnight :
    ∃ w, run step (start sampleNaming emptyDisk 86399000000 true) midnightActions = some w ∧
      w.disk.next = 2 ∧ w.pending 0 = [] ∧ w.written 0 = [1, 2] ∧ w.written 1 = [3] ∧
      w.rolled = [(86399000000, 0), (86400000000, 2)] ∧
      w.entries.map Entry.opened = [86399, 86399, 86400] := by
  have hrun : (run step (start sampleNaming emptyDisk 86399000000 true) midnightActions).map
      (fun w => decide (w.disk.next = 2 ∧ w.pending 0 = [] ∧ w.written 0 = [1, 2] ∧
        w.written 1 = [3] ∧ w.rolled = [(86399000000, 0), (86400000000, 2)] ∧
        w.entries.map Entry.opened = [86399, 86399, 86400])) = some true := by decide +kernel
  obtain ⟨w, hw, hend⟩ := Option.map_eq_some_iff.mp hrun
  exact ⟨w, hw, of_decide_eq_true hend⟩

theorem messages_kept_midnight :
    ∃ w, run step (start sampleNaming emptyDisk 86399000000 true) midnightActions = some w ∧
      w.entries.map Entry.message = [[1], [2], [3]] ∧ (w.disk.inodes 0).content = [1, 2] := by
  obtain ⟨w, hw, hnext, hpending, hwritten, -⟩ := exists_midnight
  obtain ⟨hmessages, hbytes, -, -⟩ := messages_kept sampleNaming emptyDisk _ true _ w hw
  refine ⟨w, hw, hmessages, ?_⟩
  have hcontent := hbytes 0 (by omega)
  rwa [hpending, hwritten, List.append_nil] at hcontent

end Youth.Utils.LogFile
