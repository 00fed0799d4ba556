/-
  Youth.Utils.LogFile.Archive

  The files of a run, one after the other, are its messages.

  Where every `open` succeeds and no file has the name of a roll in advance, the `k`-th roll
  creates the `k`-th new file (`Numbered`).  Only the last file is written to, so the files
  in the order of the rolls, which is the order of their names, and then what is still in
  the buffer, are all the messages in their order (`archive_eq`).
-/

import Mathlib.Data.List.Infix
import Youth.Lib.Grouped
import Youth.Utils.LogFile.Days

namespace Youth.Utils.LogFile

open Youth.Lib Youth.Core Youth.Core.DateTime

variable {w w' : World} {n : Naming} {d : Disk}

/-- A roll in the years that the clock can represent, with a name that no file had at first. -/
def Naming.New (n : Naming) (d : Disk) (r : DateTime × Int) : Prop :=
  Near (n.zone.date (secondsSinceEpoch r.1)).index ∧ d.names (n.rollName r.1 r.2) = none

/-- The files that the rolls have created, one after the other.  A file whose name was removed
    counts with what it held. -/
def World.archive (d : Disk) (w : World) : List UInt8 :=
  (List.range' d.next w.rolled.length).flatMap fun i => (w.disk.inodes i).content

/-- What is still in the buffer of the stream. -/
def World.unwritten (w : World) : List UInt8 :=
  match w.file with
  | some ⟨_, some _, buffer⟩ => buffer
  | _ => []

/-- The files are numbered by the rolls, and the messages go to the last of them. -/
structure Numbered (n : Naming) (d : Disk) (w : World) : Prop where
  naming : w.naming = n
  next : w.disk.next = d.next + w.rolled.length
  names : ∀ name i, w.disk.names name = some i → d.names name = some i ∨
    ∃ k r, w.rolled[k]? = some r ∧ i = d.next + k ∧ name = n.rollName r.1 r.2
  file : ∀ i, w.file.bind File.inode = some i → d.next ≤ i ∧ i + 1 = w.disk.next
  entries : ∀ e ∈ w.entries, ∀ i, e.inode = some i → d.next ≤ i ∧ i < w.disk.next
  sorted : w.entries.Pairwise fun e e' => ∀ i j, e.inode = some i → e'.inode = some j → i ≤ j

/-! ## The steps -/

/-- Files may be removed, and the file may be written to. -/
theorem Numbered.of_sub (h : Numbered n d w) (hnaming : w'.naming = w.naming)
    (hnext : w'.disk.next = w.disk.next)
    (hnames : ∀ name i, w'.disk.names name = some i → w.disk.names name = some i)
    (hfile : w'.file.bind File.inode = w.file.bind File.inode)
    (hentries : w'.entries = w.entries) (hrolled : w'.rolled = w.rolled) : Numbered n d w' := by
  refine ⟨hnaming.trans h.naming, ?_, ?_, ?_, ?_, ?_⟩
  · rw [hnext, hrolled]
    exact h.next
  · intro name i hi
    rw [hrolled]
    exact h.names name i (hnames name i hi)
  · rw [hfile, hnext]
    exact h.file
  · rw [hentries, hnext]
    exact h.entries
  · rw [hentries]
    exact h.sorted

theorem sync_names (w : World) (k : Nat) (now : DateTime) :
    (w.sync k now).disk.names = w.disk.names := by
  unfold World.sync Disk.append
  split
  · dsimp only
    split <;> rfl
  · rfl

theorem sync_numbered (h : Numbered n d w) (k : Nat) (now : DateTime) :
    Numbered n d (w.sync k now) := by
  have hnames := sync_names w k now
  have hnext := sync_next w k now
  obtain ⟨disk, file, hsync, hinode⟩ := sync_frame w k now
  rw [hsync] at hnames hnext ⊢
  exact h.of_sub rfl hnext (fun name i hi => by rwa [← hnames]) hinode rfl rfl

/-- The file of a roll is a new one. -/
theorem reopen_numbered (h : Numbered n d w) {now : DateTime} {count start lastRoll : Int}
    (hfree : w.disk.names (n.rollName now count) = none) :
    Numbered n d ({ w with
      startTime := start, lastRoll := lastRoll
      rolled := w.rolled ++ [(now, count)] }.reopen (w.naming.rollName now count) now true) := by
  let v : World := { w with
    startTime := start, lastRoll := lastRoll, rolled := w.rolled ++ [(now, count)] }
  have hnames : (v.flushLogFile now).disk.names = w.disk.names := sync_names v v.buffered now
  have hnext : (v.flushLogFile now).disk.next = w.disk.next := sync_next v v.buffered now
  obtain ⟨disk, file, hsync, -⟩ : ∃ disk file, v.flushLogFile now = { v with
      disk := disk, file := file } ∧ _ := sync_frame v v.buffered now
  show Numbered n d (v.reopen (w.naming.rollName now count) now true)
  rw [h.naming]
  unfold World.reopen
  rw [hsync] at hnames hnext ⊢
  dsimp only at hnames hnext ⊢
  rw [if_pos rfl, hnames, hfree]
  have hcreated : disk.next + 1 = d.next + (w.rolled ++ [(now, count)]).length := by
    rw [hnext, h.next, List.length_append, List.length_singleton]
    omega
  refine ⟨h.naming, hcreated, ?_, ?_, ?_, h.sorted⟩
  · intro name i hi
    change Function.update disk.names (n.rollName now count) (some disk.next) name = some i at hi
    rw [Function.update_apply] at hi
    split at hi
    next heq =>
      cases hi
      refine .inr ⟨w.rolled.length, (now, count), List.getElem?_concat_length, ?_, heq⟩
      rw [hnext, h.next]
    next =>
      rw [hnames] at hi
      refine (h.names name i hi).imp_right ?_
      rintro ⟨k, r, hk, hrest⟩
      refine ⟨k, r, ?_, hrest⟩
      rw [List.getElem?_append_left (List.getElem?_eq_some_iff.mp hk).1]
      exact hk
  · intro i hi
    cases hi
    refine ⟨?_, rfl⟩
    rw [hnext, h.next]
    exact Nat.le_add_right _ _
  · intro e he i hi
    have hold := h.entries e he i hi
    refine ⟨hold.1, ?_⟩
    show i < disk.next + 1
    omega

theorem rollFile_numbered (h : Numbered n d w) (hordered : Ordered w) (count : Int) (now : DateTime)
    (hnew : ∀ r ∈ (w.rollFile count now true).rolled, n.New d r) :
    Numbered n d (w.rollFile count now true) := by
  have hall : w.lastRoll < secondsSinceEpoch now → ∀ r ∈ w.rolled ++ [(now, count)], n.New d r := by
    intro hsecond
    rcases rollFile_cases w count now true with ⟨hold, -⟩ | ⟨-, disk, file, heq⟩
    · omega
    · rw [heq] at hnew
      exact hnew
  obtain ⟨v, hsame, hv, hroll, hrolled⟩ : ∃ v, (if count ≠ 0 then w else w.delLogFile now) = v ∧
      Numbered n d v ∧ v.lastRoll = w.lastRoll ∧ v.rolled = w.rolled := by
    split
    · exact ⟨w, rfl, h, rfl, rfl⟩
    · refine ⟨_, rfl, h.of_sub rfl rfl (fun name i hi => ?_) rfl rfl rfl, rfl, rfl⟩
      exact (Option.filter_eq_some_iff.mp hi).1
  unfold World.rollFile
  rw [hsame]
  dsimp only
  rw [hroll]
  split
  next hsecond =>
    apply reopen_numbered hv
    -- the name is later than those of the rolls before
    rw [Option.eq_none_iff_forall_not_mem]
    intro i hi
    have hthis := hall hsecond (now, count) (List.mem_append_right _ (List.mem_singleton_self _))
    rcases hv.names _ i hi with hold | ⟨k, r, hk, -, heq⟩
    · rw [hthis.2] at hold
      cases hold
    · have hmem : r ∈ w.rolled := hrolled ▸ List.mem_of_getElem? hk
      have hlast := hordered.lastRolled r hmem
      have hlt : n.rollName r.1 r.2 < n.rollName now count :=
        rollName_lt (hall hsecond r (List.mem_append_left _ hmem)).1 hthis.1
          (Int.lt_of_le_of_lt hlast hsecond)
      rw [heq] at hlt
      exact List.lt_irrefl _ hlt
  next => exact hv

theorem rollIfNeeded_numbered (h : Numbered n d w) (hordered : Ordered w) (size : Int)
    (now later : DateTime) (hnew : ∀ r ∈ (w.rollIfNeeded size now later true).rolled, n.New d r) :
    Numbered n d (w.rollIfNeeded size now later true) := by
  have hcount : ∀ count : Int, Numbered n d { w with count := count } ∧
      Ordered { w with count := count } := fun count =>
    ⟨h.of_sub rfl rfl (fun _ _ hi => hi) rfl rfl rfl, hordered.of_eq rfl rfl rfl rfl⟩
  unfold World.rollIfNeeded at hnew ⊢
  split
  next hsize =>
    rw [if_pos hsize] at hnew
    exact rollFile_numbered (hcount _).1 (hcount _).2 _ later hnew
  next hsize =>
    rw [if_neg hsize] at hnew
    split
    next hperiod =>
      rw [if_pos hperiod] at hnew
      exact rollFile_numbered (hcount 0).1 (hcount 0).2 0 later hnew
    next => exact h

theorem write_numbered (h : Numbered n d w) {e : Entry} (hinode : e.inode = w.file.bind File.inode)
    (clock : DateTime) :
    Numbered n d { w.write e.message with entries := w.entries ++ [e], clock := clock } := by
  obtain ⟨file, hwrite, hfile⟩ := write_frame w e.message
  rw [hwrite]
  refine ⟨h.naming, h.next, h.names, ?_, fun e' he' i hi => ?_, ?_⟩
  · dsimp only
    rw [hfile]
    exact h.file
  · rcases List.mem_append.mp he' with he' | he'
    · exact h.entries e' he' i hi
    · rw [List.mem_singleton.mp he', hinode] at hi
      have := h.file i hi
      dsimp only
      omega
  · refine List.pairwise_append.mpr ⟨h.sorted, List.pairwise_singleton _ _, ?_⟩
    intro e₀ he₀ e₁ he₁ i j hi hj
    rw [List.mem_singleton.mp he₁, hinode] at hj
    have hold := h.entries e₀ he₀ i hi
    have hlast := h.file j hj
    omega

/-- The rolls of a run are never forgotten. -/
theorem step_rolled {a : Action} (hstep : step w a = some w') : w.rolled <+: w'.rolled := by
  cases a with
  | output msg now later opens =>
      obtain ⟨f, -, rfl⟩ := Option.map_eq_some_iff.mp hstep
      unfold World.outputLogFile
      dsimp only
      obtain ⟨file, hwrite, -⟩ :=
        write_frame (w.rollIfNeeded (f.size w.disk) now later opens) msg
      rw [hwrite]
      rcases rollIfNeeded_cases w (f.size w.disk) now later opens with
        ⟨-, disk, count, heq⟩ | ⟨-, disk, file, count, c, heq⟩
      · rw [heq]
      · rw [heq]
        exact List.prefix_append w.rolled _
  | sync k now =>
      cases hstep
      obtain ⟨disk, file, hsync, -⟩ := sync_frame w k now
      rw [hsync]
  | flush now =>
      cases hstep
      obtain ⟨disk, file, hsync, -⟩ := sync_frame w w.buffered now
      unfold World.flushLogFile
      rw [hsync]
  | setRollSize | setDelLogFileDays =>
      cases hstep
      exact List.prefix_refl _

theorem step_numbered {a : Action} (ha : a.Opens) (h : Numbered n d w) (hordered : Ordered w)
    (hstep : step w a = some w') (hnew : ∀ r ∈ w'.rolled, n.New d r) : Numbered n d w' := by
  cases a with
  | output msg now later opens =>
      obtain ⟨f, -, rfl⟩ := Option.map_eq_some_iff.mp hstep
      obtain rfl : opens = true := ha
      have hrolled : (w.outputLogFile f msg now later true).rolled =
          (w.rollIfNeeded (f.size w.disk) now later true).rolled := by
        unfold World.outputLogFile
        obtain ⟨file, hwrite, -⟩ :=
          write_frame (w.rollIfNeeded (f.size w.disk) now later true) msg
        dsimp only
        rw [hwrite]
      rw [hrolled] at hnew
      have hnum := rollIfNeeded_numbered h hordered (f.size w.disk) now later hnew
      unfold World.outputLogFile
      rw [← rollIfNeeded_entries w (f.size w.disk) now later true]
      exact write_numbered (e := ⟨msg, _, _, _, _, now, later⟩) hnum rfl later
  | sync k now =>
      cases hstep
      exact sync_numbered h k now
  | flush now =>
      cases hstep
      exact sync_numbered h _ now
  | setRollSize | setDelLogFileDays =>
      cases hstep
      exact h.of_sub rfl rfl (fun _ _ hi => hi) rfl rfl rfl

theorem start_numbered (naming : Naming) (disk : Disk) (now : DateTime)
    (hnew : ∀ r ∈ (start naming disk now true).rolled, naming.New disk r) :
    Numbered naming disk (start naming disk now true) := by
  refine rollFile_numbered ?_ ?_ 0 now hnew
  · exact ⟨rfl, rfl, fun _ _ => .inl, nofun, List.forall_mem_nil _, .nil⟩
  · exact ⟨.nil, List.forall_mem_nil _, .nil, List.forall_mem_nil _⟩

/-! ## The archive -/

theorem unwritten_sync (h : w.unwritten = []) (k : Nat) (now : DateTime) :
    (w.sync k now).unwritten = [] := by
  unfold World.sync
  split
  next name i buffer hfile =>
    have hempty : buffer = [] := by simpa [World.unwritten, hfile] using h
    simp [World.unwritten, hempty]
  next => exact h

theorem unwritten_flushLogFile (w : World) (now : DateTime) : (w.flushLogFile now).unwritten = [] := by
  unfold World.flushLogFile World.sync
  split
  next name i buffer hfile => simp [World.unwritten, World.buffered, hfile]
  next hnone =>
    unfold World.unwritten
    split
    next name i buffer hfile => exact absurd hfile (hnone name i buffer)
    next => rfl

/-- A name of a roll leads to the file of this roll, or nowhere once the file is removed. -/
theorem Numbered.inode_of_name (h : Numbered n d w) (hnew : ∀ r ∈ w.rolled, n.New d r)
    (hnames : (w.rolled.map fun r => n.rollName r.1 r.2).Nodup) {k i : Nat} {r : DateTime × Int}
    (hk : w.rolled[k]? = some r) (hi : w.disk.names (n.rollName r.1 r.2) = some i) :
    i = d.next + k := by
  rcases h.names _ i hi with hold | ⟨k', r', hk', rfl, heq⟩
  · rw [(hnew r (List.mem_of_getElem? hk)).2] at hold
    cases hold
  · have hlen := (List.getElem?_eq_some_iff.mp hk).1
    have hsame : (w.rolled.map fun r => n.rollName r.1 r.2)[k]? =
        (w.rolled.map fun r => n.rollName r.1 r.2)[k']? := by
      rw [List.getElem?_map, List.getElem?_map, hk, hk', Option.map_some, Option.map_some, heq]
    rw [(List.getElem?_inj (by simpa using hlen) hnames).mp hsame]

theorem unwritten_reopen (w : World) (name : List Char) (now : DateTime) (opens : Bool) :
    (w.reopen name now opens).unwritten = [] := by
  unfold World.reopen
  dsimp only
  split
  · split <;> rfl
  · rfl

theorem start_fresh (naming : Naming) (disk : Disk) (now : DateTime) (opens : Bool) :
    (start naming disk now opens).entries = [] ∧ (start naming disk now opens).unwritten = [] := by
  constructor
  · rcases rollFile_cases { naming := naming, disk := disk, clock := now } 0 now opens with
      ⟨-, disk, heq⟩ | ⟨-, disk, file, heq⟩ <;> exact congrArg World.entries heq
  · unfold start World.rollFile
    rw [if_neg fun h : (0 : Int) ≠ 0 => h rfl]
    dsimp only
    split
    · exact unwritten_reopen _ _ now opens
    · rfl

/-- What the messages for the files come to. -/
theorem messages_eq (h : Numbered n d w) (hwhole : w.Whole) :
    w.entries.flatMap Entry.message = (List.range' d.next w.rolled.length).flatMap w.written := by
  have hgroups : ((List.range' d.next w.rolled.length).flatMap fun i =>
      w.entries.filter fun e => e.inode.getD 0 = i) = w.entries :=
    flatMap_groups (List.pairwise_lt_range' ..) ?_ ?_
  · conv_lhs => rw [← hgroups]
    rw [List.flatMap_assoc]
    apply List.flatMap_congr
    intro i hi
    unfold World.written
    congr 1
    apply List.filter_congr
    intro e he
    obtain ⟨j, hj⟩ := Option.ne_none_iff_exists'.mp (hwhole.2 e he)
    simp [hj]
  · refine h.sorted.imp_of_mem fun {e e'} he he' hle => ?_
    obtain ⟨i, hi⟩ := Option.ne_none_iff_exists'.mp (hwhole.2 e he)
    obtain ⟨j, hj⟩ := Option.ne_none_iff_exists'.mp (hwhole.2 e' he')
    rw [hi, hj]
    exact hle i j hi hj
  · intro e he
    obtain ⟨i, hi⟩ := Option.ne_none_iff_exists'.mp (hwhole.2 e he)
    have hrange := h.entries e he i hi
    rw [h.next] at hrange
    rw [hi, List.mem_range'_1]
    exact hrange

theorem archive_eq (hkept : Kept d w) (h : Numbered n d w) (hwhole : w.Whole) :
    w.entries.flatMap Entry.message = w.archive d ++ w.unwritten := by
  have hwritten : ∀ i ∈ List.range' d.next w.rolled.length,
      w.written i = (w.disk.inodes i).content ++ w.pending i := by
    intro i hi
    obtain ⟨hge, hlt⟩ := List.mem_range'_1.mp hi
    have hbefore : d.before i = [] := if_neg (Nat.not_lt.mpr hge)
    rw [hkept.bytes i (by rw [h.next]; exact hlt), hbefore, List.nil_append]
  rw [messages_eq h hwhole, List.flatMap_congr hwritten]
  unfold World.archive
  rcases hwhole.1 with hnone | hopened
  · simp [World.pending, World.unwritten, hnone]
  · -- the buffer is that of the last file
    obtain ⟨i, hi⟩ := Option.isSome_iff_exists.mp hopened
    obtain ⟨f, hf, hfi⟩ := Option.bind_eq_some_iff.mp hi
    obtain ⟨hge, hlast⟩ := h.file i hi
    rw [h.next] at hlast
    obtain ⟨m, hm⟩ : ∃ m, w.rolled.length = m + 1 := ⟨w.rolled.length - 1, by omega⟩
    have hpending : ∀ j, w.pending j = if i = j then f.buffer else [] := by
      intro j
      simp [World.pending, hf, hfi]
    have hi' : i = d.next + m := by omega
    rw [hm, List.range'_1_concat, List.flatMap_append, List.flatMap_append, List.flatMap_singleton,
      List.flatMap_singleton, hpending, if_pos hi']
    have hearlier : ((List.range' d.next m).flatMap fun j => (w.disk.inodes j).content ++ w.pending j) =
        (List.range' d.next m).flatMap fun j => (w.disk.inodes j).content := by
      apply List.flatMap_congr
      intro j hj
      have hlt := (List.mem_range'_1.mp hj).2
      rw [hpending, if_neg (by omega), List.append_nil]
    rw [hearlier, ← List.append_assoc]
    congr 1
    obtain ⟨name, inode, buffer⟩ := f
    obtain rfl : inode = some i := hfi
    simp [World.unwritten, hf]

/-! ## Runs -/

/-- What a run with opens that succeed keeps. -/
structure Archived (n : Naming) (d : Disk) (w : World) : Prop where
  kept : Kept d w
  ordered : Ordered w
  whole : w.Whole
  numbered : (∀ r ∈ w.rolled, n.New d r) → Numbered n d w

theorem start_archived (naming : Naming) (disk : Disk) (now : DateTime) :
    Archived naming disk (start naming disk now true) where
  kept := start_kept naming now true
  ordered := start_ordered naming disk now true
  whole := start_whole naming disk now
  numbered := start_numbered naming disk now

theorem step_archived {a : Action} (ha : a.Opens) (h : Archived n d w) (hstep : step w a = some w') :
    Archived n d w' where
  kept := step_kept h.kept hstep
  ordered := step_ordered h.ordered hstep
  whole := step_whole w a w' ha h.whole hstep
  numbered hnew := by
    have hbefore : ∀ r ∈ w.rolled, n.New d r := fun r hr =>
      hnew r ((step_rolled hstep).subset hr)
    exact step_numbered ha (h.numbered hbefore) h.ordered hstep hnew

end Youth.Utils.LogFile
