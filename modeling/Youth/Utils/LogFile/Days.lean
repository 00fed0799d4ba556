/-
  Youth.Utils.LogFile.Days

  Under which name and on which day a message is filed.

  A roll needs a new second, and the time stands in front of the name, so the names of the
  files are in the order of the rolls (`rollNames_sorted`).  With a clock that does not go
  back, a message is in a file that was opened on its day, and a file that is too long is
  only added to in the second in which it was opened (`filed_by_day`).
-/

import Youth.Utils.LogFile.Kept

namespace Youth.Utils.LogFile

open Youth.Lib Youth.Lib.TimeFormat Youth.Core Youth.Core.DateTime

variable {w w' : World}

/-! ## Names -/

theorem append_left_lt_iff (xs : List Char) {ys zs : List Char} : xs ++ ys < xs ++ zs ↔ ys < zs := by
  induction xs with
  | nil => exact Iff.rfl
  | cons x xs ih =>
      rw [List.cons_append, List.cons_append, List.cons_lt_cons_iff, ih]
      simp

/-- What follows the time in the name of a file. -/
def Naming.tail (n : Naming) (count : Int) : List Char :=
  n.hostname ++ '.' :: formatNat n.pid ++ ['.', 'l', 'o', 'g'] ++
    if count ≠ 0 then snprintf 32 ('.' :: formatInt count) else []

theorem rollName_eq {n : Naming} {now : DateTime} (h : Near (n.zone.date (secondsSinceEpoch now)).index)
    (count : Int) : n.rollName now count = n.basename ++
      (format (n.zone.localtime (secondsSinceEpoch now)).fields nameFormat ++ n.tail count) := by
  have htext : DateTime.toString n.zone now nameFormat =
      some (format (n.zone.localtime (secondsSinceEpoch now)).fields nameFormat) :=
    toString_eq h (by decide)
  unfold Naming.rollName Naming.getFileName Naming.tail
  rw [htext, Option.getD_some]
  split <;> simp

/-- The name of a later second is behind, whatever the counts are. -/
theorem rollName_lt {n : Naming} {now later : DateTime} {count count' : Int}
    (h : Near (n.zone.date (secondsSinceEpoch now)).index)
    (h' : Near (n.zone.date (secondsSinceEpoch later)).index)
    (hlt : secondsSinceEpoch now < secondsSinceEpoch later) :
    n.rollName now count < n.rollName later count' := by
  rw [rollName_eq h, rollName_eq h', append_left_lt_iff,
    format_append_lt (localtime_inRange h) (localtime_inRange h'),
    show nameFormat.filterMap Item.field? = descending from rfl, fieldsLt_localtime h h']
  exact .inl hlt

theorem Ordered.rollNames (h : Ordered w) {n : Naming}
    (hnear : ∀ r ∈ w.rolled, Near (n.zone.date (secondsSinceEpoch r.1)).index) :
    (w.rolled.map fun r => n.rollName r.1 r.2).Pairwise (· < ·) := by
  rw [List.pairwise_map]
  refine h.rolled.imp_of_mem fun hr hr' hlt => ?_
  exact rollName_lt (hnear _ hr) (hnear _ hr') hlt

/-- In a zone of fixed offset and the years that the clock can represent, the names of the files
    are in the order of the rolls, so no two are the same, whatever the readings of the clock
    are. -/
theorem rollNames_sorted (naming : Naming) (disk : Disk) (now : DateTime) (opens : Bool)
    (acts : List Action) (w : World) (hrun : run step (start naming disk now opens) acts = some w)
    (hnear : ∀ r ∈ w.rolled, Near (naming.zone.date (secondsSinceEpoch r.1)).index) :
    (w.rolled.map fun r => naming.rollName r.1 r.2).Pairwise (· < ·) := by
  have hordered : Ordered w :=
    run_invariant (fun _ _ _ => step_ordered) (start_ordered naming disk now opens) hrun
  exact hordered.rollNames hnear

theorem rollNames_sorted_midnight :
    ∃ w, run step (start sampleNaming emptyDisk 86399000000 true) midnightActions = some w ∧
      (w.rolled.map fun r => sampleNaming.rollName r.1 r.2).Pairwise (· < ·) := by
  obtain ⟨w, hw, -, -, -, -, hrolled, -⟩ := exists_midnight
  refine ⟨w, hw, rollNames_sorted sampleNaming emptyDisk _ true _ w hw ?_⟩
  rw [hrolled]
  simp only [List.forall_mem_cons, List.not_mem_nil, false_imp_iff, implies_true, and_true]
  exact ⟨⟨by decide, by decide⟩, ⟨by decide, by decide⟩⟩

/-! ## Days -/

/-- A clock that does not go back. -/
def Forward (w : World) : Action → Prop
  | .output _ now later _ => w.clock ≤ now ∧ now ≤ later
  | _ => True

instance (w : World) : (a : Action) → Decidable (Forward w a)
  | .output _ now later _ => inferInstanceAs (Decidable (w.clock ≤ now ∧ now ≤ later))
  | .sync .. | .flush _ | .setRollSize _ | .setDelLogFileDays _ => isTrue trivial

/-- What the clock has to do with the file, if there is one. -/
structure Timed (w : World) : Prop where
  startTime : w.startTime = period w.lastRoll
  lastRoll : w.lastRoll ≤ secondsSinceEpoch w.clock

/-- The file is one of the day of the message, or of the next day if that begins while the
    message is written; a file that is too long was opened in this second. -/
structure Entry.Filed (e : Entry) : Prop where
  day : period (secondsSinceEpoch e.now) ≤ period e.opened ∧
    period e.opened ≤ period (secondsSinceEpoch e.later)
  size : e.rollSize < e.size → e.opened = secondsSinceEpoch e.later

theorem secondsSinceEpoch_mono {t u : DateTime} (h : t ≤ u) :
    secondsSinceEpoch t ≤ secondsSinceEpoch u := Int.tdiv_le_tdiv (by decide) h

theorem period_mono {s t : Int} (h : s ≤ t) : period s ≤ period t :=
  Int.mul_le_mul_of_nonneg_right (Int.tdiv_le_tdiv (by decide) h) (by decide)

/-- A message is filed well, and the file stays timed. -/
theorem outputLogFile_filed (h : Timed w) (f : File) (msg : List UInt8) {now later : DateTime}
    (hnow : w.clock ≤ now) (hlater : now ≤ later) (opens : Bool) :
    Timed (w.outputLogFile f msg now later opens) ∧
      ∃ e : Entry, (w.outputLogFile f msg now later opens).entries = w.entries ++ [e] ∧ e.Filed := by
  have hclock := h.lastRoll
  have hsecond := secondsSinceEpoch_mono hnow
  have hsecond' := secondsSinceEpoch_mono hlater
  unfold World.outputLogFile
  dsimp only
  rcases rollIfNeeded_cases w (f.size w.disk) now later opens with
    ⟨hwhy, disk, count, heq⟩ | ⟨hnew, disk, file, count, c, heq⟩
  · rw [heq]
    obtain ⟨file, hwrite, -⟩ := write_frame { w with disk := disk, count := count } msg
    rw [hwrite]
    refine ⟨⟨h.startTime, Int.le_trans hclock (Int.le_trans hsecond hsecond')⟩, _, rfl, ?_, ?_⟩
    · rcases hwhy with hold | ⟨-, hperiod⟩
      · exact ⟨period_mono (by dsimp only; omega), period_mono (by dsimp only; omega)⟩
      · -- the file of the day
        rw [h.startTime] at hperiod
        exact ⟨Int.le_of_eq hperiod, period_mono (by dsimp only; omega)⟩
    · intro hsize
      rcases hwhy with hold | ⟨hfits, -⟩
      · dsimp only
        omega
      · exact absurd hsize (Int.not_lt.mpr hfits)
  · rw [heq]
    obtain ⟨file', hwrite, -⟩ := write_frame { w with
      startTime := period (secondsSinceEpoch later), lastRoll := secondsSinceEpoch later
      rolled := w.rolled ++ [(later, c)], disk := disk, file := file, count := count } msg
    rw [hwrite]
    exact ⟨⟨rfl, Int.le_refl _⟩, _, rfl, ⟨period_mono hsecond', Int.le_refl _⟩, fun _ => rfl⟩

/-- Before the first roll there is no file, and nothing is written. -/
def DayInv (w : World) : Prop := (w.file = none ∨ Timed w) ∧ ∀ e ∈ w.entries, e.Filed

theorem sync_dayInv (h : DayInv w) (k : Nat) (now : DateTime) : DayInv (w.sync k now) := by
  unfold World.sync
  split
  next name i buffer hfile =>
    have htimed : Timed w := h.1.resolve_left (by rw [hfile]; exact nofun)
    exact ⟨.inr ⟨htimed.startTime, htimed.lastRoll⟩, h.2⟩
  next => exact h

theorem step_dayInv (w : World) (a : Action) (w' : World) (h : DayInv w) (ha : Forward w a)
    (hstep : step w a = some w') : DayInv w' := by
  cases a with
  | output msg now later opens =>
      obtain ⟨f, hfile, rfl⟩ := Option.map_eq_some_iff.mp hstep
      have htimed : Timed w := h.1.resolve_left (by rw [hfile]; exact nofun)
      obtain ⟨htimed', e, hentries, hfiled⟩ := outputLogFile_filed htimed f msg ha.1 ha.2 opens
      refine ⟨.inr htimed', fun e' he' => ?_⟩
      rw [hentries] at he'
      rcases List.mem_append.mp he' with he' | he'
      · exact h.2 e' he'
      · rw [List.mem_singleton.mp he']
        exact hfiled
  | sync k now =>
      cases hstep
      exact sync_dayInv h k now
  | flush now =>
      cases hstep
      exact sync_dayInv h _ now
  | setRollSize | setDelLogFileDays =>
      cases hstep
      exact ⟨h.1.imp_right fun htimed => ⟨htimed.startTime, htimed.lastRoll⟩, h.2⟩

theorem start_dayInv (naming : Naming) (disk : Disk) (now : DateTime) (opens : Bool) :
    DayInv (start naming disk now opens) := by
  rcases rollFile_cases { naming := naming, disk := disk, clock := now } 0 now opens with
    ⟨-, disk, heq⟩ | ⟨-, disk, file, heq⟩
  · rw [start, heq]
    exact ⟨.inl rfl, List.forall_mem_nil _⟩
  · rw [start, heq]
    exact ⟨.inr ⟨rfl, Int.le_refl _⟩, List.forall_mem_nil _⟩

/-- With a clock that does not go back, every message is filed under its day, and only in the
    second of its opening is a file added to that is longer than `m_rollSize`. -/
theorem filed_by_day (naming : Naming) (disk : Disk) (now : DateTime) (opens : Bool)
    (acts : List Action) (w : World) (hrun : run step (start naming disk now opens) acts = some w)
    (hforward : Along step Forward (start naming disk now opens) acts) :
    ∀ e ∈ w.entries, e.Filed :=
  (run_invariant_along step_dayInv (start_dayInv naming disk now opens) hrun hforward).2

theorem filed_by_day_midnight :
    ∃ w, run step (start sampleNaming emptyDisk 86399000000 true) midnightActions = some w ∧
      (∀ e ∈ w.entries, e.Filed) ∧ w.entries.map Entry.opened = [86399, 86399, 86400] := by
  obtain ⟨w, hw, -, -, -, -, -, hopened⟩ := exists_midnight
  exact ⟨w, hw, filed_by_day sampleNaming emptyDisk _ true _ w hw (by decide +kernel), hopened⟩

end Youth.Utils.LogFile
