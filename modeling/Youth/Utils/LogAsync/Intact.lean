/-
  Youth.Utils.LogAsync.Intact

  When the log loses a line, and that it does nothing else wrong.

  `LogAsync::append` looks for room with `avail()`, which counts all the bytes of a
  buffer; `LogBuffer::append` leaves the last one free.  A line that meets exactly one
  byte more than its length passes the first test and fails the second one: it is in no
  buffer.  Every other line is stored, and the buffers change hands without a loss
  (`stored_step`).  The lost bytes stay lost, so a log is whole iff no line met such a
  buffer.

  The rotation rests on the spare buffers: they are empty, and a round that has given
  both away has written two buffers at least (`Spare`).
-/

import Youth.Lib.Machine
import Youth.Utils.LogAsync.Basic

namespace Youth.Utils

namespace LogBuffer

variable {SIZE : Nat} {b : LogBuffer SIZE} {line : List UInt8}

theorem append_data (h : b.length + line.length + 1 < SIZE) :
    (b.append line).data = b.data ++ line := by
  unfold append
  rw [dif_pos (by omega)]

theorem append_eq_self (h : SIZE ≤ b.length + line.length + 1) : b.append line = b := by
  unfold append
  rw [dif_neg (by omega)]

end LogBuffer

namespace LogAsync

open Youth.Lib

/-- The bytes of a row of buffers. -/
def bytes (buffers : List Buffer) : List UInt8 := buffers.flatMap LogBuffer.data

@[simp] theorem bytes_nil : bytes [] = [] := rfl

@[simp] theorem bytes_cons (b : Buffer) (bs : List Buffer) : bytes (b :: bs) = b.data ++ bytes bs := rfl

@[simp] theorem bytes_append (bs cs : List Buffer) : bytes (bs ++ cs) = bytes bs ++ bytes cs :=
  List.flatMap_append

/-- What is left to write of the batch. -/
def World.rest (s : World) : List Buffer :=
  match s.phase with
  | .top _ _ => []
  | .swapped _ => s.buffersToWrite
  | .writing _ i => s.buffersToWrite.drop i

/-- What was written, the batch being written, the full buffers and the current one. -/
def World.stored (s : World) : List UInt8 :=
  s.output ++ bytes s.rest ++ bytes s.buffers ++ s.currentBuffer.data

/-- The calls with a length in range, and the batches that are not cut off. -/
def Within (s : World) : Action → Prop
  | .append line => 0 < line.length ∧ line.length < maxBuffer - 1
  | .limit => s.buffersToWrite.length ≤ 25
  | _ => True

/-- The two tests for room agree. -/
def Agree (s : World) : Action → Prop
  | .append line => s.currentBuffer.avail ≠ line.length + 1
  | _ => True

instance Within.decidable (s : World) : (a : Action) → Decidable (Within s a)
  | .append line => inferInstanceAs (Decidable (0 < line.length ∧ line.length < maxBuffer - 1))
  | .limit => inferInstanceAs (Decidable (s.buffersToWrite.length ≤ 25))
  | .swap | .write | .recycle => isTrue trivial

instance Agree.decidable (s : World) : (a : Action) → Decidable (Agree s a)
  | .append line => inferInstanceAs (Decidable (s.currentBuffer.avail ≠ line.length + 1))
  | .swap | .limit | .write | .recycle => isTrue trivial

/-- All that a step can do. -/
theorem step_cases {s t : World} {a : Action} (h : step s a = some t) :
    (∃ line, a = .append line ∧ t = append s line) ∨
    (∃ b1 b2, a = .swap ∧ s.phase = .top b1 b2 ∧ t = swap s b1 b2) ∨
    (∃ newBuffer2, a = .limit ∧ s.phase = .swapped newBuffer2 ∧ t = limit s newBuffer2) ∨
    (∃ newBuffer2 i b, a = .write ∧ s.phase = .writing newBuffer2 i ∧
      s.buffersToWrite[i]? = some b ∧
      t = { s with output := s.output ++ b.data, phase := .writing newBuffer2 (i + 1) }) ∨
    (∃ newBuffer2 i b1 b2, a = .recycle ∧ s.phase = .writing newBuffer2 i ∧
      s.buffersToWrite.length ≤ i ∧ recycle s.buffersToWrite newBuffer2 = some (b1, b2) ∧
      t = { s with buffersToWrite := [], phase := .top b1 b2 }) := by
  unfold step at h
  split at h
  next line => exact .inl ⟨line, rfl, (Option.some.inj h).symm⟩
  next b1 b2 hphase => exact .inr (.inl ⟨b1, b2, rfl, hphase, (Option.some.inj h).symm⟩)
  next newBuffer2 hphase =>
    exact .inr (.inr (.inl ⟨newBuffer2, rfl, hphase, (Option.some.inj h).symm⟩))
  next newBuffer2 i hphase =>
    split at h
    next b hb =>
      exact .inr (.inr (.inr (.inl ⟨newBuffer2, i, b, rfl, hphase, hb, (Option.some.inj h).symm⟩)))
    next => cases h
  next newBuffer2 i hphase =>
    split at h
    next hdone =>
      split at h
      next b1 b2 hrecycle =>
        exact .inr (.inr (.inr (.inr
          ⟨newBuffer2, i, b1, b2, rfl, hphase, hdone, hrecycle, (Option.some.inj h).symm⟩)))
      next => cases h
    next => cases h
  next => cases h

/-! ## The spare buffers -/

/-- What the log thread holds besides the batch. -/
def Phase.Spare (batch : List Buffer) : Phase → Prop
  | .top newBuffer1 newBuffer2 => newBuffer1 = .empty ∧ newBuffer2 = .empty
  | .swapped newBuffer2 | .writing newBuffer2 _ =>
    (∀ b, newBuffer2 = some b → b = .empty) ∧ batch ≠ [] ∧ (newBuffer2 = none → 2 ≤ batch.length)

structure Spare (s : World) : Prop where
  next : ∀ b, s.nextBuffer = some b → b = .empty
  used : s.nextBuffer = none → s.buffers ≠ []
  phase : s.phase.Spare s.buffersToWrite

variable {s t : World} {a : Action}

theorem append_spare (line : List UInt8) (h : Spare s) : Spare (append s line) := by
  unfold append
  dsimp only
  split
  · exact ⟨h.next, h.used, h.phase⟩
  · exact ⟨nofun, by simp, h.phase⟩

theorem swap_spare {b1 b2 : Buffer} (h : Spare s) (hphase : s.phase = .top b1 b2) :
    Spare (swap s b1 b2) := by
  obtain ⟨rfl, rfl⟩ : b1 = .empty ∧ b2 = .empty := by
    have := h.phase
    rwa [hphase] at this
  unfold swap
  dsimp only
  split
  next b hnext =>
    refine ⟨h.next, fun hnone => ?_, fun b hb => (Option.some.inj hb).symm, by simp, nofun⟩
    rw [hnext] at hnone
    cases hnone
  next hnext =>
    refine ⟨fun b hb => (Option.some.inj hb).symm, nofun, nofun, by simp, fun _ => ?_⟩
    -- the next buffer was used, so a full buffer is in front of the current one
    have hpos := List.length_pos_iff.mpr (h.used hnext)
    rw [List.length_append, List.length_singleton]
    omega

theorem limit_spare {newBuffer2 : Option Buffer} (h : Spare s)
    (hphase : s.phase = .swapped newBuffer2) : Spare (limit s newBuffer2) := by
  have hspare := h.phase
  rw [hphase] at hspare
  obtain ⟨hempty, hne, htwo⟩ := hspare
  unfold limit
  split
  · refine ⟨h.next, h.used, hempty, ?_, fun hnone => ?_⟩
    · simpa using hne
    · rw [List.length_take]
      have := htwo hnone
      omega
  · exact ⟨h.next, h.used, hempty, hne, htwo⟩

theorem recycle_spare {batch : List Buffer} {newBuffer2 : Option Buffer} {b1 b2 : Buffer}
    (hempty : ∀ b, newBuffer2 = some b → b = .empty) (h : recycle batch newBuffer2 = some (b1, b2)) :
    b1 = .empty ∧ b2 = .empty := by
  unfold recycle at h
  dsimp only at h
  split at h
  · cases h
    exact ⟨rfl, hempty _ rfl⟩
  · cases h
    exact ⟨rfl, rfl⟩
  · cases h

/-- The written buffers are enough for the next round. -/
theorem recycle_isSome {batch : List Buffer} {newBuffer2 : Option Buffer} (hne : batch ≠ [])
    (htwo : newBuffer2 = none → 2 ≤ batch.length) : (recycle batch newBuffer2).isSome = true := by
  match batch, newBuffer2 with
  | [], _ => exact absurd rfl hne
  | [b], none => exact absurd (htwo rfl) (by simp)
  | [b], some b2 => rfl
  | b :: c :: bs, none => rfl
  | b :: c :: bs, some b2 => rfl

theorem step_spare (h : Spare s) (hstep : step s a = some t) : Spare t := by
  rcases step_cases hstep with ⟨line, rfl, rfl⟩ | ⟨b1, b2, rfl, hphase, rfl⟩ |
    ⟨newBuffer2, rfl, hphase, rfl⟩ | ⟨newBuffer2, i, b, rfl, hphase, -, rfl⟩ |
    ⟨newBuffer2, i, b1, b2, rfl, hphase, -, hrecycle, rfl⟩
  · exact append_spare line h
  · exact swap_spare h hphase
  · exact limit_spare h hphase
  · have hspare := h.phase
    rw [hphase] at hspare
    exact ⟨h.next, h.used, hspare⟩
  · have hspare := h.phase
    rw [hphase] at hspare
    exact ⟨h.next, h.used, recycle_spare hspare.1 hrecycle⟩

theorem spare_start (startTime : List Char) : Spare { startTime := startTime } :=
  ⟨fun _ hb => (Option.some.inj hb).symm, nofun, rfl, rfl⟩

/-- When its batch is written, the log thread finds the buffers for the next round. -/
theorem recycle_enabled {startTime : List Char} {actions : List Action}
    {newBuffer2 : Option Buffer} {i : Nat} (h : run step { startTime := startTime } actions = some s)
    (hphase : s.phase = .writing newBuffer2 i) (hdone : s.buffersToWrite.length ≤ i) :
    (step s .recycle).isSome = true := by
  have hspare := (run_invariant (I := Spare) (fun _ _ _ => step_spare) (spare_start startTime) h).phase
  rw [hphase] at hspare
  obtain ⟨⟨b1, b2⟩, hrecycle⟩ := Option.isSome_iff_exists.mp (recycle_isSome hspare.2.1 hspare.2.2)
  simp [step, hphase, hdone, hrecycle]

/-! ## What the steps store -/

/-- The line that a step appends. -/
def Action.line : Action → List UInt8
  | .append line => line
  | _ => []

theorem appended_step (h : step s a = some t) : t.appended = s.appended ++ a.line := by
  rcases step_cases h with ⟨line, rfl, rfl⟩ | ⟨b1, b2, rfl, -, rfl⟩ | ⟨newBuffer2, rfl, -, rfl⟩ |
    ⟨newBuffer2, i, b, rfl, -, -, rfl⟩ | ⟨newBuffer2, i, b1, b2, rfl, -, -, -, rfl⟩
  · unfold append
    dsimp only
    split <;> rfl
  · unfold swap
    dsimp only
    split <;> exact (List.append_nil _).symm
  · unfold limit
    split <;> exact (List.append_nil _).symm
  · exact (List.append_nil _).symm
  · exact (List.append_nil _).symm

theorem rest_append (line : List UInt8) : (append s line).rest = s.rest := by
  unfold append
  dsimp only
  split <;> rfl

/-- A line is stored iff the two tests agree on it. -/
theorem stored_append {line : List UInt8} (h : Spare s) (hline : line.length < maxBuffer - 1) :
    (append s line).stored = s.stored ++ if Agree s (.append line) then line else [] := by
  have hlen : s.currentBuffer.length ≤ maxBuffer := s.currentBuffer.inRange
  unfold World.stored
  rw [rest_append]
  unfold append
  dsimp only
  split
  next hroom =>
    -- `avail()` says that the line fits; the buffer itself wants one byte more
    unfold LogBuffer.avail at hroom
    by_cases hagree : Agree s (.append line)
    · rw [if_pos hagree]
      have hne : maxBuffer - s.currentBuffer.length ≠ line.length + 1 := hagree
      rw [LogBuffer.append_data (by omega), List.append_assoc _ s.currentBuffer.data]
    · rw [if_neg hagree]
      have heq : maxBuffer - s.currentBuffer.length = line.length + 1 := Decidable.not_not.mp hagree
      rw [LogBuffer.append_eq_self (by omega), List.append_nil]
  next hroom =>
    -- a buffer that is empty takes every line of an admitted length
    unfold LogBuffer.avail at hroom
    have hagree : Agree s (.append line) := by
      show maxBuffer - s.currentBuffer.length ≠ line.length + 1
      omega
    have hfresh : s.nextBuffer.getD .empty = .empty := by
      cases hnext : s.nextBuffer with
      | none => rfl
      | some b => exact h.next b hnext
    have hempty : (LogBuffer.empty : Buffer).length = 0 := rfl
    rw [if_pos hagree, hfresh, LogBuffer.append_data (by omega)]
    simp [LogBuffer.empty]

theorem stored_step (h : Spare s) (hw : Within s a) (hstep : step s a = some t) :
    t.stored = s.stored ++ if Agree s a then a.line else [] := by
  rcases step_cases hstep with ⟨line, rfl, rfl⟩ | ⟨b1, b2, rfl, hphase, rfl⟩ |
    ⟨newBuffer2, rfl, hphase, rfl⟩ | ⟨newBuffer2, i, b, rfl, hphase, hb, rfl⟩ |
    ⟨newBuffer2, i, b1, b2, rfl, hphase, hdone, -, rfl⟩
  · exact stored_append h hw.2
  · have hspare := h.phase
    rw [hphase] at hspare
    obtain ⟨rfl, -⟩ := hspare
    unfold swap
    dsimp only
    split <;> simp [World.stored, World.rest, hphase, Action.line, LogBuffer.empty]
  · have hfew : ¬s.buffersToWrite.length > 25 := Nat.not_lt.mpr hw
    unfold limit
    rw [if_neg hfew]
    simp [World.stored, World.rest, hphase, Action.line]
  · -- the buffer written moves from the batch to the output
    obtain ⟨hi, hget⟩ := List.getElem?_eq_some_iff.mp hb
    have hdrop := List.drop_eq_getElem_cons hi
    rw [hget] at hdrop
    simp [World.stored, World.rest, hphase, Action.line, hdrop]
  · simp [World.stored, World.rest, hphase, Action.line, List.drop_eq_nil_of_le hdone]

/-! ## Runs -/

/-- A run with lines in range and no batch cut off: what is written, the batch, the full
    buffers and the current one are the lines appended iff no line met a buffer with
    exactly one byte more than its length available. -/
theorem stored_eq_appended_iff (startTime : List Char) (actions : List Action) (s : World)
    (h : run step { startTime := startTime } actions = some s)
    (hw : Along step Within { startTime := startTime } actions) :
    s.output ++ bytes s.rest ++ bytes s.buffers ++ s.currentBuffer.data = s.appended ↔
      Along step Agree { startTime := startTime } actions := by
  have hrun := run_iff_along_within (J := Spare) (I := fun s => s.stored = s.appended)
    (G := fun s => s.appended.length ≤ s.stored.length) (D := Within) (P := Agree)
    ?_ ?_ ?_ ?_ ?_ (spare_start startTime) rfl h hw
  · exact ⟨fun hs => hrun.1.mp (Nat.le_of_eq (congrArg List.length hs.symm)), hrun.2⟩
  · intro s a t hs _ hstep
    exact step_spare hs hstep
  · intro s hs
    exact Nat.le_of_eq (congrArg List.length hs.symm)
  · intro s a t hs hI hw hagree hstep
    rw [stored_step hs hw hstep, if_pos hagree, appended_step hstep, hI]
  · intro s a t hs hI hw hagree hstep hle
    rw [stored_step hs hw hstep, if_neg hagree, appended_step hstep, hI, List.append_nil,
      List.length_append] at hle
    -- only an append can fall between the two tests, and its line is not empty
    cases a with
    | append line =>
        have hline : 0 < line.length := hw.1
        change s.appended.length + line.length ≤ s.appended.length at hle
        omega
    | swap | limit | write | recycle => exact hagree trivial
  · intro s a t hs hw hstep hle
    rw [stored_step hs hw hstep, appended_step hstep, List.length_append, List.length_append] at hle
    have : (if Agree s a then a.line else []).length ≤ a.line.length := by
      split
      · exact Nat.le_refl _
      · exact Nat.zero_le _
    omega

/-- Two lines, and a round of the log thread between them. -/
def oneRound : List Action := [.append [1, 2], .swap, .limit, .append [3], .write, .recycle]

theorem stored_eq_appended_iff_oneRound :
    ∃ s, run step { startTime := [] } oneRound = some s ∧
      Along step Within { startTime := [] } oneRound ∧
      s.output ++ bytes s.rest ++ bytes s.buffers ++ s.currentBuffer.data = s.appended := by
  obtain ⟨s, hrun⟩ : ∃ s, run step { startTime := [] } oneRound = some s := ⟨_, rfl⟩
  have hw : Along step Within { startTime := [] } oneRound := by decide
  exact ⟨s, hrun, hw, (stored_eq_appended_iff [] oneRound s hrun hw).mpr (by decide)⟩

/-- Behind a line of one byte, this one finds one byte more than its length. -/
def lostLine : List UInt8 := List.replicate 3999998 0

theorem lostLine_not_stored :
    ∃ s, run step {} [.append [0], .append lostLine] = some s ∧
      Along step Within {} [.append [0], .append lostLine] ∧
      s.output ++ bytes s.rest ++ bytes s.buffers ++ s.currentBuffer.data ≠ s.appended := by
  have hlen : lostLine.length = 3999998 := List.length_replicate
  have hw : Within (append {} [0]) (.append lostLine) := by
    show 0 < lostLine.length ∧ lostLine.length < maxBuffer - 1
    rw [hlen]
    decide
  have hw0 : Within {} (.append [0]) := by decide
  have hdisagree : ¬Agree (append {} [0]) (.append lostLine) := by
    show ¬(append {} [0]).currentBuffer.avail ≠ lostLine.length + 1
    rw [hlen]
    decide
  refine ⟨append (append {} [0]) lostLine, rfl, ?_, fun heq => ?_⟩
  · refine ⟨hw0, fun t ht => ?_⟩
    cases ht
    exact ⟨hw, fun _ _ => trivial⟩
  · have hstored := stored_append (append_spare [0] (spare_start [])) hw.2
    have happended : (append (append {} [0]) lostLine).appended = [0] ++ lostLine :=
      appended_step (a := .append lostLine) rfl
    have hone : (append {} [0]).stored = [0] := by decide
    rw [if_neg hdisagree, List.append_nil, hone] at hstored
    have hlength := congrArg List.length (hstored.symm.trans (heq.trans happended))
    rw [List.length_append, hlen] at hlength
    cases hlength

end LogAsync
end Youth.Utils
