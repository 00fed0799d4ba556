/-
  Youth.Utils.LogAsync.Flush

  What `stop()` leaves in the buffers.

  The log thread collects the buffers once more after `stop()` only if it has already
  passed its test of `m_running`: then the swap is still to come, and everything appended
  before goes out with it.  At the test, or in a round whose swap is over, it leaves the
  loop with the full buffers and the current one unwritten.  `stop_flushes_iff` says that
  this, and the lines that `append` itself loses, are exactly what can be missing when
  `stop()` returns.
-/

import Youth.Utils.LogAsync.Stop

namespace Youth.Utils
namespace LogAsync
open Youth.Lib

/-- Past the test of `m_running`, with the swap still to come. -/
def Place.collects : Place → Bool
  | .enter => true
  | .waiting => true
  | .collect => true
  | _ => false

/-- The line that a move appends. -/
def Move.line : Move → List UInt8
  | .append line _ => line
  | _ => []

namespace Logger

variable {s t : Logger} {m : Move}

/-- Lines shorter than `maxBuffer - 1`, and batches of at most 25 buffers. -/
def InRange (s : Logger) : Move → Prop
  | .append line _ => line.length < maxBuffer - 1
  | .lock => s.log.buffers.length < 25
  | .collect => s.log.buffers.length < 25
  | _ => True

/-- The line does not fall between the two tests for room. -/
def Lossless (s : Logger) : Move → Prop
  | .append line _ => s.log.currentBuffer.avail ≠ line.length + 1 ∨ line = []
  | _ => True

/-- The batch in work was in range when it was collected. -/
def SmallBatch (s : Logger) : Prop := s.thread = .write → s.log.buffersToWrite.length ≤ 25

/-- A log thread that is woken still has its swap to come. -/
theorem notifyOne_collects (u : Logger) (toStop : Bool) :
    (u.notifyOne toStop).thread.collects = u.thread.collects := by
  rcases notifyOne_cases u toStop with ⟨-, heq⟩ | ⟨hwaiting, heq⟩ | ⟨-, -, heq⟩
  · rw [heq]
  · rw [heq, hwaiting]
    rfl
  · rw [heq]

/-! ## What the moves do to the log -/

/-- Moves other than `append` bring no line, and lose none. -/
theorem line_of_not_append (s : Logger) (h : ∀ line toStop, m ≠ .append line toStop) :
    m.line = [] ∧ Lossless s m := by
  cases m with
  | append line toStop => exact absurd rfl (h line toStop)
  | _ => exact ⟨rfl, trivial⟩

/-- A move appends a line, or takes a step of the log thread in range, or leaves the log
    alone. -/
theorem log_move (hbatch : SmallBatch s) (h : s.step m = some t) :
    (∃ line toStop, m = .append line toStop ∧ t.log = LogAsync.append s.log line) ∨
    (∀ line toStop, m ≠ .append line toStop) ∧
      ((∃ a, LogAsync.step s.log a = some t.log ∧ Within s.log a ∧ a.line = []) ∨
        t.log = s.log) := by
  cases step_moves h with
  | append line toStop hroom => exact .inl ⟨line, toStop, rfl, rfl⟩
  | appendNotify line toStop hroom => exact .inl ⟨line, toStop, rfl, notifyOne_log _ _⟩
  | lock log hthread hne hlog => exact .inr ⟨by simp, .inl ⟨.swap, hlog, trivial, rfl⟩⟩
  | collect log hthread hlog => exact .inr ⟨by simp, .inl ⟨.swap, hlog, trivial, rfl⟩⟩
  | limit log hthread hlog => exact .inr ⟨by simp, .inl ⟨.limit, hlog, hbatch hthread, rfl⟩⟩
  | write log hthread hlog => exact .inr ⟨by simp, .inl ⟨.write, hlog, trivial, rfl⟩⟩
  | recycle log hthread hlog => exact .inr ⟨by simp, .inl ⟨.recycle, hlog, trivial, rfl⟩⟩
  | lastNotify hthread => exact .inr ⟨by simp, .inr (notifyOne_log _ _)⟩
  | notify hstop => exact .inr ⟨by simp, .inr (notifyOne_log _ _)⟩
  | _ => exact .inr ⟨by simp, .inr rfl⟩

theorem appended_move (hbatch : SmallBatch s) (h : s.step m = some t) :
    t.log.appended = s.log.appended ++ m.line := by
  rcases log_move hbatch h with ⟨line, toStop, rfl, hlog⟩ | ⟨hm, ⟨a, hlog, -, ha⟩ | hlog⟩
  · rw [hlog]
    exact appended_step (a := .append line) rfl
  · rw [appended_step hlog, ha, (line_of_not_append s hm).1]
  · rw [hlog, (line_of_not_append s hm).1, List.append_nil]

/-- A step of the log thread stores nothing new and loses nothing. -/
theorem stored_act {log log' : World} {a : Action} (hspare : Spare log) (hw : Within log a)
    (ha : a.line = []) (h : LogAsync.step log a = some log') : log'.stored = log.stored := by
  rw [stored_step hspare hw h, ha]
  split <;> exact List.append_nil _

/-- A line is stored, or falls between the two tests and is not; nothing else changes what is
    stored. -/
theorem stored_move (hs : Inv s) (hbatch : SmallBatch s) (hrange : InRange s m)
    (h : s.step m = some t) :
    (Lossless s m ∧ t.log.stored = s.log.stored ++ m.line) ∨
    (¬Lossless s m ∧ 0 < m.line.length ∧ t.log.stored = s.log.stored) := by
  rcases log_move hbatch h with ⟨line, toStop, rfl, hlog⟩ | ⟨hm, hlog⟩
  · have hstored := stored_append hs.spare hrange
    rw [← hlog] at hstored
    by_cases hroom : Agree s.log (.append line)
    · rw [if_pos hroom] at hstored
      exact .inl ⟨.inl hroom, hstored⟩
    · rw [if_neg hroom, List.append_nil] at hstored
      by_cases hnil : line = []
      · subst hnil
        exact .inl ⟨.inr rfl, hstored.trans (List.append_nil _).symm⟩
      · exact .inr ⟨not_or.mpr ⟨hroom, hnil⟩, List.length_pos_iff.mpr hnil, hstored⟩
  · obtain ⟨hline, hkept⟩ := line_of_not_append s hm
    refine .inl ⟨hkept, ?_⟩
    rw [hline, List.append_nil]
    rcases hlog with ⟨a, hlog, hw, ha⟩ | hlog
    · exact stored_act hs.spare hw ha hlog
    · rw [hlog]

theorem stored_mono (hs : Inv s) (hbatch : SmallBatch s) (hrange : InRange s m)
    (h : s.step m = some t) : s.log.stored <+: t.log.stored := by
  rcases stored_move hs hbatch hrange h with ⟨-, heq⟩ | ⟨-, -, heq⟩
  · exact ⟨m.line, heq.symm⟩
  · exact ⟨[], (List.append_nil _).trans heq.symm⟩

/-! ## The steps of the log thread, one by one -/

section steps

variable {log log' : World}

theorem of_swap (h : LogAsync.step log .swap = some log') :
    ∃ b1 b2, log.phase = .top b1 b2 ∧ log' = swap log b1 b2 := by
  rcases step_cases h with ⟨line, ha, -⟩ | ⟨b1, b2, -, hphase, heq⟩ | ⟨newBuffer2, ha, -⟩ |
    ⟨newBuffer2, i, b, ha, -⟩ | ⟨newBuffer2, i, b1, b2, ha, -⟩
  · cases ha
  · exact ⟨b1, b2, hphase, heq⟩
  · cases ha
  · cases ha
  · cases ha

theorem of_limit (h : LogAsync.step log .limit = some log') :
    ∃ newBuffer2, log.phase = .swapped newBuffer2 ∧ log' = LogAsync.limit log newBuffer2 := by
  rcases step_cases h with ⟨line, ha, -⟩ | ⟨b1, b2, ha, -⟩ | ⟨newBuffer2, -, hphase, heq⟩ |
    ⟨newBuffer2, i, b, ha, -⟩ | ⟨newBuffer2, i, b1, b2, ha, -⟩
  · cases ha
  · cases ha
  · exact ⟨newBuffer2, hphase, heq⟩
  · cases ha
  · cases ha

theorem of_write (h : LogAsync.step log .write = some log') :
    ∃ newBuffer2 i b, log.phase = .writing newBuffer2 i ∧ log.buffersToWrite[i]? = some b ∧
      log' = { log with output := log.output ++ b.data, phase := .writing newBuffer2 (i + 1) } := by
  rcases step_cases h with ⟨line, ha, -⟩ | ⟨b1, b2, ha, -⟩ | ⟨newBuffer2, ha, -⟩ |
    ⟨newBuffer2, i, b, -, hphase, hb, heq⟩ | ⟨newBuffer2, i, b1, b2, ha, -⟩
  · cases ha
  · cases ha
  · cases ha
  · exact ⟨newBuffer2, i, b, hphase, hb, heq⟩
  · cases ha

theorem of_recycle (h : LogAsync.step log .recycle = some log') :
    ∃ newBuffer2 i b1 b2, log.phase = .writing newBuffer2 i ∧ log.buffersToWrite.length ≤ i ∧
      log' = { log with buffersToWrite := [], phase := .top b1 b2 } := by
  rcases step_cases h with ⟨line, ha, -⟩ | ⟨b1, b2, ha, -⟩ | ⟨newBuffer2, ha, -⟩ |
    ⟨newBuffer2, i, b, ha, -⟩ | ⟨newBuffer2, i, b1, b2, -, hphase, hdone, -, heq⟩
  · cases ha
  · cases ha
  · cases ha
  · cases ha
  · exact ⟨newBuffer2, i, b1, b2, hphase, hdone, heq⟩

@[simp] theorem swap_buffersToWrite (log : World) (b1 b2 : Buffer) :
    (swap log b1 b2).buffersToWrite = log.buffers ++ [log.currentBuffer] := by
  unfold swap
  dsimp only
  split <;> rfl

@[simp] theorem append_buffersToWrite (log : World) (line : List UInt8) :
    (LogAsync.append log line).buffersToWrite = log.buffersToWrite := by
  unfold LogAsync.append
  dsimp only
  split <;> rfl

theorem limit_of_small (newBuffer2 : Option Buffer) (h : log.buffersToWrite.length ≤ 25) :
    LogAsync.limit log newBuffer2 = { log with phase := .writing newBuffer2 0 } :=
  if_neg (Nat.not_lt.mpr h)

end steps

/-- The batch stays in range. -/
theorem smallBatch_move (hbatch : SmallBatch s) (hrange : InRange s m) (h : s.step m = some t) :
    SmallBatch t := by
  have hnotify {u : Logger} {toStop : Bool} (hu : SmallBatch u) : SmallBatch (u.notifyOne toStop) := by
    rcases notifyOne_cases u toStop with ⟨-, heq⟩ | ⟨-, heq⟩ | ⟨-, -, heq⟩
    · rw [heq]
      exact hu
    · rw [heq]
      exact fun hwrite => by cases hwrite
    · rw [heq]
      exact hu
  have hswap {log : World} (hlen : s.log.buffers.length < 25)
      (hlog : LogAsync.step s.log .swap = some log) : log.buffersToWrite.length ≤ 25 := by
    obtain ⟨b1, b2, -, rfl⟩ := of_swap hlog
    rw [swap_buffersToWrite, List.length_append, List.length_singleton]
    omega
  have happend (line : List UInt8) :
      SmallBatch { s with log := LogAsync.append s.log line } := by
    intro hwrite
    rw [append_buffersToWrite]
    exact hbatch hwrite
  cases step_moves h with
  | append line toStop hroom => exact happend line
  | appendNotify line toStop hroom => exact hnotify (happend line)
  | lock log hthread hne hlog => exact fun _ => hswap hrange hlog
  | collect log hthread hlog => exact fun _ => hswap hrange hlog
  | limit log hthread hlog =>
      obtain ⟨newBuffer2, -, rfl⟩ := of_limit hlog
      rw [limit_of_small newBuffer2 (hbatch hthread)]
      exact fun _ => hbatch hthread
  | write log hthread hlog =>
      obtain ⟨newBuffer2, i, b, -, -, rfl⟩ := of_write hlog
      exact fun _ => hbatch hthread
  | lastNotify hthread => exact hnotify fun hwrite => by cases hwrite
  | notify hstop => exact hnotify hbatch
  | stop hstop => exact hbatch
  | wait hstop => exact hbatch
  | wake hstop => exact hbatch
  | join hstop hended => exact hbatch
  | _ => exact fun hwrite => by cases hwrite

/-! ## What is handed to the log thread -/

/-- What was written, and what is left to write of the batch. -/
def handed (log : World) : List UInt8 := log.output ++ bytes log.rest

theorem stored_eq_handed (log : World) :
    log.stored = handed log ++ (bytes log.buffers ++ log.currentBuffer.data) := by
  simp [World.stored, handed]

/-- Between two rounds nothing is left of the batch. -/
theorem handed_of_top {log : World} (h : isTop log.phase = true) : handed log = log.output := by
  unfold handed World.rest
  cases hphase : log.phase with
  | top b1 b2 => simp
  | swapped newBuffer2 => simp [isTop, hphase] at h
  | writing newBuffer2 i => simp [isTop, hphase] at h

/-- The swap hands over everything stored. -/
theorem handed_swap {log log' : World} (h : LogAsync.step log .swap = some log') :
    handed log' = log.stored := by
  obtain ⟨b1, b2, hphase, rfl⟩ := of_swap h
  have hrest : log.rest = [] := by simp [World.rest, hphase]
  simp only [World.stored, hrest]
  unfold swap
  dsimp only
  split <;> simp [handed, World.rest]

/-- The writes move bytes from the batch to the output. -/
theorem handed_act {log log' : World} {a : Action} (hsmall : a = .limit → log.buffersToWrite.length ≤ 25)
    (ha : a = .limit ∨ a = .write ∨ a = .recycle) (h : LogAsync.step log a = some log') :
    handed log' = handed log := by
  rcases ha with rfl | rfl | rfl
  · obtain ⟨newBuffer2, hphase, rfl⟩ := of_limit h
    rw [limit_of_small newBuffer2 (hsmall rfl)]
    simp [handed, World.rest, hphase]
  · obtain ⟨newBuffer2, i, b, hphase, hb, rfl⟩ := of_write h
    obtain ⟨hi, hget⟩ := List.getElem?_eq_some_iff.mp hb
    have hdrop := List.drop_eq_getElem_cons hi
    rw [hget] at hdrop
    simp [handed, World.rest, hphase, hdrop]
  · obtain ⟨newBuffer2, i, b1, b2, hphase, hdone, rfl⟩ := of_recycle h
    simp [handed, World.rest, hphase, List.drop_eq_nil_of_le hdone]

theorem handed_append (log : World) (line : List UInt8) :
    handed (LogAsync.append log line) = handed log := by
  unfold handed
  rw [rest_append]
  unfold LogAsync.append
  dsimp only
  split <;> rfl

/-- A move hands over everything stored, by the swap, or nothing; a thread past the test stays
    there until its swap. -/
theorem handed_move (hbatch : SmallBatch s) (h : s.step m = some t) :
    (handed t.log = handed s.log ∧ (s.thread.collects = true → t.thread.collects = true)) ∨
    (s.thread.collects = true ∧ handed t.log = s.log.stored) := by
  cases step_moves h with
  | append line toStop hroom => exact .inl ⟨handed_append s.log line, id⟩
  | appendNotify line toStop hroom =>
      rw [notifyOne_log, notifyOne_collects]
      exact .inl ⟨handed_append s.log line, id⟩
  | testRunning hthread hrunning => exact .inl ⟨rfl, fun _ => rfl⟩
  | testStopped hthread hrunning => exact .inl ⟨rfl, by simp [hthread, Place.collects]⟩
  | lockWait hthread hempty => exact .inl ⟨rfl, fun _ => rfl⟩
  | timeout hthread => exact .inl ⟨rfl, fun _ => rfl⟩
  | lock log hthread hne hlog => exact .inr ⟨by rw [hthread]; rfl, handed_swap hlog⟩
  | collect log hthread hlog => exact .inr ⟨by rw [hthread]; rfl, handed_swap hlog⟩
  | limit log hthread hlog =>
      exact .inl ⟨handed_act (fun _ => hbatch hthread) (by simp) hlog,
        by simp [hthread, Place.collects]⟩
  | write log hthread hlog =>
      exact .inl ⟨handed_act (by simp) (by simp) hlog, by simp [hthread, Place.collects]⟩
  | recycle log hthread hlog =>
      exact .inl ⟨handed_act (by simp) (by simp) hlog, by simp [hthread, Place.collects]⟩
  | lastNotify hthread =>
      exact .inl ⟨by rw [notifyOne_log], by simp [hthread, Place.collects]⟩
  | notify hstop =>
      rw [notifyOne_log, notifyOne_collects]
      exact .inl ⟨rfl, id⟩
  | stop hstop => exact .inl ⟨rfl, id⟩
  | wait hstop => exact .inl ⟨rfl, id⟩
  | wake hstop => exact .inl ⟨rfl, id⟩
  | join hstop hended => exact .inl ⟨rfl, id⟩

/-- Once `m_running` is cleared no thread goes past the test. -/
theorem collects_move (hrunning : s.running = false) (hthread : s.thread.collects = false)
    (h : s.step m = some t) : t.running = false ∧ t.thread.collects = false := by
  cases step_moves h with
  | append line toStop hroom => exact ⟨hrunning, hthread⟩
  | appendNotify line toStop hroom =>
      rw [notifyOne_running, notifyOne_collects]
      exact ⟨hrunning, hthread⟩
  | testRunning hplace hyes =>
      rw [hrunning] at hyes
      cases hyes
  | lockWait hplace hempty =>
      rw [hplace] at hthread
      cases hthread
  | timeout hplace =>
      rw [hplace] at hthread
      cases hthread
  | lastNotify hplace =>
      rw [notifyOne_running, notifyOne_collects]
      exact ⟨hrunning, rfl⟩
  | notify hstop =>
      rw [notifyOne_running, notifyOne_collects]
      exact ⟨hrunning, hthread⟩
  | stop hstop => exact ⟨rfl, hthread⟩
  | wait hstop => exact ⟨hrunning, hthread⟩
  | wake hstop => exact ⟨hrunning, hthread⟩
  | join hstop hended => exact ⟨hrunning, hthread⟩
  | _ => exact ⟨hrunning, rfl⟩

/-! ## Runs -/

/-- The invariant, with the batch in range. -/
def Ready (s : Logger) : Prop := Inv s ∧ SmallBatch s

theorem ready_start (startTime : List Char) : Ready (start startTime) :=
  ⟨inv_start startTime, fun hwrite => by cases hwrite⟩

theorem ready_step (hs : Ready s) (hrange : InRange s m) (h : s.step m = some t) : Ready t :=
  ⟨inv_step hs.1 h, smallBatch_move hs.2 hrange h⟩

/-- What is stored is what was appended iff no line fell between the two tests; otherwise it is
    less. -/
theorem stored_iff_lossless {startTime : List Char} {moves : List Move}
    (h : run step (start startTime) moves = some s)
    (hrange : Along step InRange (start startTime) moves) :
    (Along step Lossless (start startTime) moves → s.log.stored = s.log.appended) ∧
    (¬Along step Lossless (start startTime) moves →
      s.log.stored.length < s.log.appended.length) := by
  have hrun := run_iff_along_within (J := Ready) (I := fun s => s.log.stored = s.log.appended)
    (G := fun s => s.log.appended.length ≤ s.log.stored.length) (D := InRange) (P := Lossless)
    ?_ ?_ ?_ ?_ ?_ (ready_start startTime) rfl h hrange
  · exact ⟨hrun.2, fun hlost => Nat.not_le.mp fun hle => hlost (hrun.1.mp hle)⟩
  · intro s m t hs hrange hstep
    exact ready_step hs hrange hstep
  · intro s hs
    exact Nat.le_of_eq (congrArg List.length hs.symm)
  · intro s m t hs hI hrange hkept hstep
    rcases stored_move hs.1 hs.2 hrange hstep with ⟨-, heq⟩ | ⟨hlost, -⟩
    · rw [heq, appended_move hs.2 hstep, hI]
    · exact absurd hkept hlost
  · intro s m t hs hI hrange hlost hstep hle
    rcases stored_move hs.1 hs.2 hrange hstep with ⟨hkept, -⟩ | ⟨-, hpos, heq⟩
    · exact hlost hkept
    · rw [heq, appended_move hs.2 hstep, hI, List.length_append] at hle
      omega
  · intro s m t hs hrange hstep hle
    rw [appended_move hs.2 hstep, List.length_append] at hle
    rcases stored_move hs.1 hs.2 hrange hstep with ⟨-, heq⟩ | ⟨-, hpos, heq⟩
    · rw [heq, List.length_append] at hle
      omega
    · rw [heq] at hle
      omega

/-- The bytes `x` are with the log thread, or will be with its next swap. -/
def Covered (x : List UInt8) (s : Logger) : Prop :=
  x <+: handed s.log ∨ s.thread.collects = true ∧ x <+: s.log.stored

theorem covered_step {x : List UInt8} (hs : Ready s) (hx : Covered x s) (hrange : InRange s m)
    (h : s.step m = some t) : Covered x t := by
  rcases handed_move hs.2 h with ⟨hsame, hstays⟩ | ⟨-, hall⟩
  · rcases hx with hgiven | ⟨hcollects, hstored⟩
    · rw [← hsame] at hgiven
      exact .inl hgiven
    · exact .inr ⟨hstays hcollects, hstored.trans (stored_mono hs.1 hs.2 hrange h)⟩
  · -- the swap has just handed over everything stored
    have hbegin : handed s.log <+: s.log.stored := ⟨_, (stored_eq_handed s.log).symm⟩
    left
    rw [hall]
    rcases hx with hgiven | ⟨-, hstored⟩
    · exact hgiven.trans hbegin
    · exact hstored

/-- When `stop()` has returned, what was covered is written. -/
theorem written_of_covered {x : List UInt8} (hs : Ready s) (hx : Covered x s)
    (hreturned : s.stop = .returned) : x <+: s.log.output := by
  have hended := hs.1.ended hreturned
  rcases hx with hgiven | ⟨hcollects, -⟩
  · rwa [handed_of_top (hs.1.phase.mpr (by simp [hended]))] at hgiven
  · rw [hended] at hcollects
    cases hcollects

/-- When the log thread collects no more, what is stored beyond its hands stays unwritten. -/
theorem output_of_uncollected {bs : List Move} (hs : Ready s)
    (hrunning : s.running = false) (hthread : s.thread.collects = false)
    (h : run step s bs = some t) (hrange : Along step InRange s bs)
    (hreturned : t.stop = .returned) : t.log.output = handed s.log := by
  have hend : Ready t ∧ (t.running = false ∧ t.thread.collects = false) ∧
      handed t.log = handed s.log := by
    apply run_invariant_along (I := fun u => Ready u ∧ (u.running = false ∧
      u.thread.collects = false) ∧ handed u.log = handed s.log) _
      ⟨hs, ⟨hrunning, hthread⟩, rfl⟩ h hrange
    intro u m v hu hrange hstep
    refine ⟨ready_step hu.1 hrange hstep, collects_move hu.2.1.1 hu.2.1.2 hstep, ?_⟩
    rcases handed_move hu.1.2 hstep with ⟨hsame, -⟩ | ⟨hcollects, -⟩
    · exact hsame.trans hu.2.2
    · rw [hu.2.1.2] at hcollects
      cases hcollects
  have hended := hend.1.1.ended hreturned
  rw [← hend.2.2, handed_of_top (hend.1.1.phase.mpr (by simp [hended]))]

/-! ## A run to the end of `stop()` -/

/-- The moves of the log thread up to the end of its loop. -/
def ofThread : Move → Bool
  | .test => true
  | .lock => true
  | .timeout => true
  | .collect => true
  | .limit => true
  | .write => true
  | .recycle => true
  | _ => false

/-- The log thread alone. -/
def advance (s : Logger) (m : Move) : Option Logger := if ofThread m then s.step m else none

/-- What is left to do of the loop once `m_running` is cleared. -/
def rank (s : Logger) : Nat :=
  match s.thread with
  | .enter => s.log.buffers.length + 7
  | .waiting => s.log.buffers.length + 6
  | .collect => s.log.buffers.length + 5
  | .write =>
    match s.log.phase with
    | .top _ _ => 0
    | .swapped _ => s.log.buffersToWrite.length + 3
    | .writing _ i => s.log.buffersToWrite.length - i + 2
  | .test => 1
  | .leaving => 0
  | .ended => 0

/-- `stop()` has cleared `m_running`, and the batch to collect is in range. -/
structure Fit (s : Logger) : Prop where
  ready : Ready s
  running : s.running = false
  stop : s.stop = .cleared
  small : s.thread.collects = true → s.log.buffers.length < 25
  alive : s.thread ≠ .ended

theorem rank_swap {log : World} (hthread : s.thread = .enter ∨ s.thread = .collect)
    (h : LogAsync.step s.log .swap = some log) :
    rank { s with log := log, thread := .write } < rank s := by
  obtain ⟨b1, b2, -, rfl⟩ := of_swap h
  have hafter :
      rank { s with log := swap s.log b1 b2, thread := .write } = s.log.buffers.length + 4 := by
    cases hnext : s.log.nextBuffer <;> simp [rank, swap, hnext]
  rw [hafter]
  unfold rank
  rcases hthread with hthread | hthread
  · rw [hthread]
    dsimp only
    omega
  · rw [hthread]
    dsimp only
    omega

/-- The batch that the log thread collects is in range. -/
theorem inRange_advance (hs : Fit s) (h : s.advance m = some t) : InRange s m := by
  obtain ⟨hthread, hstep⟩ := Option.ite_none_right_eq_some.mp h
  cases step_moves hstep with
  | lockWait hplace hempty => exact hs.small (by rw [hplace]; rfl)
  | lock log hplace hne hlog => exact hs.small (by rw [hplace]; rfl)
  | collect log hplace hlog => exact hs.small (by rw [hplace]; rfl)
  | append line toStop hroom => cases hthread
  | appendNotify line toStop hroom => cases hthread
  | _ => trivial

/-- The log thread comes closer to its end. -/
theorem fit_advance (hs : Fit s) (h : s.advance m = some t) : Fit t ∧ rank t < rank s := by
  have hrange := inRange_advance hs h
  obtain ⟨hthread, hstep⟩ := Option.ite_none_right_eq_some.mp h
  have hready := ready_step hs.ready hrange hstep
  cases step_moves hstep with
  | append line toStop hroom => cases hthread
  | appendNotify line toStop hroom => cases hthread
  | lastNotify hplace => cases hthread
  | stop hstop => cases hthread
  | notify hstop => cases hthread
  | wait hstop => cases hthread
  | wake hstop => cases hthread
  | join hstop hended => cases hthread
  | testRunning hplace hrunning =>
      rw [hs.running] at hrunning
      cases hrunning
  | testStopped hplace hrunning =>
      refine ⟨⟨hready, hrunning, hs.stop, by simp [Place.collects], by simp⟩, ?_⟩
      simp [rank, hplace]
  | lockWait hplace hempty =>
      have hsmall := hs.small (by rw [hplace]; rfl)
      refine ⟨⟨hready, hs.running, hs.stop, fun _ => hsmall, by simp⟩, ?_⟩
      simp [rank, hplace]
  | timeout hplace =>
      have hsmall := hs.small (by rw [hplace]; rfl)
      refine ⟨⟨hready, hs.running, hs.stop, fun _ => hsmall, by simp⟩, ?_⟩
      simp [rank, hplace]
  | lock log hplace hne hlog =>
      exact ⟨⟨hready, hs.running, hs.stop, by simp [Place.collects], by simp⟩,
        rank_swap (.inl hplace) hlog⟩
  | collect log hplace hlog =>
      exact ⟨⟨hready, hs.running, hs.stop, by simp [Place.collects], by simp⟩,
        rank_swap (.inr hplace) hlog⟩
  | limit log hplace hlog =>
      refine ⟨⟨hready, hs.running, hs.stop, by simp [Place.collects], by simp⟩, ?_⟩
      obtain ⟨newBuffer2, hphase, rfl⟩ := of_limit hlog
      rw [limit_of_small newBuffer2 (hs.ready.2 hplace)]
      simp [rank, hplace, hphase]
  | write log hplace hlog =>
      refine ⟨⟨hready, hs.running, hs.stop, by simp [Place.collects], by simp⟩, ?_⟩
      obtain ⟨newBuffer2, i, b, hphase, hb, rfl⟩ := of_write hlog
      have hi := (List.getElem?_eq_some_iff.mp hb).1
      simp only [rank, hplace, hphase]
      omega
  | recycle log hplace hlog =>
      refine ⟨⟨hready, hs.running, hs.stop, by simp [Place.collects], by simp⟩, ?_⟩
      obtain ⟨newBuffer2, i, b1, b2, hphase, hdone, rfl⟩ := of_recycle hlog
      simp only [rank, hplace, hphase]
      omega

/-- Inside a round the log thread can always go on. -/
theorem round_enabled (hs : Inv s) (hthread : s.thread = .write) :
    ∃ m, (m = .limit ∨ m = .write ∨ m = .recycle) ∧ (s.step m).isSome = true := by
  cases hphase : s.log.phase with
  | top b1 b2 =>
      have htop := hs.phase.mp (by rw [hphase]; rfl)
      exact absurd hthread htop
  | swapped newBuffer2 =>
      refine ⟨.limit, by simp, ?_⟩
      simp [step, hthread, act, LogAsync.step, hphase]
  | writing newBuffer2 i =>
      by_cases hi : i < s.log.buffersToWrite.length
      · refine ⟨.write, by simp, ?_⟩
        simp [step, hthread, act, LogAsync.step, hphase, hi]
      · have hspare := hs.spare.phase
        rw [hphase] at hspare
        obtain ⟨⟨b1, b2⟩, hrecycle⟩ :=
          Option.isSome_iff_exists.mp (recycle_isSome hspare.2.1 hspare.2.2)
        refine ⟨.recycle, by simp, ?_⟩
        simp [step, hthread, act, LogAsync.step, hphase, Nat.not_lt.mp hi, hrecycle]

/-- Between two rounds the swap is possible. -/
theorem swap_enabled (hs : Inv s) (hthread : s.thread ≠ .write) :
    (s.act .swap .write).isSome = true := by
  have htop := hs.phase.mpr hthread
  cases hphase : s.log.phase with
  | top b1 b2 => simp [act, LogAsync.step, hphase]
  | swapped newBuffer2 => simp [isTop, hphase] at htop
  | writing newBuffer2 i => simp [isTop, hphase] at htop

/-- The log thread goes on until it has left its loop. -/
theorem leaving_of_stuck (hs : Fit s) (h : ∀ m, s.advance m = none) : s.thread = .leaving := by
  have hstuck (m : Move) (hm : ofThread m = true) : s.step m = none := by
    have hnone := h m
    rwa [advance, if_pos hm] at hnone
  have hno {m : Move} (hm : ofThread m = true) (hsome : (s.step m).isSome = true) : False := by
    rw [hstuck m hm] at hsome
    cases hsome
  cases hthread : s.thread with
  | leaving => rfl
  | ended => exact absurd hthread hs.alive
  | test => exact (hno (m := .test) rfl (by simp [step, hthread])).elim
  | waiting => exact (hno (m := .timeout) rfl (by simp [step, hthread])).elim
  | enter =>
      refine (hno (m := .lock) rfl ?_).elim
      have hswap := swap_enabled hs.ready.1 (by simp [hthread])
      by_cases hempty : s.log.buffers.isEmpty = true
      · simp [step, hthread, hempty]
      · simpa [step, hthread, hempty] using hswap
  | collect =>
      refine (hno (m := .collect) rfl ?_).elim
      simpa [step, hthread] using swap_enabled hs.ready.1 (by simp [hthread])
  | write =>
      obtain ⟨m, hm, hsome⟩ := round_enabled hs.ready.1 hthread
      rcases hm with rfl | rfl | rfl
      · exact (hno (m := .limit) rfl hsome).elim
      · exact (hno (m := .write) rfl hsome).elim
      · exact (hno (m := .recycle) rfl hsome).elim

/-- From the call of `stop()` there is a run to its return, in range and without an append. -/
theorem exists_return (hs : Ready s) (hstop : s.stop = .notCalled)
    (hsmall : s.thread.collects = true → s.log.buffers.length < 25) :
    ∃ bs t, run step s (.stop :: bs) = some t ∧ Along step InRange s (.stop :: bs) ∧
      t.stop = .returned ∧ ∀ m ∈ bs, m.line = [] := by
  -- `stop()` clears `m_running`
  have hrunning : s.running = true := by
    cases hr : s.running with
    | true => rfl
    | false => exact absurd hstop (hs.1.running.mp hr)
  have hclear : s.step .stop = some { s with running := false, stop := .cleared } := if_pos hstop
  have hfit : Fit { s with running := false, stop := .cleared } := by
    refine ⟨ready_step (m := .stop) hs trivial hclear, rfl, rfl, hsmall, fun hended => ?_⟩
    have hstopped := hs.1.left (.inr hended)
    rw [hrunning] at hstopped
    cases hstopped
  -- the log thread leaves its loop
  obtain ⟨bs, u, hrun, hstuck⟩ := exists_stuck (R := fun s n => Fit s ∧ rank s = n)
    (fun s m t n hR hstep =>
      have hnext := fit_advance hR.1 hstep
      ⟨rank t, hR.2 ▸ hnext.2, hnext.1, rfl⟩) ⟨hfit, rfl⟩
  have hu : Fit u := run_invariant (fun _ _ _ hI hstep => (fit_advance hI hstep).1) hfit hrun
  have hleaving := leaving_of_stuck hu hstuck
  obtain ⟨hrun, hthread⟩ := run_mono (P := fun _ m => ofThread m = true) (fun s m t hstep => by
    obtain ⟨hm, hstep⟩ := Option.ite_none_right_eq_some.mp hstep
    exact ⟨hstep, hm⟩) hrun
  have hrange : Along step InRange { s with running := false, stop := .cleared } bs := by
    apply along_of_along (I := Fit) _ hfit hrun hthread
    intro v m w hv hm hstep
    have hadvance : v.advance m = some w := by rw [advance, if_pos hm, hstep]
    exact ⟨inRange_advance hv hadvance, (fit_advance hv hadvance).1⟩
  -- and `stop()` waits for its last notification
  have hlast : run step u [.notify, .wait, .lastNotify, .join] =
      some { u with thread := .ended, stop := .returned } := by
    simp [run, step, hu.stop, hleaving, notifyOne]
  refine ⟨bs ++ [.notify, .wait, .lastNotify, .join], _,
    run_cons_eq_some.mpr ⟨_, hclear, run_append_eq_some.mpr ⟨u, hrun, hlast⟩⟩,
    ⟨trivial, fun v hv => ?_⟩, rfl, fun m hm => ?_⟩
  · rw [hclear] at hv
    cases hv
    apply hrange.append hrun
    exact ⟨trivial, fun _ _ => ⟨trivial, fun _ _ => ⟨trivial, fun _ _ => ⟨trivial, fun _ _ => trivial⟩⟩⟩⟩
  · rcases List.mem_append.mp hm with hm | hm
    · have hbs := hthread.forall_mem hrun m hm
      cases m with
      | append line toStop => cases hbs
      | _ => rfl
    · simp only [List.mem_cons, List.not_mem_nil, or_false] at hm
      rcases hm with rfl | rfl | rfl | rfl <;> rfl

/-- Without an append what is stored stays the same. -/
theorem stored_of_quiet {bs : List Move} (hs : Ready s) (h : run step s bs = some t)
    (hrange : Along step InRange s bs) (hquiet : ∀ m ∈ bs, m.line = []) :
    t.log.stored = s.log.stored ∧ Ready t := by
  apply run_invariant_along (P := fun s m => m.line = [] ∧ InRange s m)
    (I := fun u => u.log.stored = s.log.stored ∧ Ready u) _ ⟨rfl, hs⟩ h (hrange.and_forall hquiet)
  intro u m v hu hm hstep
  refine ⟨?_, ready_step hu.2 hm.2 hstep⟩
  rcases stored_move hu.2.1 hu.2.2 hm.2 hstep with ⟨-, heq⟩ | ⟨-, hpos, -⟩
  · rw [heq, hm.1, List.append_nil, hu.1]
  · rw [hm.1] at hpos
    cases hpos

/-- The bytes appended before the call of `stop()` are written when it returns, in every run in
    range from there, exactly when no line so far fell between the two tests for room and the log
    thread is past its test of `m_running` with the swap still to come, or nothing is stored
    beyond its batch. -/
theorem stop_flushes_iff (startTime : List Char) (moves : List Move) (s : Logger)
    (h : run step (start startTime) moves = some s)
    (hrange : Along step InRange (start startTime) moves) (hstop : s.stop = .notCalled)
    (hsmall : s.thread.collects = true → s.log.buffers.length < 25) :
    (∀ bs t, run step s (.stop :: bs) = some t → Along step InRange s (.stop :: bs) →
      t.stop = .returned → s.log.appended <+: t.log.output) ↔
    Along step Lossless (start startTime) moves ∧
      (s.thread.collects = true ∨ bytes s.log.buffers ++ s.log.currentBuffer.data = []) := by
  have hs : Ready s :=
    run_invariant_along (fun _ _ _ => ready_step) (ready_start startTime) h hrange
  have hlossless := stored_iff_lossless h hrange
  constructor
  · intro hflushed
    obtain ⟨bs, t, hrun, hbs, hreturned, hquiet⟩ := exists_return hs hstop hsmall
    have hprefix := hflushed bs t hrun hbs hreturned
    -- nothing was lost before
    have hkept : Along step Lossless (start startTime) moves := by
      apply Classical.byContradiction
      intro hlost
      have hless := hlossless.2 hlost
      have hstored := (stored_of_quiet hs hrun hbs (List.forall_mem_cons.mpr ⟨rfl, hquiet⟩)).1
      have hle := hprefix.length_le
      have hout : t.log.output.length ≤ t.log.stored.length := by
        simp [World.stored]
      rw [hstored] at hout
      omega
    refine ⟨hkept, ?_⟩
    -- and with no swap to come nothing is stored beyond the batch
    apply Classical.byContradiction
    intro hneither
    obtain ⟨hcollects, hne⟩ := not_or.mp hneither
    obtain ⟨u, hu, hrest⟩ := run_cons_eq_some.mp hrun
    have hclear : s.step .stop = some { s with running := false, stop := .cleared } := if_pos hstop
    rw [hclear] at hu
    cases hu
    have hout := output_of_uncollected (ready_step (m := .stop) hs trivial hclear) rfl
      (Bool.eq_false_iff.mpr hcollects) hrest (hbs.2 _ hclear) hreturned
    have hle := hprefix.length_le
    have hsplit := congrArg List.length (stored_eq_handed s.log)
    rw [hout, ← hlossless.1 hkept, hsplit, List.length_append] at hle
    have hpos := List.length_pos_iff.mpr hne
    have hsame : (handed { s with running := false, stop := .cleared }.log).length =
        (handed s.log).length := rfl
    omega
  · rintro ⟨hkept, hplace⟩ bs t hrun hbs hreturned
    rw [← hlossless.1 hkept]
    have hcovered : Covered s.log.stored s := by
      rcases hplace with hcollects | hnone
      · exact .inr ⟨hcollects, List.prefix_refl _⟩
      · exact .inl ⟨[], by rw [stored_eq_handed, hnone, List.append_nil, List.append_nil]⟩
    have hend : Ready t ∧ Covered s.log.stored t := by
      apply run_invariant_along (I := fun u => Ready u ∧ Covered s.log.stored u) _
        ⟨hs, hcovered⟩ hrun hbs
      intro u m v hu hm hstep
      exact ⟨ready_step hu.1 hm hstep, covered_step hu.1 hu.2 hm hstep⟩
    exact written_of_covered hend.1 hend.2 hreturned

/-- One line, and the log thread past its test: the line is written when `stop()` returns. -/
theorem stop_flushes_iff_entered :
    ∃ s, run step (start []) [.append [7] false, .test] = some s ∧
      ∀ bs t, run step s (.stop :: bs) = some t → Along step InRange s (.stop :: bs) →
        t.stop = .returned → s.log.appended <+: t.log.output := by
  refine ⟨_, rfl, (stop_flushes_iff [] [.append [7] false, .test] _ rfl ?_ rfl ?_).mpr ⟨?_, .inl rfl⟩⟩
  · exact ⟨show [7].length < maxBuffer - 1 by decide, fun _ _ => ⟨trivial, fun _ _ => trivial⟩⟩
  · exact fun _ => show 0 < 25 by decide
  · refine ⟨.inl ?_, fun _ _ => ⟨trivial, fun _ _ => trivial⟩⟩
    show maxBuffer - 0 ≠ 2
    decide

/-- One line, and the log thread at its test: `stop()` returns and the line is not written. -/
theorem stop_leaves_line :
    ∃ s t, run step (start []) [.append [7] false] = some s ∧
      run step s [.stop, .notify, .wait, .test, .lastNotify, .join] = some t ∧
      s.log.appended = [7] ∧ t.stop = .returned ∧ t.log.output = [] :=
  ⟨_, _, rfl, rfl, rfl, rfl, rfl⟩

end Logger
end LogAsync
end Youth.Utils
