/-
  Youth.Utils.LogAsync.Files

  From the lines of `LogAsync::append` to the log files: the log thread of
  `youth/utils/LogAsync.cpp` on the files of `youth/utils/LogFile.cpp`.

  A write of the log thread is a call of `LogFile::outputFunc`, which may roll the file; a
  round ends with `LogFile::flushFunc`, and so does the thread.  Lines may be appended
  between any two steps, the stream may write its buffer at any time, and the setters of
  `LogFile` may be called.  Nobody else writes to the log files.

  `log_archived` says what is where: the files in the order of their names (the expired ones
  as they were), then the buffer of the stream, then what the log thread has not written, are
  the lines in the order in which they were appended.
-/

import Youth.Utils.LogAsync.Flush
import Youth.Utils.LogFile.Archive

namespace Youth.Utils
namespace LogAsync

open Youth.Lib Youth.Core

/-- What a move passes to `LogFile::outputFunc`. -/
def Logger.message (s : Logger) : Move → Option (List UInt8)
  | .limit =>
    if s.log.buffersToWrite.length > 25 then
      some (ascii (dropMessage s.log s.log.buffersToWrite.length))
    else none
  | .write =>
    match s.log.phase with
    | .writing _ i => (s.log.buffersToWrite[i]?).map LogBuffer.data
    | _ => none
  | _ => none

namespace Logger

variable {s t : Logger} {m : Move}

/-- The messages are the output. -/
theorem output_move (h : s.step m = some t) :
    t.log.output = s.log.output ++ (s.message m).getD [] := by
  have happend (line : List UInt8) : (LogAsync.append s.log line).output = s.log.output := by
    unfold LogAsync.append
    dsimp only
    split <;> rfl
  have hswap {log : World} (hlog : LogAsync.step s.log .swap = some log) :
      log.output = s.log.output := by
    obtain ⟨b1, b2, -, rfl⟩ := of_swap hlog
    unfold swap
    dsimp only
    split <;> rfl
  cases step_moves h with
  | append line toStop hroom => exact (happend line).trans (List.append_nil _).symm
  | appendNotify line toStop hroom =>
      rw [notifyOne_log]
      exact (happend line).trans (List.append_nil _).symm
  | lock log hthread hne hlog => exact (hswap hlog).trans (List.append_nil _).symm
  | collect log hthread hlog => exact (hswap hlog).trans (List.append_nil _).symm
  | limit log hthread hlog =>
      obtain ⟨newBuffer2, -, rfl⟩ := of_limit hlog
      unfold LogAsync.limit message
      split
      · rfl
      · exact (List.append_nil _).symm
  | write log hthread hlog =>
      obtain ⟨newBuffer2, i, b, hphase, hb, rfl⟩ := of_write hlog
      simp [message, hphase, hb]
  | recycle log hthread hlog =>
      obtain ⟨newBuffer2, i, b1, b2, -, -, rfl⟩ := of_recycle hlog
      exact (List.append_nil _).symm
  | lastNotify hthread =>
      rw [notifyOne_log]
      exact (List.append_nil _).symm
  | notify hstop =>
      rw [notifyOne_log]
      exact (List.append_nil _).symm
  | _ => exact (List.append_nil _).symm

/-- The log thread writes inside a round only. -/
theorem message_of_thread (h : s.step m = some t) (hthread : s.thread ≠ .write) :
    s.message m = none := by
  cases step_moves h with
  | limit log hwrite hlog => exact absurd hwrite hthread
  | write log hwrite hlog => exact absurd hwrite hthread
  | _ => rfl

theorem notifyOne_write (s : Logger) (toStop : Bool) (h : s.thread = .write) :
    (s.notifyOne toStop).thread = .write := by
  rcases notifyOne_cases s toStop with ⟨-, heq⟩ | ⟨hwaiting, -⟩ | ⟨-, -, heq⟩
  · rw [heq]
    exact h
  · rw [h] at hwaiting
    cases hwaiting
  · rw [heq]
    exact h

/-- A round ends with the recycling. -/
theorem thread_of_move (h : s.step m = some t) (hm : m ≠ .recycle) (hthread : t.thread ≠ .write) :
    s.thread ≠ .write := by
  intro hwrite
  apply hthread
  cases step_moves h with
  | append line toStop hroom => exact hwrite
  | appendNotify line toStop hroom => exact notifyOne_write _ _ hwrite
  | recycle log hplace hlog => exact absurd rfl hm
  | limit log hplace hlog => rfl
  | write log hplace hlog => rfl
  | stop hstop => exact hwrite
  | notify hstop => exact notifyOne_write _ _ hwrite
  | wait hstop => exact hwrite
  | wake hstop => exact hwrite
  | join hstop hended => exact hwrite
  | testRunning hplace => rw [hwrite] at hplace; cases hplace
  | testStopped hplace => rw [hwrite] at hplace; cases hplace
  | lockWait hplace => rw [hwrite] at hplace; cases hplace
  | lock log hplace => rfl
  | timeout hplace => rw [hwrite] at hplace; cases hplace
  | collect log hplace => rfl
  | lastNotify hplace => rw [hwrite] at hplace; cases hplace

theorem ended_of_move (h : s.step m = some t) (hended : t.thread = .ended) :
    m = .lastNotify ∨ s.thread = .ended ∧ m ≠ .recycle ∧ m ≠ .test := by
  have hnotify {u : Logger} {toStop : Bool} (hu : (u.notifyOne toStop).thread = .ended) :
      u.thread = .ended := by
    rcases notifyOne_cases u toStop with ⟨-, heq⟩ | ⟨-, heq⟩ | ⟨-, -, heq⟩
    · rwa [heq] at hu
    · rw [heq] at hu
      cases hu
    · rwa [heq] at hu
  cases step_moves h with
  | append line toStop hroom => exact .inr ⟨hended, by simp, by simp⟩
  | appendNotify line toStop hroom =>
      have hbefore := hnotify hended
      exact .inr ⟨hbefore, by simp, by simp⟩
  | lastNotify hthread => exact .inl rfl
  | stop hstop => exact .inr ⟨hended, by simp, by simp⟩
  | notify hstop =>
      have hbefore := hnotify hended
      exact .inr ⟨hbefore, by simp, by simp⟩
  | wait hstop => exact .inr ⟨hended, by simp, by simp⟩
  | wake hstop => exact .inr ⟨hended, by simp, by simp⟩
  | join hstop hplace => exact .inr ⟨hended, by simp, by simp⟩
  | _ => cases hended

end Logger

structure Pipeline where
  logger : Logger
  file : LogFile.World
  /-- The log thread is in front of `LogFile::flushFunc`. -/
  flushes : Bool := false

namespace Pipeline

inductive Act
  /-- With the readings of the clock and the `open` of an `outputFunc` in the move. -/
  | move (m : Move) (now later : DateTime) (opens : Bool)
  | flush (now : DateTime)
  | sync (k : Nat) (now : DateTime)
  | setRollSize (size : Int)
  | setDelLogFileDays (days : Nat)

/-- `LogFile::outputFunc`, if there is a message. -/
def outputFunc (file : LogFile.World) (msg : Option (List UInt8)) (now later : DateTime)
    (opens : Bool) : Option LogFile.World :=
  match msg with
  | some msg => LogFile.step file (.output msg now later opens)
  | none => some file

def move (s : Pipeline) (m : Move) (now later : DateTime) (opens : Bool) : Option Pipeline :=
  -- the log thread flushes before it tests `m_running` again, and before it is gone
  if s.flushes = true ∧ (m = .test ∨ m = .lastNotify) then none
  else
    (s.logger.step m).bind fun logger =>
      (outputFunc s.file (s.logger.message m) now later opens).map fun file =>
        { logger := logger
          file := file
          flushes := s.flushes || decide (m = .recycle) ||
            decide (m = .test ∧ logger.thread = .leaving) }

/-- `LogFile::flushFunc` -/
def flushFunc (s : Pipeline) (now : DateTime) : Option Pipeline :=
  if s.flushes = true then some { s with file := s.file.flushLogFile now, flushes := false } else none

def step (s : Pipeline) : Act → Option Pipeline
  | .move m now later opens => s.move m now later opens
  | .flush now => s.flushFunc now
  | .sync k now => some { s with file := s.file.sync k now }
  | .setRollSize size => some { s with file := { s.file with rollSize := size } }
  | .setDelLogFileDays days => some { s with file := { s.file with delLogFileDays := days } }

/-- The log thread at the head of its loop, after the first roll of `LogFile`. -/
def start (startTime : List Char) (naming : LogFile.Naming) (disk : LogFile.Disk) (now : DateTime) :
    Pipeline where
  logger := Logger.start startTime
  file := LogFile.start naming disk now true

variable {s t : Pipeline} {a : Act}

/-- A move of the logger, with its message, or a step of the files without one. -/
theorem step_cases (h : step s a = some t) :
    (∃ m now later opens, a = .move m now later opens ∧
      ¬(s.flushes = true ∧ (m = .test ∨ m = .lastNotify)) ∧ s.logger.step m = some t.logger ∧
      outputFunc s.file (s.logger.message m) now later opens = some t.file ∧
      t.flushes = (s.flushes || decide (m = .recycle) ||
        decide (m = .test ∧ t.logger.thread = .leaving))) ∨
    (t.logger = s.logger ∧ ∃ b : LogFile.Action, LogFile.step s.file b = some t.file ∧ b.Opens ∧
      b.message? = none ∧ (t.flushes = false ∧ t.file.unwritten = [] ∨
        t.flushes = s.flushes ∧ (s.file.unwritten = [] → t.file.unwritten = []))) := by
  cases a with
  | move m now later opens =>
      left
      change s.move m now later opens = some t at h
      unfold move at h
      split at h
      next => cases h
      next hflush =>
        obtain ⟨logger, hlogger, h⟩ := Option.bind_eq_some_iff.mp h
        obtain ⟨file, hfile, rfl⟩ := Option.map_eq_some_iff.mp h
        exact ⟨m, now, later, opens, rfl, hflush, hlogger, hfile, rfl⟩
  | flush now =>
      right
      change s.flushFunc now = some t at h
      unfold flushFunc at h
      split at h
      next =>
        cases h
        refine ⟨rfl, .flush now, rfl, trivial, rfl, .inl ⟨rfl, ?_⟩⟩
        exact LogFile.unwritten_flushLogFile s.file now
      next => cases h
  | sync k now =>
      right
      cases h
      refine ⟨rfl, .sync k now, rfl, trivial, rfl, .inr ⟨rfl, fun hempty => ?_⟩⟩
      exact LogFile.unwritten_sync hempty k now
  | setRollSize size =>
      right
      cases h
      exact ⟨rfl, .setRollSize size, rfl, trivial, rfl, .inr ⟨rfl, id⟩⟩
  | setDelLogFileDays days =>
      right
      cases h
      exact ⟨rfl, .setDelLogFileDays days, rfl, trivial, rfl, .inr ⟨rfl, id⟩⟩

/-! ## What holds in every state -/

/-- `open` succeeds, should it be called. -/
def Act.Opens : Act → Prop
  | .move _ _ _ opens => opens = true
  | _ => True

theorem outputFunc_entries {file file' : LogFile.World} {msg : Option (List UInt8)}
    {now later : DateTime} {opens : Bool} (h : outputFunc file msg now later opens = some file') :
    file'.entries.flatMap LogFile.Entry.message =
      file.entries.flatMap LogFile.Entry.message ++ msg.getD [] := by
  cases msg with
  | none =>
      cases h
      exact (List.append_nil _).symm
  | some msg =>
      have hmessages := LogFile.step_messages (a := .output msg now later opens) h
      rw [List.flatMap_def, hmessages, List.flatMap_def]
      simp [LogFile.Action.message?]

structure Inv (n : LogFile.Naming) (d : LogFile.Disk) (s : Pipeline) : Prop where
  logger : s.logger.Inv
  archived : LogFile.Archived n d s.file
  /-- What the log thread has handed over is with `LogFile`. -/
  received : s.file.entries.flatMap LogFile.Entry.message = s.logger.log.output
  /-- Between two rounds nothing is in the buffer of the stream. -/
  flushed : s.flushes = false → s.logger.thread ≠ .write → s.file.unwritten = []
  ended : s.logger.thread = .ended → s.flushes = false

variable {n : LogFile.Naming} {d : LogFile.Disk}

theorem step_inv (s : Pipeline) (a : Act) (t : Pipeline) (ha : a.Opens) (h : Inv n d s)
    (hstep : step s a = some t) : Inv n d t := by
  rcases step_cases hstep with ⟨m, now, later, opens, rfl, hflush, hlogger, hfile, hflushes⟩ |
    ⟨hlogger, b, hfile, hopens, hmessage, hkept⟩
  · refine ⟨Logger.inv_step h.logger hlogger, ?_, ?_, fun hno hthread => ?_, fun hended => ?_⟩
    · cases hmsg : s.logger.message m with
      | none =>
          rw [hmsg] at hfile
          rw [← Option.some.inj hfile]
          exact h.archived
      | some msg =>
          rw [hmsg] at hfile
          exact LogFile.step_archived (a := .output msg now later opens) ha h.archived hfile
    · rw [outputFunc_entries hfile, h.received, Logger.output_move hlogger]
    · -- no round is over, so none was going on
      rw [hno] at hflushes
      obtain ⟨⟨hbefore, hm⟩, -⟩ : (s.flushes = false ∧ m ≠ .recycle) ∧ _ := by simpa using hflushes.symm
      have hplace := Logger.thread_of_move hlogger hm hthread
      rw [Logger.message_of_thread hlogger hplace] at hfile
      rw [← Option.some.inj hfile]
      exact h.flushed hbefore hplace
    · rw [hflushes]
      rcases Logger.ended_of_move hlogger hended with rfl | ⟨hbefore, hrecycle, htest⟩
      · have hno : s.flushes = false := Bool.eq_false_iff.mpr fun hyes => hflush ⟨hyes, .inr rfl⟩
        simp [hno]
      · simp [h.ended hbefore, hrecycle, htest]
  · refine ⟨hlogger ▸ h.logger, LogFile.step_archived hopens h.archived hfile, ?_, ?_, ?_⟩
    · have hmessages := LogFile.step_messages hfile
      rw [hmessage, Option.toList_none, List.append_nil] at hmessages
      rw [hlogger, ← h.received, List.flatMap_def, List.flatMap_def, hmessages]
    · rw [hlogger]
      intro hno hthread
      rcases hkept with ⟨-, hempty⟩ | ⟨hsame, hempty⟩
      · exact hempty
      · exact hempty (h.flushed (hsame ▸ hno) hthread)
    · rw [hlogger]
      intro hended
      rcases hkept with ⟨hno, -⟩ | ⟨hsame, -⟩
      · exact hno
      · rw [hsame]
        exact h.ended hended

theorem start_inv (startTime : List Char) (naming : LogFile.Naming) (disk : LogFile.Disk)
    (now : DateTime) : Inv naming disk (start startTime naming disk now) := by
  obtain ⟨hentries, hunwritten⟩ := LogFile.start_fresh naming disk now true
  refine ⟨Logger.inv_start startTime, LogFile.start_archived naming disk now, ?_,
    fun _ _ => hunwritten, fun _ => rfl⟩
  show (LogFile.start naming disk now true).entries.flatMap _ = []
  rw [hentries]
  rfl

/-! ## The lines -/

/-- The line of a move is in range, and so is the batch that it collects. -/
def InRange (s : Pipeline) : Act → Prop
  | .move m _ _ _ => s.logger.InRange m
  | _ => True

/-- The line of a move does not fall between the two tests for room. -/
def Lossless (s : Pipeline) : Act → Prop
  | .move m _ _ _ => s.logger.Lossless m
  | _ => True

/-- All lines are stored. -/
def Stored (s : Pipeline) : Prop := s.logger.Ready ∧ s.logger.log.stored = s.logger.log.appended

theorem step_stored (h : Stored s) (hrange : InRange s a) (hkept : Lossless s a)
    (hstep : step s a = some t) : Stored t := by
  rcases step_cases hstep with ⟨m, now, later, opens, rfl, -, hlogger, -, -⟩ | ⟨hlogger, -⟩
  · refine ⟨Logger.ready_step h.1 hrange hlogger, ?_⟩
    rcases Logger.stored_move h.1.1 h.1.2 hrange hlogger with ⟨-, heq⟩ | ⟨hlost, -⟩
    · rw [heq, Logger.appended_move h.1.2 hlogger, h.2]
    · exact absurd hkept hlost
  · unfold Stored
    rw [hlogger]
    exact h

/-- In a zone of fixed offset, where every `open` succeeds and the rolls have new names: the files
    in the order of their names, those that expired since with what they held, and then the
    buffer of the stream, are what the log thread has written, whatever it was; with lines in range, none of which falls between the two tests for room, they and
    what the log thread holds are all lines in their order; and once `stop()` has returned,
    nothing is left in the buffer of the stream, nor of the batch. -/
theorem log_archived (startTime : List Char) (naming : LogFile.Naming) (disk : LogFile.Disk)
    (now : DateTime) (acts : List Act) (s : Pipeline)
    (hrun : run step (start startTime naming disk now) acts = some s)
    (hopens : ∀ a ∈ acts, a.Opens) (hnew : ∀ r ∈ s.file.rolled, naming.New disk r) :
    s.file.archive disk ++ s.file.unwritten = s.logger.log.output ∧
      ((s.file.rolled.map fun r => naming.rollName r.1 r.2).Pairwise (· < ·) ∧
        ∀ k r i, s.file.rolled[k]? = some r →
          s.file.disk.names (naming.rollName r.1 r.2) = some i → i = disk.next + k) ∧
      (Along step (fun s a => InRange s a ∧ Lossless s a) (start startTime naming disk now) acts →
        s.file.archive disk ++ s.file.unwritten ++ bytes s.logger.log.rest ++
          bytes s.logger.log.buffers ++ s.logger.log.currentBuffer.data = s.logger.log.appended) ∧
      (s.logger.stop = .returned → s.file.unwritten = [] ∧ s.logger.log.rest = []) := by
  have hinv : Inv naming disk s :=
    run_invariant_of step_inv hopens (start_inv startTime naming disk now) hrun
  have hnumbered := hinv.archived.numbered hnew
  have hout : s.file.archive disk ++ s.file.unwritten = s.logger.log.output := by
    rw [← LogFile.archive_eq hinv.archived.kept hnumbered hinv.archived.whole, hinv.received]
  have hsorted := hinv.archived.ordered.rollNames fun r hr => (hnew r hr).1
  refine ⟨hout, ⟨hsorted, fun k r i hk hi => ?_⟩, fun hkept => ?_, fun hreturned => ?_⟩
  · have hnodup := hsorted.imp fun {x y : List Char} hlt (heq : x = y) => List.lt_irrefl y (heq ▸ hlt)
    exact hnumbered.inode_of_name hnew hnodup hk hi
  · have hstored : Stored s :=
      run_invariant_along (fun _ _ _ hs ha hstep => step_stored hs ha.1 ha.2 hstep)
        ⟨Logger.ready_start startTime, rfl⟩ hrun hkept
    rw [hout]
    exact hstored.2
  · have hended := hinv.logger.ended hreturned
    have hthread : s.logger.thread ≠ .write := by
      rw [hended]
      simp
    refine ⟨hinv.flushed (hinv.ended hended) hthread, ?_⟩
    have htop := hinv.logger.phase.mpr hthread
    unfold World.rest
    cases hphase : s.logger.log.phase with
    | top b1 b2 => rfl
    | swapped newBuffer2 => simp [Logger.isTop, hphase] at htop
    | writing newBuffer2 i => simp [Logger.isTop, hphase] at htop

/-- A line, a round of the log thread, and `stop()`. -/
def stoppedActs : List Act :=
  [.move (.append [7] false) 0 0 true, .move .test 0 0 true, .move .lock 0 0 true,
   .move .timeout 0 0 true, .move .collect 0 0 true, .move .limit 0 0 true,
   .move .write 86400000000 86400000000 true, .move .recycle 0 0 true, .flush 86400000000,
   .move .stop 0 0 true, .move .notify 0 0 true, .move .wait 0 0 true, .move .test 0 0 true,
   .flush 86400000000, .move .lastNotify 0 0 true, .move .join 0 0 true]

theorem log_archived_stopped :
    ∃ s, run step (start [] LogFile.sampleNaming LogFile.emptyDisk 86399000000) stoppedActs = some s ∧
      s.logger.stop = .returned ∧ s.file.rolled = [(86399000000, 0), (86400000000, 0)] ∧
      s.file.archive LogFile.emptyDisk = [7] := by
  have hrun : (run step (start [] LogFile.sampleNaming LogFile.emptyDisk 86399000000)
      stoppedActs).map (fun s => decide (s.logger.stop = .returned ∧
        s.file.rolled = [(86399000000, 0), (86400000000, 0)] ∧ s.logger.log.output = [7])) =
      some true := by
    decide +kernel
  obtain ⟨s, hs, hend⟩ := Option.map_eq_some_iff.mp hrun
  obtain ⟨hreturned, hrolled, houtput⟩ := of_decide_eq_true hend
  have hnew : ∀ r ∈ s.file.rolled, LogFile.sampleNaming.New LogFile.emptyDisk r := by
    rw [hrolled]
    simp only [List.forall_mem_cons, List.not_mem_nil, false_imp_iff, implies_true, and_true]
    exact ⟨⟨⟨by decide, by decide⟩, rfl⟩, ⟨by decide, by decide⟩, rfl⟩
  obtain ⟨harchive, -, -, hleft⟩ := log_archived [] LogFile.sampleNaming LogFile.emptyDisk 86399000000
    stoppedActs s hs (by simp [stoppedActs, Act.Opens]) hnew
  rw [(hleft hreturned).1, List.append_nil, houtput] at harchive
  exact ⟨s, hs, hreturned, hrolled, harchive⟩

end Pipeline
end LogAsync
end Youth.Utils
