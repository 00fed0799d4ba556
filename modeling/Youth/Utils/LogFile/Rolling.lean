/-
  Youth.Utils.LogFile.Rolling

  The files that `youth/utils/LogFile.cpp` writes: `outputLogFile`, `flushLogFile`,
  `rollFile`, `delLogFile` and `getFileName`.

  A message goes to the buffer of a stream, which is handed on to the file whenever the
  stream likes (`sync`), so `size()` sees a part of what was written.  A name leads to a
  file by its number; a file that is removed while it is open can still be written.  The
  readings of the clock are arguments of the steps: any values, unless a result asks for a
  clock that does not go back.  So is whether `open` succeeds; a message for a file that is
  not open is dropped.

  `entries`, `rolled` and `clock` are ghosts.  Names are relative to `m_directory`, whose
  files nobody else touches.  Left out: the mutex (each function is one step), the messages
  to `stderr`, and `m_directory` itself, of which `Youth.Utils.LogFile` is about.
-/

import Youth.Core.DateTime.Format
import Youth.Lib.Machine

namespace Youth.Utils.LogFile

open Youth.Lib Youth.Lib.TimeFormat Youth.Core Youth.Core.DateTime

/-! ## Files -/

/-- A regular file: its bytes, and when the last of them were written. -/
structure Inode where
  content : List UInt8
  modified : DateTime

/-- The files of the directory, by name and by number. -/
structure Disk where
  names : List Char → Option Nat
  inodes : Nat → Inode
  /-- The number of the next file. -/
  next : Nat
  inRange : ∀ name i, names name = some i → i < next

namespace Disk

/-- Bytes are put at the end of a file. -/
def append (d : Disk) (i : Nat) (bytes : List UInt8) (now : DateTime) : Disk :=
  if bytes = [] then d
  else { d with inodes := Function.update d.inodes i ⟨(d.inodes i).content ++ bytes, now⟩ }

def create (d : Disk) (name : List Char) (now : DateTime) : Disk where
  names := Function.update d.names name (some d.next)
  inodes := Function.update d.inodes d.next ⟨[], now⟩
  next := d.next + 1
  inRange name' i h := by
    rw [Function.update_apply] at h
    split at h
    · cases h
      exact Nat.lt_succ_self _
    · exact Nat.lt_succ_of_lt (d.inRange name' i h)

/-- Files that were not written since `expired` are removed. -/
def expire (d : Disk) (expired : DateTime) : Disk where
  names name := (d.names name).filter fun i => ¬(d.inodes i).modified < expired
  inodes := d.inodes
  next := d.next
  inRange name i h := d.inRange name i (Option.filter_eq_some_iff.mp h).1

end Disk

/-- A `core::File` opened for appending; no number if that failed. -/
structure File where
  name : List Char
  inode : Option Nat
  buffer : List UInt8 := []

/-- `File::size`, which asks for the name. -/
def File.size (f : File) (d : Disk) : Nat :=
  match d.names f.name with
  | some i => (d.inodes i).content.length
  | none => 0

/-! ## The state -/

/-- What the names are made of. -/
structure Naming where
  basename : List Char
  hostname : List Char
  pid : Nat
  zone : Zone

/-- A message, and the circumstances of its writing. -/
structure Entry where
  message : List UInt8
  inode : Option Nat
  /-- The second of the roll that opened the file. -/
  opened : Int
  /-- What `size()` and `m_rollSize` were. -/
  size : Int
  rollSize : Int
  /-- The first reading of the clock, and one for `rollFile`. -/
  now : DateTime
  later : DateTime

structure World where
  naming : Naming
  count : Int := 0
  rollSize : Int := 1000 * 1000 * 1000
  delLogFileDays : Int := 7
  startTime : Int := 0
  lastRoll : Int := 0
  file : Option File := none
  disk : Disk
  /-- Ghost: the messages, oldest first. -/
  entries : List Entry := []
  /-- Ghost: the rolls, each with its time and its count. -/
  rolled : List (DateTime × Int) := []
  /-- Ghost: the last reading of the clock. -/
  clock : DateTime := 0

def kRollPerSeconds : Int := 60 * 60 * 24

/-- `seconds / kRollPerSeconds_ * kRollPerSeconds_` -/
def period (seconds : Int) : Int := seconds.tdiv kRollPerSeconds * kRollPerSeconds

def secondsSinceEpoch (now : DateTime) : Int := now.tdiv 1000000

/-- `"%Y%m%d-%H%M%S"` -/
def nameFormat : List Item :=
  [.field .year, .field .month, .field .day, .lit '-', .field .hour, .field .minute, .field .second]

def Naming.getFileName (n : Naming) (now : DateTime) : List Char :=
  n.basename ++ (DateTime.toString n.zone now nameFormat).getD [] ++ n.hostname ++
    '.' :: formatNat n.pid ++ ['.', 'l', 'o', 'g']

/-- The name of a file that is rolled. -/
def Naming.rollName (n : Naming) (now : DateTime) (count : Int) : List Char :=
  if count ≠ 0 then n.getFileName now ++ snprintf 32 ('.' :: formatInt count) else n.getFileName now

namespace World

/-- The stream hands the first `k` bytes of its buffer on. -/
def sync (w : World) (k : Nat) (now : DateTime) : World :=
  match w.file with
  | some ⟨name, some i, buffer⟩ =>
    { w with
      disk := w.disk.append i (buffer.take k) now
      file := some ⟨name, some i, buffer.drop k⟩ }
  | _ => w

def buffered (w : World) : Nat := (w.file.map fun f => f.buffer.length).getD 0

def flushLogFile (w : World) (now : DateTime) : World := w.sync w.buffered now

/-- `m_filePtr.reset(new File(fileName))`, which closes the file before, and `open`. -/
def reopen (w : World) (name : List Char) (now : DateTime) (opens : Bool) : World :=
  let w := w.flushLogFile now
  if opens then
    match w.disk.names name with
    | some i => { w with file := some ⟨name, some i, []⟩ }
    | none =>
      { w with file := some ⟨name, some w.disk.next, []⟩, disk := w.disk.create name now }
  else { w with file := some ⟨name, none, []⟩ }

def delLogFile (w : World) (dateTime : DateTime) : World :=
  { w with disk := w.disk.expire (dateTime.addDays (-w.delLogFileDays)) }

def rollFile (w : World) (count : Int) (now : DateTime) (opens : Bool) : World :=
  let w := if count ≠ 0 then w else w.delLogFile now
  let seconds := secondsSinceEpoch now
  if w.lastRoll < seconds then
    { w with
      startTime := period seconds, lastRoll := seconds
      rolled := w.rolled ++ [(now, count)] }.reopen (w.naming.rollName now count) now opens
  else w

/-- The first part of `outputLogFile`. -/
def rollIfNeeded (w : World) (size : Int) (now later : DateTime) (opens : Bool) : World :=
  if w.rollSize < size then { w with count := w.count + 1 }.rollFile (w.count + 1) later opens
  else if period (secondsSinceEpoch now) ≠ w.startTime then
    { w with count := 0 }.rollFile 0 later opens
  else w

/-- `m_filePtr->write(msg, len)` -/
def write (w : World) (msg : List UInt8) : World :=
  match w.file with
  | some ⟨name, some i, buffer⟩ => { w with file := some ⟨name, some i, buffer ++ msg⟩ }
  | _ => w

def outputLogFile (w : World) (f : File) (msg : List UInt8) (now later : DateTime) (opens : Bool) :
    World :=
  let size := f.size w.disk
  let rolled := w.rollIfNeeded size now later opens
  { rolled.write msg with
    entries := w.entries ++
      [⟨msg, rolled.file.bind File.inode, rolled.lastRoll, size, w.rollSize, now, later⟩]
    clock := later }

end World

/-- The end of `setDirectoryAndBaseName`: the first roll. -/
def start (naming : Naming) (disk : Disk) (now : DateTime) (opens : Bool) : World :=
  { naming := naming, disk := disk, clock := now : World }.rollFile 0 now opens

inductive Action
  | output (msg : List UInt8) (now later : DateTime) (opens : Bool)
  | sync (k : Nat) (now : DateTime)
  | flush (now : DateTime)
  | setRollSize (size : Int)
  | setDelLogFileDays (days : Nat)

def step (w : World) : Action → Option World
  | .output msg now later opens => w.file.map fun f => w.outputLogFile f msg now later opens
  | .sync k now => some (w.sync k now)
  | .flush now => some (w.flushLogFile now)
  | .setRollSize size => some { w with rollSize := size }
  | .setDelLogFileDays days => some { w with delLogFileDays := days }

/-! ## What each function changes -/

variable {w w' : World}

theorem sync_frame (w : World) (k : Nat) (now : DateTime) :
    ∃ disk file, w.sync k now = { w with disk := disk, file := file } ∧
      file.bind File.inode = w.file.bind File.inode := by
  unfold World.sync
  split
  next name i buffer hfile => exact ⟨_, _, rfl, by rw [hfile]; rfl⟩
  next => exact ⟨w.disk, w.file, rfl, rfl⟩

theorem reopen_frame (w : World) (name : List Char) (now : DateTime) (opens : Bool) :
    ∃ disk file, w.reopen name now opens = { w with disk := disk, file := file } := by
  obtain ⟨disk, file, hsync, -⟩ := sync_frame w w.buffered now
  unfold World.reopen World.flushLogFile
  rw [hsync]
  dsimp only
  split
  · split
    · exact ⟨_, _, rfl⟩
    · exact ⟨_, _, rfl⟩
  · exact ⟨_, _, rfl⟩

/-- A file is rolled when the second is a new one. -/
theorem rollFile_cases (w : World) (count : Int) (now : DateTime) (opens : Bool) :
    (secondsSinceEpoch now ≤ w.lastRoll ∧ ∃ disk, w.rollFile count now opens = { w with disk := disk }) ∨
    (w.lastRoll < secondsSinceEpoch now ∧ ∃ disk file, w.rollFile count now opens = { w with
      startTime := period (secondsSinceEpoch now), lastRoll := secondsSinceEpoch now
      rolled := w.rolled ++ [(now, count)], disk := disk, file := file }) := by
  obtain ⟨disk, hdel⟩ : ∃ disk, (if count ≠ 0 then w else w.delLogFile now) =
      { w with disk := disk } := by
    split
    · exact ⟨w.disk, rfl⟩
    · exact ⟨_, rfl⟩
  unfold World.rollFile
  rw [hdel]
  by_cases hnew : w.lastRoll < secondsSinceEpoch now
  · right
    obtain ⟨disk', file, hreopen⟩ := reopen_frame
      { w with
        disk := disk, startTime := period (secondsSinceEpoch now)
        lastRoll := secondsSinceEpoch now, rolled := w.rolled ++ [(now, count)] }
      (w.naming.rollName now count) now opens
    exact ⟨hnew, disk', file, (if_pos hnew).trans hreopen⟩
  · exact .inl ⟨Int.not_lt.mp hnew, disk, if_neg hnew⟩

/-- Whether a message is preceded by a roll, and why it is not. -/
theorem rollIfNeeded_cases (w : World) (size : Int) (now later : DateTime) (opens : Bool) :
    ((secondsSinceEpoch later ≤ w.lastRoll ∨
        size ≤ w.rollSize ∧ period (secondsSinceEpoch now) = w.startTime) ∧
      ∃ disk count, w.rollIfNeeded size now later opens = { w with disk := disk, count := count }) ∨
    (w.lastRoll < secondsSinceEpoch later ∧ ∃ disk file count c,
      w.rollIfNeeded size now later opens = { w with
        startTime := period (secondsSinceEpoch later), lastRoll := secondsSinceEpoch later
        rolled := w.rolled ++ [(later, c)], disk := disk, file := file, count := count }) := by
  unfold World.rollIfNeeded
  split
  next hsize =>
    rcases rollFile_cases { w with count := w.count + 1 } (w.count + 1) later opens with
      ⟨hold, disk, heq⟩ | ⟨hnew, disk, file, heq⟩
    · exact .inl ⟨.inl hold, disk, _, heq⟩
    · exact .inr ⟨hnew, disk, file, _, _, heq⟩
  next hsize =>
    split
    next hperiod =>
      rcases rollFile_cases { w with count := 0 } 0 later opens with
        ⟨hold, disk, heq⟩ | ⟨hnew, disk, file, heq⟩
      · exact .inl ⟨.inl hold, disk, _, heq⟩
      · exact .inr ⟨hnew, disk, file, _, _, heq⟩
    next hperiod =>
      exact .inl ⟨.inr ⟨Int.not_lt.mp hsize, not_not.mp hperiod⟩, w.disk, w.count, rfl⟩

theorem write_frame (w : World) (msg : List UInt8) :
    ∃ file, w.write msg = { w with file := file } ∧
      file.bind File.inode = w.file.bind File.inode := by
  unfold World.write
  split
  next name i buffer hfile => exact ⟨_, rfl, by rw [hfile]; rfl⟩
  next => exact ⟨w.file, rfl, rfl⟩

end Youth.Utils.LogFile
