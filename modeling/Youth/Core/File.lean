/-
  Youth.Core.File

  The files of `youth/core/File.cc`, as far as the HTTP server reads and writes them: a
  `std::fstream`, opened once, with the bytes of its file.

  `readMaxSize` reads into an array on the stack and makes a string of it as if it ended
  with a zero.  What the array and the stack behind it hold before the call is an argument
  (`stack`; behind the list comes a zero).
-/

import Mathlib.Tactic.Basic

namespace Youth.Core

inductive OpenMode
  | readOnly
  | writeOnly
  deriving DecidableEq, Repr

structure File where
  openMode : OpenMode
  content : List UInt8
  position : Nat := 0
  /-- `m_fstream.good()`. -/
  good : Bool := true
  /-- `m_fstream.is_open()`. -/
  isOpen : Bool := true
  deriving DecidableEq, Repr

/-- The string at an address, given the memory from there on. -/
def cString (memory : List UInt8) : List UInt8 := memory.takeWhile (· ≠ 0)

namespace File

/-- `m_fstream.read`: the bytes read.  Reading less than asked for ends the good state. -/
def read (f : File) (n : Nat) : List UInt8 × File :=
  if f.good then
    let data := (f.content.drop f.position).take n
    (data, { f with position := f.position + data.length, good := data.length = n })
  else ([], f)

def readMaxSize (f : File) (stack : List UInt8) (maxSize : Nat) : List UInt8 × File :=
  if f.isOpen ∧ f.openMode = .readOnly then
    let (data, f) := f.read maxSize
    (cString (data ++ stack.drop data.length), f)
  else ([], f)

/-- `atEnd`: `peek()` at the end of the file ends the good state, too. -/
def atEnd (f : File) : Bool × File :=
  if f.isOpen then
    if f.good ∧ f.position < f.content.length then (false, f) else (true, { f with good := false })
  else (true, f)

/-- `write(const char *, int)`.  A negative length writes nothing and ends the good state. -/
def write (f : File) (str : List UInt8) (len : Int) : File :=
  if f.isOpen ∧ f.openMode = .writeOnly ∧ f.good then
    if 0 ≤ len then
      let data := str.take len.toNat
      { f with
        content := f.content.take f.position ++ data ++ f.content.drop (f.position + data.length)
        position := f.position + data.length }
    else { f with good := false }
  else f

/-- `close`; the content is flushed. -/
def close (f : File) : File := { f with isOpen := false }

end File
end Youth.Core
