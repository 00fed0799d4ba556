/-
  Youth.Net.HostAddress

  The text of an address: `ipAndPort` of `youth/net/HostAddress.cc`, which is
  `getIpAndPort` of `youth/net/SocketFunc.cpp`, on the `inet_ntop` of the C library.

  Texts are lists of characters.  `inet_ntop` follows the C library's algorithm: the
  longest run of two or more zero words is written `::`, and an address that embeds an
  IPv4 address ends with the dotted form.  All that later modules need of it is its
  length, below `INET6_ADDRSTRLEN`.
-/

import Youth.Lib.Printf

namespace Youth.Net

open Youth.Lib

inductive HostAddress
  /-- `sockaddr_in`. -/
  | inet (a b c d : UInt8) (port : UInt16)
  /-- `sockaddr_in6`, as its eight words. -/
  | inet6 (words : Vector UInt16 8) (port : UInt16)
  deriving DecidableEq, Repr

namespace HostAddress

def INET6_ADDRSTRLEN : Nat := 46

/-! ## `inet_ntop` -/

def inet_ntop4 (a b c d : UInt8) : List Char :=
  formatNat a.toNat ++ '.' :: formatNat b.toNat ++ '.' :: formatNat c.toNat ++
    '.' :: formatNat d.toNat

/-- A run of zero words. -/
structure ZeroRun where
  base : Nat
  len : Nat
  deriving DecidableEq, Repr

/-- The run that has just ended replaces the best one if it is longer. -/
def longer : Option ZeroRun → Option ZeroRun → Option ZeroRun
  | some best, some cur => if best.len < cur.len then some cur else some best
  | none, cur => cur
  | best, none => best

/-- The search: the best run so far, the run that is open, and the words left from `i` on. -/
def bestRun (best cur : Option ZeroRun) (i : Nat) : List UInt16 → Option ZeroRun
  | [] => longer best cur
  | w :: words =>
    if w = 0 then
      match cur with
      | none => bestRun best (some ⟨i, 1⟩) (i + 1) words
      | some c => bestRun best (some ⟨c.base, c.len + 1⟩) (i + 1) words
    else bestRun (longer best cur) none (i + 1) words

/-- The run that is written `::`. -/
def compressed (words : Vector UInt16 8) : Option ZeroRun :=
  (bestRun none none 0 words.toList).filter (2 ≤ ·.len)

/-- The last two words are written as an IPv4 address. -/
def embedsInet (words : Vector UInt16 8) (best : Option ZeroRun) : Bool :=
  best = some ⟨0, 6⟩ ∨ (best = some ⟨0, 5⟩ ∧ words[5] = 0xffff)

/-- The word at `i`, with the colon in front of it. -/
def formatWord (best : Option ZeroRun) (i : Nat) (w : UInt16) : List Char :=
  match best with
  | some run =>
    if run.base ≤ i ∧ i < run.base + run.len then
      if i = run.base then [':'] else []
    else (if i = 0 then [] else [':']) ++ formatHex w.toNat
  | none => (if i = 0 then [] else [':']) ++ formatHex w.toNat

def formatWords (best : Option ZeroRun) (i : Nat) : List UInt16 → List Char
  | [] => []
  | w :: words => formatWord best i w ++ formatWords best (i + 1) words

def inet_ntop6 (words : Vector UInt16 8) : List Char :=
  let best := compressed words
  if embedsInet words best then
    formatWords best 0 (words.toList.take 6) ++ ':' ::
      inet_ntop4 (words[6] >>> 8).toUInt8 words[6].toUInt8 (words[7] >>> 8).toUInt8 words[7].toUInt8
  else
    formatWords best 0 words.toList ++
      if best.any fun run => run.base + run.len = 8 then [':'] else []

/-! ## `getIpAndPort` -/

def getIp : HostAddress → List Char
  | .inet a b c d _ => inet_ntop4 a b c d
  | .inet6 words _ => inet_ntop6 words

def getPort : HostAddress → UInt16
  | .inet _ _ _ _ port => port
  | .inet6 _ port => port

def ipAndPort (addr : HostAddress) : List Char :=
  addr.getIp ++ snprintf 12 (':' :: formatNat addr.getPort.toNat)

/-! ## Lengths -/

theorem length_inet_ntop4 (a b c d : UInt8) : (inet_ntop4 a b c d).length ≤ 15 := by
  have hdigits : ∀ n : UInt8, (formatNat n.toNat).length ≤ 3 := fun n =>
    length_formatNat (by decide) (Nat.lt_trans n.toNat_lt (by decide))
  have ha := hdigits a
  have hb := hdigits b
  have hc := hdigits c
  have hd := hdigits d
  simp only [inet_ntop4, List.length_append, List.length_cons]
  omega

theorem length_formatHex_word (w : UInt16) : (formatHex w.toNat).length ≤ 4 :=
  length_formatHex (by decide) w.toNat_lt

theorem length_formatWord (best : Option ZeroRun) (i : Nat) (w : UInt16) :
    (formatWord best i w).length ≤ 5 := by
  have hw := length_formatHex_word w
  unfold formatWord
  split
  · split
    · split <;> simp
    · split <;> simp <;> omega
  · split <;> simp <;> omega

/-- There is no colon in front of the first word. -/
theorem length_formatWord_zero (best : Option ZeroRun) (w : UInt16) :
    (formatWord best 0 w).length ≤ 4 := by
  have hw := length_formatHex_word w
  unfold formatWord
  split
  · split
    · split <;> simp
    · simpa using hw
  · simpa using hw

theorem length_formatWords (best : Option ZeroRun) (i : Nat) (words : List UInt16) :
    (formatWords best i words).length ≤ 5 * words.length := by
  induction words generalizing i with
  | nil => simp [formatWords]
  | cons w words ih =>
      have hw := length_formatWord best i w
      have hrest := ih (i + 1)
      simp only [formatWords, List.length_append, List.length_cons]
      omega

theorem length_formatWords_zero (best : Option ZeroRun) (w : UInt16) (words : List UInt16) :
    (formatWords best 0 (w :: words)).length ≤ 5 * words.length + 4 := by
  have hw := length_formatWord_zero best w
  have hrest := length_formatWords best (0 + 1) words
  simp only [formatWords, List.length_append]
  omega

theorem length_inet_ntop6 (words : Vector UInt16 8) :
    (inet_ntop6 words).length < INET6_ADDRSTRLEN := by
  obtain ⟨w, ws, hwords⟩ := List.exists_cons_of_length_pos
    (show 0 < words.toList.length by simp)
  have hlen : ws.length = 7 := by
    have := congrArg List.length hwords
    simpa using this.symm
  unfold inet_ntop6 INET6_ADDRSTRLEN
  simp only [hwords, List.take_succ_cons]
  split
  · -- no trailing colon after the dotted form
    have hfirst := length_formatWords_zero (compressed words) w (ws.take 5)
    have hinet := length_inet_ntop4 (words[6] >>> 8).toUInt8 words[6].toUInt8
      (words[7] >>> 8).toUInt8 words[7].toUInt8
    rw [List.length_take] at hfirst
    simp only [List.length_append, List.length_cons]
    omega
  · have hall := length_formatWords_zero (compressed words) w ws
    rw [List.length_append]
    split <;> simp <;> omega

theorem length_getIp (addr : HostAddress) : addr.getIp.length < INET6_ADDRSTRLEN := by
  cases addr with
  | inet a b c d port => exact Nat.lt_of_le_of_lt (length_inet_ntop4 a b c d) (by decide)
  | inet6 words port => exact length_inet_ntop6 words

theorem length_formatNat_port (port : UInt16) : (formatNat port.toNat).length ≤ 5 :=
  length_formatNat (by decide) (Nat.lt_trans port.toNat_lt (by decide))

/-- Every port fits into the array of `getIpAndPort`. -/
theorem ipAndPort_eq (addr : HostAddress) :
    addr.ipAndPort = addr.getIp ++ ':' :: formatNat addr.getPort.toNat := by
  have hport := length_formatNat_port addr.getPort
  rw [ipAndPort, snprintf_eq_self (by simp only [List.length_cons]; omega)]

theorem length_ipAndPort (addr : HostAddress) : addr.ipAndPort.length ≤ 51 := by
  have hip : addr.getIp.length < 46 := addr.length_getIp
  have hport := length_formatNat_port addr.getPort
  rw [ipAndPort_eq, List.length_append, List.length_cons]
  omega

end HostAddress
end Youth.Net
