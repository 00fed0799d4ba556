/-
  Youth.Lib.Numeral

  Numerals over an alphabet of digits, and the loop that makes one.

  `low` gives the digits of a number, the least significant one first, which is the
  order a loop of divisions finds them in; a numeral is these backwards.  It has no
  leading zero (`canonical_numeral`) and is read back as the number (`parse_numeral`).
  `loop_low` is about any loop that divides by the base in every turn, whatever it
  keeps in its state: the digits are those of a magnitude of the state.
-/

import Mathlib.Data.List.GetD
import Mathlib.Data.Nat.Digits.Lemmas
import Youth.Lib.Loop

namespace Youth.Lib

/-- Digits, from zero on. -/
structure Alphabet where
  digits : List Char
  nodup : digits.Nodup
  two_le : 2 ≤ digits.length

namespace Alphabet

variable (A : Alphabet)

def base : Nat := A.digits.length

/-- The digit `d`, for `d` below the base. -/
def digit (d : Nat) : Char := A.digits.getD d ' '

/-- The digits of `n`, the least significant one first; at least one. -/
def low (n : Nat) : List Char := if n = 0 then [A.digit 0] else (Nat.digits A.base n).map A.digit

/-- `n` with the most significant digit first. -/
def numeral (n : Nat) : List Char := (A.low n).reverse

def digitValue (c : Char) : Option Nat := A.digits.idxOf? c

/-- The number that a text of digits stands for. -/
def parse (cs : List Char) : Option Nat :=
  if cs = [] then none
  else cs.foldlM (fun n c => (A.digitValue c).map fun d => n * A.base + d) 0

/-- Digits only, at least one, and the first is a zero only if it is the only one. -/
def Canonical (cs : List Char) : Prop :=
  cs ≠ [] ∧ (∀ c ∈ cs, c ∈ A.digits) ∧ (cs.head? = some (A.digit 0) → cs = [A.digit 0])

theorem one_lt_base : 1 < A.base := A.two_le

theorem digitValue_digit {d : Nat} (h : d < A.base) : A.digitValue (A.digit d) = some d := by
  have hlt : d < A.digits.length := h
  rw [digit, List.getD_eq_getElem _ _ hlt, digitValue, List.idxOf?_eq_some_iff]
  refine ⟨hlt, rfl, fun j hj heq => ?_⟩
  have hsame : j = d := A.nodup.getElem_inj_iff.mp heq
  omega

theorem digit_mem {d : Nat} (h : d < A.base) : A.digit d ∈ A.digits := by
  rw [digit, List.getD_eq_getElem _ _ h]
  exact List.getElem_mem h

theorem low_ne_nil (n : Nat) : A.low n ≠ [] := by
  unfold low
  split
  next => exact List.cons_ne_nil _ _
  next hn => simpa using Nat.digits_ne_nil_iff_ne_zero.mpr hn

/-- The digits of a number are its remainder and the digits of its quotient. -/
theorem low_eq (n : Nat) :
    A.low n = A.digit (n % A.base) :: if n / A.base = 0 then [] else A.low (n / A.base) := by
  by_cases hn : n = 0
  · simp [low, hn]
  · rw [low, if_neg hn, Nat.digits_def' A.one_lt_base (Nat.pos_of_ne_zero hn), List.map_cons]
    by_cases hq : n / A.base = 0
    · simp [hq]
    · rw [if_neg hq, low, if_neg hq]

theorem mem_low {n : Nat} {c : Char} (h : c ∈ A.low n) : c ∈ A.digits := by
  unfold low at h
  split at h
  next =>
    rw [List.mem_singleton.mp h]
    exact A.digit_mem (Nat.lt_of_succ_lt A.one_lt_base)
  next =>
    obtain ⟨d, hd, rfl⟩ := List.mem_map.mp h
    exact A.digit_mem (Nat.digits_lt_base A.one_lt_base hd)

/-- A numeral has no leading zero. -/
theorem canonical_numeral (n : Nat) : A.Canonical (A.numeral n) := by
  refine ⟨by simpa [numeral] using A.low_ne_nil n, fun c hc => A.mem_low (List.mem_reverse.mp hc), ?_⟩
  by_cases hn : n = 0
  · simp [numeral, low, hn]
  · intro hhead
    -- the last digit that the divisions find is not zero
    have hne : Nat.digits A.base n ≠ [] := Nat.digits_ne_nil_iff_ne_zero.mpr hn
    have hlast : (Nat.digits A.base n).getLast hne ≠ 0 := Nat.getLast_digit_ne_zero A.base hn
    have hlt : (Nat.digits A.base n).getLast hne < A.base :=
      Nat.digits_lt_base A.one_lt_base (List.getLast_mem hne)
    rw [numeral, low, if_neg hn, List.head?_reverse, List.getLast?_map,
      List.getLast?_eq_some_getLast hne, Option.map_some, Option.some.injEq] at hhead
    have hvalue := congrArg A.digitValue hhead
    rw [A.digitValue_digit hlt, A.digitValue_digit (Nat.lt_of_succ_lt A.one_lt_base)] at hvalue
    exact absurd (Option.some.inj hvalue) hlast

/-- Reading digits, the most significant one first. -/
theorem foldlM_digits {ds : List Nat} (hds : ∀ d ∈ ds, d < A.base) :
    (ds.map A.digit).reverse.foldlM (fun n c => (A.digitValue c).map fun d => n * A.base + d) 0 =
      some (Nat.ofDigits A.base ds) := by
  induction ds with
  | nil => rfl
  | cons d ds ih =>
      obtain ⟨hd, hds⟩ := List.forall_mem_cons.mp hds
      rw [List.map_cons, List.reverse_cons, List.foldlM_append, ih hds]
      simp only [Option.bind_eq_bind, Option.bind_some, List.foldlM_cons, List.foldlM_nil,
        A.digitValue_digit hd, Option.map_some, Nat.ofDigits_cons, Option.pure_def]
      rw [Nat.mul_comm, Nat.add_comm]

/-- A numeral is read back as the number. -/
theorem parse_numeral (n : Nat) : A.parse (A.numeral n) = some n := by
  have hne : A.numeral n ≠ [] := (A.canonical_numeral n).1
  rw [parse, if_neg hne, numeral, low]
  by_cases hn : n = 0
  · rw [if_pos hn, hn]
    have hzero := A.foldlM_digits (show ∀ d ∈ [0], d < A.base by simpa using Nat.lt_of_succ_lt A.one_lt_base)
    simpa using hzero
  · rw [if_neg hn, A.foldlM_digits fun d hd => Nat.digits_lt_base A.one_lt_base hd,
      Nat.ofDigits_digits]

theorem length_numeral_le {n k : Nat} (hk : 0 < k) (h : n < A.base ^ k) :
    (A.numeral n).length ≤ k := by
  rw [numeral, List.length_reverse, low]
  split
  next => exact hk
  next =>
    rw [List.length_map]
    exact (Nat.digits_length_le_iff A.one_lt_base n).mpr h

section

variable {A} {σ ε : Type} {turn : σ → Turn ε σ} {mag : σ → Nat} {I : σ → Prop} (out : Char → ε)

/-- A loop that gives the remainder of a magnitude as a digit, and goes on with the quotient
    until it is zero, gives the digits. -/
theorem loops_low
    (hturn : ∀ s, I s → ∃ t, I t ∧ mag t = mag s / A.base ∧
      turn s = if mag t = 0 then .stop [out (A.digit (mag s % A.base))] t
        else .next [out (A.digit (mag s % A.base))] t)
    {s : σ} (hs : I s) : ∃ t, Loops turn s ((A.low (mag s)).map out) t := by
  induction hn : mag s using Nat.strongRecOn generalizing s with
  | ind n ih =>
      obtain ⟨t, ht, hmag, heq⟩ := hturn s hs
      rw [hmag, hn] at heq
      rw [A.low_eq n]
      by_cases hq : n / A.base = 0
      · rw [if_pos hq] at heq ⊢
        exact ⟨t, .stop heq⟩
      · rw [if_neg hq] at heq ⊢
        -- a quotient that is not zero is smaller
        have hpos : 0 < n := Nat.pos_of_ne_zero fun h => hq (by simp [h])
        obtain ⟨u, hu⟩ := ih (n / A.base) (Nat.div_lt_self hpos A.one_lt_base) ht (by rw [hmag, hn])
        exact ⟨u, .next heq hu⟩

/-- The magnitude bounds the number of turns. -/
theorem loop_low
    (hturn : ∀ s, I s → ∃ t, I t ∧ mag t = mag s / A.base ∧
      turn s = if mag t = 0 then .stop [out (A.digit (mag s % A.base))] t
        else .next [out (A.digit (mag s % A.base))] t)
    {s : σ} (hs : I s) {fuel : Nat} (hfuel : mag s < fuel) :
    ∃ t, loop turn fuel s = some ((A.low (mag s)).map out, t) := by
  have hdec : ∀ s events u, I s → turn s = .next events u → I u ∧ mag u < mag s := by
    intro s events u hs hnext
    obtain ⟨t, ht, hmag, heq⟩ := hturn s hs
    rw [heq] at hnext
    split at hnext
    next => cases hnext
    next hq =>
      cases hnext
      refine ⟨ht, ?_⟩
      rw [hmag] at hq ⊢
      have hpos : 0 < mag s := Nat.pos_of_ne_zero fun h => hq (by rw [h, Nat.zero_div])
      exact Nat.div_lt_self hpos A.one_lt_base
  obtain ⟨t, hloops⟩ := loops_low out hturn hs
  exact ⟨t, loop_of_loops hdec hloops hs hfuel⟩

end

end Alphabet
end Youth.Lib
