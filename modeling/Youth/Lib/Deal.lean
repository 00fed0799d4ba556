/-
  Youth.Lib.Deal

  Dealing in turn.

  The `i`-th thing goes to `xs[i % n]`, where `n` is the number of the receivers `xs`.
  After `k` things each receiver has `k / n` of them, and those in front one more
  (`count_dealt`), so no two differ by more than one (`count_dealt_le`).
-/

import Mathlib.Data.Int.CardIntervalMod
import Mathlib.Data.List.Nodup

namespace Youth.Lib

variable {α : Type}

/-- Who gets the `i`-th thing. -/
def dealt (xs : List α) (h : xs ≠ []) (i : Nat) : α :=
  xs.get ⟨i % xs.length, Nat.mod_lt _ (List.length_pos_iff.mpr h)⟩

theorem dealt_mem (xs : List α) (h : xs ≠ []) (i : Nat) : dealt xs h i ∈ xs := List.get_mem _ _

/-- The next index, by a test in the place of the remainder. -/
theorem next_mod {n i k : Nat} (hi : i = k % n) (hn : 0 < n) :
    (if i + 1 ≥ n then 0 else i + 1) = (k + 1) % n := by
  have hlt := Nat.mod_lt k hn
  rw [Nat.add_mod, hi]
  rcases Nat.lt_or_ge 1 n with hone | hone
  · rw [Nat.mod_eq_of_lt hone]
    split
    next hge =>
      rw [show k % n + 1 = n by omega, Nat.mod_self]
    next hge => exact (Nat.mod_eq_of_lt (by omega)).symm
  · obtain rfl : n = 1 := by omega
    simp [Nat.mod_one]

variable [DecidableEq α]

theorem count_map_range (f : Nat → α) (x : α) (k : Nat) :
    ((List.range k).map f).count x = Nat.count (fun i => f i = x) k := by
  induction k with
  | zero => rfl
  | succ k ih =>
      rw [List.range_succ, List.map_append, List.count_append, ih, Nat.count_succ, List.map_singleton,
        List.count_singleton]
      simp

/-- What a receiver has after `k` things. -/
theorem count_dealt {xs : List α} (hnodup : xs.Nodup) {x : α} (hx : x ∈ xs) (h : xs ≠ []) (k : Nat) :
    ∃ r < xs.length, ((List.range k).map (dealt xs h)).count x =
      k / xs.length + if r < k % xs.length then 1 else 0 := by
  obtain ⟨r, hr, rfl⟩ := List.getElem_of_mem hx
  have hpos : 0 < xs.length := by omega
  refine ⟨r, hr, ?_⟩
  have hmod : ∀ i, dealt xs h i = xs[r] ↔ i ≡ r [MOD xs.length] := by
    intro i
    rw [dealt, List.get_eq_getElem, hnodup.getElem_inj_iff, Nat.ModEq, Nat.mod_eq_of_lt hr]
  rw [count_map_range]
  simp only [hmod]
  rw [Nat.count_modEq_card k hpos, Nat.mod_eq_of_lt hr]

theorem count_dealt_le {xs : List α} (hnodup : xs.Nodup) {x y : α} (hx : x ∈ xs) (hy : y ∈ xs)
    (h : xs ≠ []) (k : Nat) :
    ((List.range k).map (dealt xs h)).count x ≤ ((List.range k).map (dealt xs h)).count y + 1 := by
  obtain ⟨r, -, hr⟩ := count_dealt hnodup hx h k
  obtain ⟨s, -, hs⟩ := count_dealt hnodup hy h k
  rw [hr, hs]
  split <;> split <;> omega

end Youth.Lib
