/-
  Youth.Lib.Grouped

  A list that is sorted by a key, put together from its groups.

  Where the keys of a list never go down, the elements with one key stand together, and the
  groups of the keys, from the least to the greatest, are the whole list
  (`flatMap_groups`).  Keys without elements do no harm.
-/

import Mathlib.Data.List.Basic
import Mathlib.Order.Lattice

namespace Youth.Lib

variable {α κ : Type} [LinearOrder κ] {key : α → κ} {k : κ} {xs : List α}

/-- The group of the least key stands in front. -/
theorem eq_group_append (hxs : xs.Pairwise fun x y => key x ≤ key y) (hk : ∀ x ∈ xs, k ≤ key x) :
    xs = (xs.filter fun x => key x = k) ++ xs.filter fun x => key x ≠ k := by
  induction xs with
  | nil => rfl
  | cons x xs ih =>
      obtain ⟨hx, hxs⟩ := List.pairwise_cons.mp hxs
      have hrest : ∀ y ∈ xs, k ≤ key y := fun y hy => hk y (List.mem_cons_of_mem _ hy)
      by_cases h : key x = k
      · rw [List.filter_cons_of_pos (by simp [h]), List.filter_cons_of_neg (by simp [h]),
          List.cons_append, ← ih hxs hrest]
      · -- the group is over
        have hlt : k < key x := lt_of_le_of_ne (hk x List.mem_cons_self) (Ne.symm h)
        have hne : ∀ y ∈ x :: xs, key y ≠ k := by
          intro y hy
          rcases List.mem_cons.mp hy with rfl | hy
          · exact h
          · exact (lt_of_lt_of_le hlt (hx y hy)).ne'
        rw [List.filter_eq_nil_iff.mpr fun y hy => by simp [hne y hy], List.nil_append,
          List.filter_eq_self.mpr fun y hy => decide_eq_true (hne y hy)]

theorem flatMap_groups {ks : List κ} (hks : ks.Pairwise (· < ·))
    (hxs : xs.Pairwise fun x y => key x ≤ key y) (hmem : ∀ x ∈ xs, key x ∈ ks) :
    (ks.flatMap fun k => xs.filter fun x => key x = k) = xs := by
  induction ks generalizing xs with
  | nil =>
      obtain rfl : xs = [] := List.eq_nil_iff_forall_not_mem.mpr fun x hx => nomatch hmem x hx
      rfl
  | cons k ks ih =>
      obtain ⟨hk, hks⟩ := List.pairwise_cons.mp hks
      have hle : ∀ x ∈ xs, k ≤ key x := by
        intro x hx
        rcases List.mem_cons.mp (hmem x hx) with heq | hlater
        · exact heq.ge
        · exact (hk _ hlater).le
      have hrest : (ks.flatMap fun k' => (xs.filter fun x => key x ≠ k).filter fun x => key x = k') =
          xs.filter fun x => key x ≠ k := ih hks (hxs.filter _) ?_
      · conv_rhs => rw [eq_group_append hxs hle, ← hrest]
        rw [List.flatMap_cons]
        congr 1
        -- the later groups do not miss the first one
        apply List.flatMap_congr
        intro k' hk'
        rw [List.filter_filter]
        apply List.filter_congr
        intro x hx
        have hne : k' ≠ k := (hk k' hk').ne'
        by_cases h : key x = k' <;> simp [h, hne]
      · intro x hx
        obtain ⟨hx, hne⟩ := List.mem_filter.mp hx
        exact (List.mem_cons.mp (hmem x hx)).resolve_left (of_decide_eq_true hne)

end Youth.Lib
