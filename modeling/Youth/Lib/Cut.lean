/-
  Youth.Lib.Cut

  Cutting a list at the first place where a pattern stands.

  `cut pat xs` is what `std::search` (and `std::find`, for a pattern of one
  element) gives its caller: the part before the first match and the part after
  it, `none` when there is no match.  A parser reads its input through `cut`, so
  the two facts it needs are how a cut moves when input is added at the end
  (`cut_append`) and that a separator is found where it was written
  (`cut_separator`).
-/

import Mathlib.Data.List.Infix

namespace Youth.Lib

variable {α : Type} [DecidableEq α]

/-- What stands before and after the first match of `pat`. -/
def cut (pat : List α) : List α → Option (List α × List α)
  | [] => if pat = [] then some ([], []) else none
  | x :: xs =>
    if pat <+: x :: xs then some ([], (x :: xs).drop pat.length)
    else (cut pat xs).map fun p => (x :: p.1, p.2)

variable {pat xs ys before rest : List α}

/-- A cut takes the list apart around the pattern. -/
theorem cut_eq_append (h : cut pat xs = some (before, rest)) : xs = before ++ pat ++ rest := by
  induction xs generalizing before with
  | nil =>
      rw [cut] at h
      split at h
      · cases h
        simp_all
      · cases h
  | cons x xs ih =>
      rw [cut] at h
      split at h
      next hpat =>
        cases h
        obtain ⟨tail, htail⟩ := hpat
        rw [← htail, List.drop_left, List.nil_append]
      · obtain ⟨p, hp, hpair⟩ := Option.map_eq_some_iff.mp h
        cases hpair
        rw [ih hp]
        simp

/-- Input added at the end goes to the part after the match. -/
theorem cut_append (h : cut pat xs = some (before, rest)) (ys : List α) :
    cut pat (xs ++ ys) = some (before, rest ++ ys) := by
  induction xs generalizing before with
  | nil =>
      rw [cut] at h
      split at h
      next hpat =>
        cases h
        subst hpat
        cases ys <;> simp [cut]
      · cases h
  | cons x xs ih =>
      rw [cut] at h
      split at h
      next hpat =>
        cases h
        have hpat' : pat <+: x :: (xs ++ ys) := hpat.trans (List.prefix_append _ _)
        rw [List.cons_append, cut, if_pos hpat', ← List.cons_append,
          List.drop_append_of_le_length hpat.length_le]
      next hpat =>
        obtain ⟨p, hp, hpair⟩ := Option.map_eq_some_iff.mp h
        cases hpair
        have hrest := ih hp
        -- a match that starts earlier would have been cut already
        have hpat' : ¬pat <+: x :: (xs ++ ys) := by
          intro hnew
          have hlen : pat.length ≤ (x :: xs).length := by
            have := congrArg List.length (cut_eq_append hp)
            simp at this ⊢
            omega
          exact hpat (List.prefix_of_prefix_length_le hnew (List.prefix_append (x :: xs) ys) hlen)
        rw [List.cons_append, cut, if_neg hpat', hrest]
        rfl

/-- A separator after `xs` is the first match when no match ends earlier. -/
theorem cut_separator (hpat : pat ≠ []) (h : ¬pat <:+: xs ++ pat.dropLast) (ys : List α) :
    cut pat (xs ++ pat ++ ys) = some (xs, ys) := by
  induction xs with
  | nil =>
      obtain ⟨p, ps, rfl⟩ := List.exists_cons_of_ne_nil hpat
      simp [cut, List.prefix_append]
  | cons x xs ih =>
      have hrest : ¬pat <:+: xs ++ pat.dropLast :=
        fun hin => h (hin.trans (List.suffix_cons x _).isInfix)
      have hhead : ¬pat <+: x :: (xs ++ pat ++ ys) := by
        -- such a match ends before the separator does
        intro hin
        refine h (List.IsPrefix.isInfix ?_)
        refine List.prefix_of_prefix_length_le hin ?_ ?_
        · have hlast : pat.dropLast <+: pat ++ ys :=
            (List.dropLast_prefix pat).trans (List.prefix_append _ _)
          rw [List.append_assoc]
          exact List.prefix_append_right_inj (x :: xs) |>.mpr hlast
        · simp
          omega
      rw [List.cons_append, List.cons_append, cut, if_neg hhead, ih hrest]
      rfl

/-- A match at the start is the first one. -/
theorem cut_at_start (h : pat <+: xs) : cut pat xs = some ([], xs.drop pat.length) := by
  cases xs with
  | nil =>
      obtain rfl := List.prefix_nil.mp h
      rfl
  | cons x xs => rw [cut, if_pos h]

/-- There is a cut exactly where the pattern occurs. -/
theorem cut_eq_none_iff : cut pat xs = none ↔ ¬pat <:+: xs := by
  induction xs with
  | nil => simp [cut]
  | cons x xs ih =>
      rw [cut, List.infix_cons_iff]
      by_cases hpat : pat <+: x :: xs
      · simp [hpat]
      · simp [hpat, ih]

/-- What stands before the first match holds none. -/
theorem not_infix_of_cut (hpat : pat ≠ []) (h : cut pat xs = some (before, rest)) :
    ¬pat <:+: before := by
  intro hin
  obtain ⟨⟨first, after⟩, hfirst⟩ : ∃ p, cut pat before = some p :=
    Option.ne_none_iff_exists'.mp fun hnone => cut_eq_none_iff.mp hnone hin
  -- the match inside would have been the first one
  have hsame := cut_append hfirst (pat ++ rest)
  rw [← List.append_assoc, ← cut_eq_append h, h] at hsame
  obtain ⟨hbefore, -⟩ := Prod.mk.inj (Option.some.inj hsame)
  subst hbefore
  have hlen := congrArg List.length (cut_eq_append hfirst)
  have hpos := List.length_pos_iff.mpr hpat
  simp only [List.length_append] at hlen
  omega

/-- A cut at one element, as `std::find` makes it. -/
theorem cut_singleton (a : α) (xs : List α) : cut [a] xs =
    if a ∈ xs then some (xs.takeWhile (· ≠ a), (xs.dropWhile (· ≠ a)).drop 1) else none := by
  induction xs with
  | nil => rfl
  | cons x xs ih =>
      rw [cut, ih]
      by_cases hx : a = x
      · subst hx
        simp
      · have hx' : x ≠ a := fun h => hx h.symm
        by_cases hmem : a ∈ xs <;> simp [hx, hx', hmem]

/-- One element is found where it was written, behind a part without it. -/
theorem cut_cons {a : α} (h : a ∉ xs) (ys : List α) : cut [a] (xs ++ a :: ys) = some (xs, ys) := by
  have hno : ¬[a] <:+: xs ++ [a].dropLast := by
    rw [List.dropLast_singleton, List.append_nil, List.singleton_infix_iff]
    exact h
  have hcut := cut_separator (List.cons_ne_nil a []) hno ys
  rw [List.append_assoc] at hcut
  exact hcut

end Youth.Lib
