/-
  Youth.Lib.Pieces

  A list taken apart at every match of a separator.

  The matches are the ones a reader meets who goes from left to right and goes on behind
  each match: they do not overlap, and each starts as early as it can.  `occurrences`
  counts them and `pieces` gives what stands between them, both in one pass that counts
  down the elements of a match it is in.  Everything about them follows from what they do
  at the first match (`pieces_of_cut`, `occurrences_of_cut`), by `cut_induction`.
-/

import Youth.Lib.Cut
import Mathlib.Data.List.Basic

namespace Youth.Lib

variable {α : Type} {sep xs before rest : List α}

/-- What is left of a match behind its first element. -/
theorem drop_length_pred (hsep : sep ≠ []) (x : α) (xs : List α) :
    xs.drop (sep.length - 1) = (x :: xs).drop sep.length := by
  have hpos := List.length_pos_iff.mpr hsep
  obtain ⟨n, hn⟩ := Nat.exists_eq_add_one_of_ne_zero hpos.ne'
  rw [hn, List.drop_succ_cons]
  rfl

theorem intercalate_cons_of_ne_nil (between piece : List α) {more : List (List α)} (h : more ≠ []) :
    between.intercalate (piece :: more) = piece ++ between ++ between.intercalate more := by
  obtain ⟨next, more, rfl⟩ := List.exists_cons_of_ne_nil h
  simp [List.intercalate, List.intersperse]

variable [DecidableEq α]

/-- `pieces`, inside a match of which `skip` elements are still to come. -/
def piecesFrom (sep : List α) : Nat → List α → List (List α)
  | _, [] => [[]]
  | skip + 1, _ :: xs => piecesFrom sep skip xs
  | 0, x :: xs =>
    if sep <+: x :: xs then [] :: piecesFrom sep (sep.length - 1) xs
    else (piecesFrom sep 0 xs).modifyHead (x :: ·)

/-- What stands between the matches of `sep`. -/
def pieces (sep xs : List α) : List (List α) := piecesFrom sep 0 xs

/-- `occurrences`, inside a match of which `skip` elements are still to come. -/
def occurrencesFrom (sep : List α) : Nat → List α → Nat
  | _, [] => 0
  | skip + 1, _ :: xs => occurrencesFrom sep skip xs
  | 0, x :: xs =>
    if sep <+: x :: xs then occurrencesFrom sep (sep.length - 1) xs + 1
    else occurrencesFrom sep 0 xs

/-- How many matches of `sep` there are, from the left and without overlap. -/
def occurrences (sep xs : List α) : Nat := occurrencesFrom sep 0 xs

theorem piecesFrom_eq_pieces (sep : List α) (skip : Nat) (xs : List α) :
    piecesFrom sep skip xs = pieces sep (xs.drop skip) := by
  induction xs generalizing skip with
  | nil => simp [pieces, piecesFrom]
  | cons x xs ih =>
      cases skip with
      | zero => rfl
      | succ skip => rw [piecesFrom, ih, List.drop_succ_cons]

theorem occurrencesFrom_eq_occurrences (sep : List α) (skip : Nat) (xs : List α) :
    occurrencesFrom sep skip xs = occurrences sep (xs.drop skip) := by
  induction xs generalizing skip with
  | nil => simp [occurrences, occurrencesFrom]
  | cons x xs ih =>
      cases skip with
      | zero => rfl
      | succ skip => rw [occurrencesFrom, ih, List.drop_succ_cons]

theorem pieces_of_no_match (h : ¬sep <:+: xs) : pieces sep xs = [xs] := by
  induction xs with
  | nil => rfl
  | cons x xs ih =>
      rw [List.infix_cons_iff, not_or] at h
      have hxs : piecesFrom sep 0 xs = [xs] := ih h.2
      rw [pieces, piecesFrom, if_neg h.1, hxs]
      rfl

theorem pieces_of_cut (hsep : sep ≠ []) (h : cut sep xs = some (before, rest)) :
    pieces sep xs = before :: pieces sep rest := by
  induction xs generalizing before with
  | nil => simp [cut, hsep] at h
  | cons x xs ih =>
      rw [pieces, piecesFrom]
      rw [cut] at h
      split at h
      next hpre =>
        cases h
        rw [if_pos hpre, piecesFrom_eq_pieces, drop_length_pred hsep x]
      next hpre =>
        obtain ⟨p, hp, hpair⟩ := Option.map_eq_some_iff.mp h
        cases hpair
        have hxs : piecesFrom sep 0 xs = p.1 :: pieces sep p.2 := ih hp
        rw [if_neg hpre, hxs]
        rfl

theorem occurrences_of_no_match (h : ¬sep <:+: xs) : occurrences sep xs = 0 := by
  induction xs with
  | nil => rfl
  | cons x xs ih =>
      rw [List.infix_cons_iff, not_or] at h
      rw [occurrences, occurrencesFrom, if_neg h.1]
      exact ih h.2

theorem occurrences_of_cut (hsep : sep ≠ []) (h : cut sep xs = some (before, rest)) :
    occurrences sep xs = occurrences sep rest + 1 := by
  induction xs generalizing before with
  | nil => simp [cut, hsep] at h
  | cons x xs ih =>
      rw [occurrences, occurrencesFrom]
      rw [cut] at h
      split at h
      next hpre =>
        cases h
        rw [if_pos hpre, occurrencesFrom_eq_occurrences, drop_length_pred hsep x]
      next hpre =>
        obtain ⟨p, hp, hpair⟩ := Option.map_eq_some_iff.mp h
        cases hpair
        rw [if_neg hpre]
        exact ih hp

/-- Induction over the matches: a list without one, and a list from what is behind its
    first one. -/
theorem cut_induction (hsep : sep ≠ []) {P : List α → Prop}
    (hnone : ∀ xs, ¬sep <:+: xs → P xs)
    (hsome : ∀ xs before rest, cut sep xs = some (before, rest) → P rest → P xs)
    (xs : List α) : P xs := by
  induction hn : xs.length using Nat.strongRecOn generalizing xs with
  | ind n ih =>
      rcases hcut : cut sep xs with _ | ⟨before, rest⟩
      · exact hnone xs (cut_eq_none_iff.mp hcut)
      · refine hsome xs before rest hcut (ih rest.length ?_ rest rfl)
        -- the separator takes at least one element
        have hlen := congrArg List.length (cut_eq_append hcut)
        have hpos := List.length_pos_iff.mpr hsep
        simp only [List.length_append] at hlen
        omega

theorem pieces_ne_nil (hsep : sep ≠ []) (xs : List α) : pieces sep xs ≠ [] := by
  induction xs using cut_induction hsep with
  | hnone xs h =>
      rw [pieces_of_no_match h]
      exact List.cons_ne_nil _ _
  | hsome xs before rest h _ =>
      rw [pieces_of_cut hsep h]
      exact List.cons_ne_nil _ _

/-- The separator stands in no piece. -/
theorem not_infix_of_mem_pieces (hsep : sep ≠ []) (xs : List α) :
    ∀ piece ∈ pieces sep xs, ¬sep <:+: piece := by
  induction xs using cut_induction hsep with
  | hnone xs h =>
      rw [pieces_of_no_match h]
      intro piece hmem
      rw [List.mem_singleton.mp hmem]
      exact h
  | hsome xs before rest h ih =>
      rw [pieces_of_cut hsep h]
      intro piece hmem
      rcases List.mem_cons.mp hmem with rfl | hmem
      · exact not_infix_of_cut hsep h
      · exact ih piece hmem

/-- The pieces with the separator between them are the list again. -/
theorem intercalate_pieces (hsep : sep ≠ []) (xs : List α) :
    sep.intercalate (pieces sep xs) = xs := by
  induction xs using cut_induction hsep with
  | hnone xs h =>
      rw [pieces_of_no_match h]
      simp [List.intercalate]
  | hsome xs before rest h ih =>
      rw [pieces_of_cut hsep h, intercalate_cons_of_ne_nil _ _ (pieces_ne_nil hsep rest), ih]
      exact (cut_eq_append h).symm

/-- There is one piece more than there are matches. -/
theorem length_pieces (hsep : sep ≠ []) (xs : List α) :
    (pieces sep xs).length = occurrences sep xs + 1 := by
  induction xs using cut_induction hsep with
  | hnone xs h => rw [pieces_of_no_match h, occurrences_of_no_match h, List.length_singleton]
  | hsome xs before rest h ih =>
      rw [pieces_of_cut hsep h, occurrences_of_cut hsep h, List.length_cons, ih]

end Youth.Lib
