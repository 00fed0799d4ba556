/-
  Youth.Lib.Lines

  A list taken apart at a separator of two elements, such as the lines of a text between
  carriage return and line feed.

  `lines a b xs` always has a last line, which may be empty.  A separator that was written
  between two texts separates their lines (`lines_append_separator`), whatever the texts
  are: the two elements are different, so none of them takes part in another match.
-/

import Mathlib.Data.List.Infix

namespace Youth.Lib

variable {α : Type} {a b : α}

/-- No separator goes across an element that is not one of its own. -/
theorem not_infix_append_cons {c : α} (hca : c ≠ a) (hcb : c ≠ b) {xs ys : List α}
    (hxs : ¬[a, b] <:+: xs) (hys : ¬[a, b] <:+: ys) : ¬[a, b] <:+: xs ++ c :: ys := by
  induction xs with
  | nil =>
      rw [List.nil_append, List.infix_cons_iff, not_or]
      exact ⟨fun h => hca (List.cons_prefix_cons.mp h).1.symm, hys⟩
  | cons x xs ih =>
      rw [List.cons_append, List.infix_cons_iff, not_or]
      refine ⟨fun h => ?_, ih fun hin => hxs (hin.trans (List.suffix_cons x _).isInfix)⟩
      obtain ⟨rfl, hb⟩ := List.cons_prefix_cons.mp h
      -- the second element is `c` or one of `xs`
      rcases xs with _ | ⟨y, rest⟩
      · exact hcb (List.cons_prefix_cons.mp hb).1.symm
      · obtain ⟨rfl, -⟩ := List.cons_prefix_cons.mp hb
        exact hxs ⟨[], rest, rfl⟩

variable [DecidableEq α]

/-- The parts of the list between the separators `[a, b]`. -/
def lines (a b : α) : List α → List (List α)
  | [] => [[]]
  | [x] => [[x]]
  | x :: y :: rest =>
    if x = a ∧ y = b then [] :: lines a b rest
    else (lines a b (y :: rest)).modifyHead (x :: ·)

theorem lines_ne_nil (xs : List α) : lines a b xs ≠ [] := by
  induction xs using lines.induct a b with
  | case1 => simp [lines]
  | case2 x => simp [lines]
  | case3 x y rest hmatch ih => simp [lines, hmatch]
  | case4 x y rest hmatch ih =>
      rw [lines, if_neg hmatch]
      simpa using ih

theorem exists_lines (a b : α) (xs : List α) : ∃ line more, lines a b xs = line :: more :=
  List.exists_cons_of_ne_nil (lines_ne_nil xs)

/-- A separator that was written is found. -/
theorem lines_append_separator (hab : a ≠ b) (xs ys : List α) :
    lines a b (xs ++ a :: b :: ys) = lines a b xs ++ lines a b ys := by
  induction xs using lines.induct a b with
  | case1 => simp [lines]
  | case2 x =>
      -- the match would have to end with `a`
      have hno : ¬(x = a ∧ a = b) := fun h => hab h.2
      simp [lines, hno]
  | case3 x y rest hmatch ih => simp [lines, hmatch, ih]
  | case4 x y rest hmatch ih =>
      obtain ⟨line, more, hlines⟩ := exists_lines a b (y :: rest)
      rw [List.cons_append, hlines] at ih
      rw [List.cons_append, List.cons_append, lines, if_neg hmatch, ih, lines, if_neg hmatch, hlines]
      rfl

theorem lines_cons {x : α} (hx : x ≠ a) (xs : List α) :
    lines a b (x :: xs) = (lines a b xs).modifyHead (x :: ·) := by
  rcases xs with _ | ⟨y, rest⟩
  · rfl
  · rw [lines, if_neg fun h => hx h.1]

/-- A text in which no separator starts stands in front of the first line. -/
theorem lines_append {xs : List α} (h : a ∉ xs) (ys : List α) :
    lines a b (xs ++ ys) = (lines a b ys).modifyHead (xs ++ ·) := by
  induction xs with
  | nil =>
      obtain ⟨line, more, hlines⟩ := exists_lines a b ys
      simp [hlines]
  | cons x xs ih =>
      rw [List.mem_cons, not_or] at h
      obtain ⟨hx, hxs⟩ := h
      rw [List.cons_append, lines_cons (Ne.symm hx), ih hxs, List.modifyHead_modifyHead]
      rfl

theorem lines_of_not_mem {xs : List α} (h : a ∉ xs) : lines a b xs = [xs] := by
  have hlines := lines_append (b := b) h []
  rw [List.append_nil] at hlines
  rw [hlines]
  simp [lines]

/-- A text without separators is one line. -/
theorem lines_of_not_infix {xs : List α} (h : ¬[a, b] <:+: xs) : lines a b xs = [xs] := by
  induction xs using lines.induct a b with
  | case1 => rfl
  | case2 x => rfl
  | case3 x y rest hmatch ih =>
      obtain ⟨rfl, rfl⟩ := hmatch
      exact absurd ⟨[], rest, rfl⟩ h
  | case4 x y rest hmatch ih =>
      have hrest : ¬[a, b] <:+: y :: rest := fun hin => h (hin.trans (List.suffix_cons x _).isInfix)
      rw [lines, if_neg hmatch, ih hrest]
      rfl

end Youth.Lib
