/-
  Youth.Core.StringFunction

  The string functions of `youth/core/StringFunction.cc`, and what they compute.

  A string is the list of its bytes.  `find` and `rfind` search as `std::string` does: a
  match of the empty string stands at every position, the end of the text included.  The
  loops of `split`, `remove` and `replace` take as many turns as the text asks for, so the
  three have a bound on them (`none` when it does not suffice).

  With a pattern that is not empty `split` ends with the `pieces` of the text and `remove`
  with a text without the pattern; with the empty pattern neither ends, since the match at
  the cursor takes them nowhere.
-/

import Youth.Lib.Loop
import Youth.Lib.Pieces
import Mathlib.Algebra.Group.Nat.Defs
import Mathlib.Data.List.DropRight

namespace Youth.Core.StringFunction

open Youth.Lib

/-! ## Searching -/

/-- `text.find(s, pos)`: the first match that does not start before `pos`. -/
def find (text s : List UInt8) (pos : Nat) : Option Nat :=
  (List.range' pos (text.length + 1 - pos)).find? fun i => s <+: text.drop i

/-- `text.rfind(s)`: the last match. -/
def rfind (text s : List UInt8) : Option Nat :=
  (List.range (text.length + 1)).reverse.find? fun i => s <+: text.drop i

/-! ## Taking apart and putting together -/

/-- A turn of the loop of `split`, with its cursors `pos1` and `pos2`. -/
def splitTurn (text s : List UInt8) :
    Nat × Option Nat → Turn (List UInt8) (Nat × Option Nat)
  | (pos1, none) => .stop [] (pos1, none)
  | (pos1, some pos2) =>
    .next [(text.drop pos1).take (pos2 - pos1)] (pos2 + s.length, find text s (pos2 + s.length))

def split (fuel : Nat) (text s : List UInt8) : Option (List (List UInt8)) :=
  (loop (splitTurn text s) fuel (0, find text s 0)).map fun p => p.1 ++ [text.drop p.2.1]

/-- `text.replace(pos, n, r)`. -/
def replaceAt (text : List UInt8) (pos n : Nat) (r : List UInt8) : List UInt8 :=
  text.take pos ++ r ++ text.drop (pos + n)

/-- `text.erase(pos, n)`. -/
def eraseAt (text : List UInt8) (pos n : Nat) : List UInt8 := text.take pos ++ text.drop (pos + n)

def removeTurn (s text : List UInt8) : Turn Unit (List UInt8) :=
  match find text s 0 with
  | none => .stop [] text
  | some pos => .next [] (eraseAt text pos s.length)

def remove (fuel : Nat) (text s : List UInt8) : Option (List UInt8) :=
  (loop (removeTurn s) fuel text).map (·.2)

def replaceTurn (s r text : List UInt8) : Turn Unit (List UInt8) :=
  match find text s 0 with
  | none => .stop [] text
  | some pos => .next [] (replaceAt text pos s.length r)

def replace (fuel : Nat) (text s r : List UInt8) : Option (List UInt8) :=
  (loop (replaceTurn s r) fuel text).map (·.2)

/-! ## Trimming -/

/-- `std::find_if`: the position of the first element with `p`, else the end. -/
def findIf (p : UInt8 → Bool) : List UInt8 → Nat
  | [] => 0
  | x :: xs => if p x then 0 else findIf p xs + 1

/-- `trimmed`; `isspace` is that of the C library, which goes by the locale.  The second
    search runs over the reversed string, and `base()` counts from the end. -/
def trimmed (isspace : UInt8 → Bool) (text : List UInt8) : List UInt8 :=
  let str := text.drop (findIf (fun ch => !isspace ch) text)
  str.take (str.length - findIf (fun ch => !isspace ch) str.reverse)

/-! ## Prefixes and suffixes -/

/-- `std::string::npos`. -/
def npos : UInt64 := 0xFFFFFFFFFFFFFFFF

/-- A search result as the `size_t` it is returned in. -/
def position : Option Nat → UInt64
  | none => npos
  | some i => UInt64.ofNat i

def startsWith (text str : List UInt8) : Bool := position (find text str 0) == 0

def endsWith (text str : List UInt8) : Bool :=
  position (rfind text str) == UInt64.ofNat text.length - UInt64.ofNat str.length

/-! ## What the searches find -/

theorem find_eq (text s : List UInt8) {pos : Nat} (hpos : pos ≤ text.length) :
    find text s pos = (cut s (text.drop pos)).map fun p => pos + p.1.length := by
  induction hn : text.length - pos generalizing pos with
  | zero =>
      have hend : text.drop pos = [] := List.drop_eq_nil_of_le (by omega)
      have hrange : text.length + 1 - pos = 1 := by omega
      rw [find, hrange, hend, cut]
      by_cases hs : s = [] <;> simp [hend, hs]
  | succ n ih =>
      have hlt : pos < text.length := by omega
      have hrange : text.length + 1 - pos = text.length + 1 - (pos + 1) + 1 := by omega
      have hdrop := List.drop_eq_getElem_cons hlt
      rw [find, hrange, List.range'_succ, List.find?_cons, hdrop, cut, ← hdrop]
      by_cases hpre : s <+: text.drop pos
      · simp [hpre]
      · rw [if_neg hpre]
        simp only [hpre, decide_false]
        rw [← find, ih hlt (by omega), Option.map_map]
        congr 1
        funext p
        simp only [Function.comp_apply, List.length_cons]
        omega

theorem find_zero (text s : List UInt8) :
    find text s 0 = (cut s text).map fun p => p.1.length := by
  rw [find_eq text s (Nat.zero_le _), List.drop_zero]
  simp only [Nat.zero_add]

/-- The empty string is found where the search starts. -/
theorem find_nil (text : List UInt8) : find text [] 0 = some 0 := by
  rw [find_zero]
  cases text <;> simp [cut]

/-! ## `split` -/

section Split

variable {text s : List UInt8}

/-- A turn that finds no more match. -/
theorem splitTurn_of_no_match {pos : Nat} (hpos : pos ≤ text.length)
    (h : ¬s <:+: text.drop pos) :
    splitTurn text s (pos, find text s pos) = .stop [] (pos, none) := by
  rw [find_eq text s hpos, cut_eq_none_iff.mpr h]
  rfl

/-- A turn pushes what stands before the first match and goes on behind it. -/
theorem splitTurn_of_cut {pos : Nat} {before rest : List UInt8} (hpos : pos ≤ text.length)
    (h : cut s (text.drop pos) = some (before, rest)) :
    ∃ next, next ≤ text.length ∧ text.drop next = rest ∧
      splitTurn text s (pos, find text s pos) = .next [before] (next, find text s next) := by
  have happ := cut_eq_append h
  have hlen := congrArg List.length happ
  simp only [List.length_drop, List.length_append] at hlen
  refine ⟨pos + before.length + s.length, by omega, ?_, ?_⟩
  · rw [Nat.add_assoc, ← List.drop_drop, happ, ← List.length_append, List.drop_left]
  · rw [find_eq text s hpos, h]
    show Turn.next [(text.drop pos).take (pos + before.length - pos)] _ = _
    rw [Nat.add_sub_cancel_left, happ, List.append_assoc, List.take_left]

/-- The loop from a cursor: the pieces of what is behind it, all but the last pushed. -/
theorem loop_splitTurn (hs : s ≠ []) {pos fuel : Nat} (hpos : pos ≤ text.length)
    (hfuel : text.length - pos < fuel) :
    ∃ result last, loop (splitTurn text s) fuel (pos, find text s pos) = some (result, last, none) ∧
      result ++ [text.drop last] = pieces s (text.drop pos) := by
  induction fuel generalizing pos with
  | zero => omega
  | succ fuel ih =>
      rcases hcut : cut s (text.drop pos) with _ | ⟨before, rest⟩
      · have hno := cut_eq_none_iff.mp hcut
        refine ⟨[], pos, loop_stop (splitTurn_of_no_match hpos hno) fuel, ?_⟩
        rw [pieces_of_no_match hno]
        rfl
      · obtain ⟨next, hnext, hdrop, hturn⟩ := splitTurn_of_cut hpos hcut
        -- the match takes at least one byte, so the cursor moves
        have hlen := congrArg List.length (cut_eq_append hcut)
        have hspos := List.length_pos_iff.mpr hs
        have hrest := congrArg List.length hdrop
        simp only [List.length_append, List.length_drop] at hlen hrest
        obtain ⟨result, last, hloop, hpieces⟩ := ih hnext (by omega)
        refine ⟨before :: result, last, ?_, ?_⟩
        · rw [loop_next hturn, hloop]
          rfl
        · rw [pieces_of_cut hs hcut, ← hdrop, ← hpieces]
          rfl

theorem split_eq_pieces (hs : s ≠ []) {fuel : Nat} (hfuel : text.length < fuel) :
    split fuel text s = some (pieces s text) := by
  obtain ⟨result, last, hloop, hpieces⟩ := loop_splitTurn hs (Nat.zero_le text.length) hfuel
  rw [split, hloop, Option.map_some, hpieces, List.drop_zero]

/-- Whatever fuel it took. -/
theorem eq_pieces_of_split (hs : s ≠ []) {fuel : Nat} {result : List (List UInt8)}
    (h : split fuel text s = some result) : result = pieces s text := by
  obtain ⟨p, hloop, rfl⟩ := Option.map_eq_some_iff.mp h
  have hmore : split (max fuel (text.length + 1)) text s = some (p.1 ++ [text.drop p.2.1]) := by
    rw [split, loop_mono hloop (Nat.le_max_left _ _)]
    rfl
  rw [split_eq_pieces hs (by omega)] at hmore
  exact (Option.some.inj hmore).symm

/-- The empty separator is found at the cursor again and again. -/
theorem split_nil (fuel : Nat) (text : List UInt8) : split fuel text [] = none := by
  have hturn : splitTurn text [] (0, some 0) = .next [[]] (0, some 0) := by
    show Turn.next [[]] (0, find text [] 0) = _
    rw [find_nil]
  rw [split, find_nil, loop_eq_none_of_fixed hturn]
  rfl

/-- Splitting is undone by joining: for every text and separator that is not empty, `split`
    ends with a list of pieces that is not empty, none of which has the separator in it;
    joined with the separator they are the text, and there is one more of them than the
    separator occurs. -/
theorem split_undone_by_join (text s : List UInt8) (hs : s ≠ []) :
    ∃ result, (∀ fuel, text.length < fuel → split fuel text s = some result) ∧
      result ≠ [] ∧ (∀ piece ∈ result, ¬s <:+: piece) ∧ s.intercalate result = text ∧
      result.length = occurrences s text + 1 :=
  ⟨pieces s text, fun _ hfuel => split_eq_pieces hs hfuel, pieces_ne_nil hs text,
    not_infix_of_mem_pieces hs text, intercalate_pieces hs text, length_pieces hs text⟩

theorem split_undone_by_join_overlapping :
    [97, 97] ≠ ([] : List UInt8) ∧
      ∃ result, (∀ fuel, 6 < fuel → split fuel [97, 97, 97, 98, 97, 97] [97, 97] = some result) ∧
        result ≠ [] ∧ (∀ piece ∈ result, ¬[97, 97] <:+: piece) ∧
        [97, 97].intercalate result = [97, 97, 97, 98, 97, 97] ∧
        result.length = occurrences [97, 97] [97, 97, 97, 98, 97, 97] + 1 :=
  ⟨by decide, split_undone_by_join [97, 97, 97, 98, 97, 97] [97, 97] (by decide)⟩

end Split

/-! ## `replace` and `remove` -/

section Replace

variable {text s r : List UInt8}

theorem replaceTurn_of_no_match (h : ¬s <:+: text) : replaceTurn s r text = .stop [] text := by
  rw [replaceTurn, find_zero, cut_eq_none_iff.mpr h]
  rfl

/-- A turn puts `r` in the place of the first match. -/
theorem replaceTurn_of_cut {before rest : List UInt8} (h : cut s text = some (before, rest)) :
    replaceTurn s r text = .next [] (before ++ r ++ rest) := by
  rw [replaceTurn, find_zero, h]
  show Turn.next [] (replaceAt text before.length s.length r) = _
  rw [replaceAt, cut_eq_append h, ← List.length_append, List.drop_left, List.append_assoc before,
    List.take_left]

/-- Where the loop stops, there is no match left. -/
theorem not_infix_of_replace {fuel : Nat} {result : List UInt8}
    (h : replace fuel text s r = some result) : ¬s <:+: result := by
  obtain ⟨⟨events, last⟩, hloop, rfl⟩ := Option.map_eq_some_iff.mp h
  obtain ⟨before, made, hstop⟩ := (loops_of_loop hloop).exists_stop
  rcases hcut : cut s before with _ | ⟨first, rest⟩
  · have hno := cut_eq_none_iff.mp hcut
    rw [replaceTurn_of_no_match hno] at hstop
    cases hstop
    exact hno
  · rw [replaceTurn_of_cut hcut] at hstop
    cases hstop

/-- A shorter `r` takes the loop to its end. -/
theorem exists_replace (hlen : r.length < s.length) (text : List UInt8) :
    ∃ result, ∀ fuel, text.length < fuel → replace fuel text s r = some result := by
  have hdec : ∀ text events next, True → replaceTurn s r text = .next events next →
      True ∧ next.length < text.length := by
    intro text events next _ hturn
    rcases hcut : cut s text with _ | ⟨before, rest⟩
    · rw [replaceTurn_of_no_match (cut_eq_none_iff.mp hcut)] at hturn
      cases hturn
    · rw [replaceTurn_of_cut hcut] at hturn
      cases hturn
      have htext := congrArg List.length (cut_eq_append hcut)
      simp only [List.length_append] at htext ⊢
      exact ⟨trivial, by omega⟩
  obtain ⟨events, result, hloops⟩ := exists_loops hdec (s := text) trivial
  refine ⟨result, fun fuel hfuel => ?_⟩
  rw [replace, loop_of_loops hdec hloops trivial hfuel]
  rfl

theorem remove_eq_replace (fuel : Nat) (text s : List UInt8) :
    remove fuel text s = replace fuel text s [] := by
  have hturn : removeTurn s = replaceTurn s [] := by
    funext text
    rw [removeTurn, replaceTurn]
    simp only [eraseAt, replaceAt, List.append_nil]
  rw [remove, replace, hturn]

/-- The empty pattern is found at the start, and nothing is erased. -/
theorem remove_nil (fuel : Nat) (text : List UInt8) : remove fuel text [] = none := by
  have hturn : removeTurn [] text = .next [] text := by
    rw [removeTurn, find_nil]
    rfl
  rw [remove, loop_eq_none_of_fixed hturn]
  rfl

/-- `split` and `remove` end, and nothing of the pattern is left after `remove`, exactly for
    a pattern that is not empty. -/
theorem split_remove_end_iff (text s : List UInt8) :
    ((∃ fuel result, split fuel text s = some result) ∧
      ∃ fuel result, remove fuel text s = some result ∧ (s ≠ [] → ¬s <:+: result)) ↔ s ≠ [] := by
  constructor
  · rintro ⟨⟨fuel, result, hsplit⟩, -⟩ rfl
    rw [split_nil] at hsplit
    cases hsplit
  · intro hs
    refine ⟨⟨text.length + 1, _, split_eq_pieces hs (Nat.lt_succ_self _)⟩, ?_⟩
    obtain ⟨result, hend⟩ := exists_replace (r := []) (List.length_pos_iff.mpr hs) text
    have hreplace := hend _ (Nat.lt_succ_self _)
    refine ⟨text.length + 1, result, ?_, fun _ => not_infix_of_replace hreplace⟩
    rw [remove_eq_replace]
    exact hreplace

/-- Neither loop ends on the text `a` with the empty pattern. -/
theorem split_remove_empty_pattern :
    (∀ fuel, split fuel [97] [] = none) ∧ ∀ fuel, remove fuel [97] [] = none :=
  ⟨fun fuel => split_nil fuel [97], fun fuel => remove_nil fuel [97]⟩

end Replace

/-! ## `trimmed` -/

/-- What is left from the first byte on that is not dropped. -/
theorem drop_findIf (p : UInt8 → Bool) (xs : List UInt8) :
    xs.drop (findIf (fun ch => !p ch) xs) = xs.dropWhile p := by
  induction xs with
  | nil => rfl
  | cons x xs ih =>
      rw [findIf, List.dropWhile_cons]
      cases hx : p x
      · rfl
      · simpa using ih

theorem trimmed_eq (isspace : UInt8 → Bool) (text : List UInt8) :
    trimmed isspace text = (text.dropWhile isspace).rdropWhile isspace := by
  rw [trimmed, drop_findIf, List.rdropWhile, ← drop_findIf isspace (text.dropWhile isspace).reverse,
    List.drop_reverse, List.reverse_reverse]

/-! ## `startsWith` and `endsWith` -/

/-- A string as long as one can be: every position in it is below `npos`. -/
structure Text where
  bytes : List UInt8
  size_lt : bytes.length < npos.toNat

theorem Text.length_lt (text : Text) : text.bytes.length < 2 ^ 64 - 1 := text.size_lt

theorem find?_reverse_range {p : Nat → Bool} {n k : Nat} (hk : k ≤ n) (hp : p k = true)
    (hlast : ∀ j, k < j → j ≤ n → p j = false) :
    (List.range (n + 1)).reverse.find? p = some k := by
  induction n with
  | zero =>
      obtain rfl : k = 0 := by omega
      simp [hp]
  | succ n ih =>
      rw [List.range_succ, List.reverse_append, List.reverse_singleton, List.singleton_append]
      rcases Nat.lt_or_ge n k with hlt | hge
      · obtain rfl : k = n + 1 := by omega
        exact List.find?_cons_of_pos hp
      · rw [List.find?_cons_of_neg (by simp [hlast (n + 1) (by omega) (Nat.le_refl _)])]
        exact ih hge fun j hj hjn => hlast j hj (by omega)

/-- A suffix is the last match there can be. -/
theorem rfind_of_suffix {text str : List UInt8} (h : str <:+ text) :
    rfind text str = some (text.length - str.length) := by
  have hle := h.length_le
  refine find?_reverse_range (Nat.sub_le _ _) ?_ ?_
  · rw [← List.suffix_iff_eq_drop.mp h]
    simp
  · intro j hj hjn
    rw [decide_eq_false_iff_not]
    intro hpre
    have hlen := hpre.length_le
    rw [List.length_drop] at hlen
    omega

theorem match_of_rfind {text str : List UInt8} {i : Nat} (h : rfind text str = some i) :
    i ≤ text.length ∧ str <+: text.drop i := by
  have hmem := List.mem_of_find?_eq_some h
  rw [List.mem_reverse, List.mem_range] at hmem
  exact ⟨by omega, by simpa using List.find?_some h⟩

theorem ofNat_eq_iff {n m : Nat} (hn : n < 2 ^ 64) (hm : m < 2 ^ 64) :
    UInt64.ofNat n = UInt64.ofNat m ↔ n = m := by
  rw [← UInt64.toNat_inj, UInt64.toNat_ofNat', UInt64.toNat_ofNat', Nat.mod_eq_of_lt hn,
    Nat.mod_eq_of_lt hm]

theorem startsWith_iff (text str : Text) :
    startsWith text.bytes str.bytes = true ↔ str.bytes <+: text.bytes := by
  have hsize := text.length_lt
  rw [startsWith, find_zero, beq_iff_eq]
  constructor
  · intro h
    rcases hcut : cut str.bytes text.bytes with _ | ⟨before, rest⟩
    · rw [hcut] at h
      exact absurd h (by decide)
    · rw [hcut] at h
      have happ := cut_eq_append hcut
      have hlen := congrArg List.length happ
      simp only [List.length_append] at hlen
      have hstart : before.length = 0 := (ofNat_eq_iff (by omega) (by omega)).mp h
      rw [List.length_eq_zero_iff.mp hstart, List.nil_append] at happ
      exact ⟨rest, happ.symm⟩
  · intro h
    rw [cut_at_start h]
    rfl

/-- What the lengths' difference is as a `size_t`. -/
theorem size_sub (n m : Nat) (hn : n < 2 ^ 64 - 1) (hm : m < 2 ^ 64 - 1) :
    (UInt64.ofNat n - UInt64.ofNat m).toNat = if m ≤ n then n - m else 2 ^ 64 - (m - n) := by
  rw [UInt64.toNat_sub, UInt64.toNat_ofNat', UInt64.toNat_ofNat',
    Nat.mod_eq_of_lt (show n < 2 ^ 64 by omega), Nat.mod_eq_of_lt (show m < 2 ^ 64 by omega)]
  split <;> omega

/-- `endsWith` holds for the suffixes, and for every string that is longer than the text by
    one: there the difference of the lengths is `npos`. -/
theorem endsWith_iff (text str : Text) : endsWith text.bytes str.bytes = true ↔
    str.bytes <:+ text.bytes ∨ str.bytes.length = text.bytes.length + 1 := by
  have htext := text.length_lt
  have hstr := str.length_lt
  have hsub := size_sub _ _ htext hstr
  rw [endsWith, beq_iff_eq, ← UInt64.toNat_inj, hsub]
  constructor
  · intro h
    rcases hfind : rfind text.bytes str.bytes with _ | i
    · -- nothing found: the difference wraps to `npos`
      right
      rw [hfind] at h
      have hnpos : (position none).toNat = 2 ^ 64 - 1 := rfl
      rw [hnpos] at h
      split at h <;> omega
    · left
      obtain ⟨hi, hpre⟩ := match_of_rfind hfind
      have hlen := hpre.length_le
      rw [List.length_drop] at hlen
      rw [hfind, if_pos (by omega)] at h
      have hpos : (position (some i)).toNat = i := by
        rw [position, UInt64.toNat_ofNat', Nat.mod_eq_of_lt (by omega)]
      rw [hpos] at h
      -- the match reaches the end of the text
      have hall : (text.bytes.drop i).length = str.bytes.length := by
        rw [List.length_drop]
        omega
      rw [hpre.eq_of_length hall.symm]
      exact List.drop_suffix _ _
  · rintro (hsuf | hlen)
    · have hle := hsuf.length_le
      rw [rfind_of_suffix hsuf, position, UInt64.toNat_ofNat', Nat.mod_eq_of_lt (by omega),
        if_pos hle]
    · have hnone : rfind text.bytes str.bytes = none := by
        rcases hfind : rfind text.bytes str.bytes with _ | i
        · rfl
        · have hle := (match_of_rfind hfind).2.length_le
          rw [List.length_drop] at hle
          omega
      rw [hnone, if_neg (by omega)]
      show 2 ^ 64 - 1 = _
      omega

end Youth.Core.StringFunction
