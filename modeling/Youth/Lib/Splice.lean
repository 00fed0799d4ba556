/-
  Youth.Lib.Splice

  Windows of a list, and writing over a window.

  `slice v lo hi` is the half-open window `[lo, hi)`; `splice v pos data` writes
  `data` over the cells from `pos` on; `resize` is `std::vector::resize`.
  `copyWithin` is the byte-by-byte ascending loop of `std::copy` inside one
  vector, where the source may overlap the destination: `copyWithin_eq_splice`
  says that with the destination at or before the source every byte read is
  still an original one.
-/

import Mathlib.Data.List.Basic
import Mathlib.Data.List.TakeDrop

namespace Youth.Lib

variable {α : Type}

/-- The window `[lo, hi)` of `v`. -/
def slice (v : List α) (lo hi : Nat) : List α := (v.drop lo).take (hi - lo)

/-- `v` with the cells from `pos` on overwritten by `data`. -/
def splice (v : List α) (pos : Nat) (data : List α) : List α :=
  v.take pos ++ data ++ v.drop (pos + data.length)

/-- `v` cut or padded with `x` to length `n`. -/
def resize (x : α) (n : Nat) (v : List α) : List α := v.take n ++ List.replicate (n - v.length) x

/-- Copy `n` cells from `first` on to `dest` on, in ascending order, inside `v`. -/
def copyWithin (v : List α) (first dest : Nat) : Nat → List α
  | 0 => v
  | n + 1 =>
    match v[first]? with
    | some x => copyWithin (v.set dest x) (first + 1) (dest + 1) n
    | none => v

/-! ## Lengths -/

theorem length_slice {v : List α} {lo hi : Nat} (h : hi ≤ v.length) :
    (slice v lo hi).length = hi - lo := by
  simp only [slice, List.length_take, List.length_drop]
  omega

theorem length_splice {v data : List α} {pos : Nat} (h : pos + data.length ≤ v.length) :
    (splice v pos data).length = v.length := by
  simp only [splice, List.length_append, List.length_take, List.length_drop]
  omega

@[simp] theorem length_resize (x : α) (n : Nat) (v : List α) : (resize x n v).length = n := by
  simp only [resize, List.length_append, List.length_take, List.length_replicate]
  omega

/-! ## Windows -/

@[simp] theorem slice_self (v : List α) (lo : Nat) : slice v lo lo = [] := by
  simp [slice]

theorem drop_slice (v : List α) (lo hi n : Nat) : (slice v lo hi).drop n = slice v (lo + n) hi := by
  simp only [slice, List.drop_take, List.drop_drop]
  congr 1
  omega

theorem take_slice {v : List α} {lo hi n : Nat} (h : lo + n ≤ hi) :
    (slice v lo hi).take n = slice v lo (lo + n) := by
  simp only [slice, List.take_take]
  congr 1
  omega

theorem slice_append_slice {v : List α} {lo mid hi : Nat} (h1 : lo ≤ mid) (h2 : mid ≤ hi) :
    slice v lo mid ++ slice v mid hi = slice v lo hi := by
  have htake : (slice v lo hi).take (mid - lo) = slice v lo mid := by
    rw [take_slice (by omega), Nat.add_sub_cancel' h1]
  have hdrop : (slice v lo hi).drop (mid - lo) = slice v mid hi := by
    rw [drop_slice, Nat.add_sub_cancel' h1]
  rw [← htake, ← hdrop, List.take_append_drop]

/-- A window that ends before the cut does not see a resize. -/
theorem slice_resize {x : α} {v : List α} {lo hi n : Nat} (hv : hi ≤ v.length) (hn : hi ≤ n) :
    slice (resize x n v) lo hi = slice v lo hi := by
  apply List.ext_getElem?
  intro i
  simp only [slice, resize, List.getElem?_take, List.getElem?_drop]
  by_cases hi' : i < hi - lo
  · rw [if_pos hi', if_pos hi', List.getElem?_append_left (by rw [List.length_take]; omega),
      List.getElem?_take, if_pos (by omega)]
  · rw [if_neg hi', if_neg hi']

/-! ## Writing over a window -/

theorem splice_split {v : List α} (data : List α) {pos : Nat} (h : pos ≤ v.length) :
    (splice v pos data).take pos = v.take pos ∧
      (splice v pos data).drop pos = data ++ v.drop (pos + data.length) := by
  have hlen : (v.take pos).length = pos := by rw [List.length_take]; omega
  unfold splice
  rw [List.append_assoc]
  exact ⟨List.take_left' hlen, List.drop_left' hlen⟩

/-- A window that ends where the write starts keeps its content. -/
theorem slice_splice_before {v data : List α} {lo pos : Nat} (h : pos ≤ v.length) :
    slice (splice v pos data) lo pos = slice v lo pos := by
  have htake := (splice_split data h).1
  have hcut : ∀ w : List α, slice w lo pos = (w.take pos).drop lo := by
    intro w
    rw [slice, List.drop_take]
  rw [hcut, hcut, htake]

/-- The written window holds the data. -/
theorem slice_splice_at {v data : List α} {pos : Nat} (h : pos ≤ v.length) :
    slice (splice v pos data) pos (pos + data.length) = data := by
  rw [slice, (splice_split data h).2, Nat.add_sub_cancel_left]
  exact List.take_left' rfl

/-- A window that starts after the write keeps its content. -/
theorem slice_splice_after {v data : List α} {pos lo hi : Nat} (h : pos ≤ v.length)
    (hlo : pos + data.length ≤ lo) : slice (splice v pos data) lo hi = slice v lo hi := by
  have hdrop : (splice v pos data).drop lo = v.drop lo := by
    have hlo' : lo = pos + (lo - pos) := by omega
    rw [hlo', ← List.drop_drop, (splice_split data h).2, List.drop_append,
      List.drop_eq_nil_of_le (by omega), List.nil_append, List.drop_drop]
    congr 1
    omega
  rw [slice, slice, hdrop]

/-! ## The ascending copy loop -/

theorem splice_set {v data : List α} {x : α} {pos : Nat} (h : pos < v.length) :
    splice (v.set pos x) (pos + 1) data = splice v pos (x :: data) := by
  have htake : (v.set pos x).take (pos + 1) = v.take pos ++ [x] := by
    have hlen : (v.take pos).length = pos := by rw [List.length_take]; omega
    rw [List.set_eq_take_append_cons_drop, if_pos h, List.take_append, hlen,
      List.take_of_length_le (by omega), Nat.add_sub_cancel_left, List.take_succ_cons,
      List.take_zero]
  have hdrop : (v.set pos x).drop (pos + 1 + data.length) = v.drop (pos + 1 + data.length) :=
    List.drop_set_of_lt (by omega)
  unfold splice
  rw [htake, hdrop, List.length_cons, Nat.add_right_comm pos 1, ← Nat.add_assoc]
  simp

theorem slice_set {v : List α} {x : α} {pos lo hi : Nat} (h : pos < lo) :
    slice (v.set pos x) lo hi = slice v lo hi := by
  rw [slice, List.drop_set_of_lt h, slice]

/-- With the destination at or before the source, the ascending loop writes the
    original source window: no byte is overwritten before it has been read. -/
theorem copyWithin_eq_splice {v : List α} {first dest n : Nat} (hd : dest ≤ first)
    (hn : first + n ≤ v.length) :
    copyWithin v first dest n = splice v dest (slice v first (first + n)) := by
  induction n generalizing v first dest with
  | zero => simp [copyWithin, splice]
  | succ n ih =>
      have hfirst : first < v.length := by omega
      have hget : v[first]? = some v[first] := List.getElem?_eq_getElem hfirst
      have hhead : slice v first (first + (n + 1)) = v[first] :: slice v (first + 1) (first + 1 + n) := by
        rw [slice, slice, List.drop_eq_getElem_cons hfirst]
        have h1 : first + (n + 1) - first = n + 1 := by omega
        have h2 : first + 1 + n - (first + 1) = n := by omega
        rw [h1, h2, List.take_succ_cons]
      rw [copyWithin, hget]
      show copyWithin (v.set dest v[first]) (first + 1) (dest + 1) n = _
      rw [ih (by omega) (by rw [List.length_set]; omega), slice_set (by omega),
        splice_set (by omega), hhead]

end Youth.Lib
