/-
  Youth.Lib.Checked

  Computations that carry their failed assertions along.

  A C++ function with `assert`s has two meanings: in a debug build a failed
  assertion stops it, in a release build the assertions are not there and it
  goes on.  `Checked ε α` keeps both in one definition: `val` is what the
  release build computes, `faults` the assertions that would have failed on the
  way.  `Checked.Ok` (no fault) is what "the assertions hold" means.
-/

import Mathlib.Tactic.Basic

namespace Youth.Lib

/-- A value together with the assertions that failed while computing it. -/
structure Checked (ε : Type) (α : Type) where
  val : α
  faults : List ε
  deriving DecidableEq, Repr

namespace Checked

variable {ε α β : Type}

instance : Monad (Checked ε) where
  pure a := ⟨a, []⟩
  bind x f := ⟨(f x.val).val, x.faults ++ (f x.val).faults⟩

/-- `assert(p)`: records `e` when `p` fails, and goes on either way. -/
def check (p : Prop) [Decidable p] (e : ε) : Checked ε Unit :=
  ⟨(), if p then [] else [e]⟩

/-- The assertions of a callee, renamed for the caller. -/
def mapFaults {δ : Type} (f : ε → δ) (x : Checked ε α) : Checked δ α := ⟨x.val, x.faults.map f⟩

/-- No assertion failed. -/
def Ok (x : Checked ε α) : Prop := x.faults = []

/-! ## What the combinators compute -/

@[simp] theorem val_pure (a : α) : (pure a : Checked ε α).val = a := rfl

@[simp] theorem faults_pure (a : α) : (pure a : Checked ε α).faults = [] := rfl

@[simp] theorem val_bind (x : Checked ε α) (f : α → Checked ε β) :
    (x >>= f).val = (f x.val).val := rfl

@[simp] theorem faults_bind (x : Checked ε α) (f : α → Checked ε β) :
    (x >>= f).faults = x.faults ++ (f x.val).faults := rfl

@[simp] theorem val_map (f : α → β) (x : Checked ε α) : (f <$> x).val = f x.val := rfl

@[simp] theorem faults_map (f : α → β) (x : Checked ε α) : (f <$> x).faults = x.faults :=
  List.append_nil _

@[simp] theorem val_mapFaults {δ : Type} (f : ε → δ) (x : Checked ε α) :
    (x.mapFaults f).val = x.val := rfl

@[simp] theorem faults_check (p : Prop) [Decidable p] (e : ε) :
    (check p e).faults = if p then [] else [e] := rfl

@[simp] theorem val_ite (p : Prop) [Decidable p] (x y : Checked ε α) :
    (if p then x else y).val = if p then x.val else y.val := by
  split <;> rfl

/-! ## Assertions that hold -/

@[simp] theorem ok_pure (a : α) : (pure a : Checked ε α).Ok := rfl

@[simp] theorem ok_check {p : Prop} {_ : Decidable p} {e : ε} : (check p e).Ok ↔ p := by
  by_cases h : p <;> simp [Ok, h]

@[simp] theorem ok_bind {x : Checked ε α} {f : α → Checked ε β} :
    (x >>= f).Ok ↔ x.Ok ∧ (f x.val).Ok := by
  simp [Ok]

@[simp] theorem ok_map {f : α → β} {x : Checked ε α} : (f <$> x).Ok ↔ x.Ok := by
  simp [Ok]

@[simp] theorem ok_mapFaults {δ : Type} {f : ε → δ} {x : Checked ε α} :
    (x.mapFaults f).Ok ↔ x.Ok := by
  simp [Ok, mapFaults]

end Checked
end Youth.Lib
