/-
  Youth.Lib.Path

  Paths resolved component by component, without looking at the file system.

  A directory is the list of the names from the root to it.  A name goes down, `..` goes
  up one level and stays at the root.  Every relative path has a normal form, some levels
  up and then some names down, that does not depend on where it starts (`resolve_eq`).
  It tells whether the path stays inside its starting directory: what it goes up it has
  to come down again (`prefix_resolve_iff`).
-/

import Mathlib.Data.List.Infix

namespace Youth.Lib
namespace Path

variable {α : Type}

inductive Component (α : Type)
  | up
  | name (x : α)
  deriving DecidableEq, Repr

def follow (dir : List α) : Component α → List α
  | .up => dir.dropLast
  | .name x => dir ++ [x]

/-- Where a path leads from `dir`. -/
def resolve (dir : List α) (path : List (Component α)) : List α := path.foldl follow dir

/-- So many levels up, and then these names down. -/
structure Normal (α : Type) where
  ups : Nat
  names : List α
  deriving DecidableEq, Repr

def Normal.follow (n : Normal α) : Component α → Normal α
  | .up => if n.names.isEmpty then ⟨n.ups + 1, []⟩ else ⟨n.ups, n.names.dropLast⟩
  | .name x => ⟨n.ups, n.names ++ [x]⟩

def normal (path : List (Component α)) : Normal α := path.foldl Normal.follow ⟨0, []⟩

/-- The normal form, taken from `dir`. -/
def Normal.applyTo (n : Normal α) (dir : List α) : List α :=
  dir.take (dir.length - n.ups) ++ n.names

variable {dir : List α} {path : List (Component α)}

theorem applyTo_follow (n : Normal α) (c : Component α) (dir : List α) :
    (n.follow c).applyTo dir = follow (n.applyTo dir) c := by
  cases c with
  | name x => simp [Normal.follow, Normal.applyTo, follow]
  | up =>
      obtain ⟨ups, names⟩ := n
      rcases List.eq_nil_or_concat names with rfl | ⟨names, x, rfl⟩
      · simp only [Normal.follow, Normal.applyTo, follow, List.isEmpty_nil, if_true,
          List.append_nil, List.dropLast_eq_take, List.take_take, List.length_take]
        congr 1
        omega
      · simp [Normal.follow, Normal.applyTo, follow, ← List.append_assoc]

theorem resolve_eq (dir : List α) (path : List (Component α)) :
    resolve dir path = (normal path).applyTo dir := by
  have hfold : ∀ (path : List (Component α)) (n : Normal α),
      path.foldl follow (n.applyTo dir) = (path.foldl Normal.follow n).applyTo dir := by
    intro path
    induction path with
    | nil => exact fun n => rfl
    | cons c path ih =>
        intro n
        rw [List.foldl_cons, List.foldl_cons, ← applyTo_follow]
        exact ih (n.follow c)
  have hstart : (⟨0, []⟩ : Normal α).applyTo dir = dir := by simp [Normal.applyTo]
  have h := hfold path ⟨0, []⟩
  rwa [hstart] at h

/-- A path stays inside iff it comes down the way it went up. -/
theorem prefix_resolve_iff : dir <+: resolve dir path ↔
    dir.drop (dir.length - (normal path).ups) <+: (normal path).names := by
  have hcancel : ∀ k (names : List α), dir.take k ++ dir.drop k <+: dir.take k ++ names ↔
      dir.drop k <+: names := fun k names => List.prefix_append_right_inj _
  simp only [List.take_append_drop] at hcancel
  rw [resolve_eq]
  exact hcancel _ _

theorem resolve_eq_self_iff : resolve dir path = dir ↔
    (normal path).names = dir.drop (dir.length - (normal path).ups) := by
  have hcancel : ∀ k (names : List α), dir.take k ++ names = dir.take k ++ dir.drop k ↔
      names = dir.drop k := fun k names => List.append_right_inj _
  simp only [List.take_append_drop] at hcancel
  rw [resolve_eq]
  exact hcancel _ _

/-! ## Text -/

section text

variable {β : Type} [DecidableEq β] (slash dot : β)

/-- A component of a path as it is written: nothing and a dot stay where they are. -/
def component? (text : List β) : Option (Component (List β)) :=
  if text = [] ∨ text = [dot] then none
  else if text = [dot, dot] then some .up
  else some (.name text)

def components (text : List β) : List (Component (List β)) :=
  (text.splitOn slash).filterMap (component? dot)

/-- Where the path `text` leads; it starts at the root if it begins with a slash. -/
def resolveText (dir : List (List β)) (text : List β) : List (List β) :=
  resolve (if text.head? = some slash then [] else dir) (components slash dot text)

end text

end Path
end Youth.Lib
