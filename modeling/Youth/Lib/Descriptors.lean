/-
  Youth.Lib.Descriptors

  The open descriptors of a process.

  There is a limit to their number, a new one is the lowest that is free, and each has an
  owner, the part of the program that is to close it.  The table is only changed by
  `assign` and `close`, each at one place.

  `Holds` is the account of one owner: the list of its descriptors, the last one first.
  What the others do does not change it.
-/

import Mathlib.Data.List.Basic
import Mathlib.Logic.Function.Basic

namespace Youth.Lib

variable {ω : Type}

structure Descriptors (ω : Type) where
  limit : Nat
  owner : Nat → Option ω
  inRange : ∀ fd, owner fd ≠ none → fd < limit

namespace Descriptors

/-- Nothing is open. -/
def empty (limit : Nat) : Descriptors ω := ⟨limit, fun _ => none, fun _ h => absurd rfl h⟩

/-- The descriptor that is given out next, unless the table is full. -/
def lowest (t : Descriptors ω) : Option Nat :=
  (List.range t.limit).find? fun fd => (t.owner fd).isNone

/-- The descriptor `fd` changes hands, if it is one. -/
def assign (t : Descriptors ω) (fd : Nat) (who : ω) : Descriptors ω :=
  if h : fd < t.limit then
    { t with
      owner := Function.update t.owner fd (some who)
      inRange := by
        intro i hi
        by_cases heq : i = fd
        · rw [heq]
          exact h
        · rw [Function.update_of_ne heq] at hi
          exact t.inRange i hi }
  else t

def close (t : Descriptors ω) (fd : Nat) : Descriptors ω where
  limit := t.limit
  owner := Function.update t.owner fd none
  inRange := by
    intro i hi
    by_cases heq : i = fd
    · rw [heq, Function.update_self] at hi
      exact absurd rfl hi
    · rw [Function.update_of_ne heq] at hi
      exact t.inRange i hi

variable {t : Descriptors ω} {fd : Nat}

theorem lowest_eq_some (h : t.lowest = some fd) : fd < t.limit ∧ t.owner fd = none := by
  have hfound := List.find?_some h
  exact ⟨List.mem_range.mp (List.mem_of_find?_eq_some h), Option.isNone_iff_eq_none.mp hfound⟩

/-- With a free descriptor the table is not full. -/
theorem lowest_ne_none (hlt : fd < t.limit) (hfree : t.owner fd = none) : t.lowest ≠ none := by
  intro hnone
  have hall := List.find?_eq_none.mp hnone fd (List.mem_range.mpr hlt)
  rw [hfree] at hall
  exact hall rfl

@[simp] theorem limit_assign (t : Descriptors ω) (fd : Nat) (who : ω) :
    (t.assign fd who).limit = t.limit := by
  unfold assign
  split <;> rfl

@[simp] theorem limit_close (t : Descriptors ω) (fd : Nat) : (t.close fd).limit = t.limit := rfl

theorem owner_assign (hlt : fd < t.limit) (who : ω) (i : Nat) :
    (t.assign fd who).owner i = if i = fd then some who else t.owner i := by
  unfold assign
  rw [dif_pos hlt]
  exact Function.update_apply ..

theorem owner_close (t : Descriptors ω) (fd i : Nat) :
    (t.close fd).owner i = if i = fd then none else t.owner i := Function.update_apply ..

/-! ## The account of an owner -/

/-- What `who` owns is `fds`. -/
structure Holds (t : Descriptors ω) (who : ω) (fds : List Nat) : Prop where
  owner : ∀ fd, t.owner fd = some who ↔ fd ∈ fds
  nodup : fds.Nodup

namespace Holds

variable {who whose : ω} {fds : List Nat}

/-- A descriptor of its own is no free one. -/
theorem lt_limit (h : t.Holds who fds) (hmem : fd ∈ fds) : fd < t.limit := by
  apply t.inRange
  rw [(h.owner fd).mpr hmem]
  exact Option.some_ne_none who

/-- A new descriptor. -/
theorem take (h : t.Holds who fds) (hlow : t.lowest = some fd) :
    (t.assign fd who).Holds who (fd :: fds) := by
  obtain ⟨hlt, hfree⟩ := lowest_eq_some hlow
  have hnew : fd ∉ fds := by
    intro hmem
    have howned := (h.owner fd).mpr hmem
    rw [hfree] at howned
    cases howned
  refine ⟨fun i => ?_, List.nodup_cons.mpr ⟨hnew, h.nodup⟩⟩
  rw [owner_assign hlt, List.mem_cons]
  by_cases heq : i = fd
  · simp [heq]
  · rw [if_neg heq, h.owner i]
    exact (or_iff_right heq).symm

/-- Another owner has a new descriptor. -/
theorem take_other (h : t.Holds who fds) (hlow : t.lowest = some fd) (hne : whose ≠ who) :
    (t.assign fd whose).Holds who fds := by
  obtain ⟨hlt, hfree⟩ := lowest_eq_some hlow
  refine ⟨fun i => ?_, h.nodup⟩
  rw [owner_assign hlt]
  by_cases heq : i = fd
  · rw [if_pos heq, heq, ← h.owner fd, hfree]
    simp [hne]
  · rw [if_neg heq]
    exact h.owner i

/-- The last one is gone. -/
theorem tail {t' : Descriptors ω} (h : t.Holds who (fd :: fds))
    (hother : ∀ i, i ≠ fd → t'.owner i = t.owner i) (hgone : t'.owner fd ≠ some who) :
    t'.Holds who fds := by
  obtain ⟨hnew, hnodup⟩ := List.nodup_cons.mp h.nodup
  refine ⟨fun i => ?_, hnodup⟩
  by_cases heq : i = fd
  · rw [heq]
    exact iff_of_false hgone hnew
  · rw [hother i heq, h.owner i, List.mem_cons]
    exact or_iff_right heq

/-- The last one goes to another owner. -/
theorem hand (h : t.Holds who (fd :: fds)) (hne : whose ≠ who) :
    (t.assign fd whose).Holds who fds := by
  have hlt := h.lt_limit List.mem_cons_self
  apply h.tail
  · intro i hi
    rw [owner_assign hlt, if_neg hi]
  · rw [owner_assign hlt, if_pos rfl]
    simpa using hne

/-- The last one is closed. -/
theorem close (h : t.Holds who (fd :: fds)) : (t.close fd).Holds who fds := by
  apply h.tail
  · intro i hi
    rw [owner_close, if_neg hi]
  · rw [owner_close, if_pos rfl]
    exact (Option.some_ne_none who).symm

/-- Another owner closes one of its own. -/
theorem close_other (h : t.Holds who fds) (howner : t.owner fd = some whose) (hne : whose ≠ who) :
    (t.close fd).Holds who fds := by
  refine ⟨fun i => ?_, h.nodup⟩
  rw [owner_close]
  by_cases heq : i = fd
  · rw [if_pos heq, heq, ← h.owner fd, howner]
    simp [hne]
  · rw [if_neg heq]
    exact h.owner i

end Holds

/-- A table where something was closed is not full. -/
theorem lowest_close (hlt : fd < t.limit) : (t.close fd).lowest ≠ none :=
  lowest_ne_none hlt (by rw [owner_close, if_pos rfl])

/-- Closing makes no table full. -/
theorem lowest_close_of (h : t.lowest ≠ none) : (t.close fd).lowest ≠ none := by
  obtain ⟨i, hi⟩ := Option.ne_none_iff_exists'.mp h
  obtain ⟨hlt, hfree⟩ := lowest_eq_some hi
  refine lowest_ne_none (t := t.close fd) hlt ?_
  rw [owner_close, hfree]
  exact ite_self none

end Descriptors
end Youth.Lib
