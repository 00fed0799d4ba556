/-
  Youth.Lib.History

  Logs whose entries are justified by the entries before them.

  `Justified P log` says that each entry `e` of the log satisfies `P xs e` for the part
  `xs` of the log in front of it.  A log that only grows at its end keeps it by checking
  the new entry (`justified_append_singleton`).  "At most once", "after" and "not without"
  are all of this form.
-/

import Mathlib.Tactic.Basic

namespace Youth.Lib

variable {ε : Type} {P : List ε → ε → Prop} {log xs ys : List ε} {e : ε}

/-- Every entry is justified by what stands in front of it. -/
def Justified (P : List ε → ε → Prop) (log : List ε) : Prop :=
  ∀ xs e ys, log = xs ++ e :: ys → P xs e

theorem justified_nil : Justified P [] := by
  intro xs e ys h
  cases xs <;> cases h

theorem justified_append_singleton : Justified P (log ++ [e]) ↔ Justified P log ∧ P log e := by
  constructor
  · intro h
    refine ⟨fun xs e' ys hlog => h xs e' (ys ++ [e]) ?_, h log e [] rfl⟩
    rw [hlog, List.append_assoc, List.cons_append]
  · rintro ⟨h, he⟩ xs e' ys hlog
    rcases List.eq_nil_or_concat ys with rfl | ⟨ys, e'', rfl⟩
    · obtain ⟨rfl, hsingle⟩ := List.append_inj' hlog rfl
      cases hsingle
      exact he
    · rw [List.concat_eq_append, ← List.cons_append, ← List.append_assoc] at hlog
      exact h xs e' ys (List.append_inj' hlog rfl).1

/-- The beginning of a justified log is justified. -/
theorem Justified.of_append (h : Justified P (xs ++ ys)) : Justified P xs := by
  intro xs' e ys' hlog
  refine h xs' e (ys' ++ ys) ?_
  rw [hlog, List.append_assoc, List.cons_append]

/-- An entry of a justified log, with the part in front of it. -/
theorem Justified.exists_of_mem (h : Justified P log) (he : e ∈ log) :
    ∃ xs ys, log = xs ++ e :: ys ∧ Justified P xs ∧ P xs e := by
  obtain ⟨xs, ys, hlog⟩ := List.append_of_mem he
  exact ⟨xs, ys, hlog, (hlog ▸ h).of_append, h xs e ys hlog⟩

/-- An entry that does not stand in front of itself is there once. -/
theorem count_eq_one [DecidableEq ε] (he : e ∈ log)
    (honce : ∀ xs ys, log = xs ++ e :: ys → e ∉ xs) : log.count e = 1 := by
  obtain ⟨xs, ys, rfl⟩ := List.append_of_mem he
  have hys : e ∉ ys := by
    intro hmem
    obtain ⟨ps, qs, rfl⟩ := List.append_of_mem hmem
    refine honce (xs ++ e :: ps) qs (by simp) ?_
    exact List.mem_append_right _ List.mem_cons_self
  rw [List.count_append, List.count_eq_zero.mpr (honce xs ys rfl), List.count_cons_self,
    List.count_eq_zero.mpr hys]

end Youth.Lib
