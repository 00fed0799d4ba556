/-
  Youth.Lib.Machine

  Runs of a machine given by a partial step function.

  `step s a = none` says that the action `a` is not enabled in `s` (a call made
  outside its precondition, an event that cannot arrive).  `run` takes a list of
  actions one after the other.  Four rules lead from steps to whole runs: an
  invariant kept by each enabled step (`run_invariant`, or `run_invariant_of` where
  the actions are restricted), a simulation of an abstract machine whose steps are
  total (`run_simulates`), or of one that takes any number of steps for each of a total
  machine (`foldl_refines`), and, for a defect that never goes away, the exact
  condition under which a run is free of it (`run_iff_along`, or
  `run_iff_along_within` where the runs are restricted; `prefixes_iff_along` is about all
  states on the way, for a defect that may go away).
-/

import Mathlib.Tactic.Basic

namespace Youth.Lib

variable {σ τ α β : Type}

/-- Take the actions one after the other; `none` once one is not enabled. -/
def run (step : σ → α → Option σ) : σ → List α → Option σ
  | s, [] => some s
  | s, a :: as => (step s a).bind fun t => run step t as

@[simp] theorem run_nil (step : σ → α → Option σ) (s : σ) : run step s [] = some s := rfl

theorem run_cons (step : σ → α → Option σ) (s : σ) (a : α) (as : List α) :
    run step s (a :: as) = (step s a).bind fun t => run step t as := rfl

theorem run_one {step : σ → α → Option σ} {s u : σ} {a : α} (h : step s a = some u) :
    run step s [a] = some u := by
  rw [run_cons, h]
  rfl

/-- A run with a first action: the action is enabled and the rest runs on. -/
theorem run_cons_eq_some {step : σ → α → Option σ} {s u : σ} {a : α} {as : List α} :
    run step s (a :: as) = some u ↔ ∃ t, step s a = some t ∧ run step t as = some u := by
  rw [run_cons, Option.bind_eq_some_iff]

/-- A run in two parts. -/
theorem run_append_eq_some {step : σ → α → Option σ} {s u : σ} {as bs : List α} :
    run step s (as ++ bs) = some u ↔ ∃ t, run step s as = some t ∧ run step t bs = some u := by
  induction as generalizing s with
  | nil => simp
  | cons a as ih =>
      rw [List.cons_append, run_cons, run_cons]
      cases step s a with
      | none => simp
      | some t => exact ih

/-- A property kept by every enabled step whose action satisfies `P` is kept by every
    run of such actions. -/
theorem run_invariant_of {step : σ → α → Option σ} {I : σ → Prop} {P : α → Prop}
    (hstep : ∀ s a t, P a → I s → step s a = some t → I t)
    {s t : σ} {as : List α} (has : ∀ a ∈ as, P a) (hs : I s) (h : run step s as = some t) : I t := by
  induction as generalizing s with
  | nil =>
      cases h
      exact hs
  | cons a as ih =>
      obtain ⟨ha, has⟩ := List.forall_mem_cons.mp has
      obtain ⟨u, hu, hrest⟩ := run_cons_eq_some.mp h
      exact ih has (hstep s a u ha hs hu) hrest

/-- A property kept by every enabled step is kept by every run. -/
theorem run_invariant {step : σ → α → Option σ} {I : σ → Prop}
    (hstep : ∀ s a t, I s → step s a = some t → I t)
    {s t : σ} {as : List α} (hs : I s) (h : run step s as = some t) : I t :=
  run_invariant_of (P := fun _ => True) (fun s a t _ => hstep s a t) (fun _ _ => trivial) hs h

/-- With a measure that every step lowers there is a longest run. -/
theorem length_le_of_run {step : σ → α → Option σ} {R : σ → Nat → Prop}
    (hstep : ∀ s a t n, R s n → step s a = some t → ∃ m < n, R t m)
    {s t : σ} {as : List α} {n : Nat} (hs : R s n) (h : run step s as = some t) : as.length ≤ n := by
  induction as generalizing s n with
  | nil => exact Nat.zero_le _
  | cons a as ih =>
      obtain ⟨u, hu, hrest⟩ := run_cons_eq_some.mp h
      obtain ⟨m, hlt, hm⟩ := hstep s a u n hs hu
      exact Nat.lt_of_le_of_lt (ih hm hrest) hlt

/-- With such a measure every run goes on to a state where no action is enabled. -/
theorem exists_stuck {step : σ → α → Option σ} {R : σ → Nat → Prop}
    (hstep : ∀ s a t n, R s n → step s a = some t → ∃ m < n, R t m)
    {s : σ} {n : Nat} (hs : R s n) : ∃ as t, run step s as = some t ∧ ∀ a, step t a = none := by
  induction n using Nat.strongRecOn generalizing s with
  | ind n ih =>
      by_cases hstuck : ∀ a, step s a = none
      · exact ⟨[], s, rfl, hstuck⟩
      · obtain ⟨a, ha⟩ := Classical.not_forall.mp hstuck
        obtain ⟨t, ht⟩ := Option.ne_none_iff_exists'.mp ha
        obtain ⟨m, hlt, hm⟩ := hstep s a t n hs ht
        obtain ⟨as, u, hrun, hu⟩ := ih m hlt hm
        exact ⟨a :: as, u, run_cons_eq_some.mpr ⟨t, ht, hrun⟩, hu⟩

/-- Every action of the run satisfies `P` in the state it is taken in. -/
def Along (step : σ → α → Option σ) (P : σ → α → Prop) : σ → List α → Prop
  | _, [] => True
  | s, a :: as => P s a ∧ ∀ t, step s a = some t → Along step P t as

instance Along.decidable {step : σ → α → Option σ} {P : σ → α → Prop} [∀ s a, Decidable (P s a)] :
    (s : σ) → (as : List α) → Decidable (Along step P s as)
  | _, [] => isTrue trivial
  | s, a :: as =>
    match h : step s a with
    | none =>
      decidable_of_iff (P s a) ⟨fun hP => ⟨hP, fun _ ht => by rw [h] at ht; cases ht⟩, And.left⟩
    | some t =>
      have : Decidable (Along step P t as) := Along.decidable t as
      decidable_of_iff (P s a ∧ Along step P t as)
        ⟨fun hP => ⟨hP.1, fun _ ht => by rw [h] at ht; cases ht; exact hP.2⟩,
          fun hP => ⟨hP.1, hP.2 t h⟩⟩

/-- What holds along a run holds along its beginning. -/
theorem Along.of_append {step : σ → α → Option σ} {P : σ → α → Prop} {s : σ} {as bs : List α}
    (h : Along step P s (as ++ bs)) : Along step P s as := by
  induction as generalizing s with
  | nil => trivial
  | cons a as ih => exact ⟨h.1, fun t ht => ih (h.2 t ht)⟩

/-- What holds along a run holds along the rest of it. -/
theorem Along.drop {step : σ → α → Option σ} {P : σ → α → Prop} {s t : σ} {as bs : List α}
    (h : Along step P s (as ++ bs)) (hrun : run step s as = some t) : Along step P t bs := by
  induction as generalizing s with
  | nil =>
      cases hrun
      exact h
  | cons a as ih =>
      obtain ⟨u, hu, hrest⟩ := run_cons_eq_some.mp hrun
      exact ih (h.2 u hu) hrest

/-- What holds along two runs, one after the other, holds along both together. -/
theorem Along.append {step : σ → α → Option σ} {P : σ → α → Prop} {s t : σ} {as bs : List α}
    (has : Along step P s as) (h : run step s as = some t) (hbs : Along step P t bs) :
    Along step P s (as ++ bs) := by
  induction as generalizing s with
  | nil =>
      cases h
      exact hbs
  | cons a as ih =>
      refine ⟨has.1, fun u hu => ih (has.2 u hu) ?_⟩
      rw [run_cons, hu] at h
      exact h

/-- What holds of the actions along a run holds of each of them. -/
theorem Along.forall_mem {step : σ → α → Option σ} {P : α → Prop} {s t : σ} {as : List α}
    (has : Along step (fun _ a => P a) s as) (h : run step s as = some t) : ∀ a ∈ as, P a := by
  induction as generalizing s with
  | nil => exact fun _ ha => by cases ha
  | cons a as ih =>
      obtain ⟨u, hu, hrest⟩ := run_cons_eq_some.mp h
      exact List.forall_mem_cons.mpr ⟨has.1, ih (has.2 u hu) hrest⟩

/-- A run of a restricted step function is a run, along what it allows. -/
theorem run_mono {step step' : σ → α → Option σ} {P : σ → α → Prop}
    (hstep : ∀ s a t, step' s a = some t → step s a = some t ∧ P s a)
    {s t : σ} {as : List α} (h : run step' s as = some t) :
    run step s as = some t ∧ Along step P s as := by
  induction as generalizing s with
  | nil => exact ⟨h, trivial⟩
  | cons a as ih =>
      obtain ⟨u, hu, hrest⟩ := run_cons_eq_some.mp h
      obtain ⟨hu', ha⟩ := hstep s a u hu
      obtain ⟨hrun, has⟩ := ih hrest
      refine ⟨run_cons_eq_some.mpr ⟨u, hu', hrun⟩, ha, fun v hv => ?_⟩
      rw [hu'] at hv
      cases hv
      exact has

/-- What holds of every action of a run can be added to what holds along it. -/
theorem Along.and_forall {step : σ → α → Option σ} {P : σ → α → Prop} {R : α → Prop} {s : σ}
    {as : List α} (h : Along step P s as) (hR : ∀ a ∈ as, R a) :
    Along step (fun s a => R a ∧ P s a) s as := by
  induction as generalizing s with
  | nil => trivial
  | cons a as ih =>
      obtain ⟨ha, has⟩ := List.forall_mem_cons.mp hR
      exact ⟨⟨ha, h.1⟩, fun t ht => ih (h.2 t ht) has⟩

/-- Conditions that agree on the enabled steps of the states of a run agree along it. -/
theorem along_congr {step : σ → α → Option σ} {I : σ → Prop} {P Q : σ → α → Prop}
    (hI : ∀ s a t, I s → step s a = some t → I t)
    (hPQ : ∀ s a t, I s → step s a = some t → (P s a ↔ Q s a))
    {s t : σ} {as : List α} (hs : I s) (h : run step s as = some t) :
    Along step P s as ↔ Along step Q s as := by
  induction as generalizing s with
  | nil => exact Iff.rfl
  | cons a as ih =>
      obtain ⟨u, hu, hrest⟩ := run_cons_eq_some.mp h
      have hih := ih (hI s a u hs hu) hrest
      simp only [Along, hu, Option.some.injEq, forall_eq']
      exact and_congr (hPQ s a u hs hu) hih

/-- A condition that keeps an invariant and gives `Q` at every step gives `Q` along a run. -/
theorem along_of_along {step : σ → α → Option σ} {I : σ → Prop} {P Q : σ → α → Prop}
    (hstep : ∀ s a t, I s → P s a → step s a = some t → Q s a ∧ I t)
    {s t : σ} {as : List α} (hs : I s) (h : run step s as = some t) (hP : Along step P s as) :
    Along step Q s as := by
  induction as generalizing s with
  | nil => trivial
  | cons a as ih =>
      obtain ⟨u, hu, hrest⟩ := run_cons_eq_some.mp h
      obtain ⟨hQ, hu'⟩ := hstep s a u hs hP.1 hu
      refine ⟨hQ, fun v hv => ?_⟩
      rw [hu] at hv
      cases hv
      exact ih hu' hrest (hP.2 u hu)

/-- A property kept by every step that satisfies `P` is kept by every run along `P`. -/
theorem run_invariant_along {step : σ → α → Option σ} {I : σ → Prop} {P : σ → α → Prop}
    (hstep : ∀ s a t, I s → P s a → step s a = some t → I t)
    {s t : σ} {as : List α} (hs : I s) (h : run step s as = some t) (hP : Along step P s as) :
    I t := by
  induction as generalizing s with
  | nil =>
      cases h
      exact hs
  | cons a as ih =>
      obtain ⟨u, hu, hrest⟩ := run_cons_eq_some.mp h
      exact ih (hstep s a u hs hP.1 hu) hrest (hP.2 u hu)

/-- When a lasting defect appears with the first step that breaks `P`, and only there, a
    run within `D` is free of it iff `P` holds along the run, and then `I` holds in the end.
    `J` is kept by all steps within `D`. -/
theorem run_iff_along_within {step : σ → α → Option σ} {J I G : σ → Prop} {D P : σ → α → Prop}
    (hJ : ∀ s a t, J s → D s a → step s a = some t → J t)
    (hgood : ∀ s, I s → G s)
    (hkeep : ∀ s a t, J s → I s → D s a → P s a → step s a = some t → I t)
    (hbreak : ∀ s a t, J s → I s → D s a → ¬P s a → step s a = some t → ¬G t)
    (hlast : ∀ s a t, J s → D s a → step s a = some t → G t → G s)
    {s t : σ} {as : List α} (hJs : J s) (hs : I s) (h : run step s as = some t)
    (hD : Along step D s as) :
    (G t ↔ Along step P s as) ∧ (Along step P s as → I t) := by
  -- A state that is good in the end was good all along
  have hback : ∀ {as : List α} {s : σ}, J s → run step s as = some t → Along step D s as →
      G t → G s := by
    intro as
    induction as with
    | nil =>
        intro s _ h _ hG
        cases h
        exact hG
    | cons a as ih =>
        intro s hJs h hD hG
        obtain ⟨u, hu, hrest⟩ := run_cons_eq_some.mp h
        exact hlast s a u hJs hD.1 hu (ih (hJ s a u hJs hD.1 hu) hrest (hD.2 u hu) hG)
  induction as generalizing s with
  | nil =>
      cases h
      exact ⟨⟨fun _ => trivial, fun _ => hgood _ hs⟩, fun _ => hs⟩
  | cons a as ih =>
      obtain ⟨u, hu, hrest⟩ := run_cons_eq_some.mp h
      have hJu := hJ s a u hJs hD.1 hu
      by_cases ha : P s a
      · obtain ⟨hiff, hend⟩ := ih hJu (hkeep s a u hJs hs hD.1 ha hu) hrest (hD.2 u hu)
        refine ⟨⟨fun hG => ⟨ha, fun v hv => ?_⟩, fun hall => hiff.mpr (hall.2 u hu)⟩,
          fun hall => hend (hall.2 u hu)⟩
        rw [hu] at hv
        cases hv
        exact hiff.mp hG
      · -- the defect is there after this step and does not go away
        have hbad := hbreak s a u hJs hs hD.1 ha hu
        exact ⟨⟨fun hG => absurd (hback hJu hrest (hD.2 u hu) hG) hbad, fun hall => absurd hall.1 ha⟩,
          fun hall => absurd hall.1 ha⟩

theorem along_of_forall {step : σ → α → Option σ} {P : σ → α → Prop} (h : ∀ s a, P s a) (s : σ)
    (as : List α) : Along step P s as := by
  induction as generalizing s with
  | nil => trivial
  | cons a as ih => exact ⟨h s a, fun t _ => ih t⟩

/-- The same for all runs. -/
theorem run_iff_along {step : σ → α → Option σ} {I G : σ → Prop} {P : σ → α → Prop}
    (hgood : ∀ s, I s → G s)
    (hkeep : ∀ s a t, I s → P s a → step s a = some t → I t)
    (hbreak : ∀ s a t, I s → ¬P s a → step s a = some t → ¬G t)
    (hlast : ∀ s a t, step s a = some t → G t → G s)
    {s t : σ} {as : List α} (hs : I s) (h : run step s as = some t) :
    G t ↔ Along step P s as :=
  (run_iff_along_within (J := fun _ => True) (D := fun _ _ => True) (fun _ _ _ _ _ _ => trivial)
    hgood (fun s a t _ hI _ => hkeep s a t hI) (fun s a t _ hI _ => hbreak s a t hI)
    (fun s a t _ _ => hlast s a t) trivial hs h (along_of_forall (fun _ _ => trivial) s as)).1

/-- When `P` decides at each step whether `G` still holds, `G` holds in every state of a run,
    up to an action that is not enabled, iff `P` holds along it.  `J` is kept by all steps. -/
theorem prefixes_iff_along {step : σ → α → Option σ} {J G : σ → Prop} {P : σ → α → Prop}
    (hJ : ∀ s a t, J s → step s a = some t → J t)
    (hstep : ∀ s a t, J s → G s → step s a = some t → (G t ↔ P s a))
    (hnone : ∀ s a, step s a = none → P s a)
    {s : σ} {as : List α} (hJs : J s) (hs : G s) :
    (∀ bs, bs <+: as → ∀ t, run step s bs = some t → G t) ↔ Along step P s as := by
  induction as generalizing s with
  | nil =>
      refine ⟨fun _ => trivial, fun _ bs hbs t ht => ?_⟩
      rw [List.prefix_nil.mp hbs] at ht
      cases ht
      exact hs
  | cons a as ih =>
      cases ha : step s a with
      | none =>
          refine ⟨fun _ => ⟨hnone s a ha, fun t ht => by rw [ha] at ht; cases ht⟩, fun _ bs hbs t ht => ?_⟩
          rcases List.prefix_cons_iff.mp hbs with rfl | ⟨cs, rfl, -⟩
          · cases ht
            exact hs
          · rw [run_cons, ha] at ht
            cases ht
      | some u =>
          have hiff := hstep s a u hJs hs ha
          constructor
          · intro h
            have hu : G u := h [a] ⟨as, rfl⟩ u (run_cons_eq_some.mpr ⟨u, ha, rfl⟩)
            refine ⟨hiff.mp hu, fun t ht => ?_⟩
            rw [ha] at ht
            cases ht
            refine (ih (hJ s a u hJs ha) hu).mp fun bs hbs t ht => ?_
            exact h (a :: bs) (List.prefix_cons_inj a |>.mpr hbs) t (run_cons_eq_some.mpr ⟨u, ha, ht⟩)
          · rintro ⟨hP, hrest⟩ bs hbs t ht
            rcases List.prefix_cons_iff.mp hbs with rfl | ⟨cs, rfl, hcs⟩
            · cases ht
              exact hs
            · obtain ⟨v, hv, hrun⟩ := run_cons_eq_some.mp ht
              rw [ha] at hv
              cases hv
              exact (ih (hJ s a u hJs ha) (hiff.mpr hP)).mpr (hrest u ha) cs hcs t hrun

/-- A run follows the abstract machine `f` whenever each enabled step does. -/
theorem run_simulates {step : σ → α → Option σ} {f : τ → α → τ} {R : σ → τ → Prop}
    (hstep : ∀ s a s' t, R s t → step s a = some s' → R s' (f t a))
    {s s' : σ} {t : τ} {as : List α} (hs : R s t) (h : run step s as = some s') :
    R s' (as.foldl f t) := by
  induction as generalizing s t with
  | nil =>
      cases h
      exact hs
  | cons a as ih =>
      obtain ⟨u, hu, hrest⟩ := run_cons_eq_some.mp h
      exact ih (hstep s a u t hs hu) hrest

/-- Where each step of a total machine is matched by a run of `step`, every run is. -/
theorem foldl_refines {f : σ → α → σ} {step : τ → β → Option τ} {R : σ → τ → Prop}
    (hstep : ∀ s a t, R s t → ∃ bs t', run step t bs = some t' ∧ R (f s a) t')
    {s : σ} {t : τ} (hs : R s t) (as : List α) :
    ∃ bs t', run step t bs = some t' ∧ R (as.foldl f s) t' := by
  induction as generalizing s t with
  | nil => exact ⟨[], t, rfl, hs⟩
  | cons a as ih =>
      obtain ⟨bs, u, hu, hR⟩ := hstep s a t hs
      obtain ⟨cs, v, hv, hend⟩ := ih hR
      exact ⟨bs ++ cs, v, run_append_eq_some.mpr ⟨u, hu, hv⟩, hend⟩

end Youth.Lib
