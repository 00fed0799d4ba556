/-
  Youth.Lib.Loop

  A `while` loop, turn by turn.

  A turn either ends the loop (a `break`, or a guard that is false) or goes on to
  the next turn; both hand on the state and the events made on the way.  `loop`
  takes turns until one ends it, `none` when `fuel` turns do not.  `Loops` is the
  same without the fuel; `loop_iff_loops` says that they agree once the fuel
  exceeds a measure that every further turn decreases.
-/

import Mathlib.Tactic.Basic

namespace Youth.Lib

/-- How one turn of a loop ends. -/
inductive Turn (ε σ : Type)
  | stop (events : List ε) (s : σ)
  | next (events : List ε) (s : σ)
  deriving DecidableEq, Repr

variable {ε σ : Type}

/-- Take turns until one stops; `none` when `fuel` turns do not. -/
def loop (turn : σ → Turn ε σ) : Nat → σ → Option (List ε × σ)
  | 0, _ => none
  | fuel + 1, s =>
    match turn s with
    | .stop events s => some (events, s)
    | .next events s => (loop turn fuel s).map fun p => (events ++ p.1, p.2)

theorem loop_stop {turn : σ → Turn ε σ} {s t : σ} {events : List ε}
    (h : turn s = .stop events t) (fuel : Nat) : loop turn (fuel + 1) s = some (events, t) := by
  rw [loop, h]

theorem loop_next {turn : σ → Turn ε σ} {s t : σ} {events : List ε}
    (h : turn s = .next events t) (fuel : Nat) :
    loop turn (fuel + 1) s = (loop turn fuel t).map fun p => (events ++ p.1, p.2) := by
  rw [loop, h]

/-- More fuel does not change where a loop ends. -/
theorem loop_mono {turn : σ → Turn ε σ} {fuel more : Nat} {s : σ} {p : List ε × σ}
    (h : loop turn fuel s = some p) (hle : fuel ≤ more) : loop turn more s = some p := by
  induction fuel generalizing more s p with
  | zero => cases h
  | succ fuel ih =>
      obtain ⟨more, rfl⟩ := Nat.exists_eq_add_one_of_ne_zero (show more ≠ 0 by omega)
      rcases hturn : turn s with ⟨made, u⟩ | ⟨made, u⟩
      · rw [loop_stop hturn] at h ⊢
        exact h
      · rw [loop_next hturn] at h ⊢
        obtain ⟨q, hq, hpair⟩ := Option.map_eq_some_iff.mp h
        rw [ih hq (by omega), Option.map_some, hpair]

/-- The same turn, seen through a map of the states. -/
def Turn.map {τ : Type} (f : σ → τ) : Turn ε σ → Turn ε τ
  | .stop events s => .stop events (f s)
  | .next events s => .next events (f s)

/-- The state a turn hands on. -/
def Turn.state : Turn ε σ → σ
  | .stop _ s => s
  | .next _ s => s

@[simp] theorem Turn.state_stop (events : List ε) (s : σ) : (Turn.stop events s).state = s := rfl

@[simp] theorem Turn.state_next (events : List ε) (s : σ) : (Turn.next events s).state = s := rfl

/-- A map of the states that commutes with every turn from an invariant commutes with the
    loop. -/
theorem loop_map_of {τ : Type} {turn : σ → Turn ε σ} {turn' : τ → Turn ε τ} {f : σ → τ}
    {I : σ → Prop} (hI : ∀ s, I s → I (turn s).state) (h : ∀ s, I s → turn' (f s) = (turn s).map f)
    (fuel : Nat) {s : σ} (hs : I s) :
    loop turn' fuel (f s) = (loop turn fuel s).map fun p => (p.1, f p.2) := by
  induction fuel generalizing s with
  | zero => rfl
  | succ fuel ih =>
      have hturn' := h s hs
      have hu := hI s hs
      rcases hturn : turn s with ⟨events, u⟩ | ⟨events, u⟩
      · rw [hturn] at hturn'
        rw [loop_stop hturn, loop_stop hturn']
        rfl
      · rw [hturn] at hturn'
        rw [hturn, Turn.state_next] at hu
        rw [loop_next hturn, loop_next hturn', ih hu, Option.map_map, Option.map_map]
        rfl

/-- A map of the states that commutes with every turn commutes with the loop. -/
theorem loop_map {τ : Type} {turn : σ → Turn ε σ} {turn' : τ → Turn ε τ} {f : σ → τ}
    (h : ∀ s, turn' (f s) = (turn s).map f) (fuel : Nat) (s : σ) :
    loop turn' fuel (f s) = (loop turn fuel s).map fun p => (p.1, f p.2) :=
  loop_map_of (I := fun _ => True) (fun _ _ => trivial) (fun s _ => h s) fuel trivial

/-- From `s` the loop ends in `t`, with these events. -/
inductive Loops (turn : σ → Turn ε σ) : σ → List ε → σ → Prop
  | stop {s t : σ} {events : List ε} : turn s = .stop events t → Loops turn s events t
  | next {s u t : σ} {events rest : List ε} :
      turn s = .next events u → Loops turn u rest t → Loops turn s (events ++ rest) t

theorem loops_of_loop {turn : σ → Turn ε σ} {fuel : Nat} {s t : σ} {events : List ε}
    (h : loop turn fuel s = some (events, t)) : Loops turn s events t := by
  induction fuel generalizing s events with
  | zero => cases h
  | succ fuel ih =>
      rcases hturn : turn s with ⟨made, u⟩ | ⟨made, u⟩
      · rw [loop_stop hturn] at h
        cases h
        exact .stop hturn
      · rw [loop_next hturn] at h
        obtain ⟨p, hp, hpair⟩ := Option.map_eq_some_iff.mp h
        cases hpair
        exact .next hturn (ih hp)

/-- A loop that ends does so within any fuel above the measure `m`. -/
theorem loop_of_loops {turn : σ → Turn ε σ} {I : σ → Prop} {m : σ → Nat}
    (hdec : ∀ s events u, I s → turn s = .next events u → I u ∧ m u < m s)
    {s t : σ} {events : List ε} (h : Loops turn s events t) (hs : I s) {fuel : Nat}
    (hfuel : m s < fuel) : loop turn fuel s = some (events, t) := by
  induction h generalizing fuel with
  | stop hturn =>
      obtain ⟨fuel, rfl⟩ := Nat.exists_eq_add_one_of_ne_zero (Nat.ne_zero_of_lt hfuel)
      exact loop_stop hturn fuel
  | next hturn _ ih =>
      obtain ⟨fuel, rfl⟩ := Nat.exists_eq_add_one_of_ne_zero (Nat.ne_zero_of_lt hfuel)
      obtain ⟨hu, hlt⟩ := hdec _ _ _ hs hturn
      rw [loop_next hturn, ih hu (by omega)]
      rfl

theorem loop_iff_loops {turn : σ → Turn ε σ} {I : σ → Prop} {m : σ → Nat}
    (hdec : ∀ s events u, I s → turn s = .next events u → I u ∧ m u < m s)
    {s t : σ} {events : List ε} (hs : I s) {fuel : Nat} (hfuel : m s < fuel) :
    loop turn fuel s = some (events, t) ↔ Loops turn s events t :=
  ⟨loops_of_loop, fun h => loop_of_loops hdec h hs hfuel⟩

/-- Where every further turn decreases `m`, the loop ends. -/
theorem exists_loops {turn : σ → Turn ε σ} {I : σ → Prop} {m : σ → Nat}
    (hdec : ∀ s events u, I s → turn s = .next events u → I u ∧ m u < m s)
    {s : σ} (hs : I s) : ∃ events t, Loops turn s events t := by
  induction hn : m s using Nat.strongRecOn generalizing s with
  | ind n ih =>
      rcases hturn : turn s with ⟨made, u⟩ | ⟨made, u⟩
      · exact ⟨made, u, .stop hturn⟩
      · obtain ⟨hu, hlt⟩ := hdec _ _ _ hs hturn
        obtain ⟨events, t, ht⟩ := ih (m u) (hn ▸ hlt) hu rfl
        exact ⟨made ++ events, t, .next hturn ht⟩

/-- A loop ends with a turn that stops. -/
theorem Loops.exists_stop {turn : σ → Turn ε σ} {s t : σ} {events : List ε}
    (h : Loops turn s events t) : ∃ u last, turn u = .stop last t := by
  induction h with
  | stop hturn => exact ⟨_, _, hturn⟩
  | next _ _ ih => exact ih

/-- A loop whose every turn goes on never ends. -/
theorem loop_eq_none {turn : σ → Turn ε σ} {I : σ → Prop}
    (hnext : ∀ s, I s → ∃ events u, turn s = .next events u ∧ I u) {s : σ} (hs : I s)
    (fuel : Nat) : loop turn fuel s = none := by
  induction fuel generalizing s with
  | zero => rfl
  | succ fuel ih =>
      obtain ⟨events, u, hturn, hu⟩ := hnext s hs
      rw [loop_next hturn, ih hu]
      rfl

/-- So does one whose turn leads back to where it starts. -/
theorem loop_eq_none_of_fixed {turn : σ → Turn ε σ} {s : σ} {events : List ε}
    (h : turn s = .next events s) (fuel : Nat) : loop turn fuel s = none := by
  have hnext : ∀ u, u = s → ∃ events u', turn u = .next events u' ∧ u' = s := by
    rintro u rfl
    exact ⟨events, u, h, rfl⟩
  exact loop_eq_none hnext rfl fuel

/-- A property of the state that every turn keeps holds where the loop ends. -/
theorem Loops.invariant {turn : σ → Turn ε σ} {I : σ → Prop} (hturn : ∀ s, I s → I (turn s).state)
    {s t : σ} {events : List ε} (h : Loops turn s events t) (hs : I s) : I t := by
  induction h with
  | stop hstop =>
      have ht := hturn _ hs
      rwa [hstop] at ht
  | next hnext _ ih =>
      have hu := hturn _ hs
      rw [hnext] at hu
      exact ih hu

/-- The states at the head of the turns of a loop. -/
inductive Heads (turn : σ → Turn ε σ) (s : σ) : σ → Prop
  | first : Heads turn s s
  | next {t u : σ} {events : List ε} : Heads turn s t → turn t = .next events u → Heads turn s u

/-- What every further turn keeps holds at the head of each. -/
theorem Heads.invariant {turn : σ → Turn ε σ} {I : σ → Prop}
    (hturn : ∀ s events t, I s → turn s = .next events t → I t) {s t : σ}
    (h : Heads turn s t) (hs : I s) : I t := by
  induction h with
  | first => exact hs
  | next _ hnext ih => exact hturn _ _ _ ih hnext

end Youth.Lib
