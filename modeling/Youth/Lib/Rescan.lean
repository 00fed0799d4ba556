/-
  Youth.Lib.Rescan

  Replacing the first match, again and again, until there is none.

  Every round searches the whole list, so what was put in, and the seams around it, can
  make new matches.  `Rescans pat new xs n ys` says that `n` rounds take `xs` to `ys`,
  where they end.  The pieces of `xs` joined with `new` are what a single pass would leave;
  `Seamless` is the condition under which the rounds leave the same: at each occurrence,
  the first match (which may start before it, on a seam) can be replaced with the effect of
  replacing the occurrence, and the joined list has no match.

  The condition is enough (`rescans_of_seamless`).  It is necessary, too, unless `new` is a
  proper prefix of `pat` (`seamless_of_rescans`), and then as well where the overlaps of
  `pat` with itself all change the list in the same direction (`OverlapsAgree`,
  `seamless_of_rescans_agree`): a list that has fallen below the joined one never comes
  back.
-/

import Youth.Lib.Pieces

namespace Youth.Lib

variable {α : Type}

/-! ## Falling -/

/-- At the first difference `ys` has the lower element. -/
def Falls (lt : α → α → Prop) (xs ys : List α) : Prop :=
  ∃ before b a rest rest', xs = before ++ b :: rest ∧ ys = before ++ a :: rest' ∧ lt a b

section Falls

variable {lt : α → α → Prop} {xs ys zs : List α}

theorem Falls.append_left (h : Falls lt xs ys) (front : List α) :
    Falls lt (front ++ xs) (front ++ ys) := by
  obtain ⟨before, b, a, rest, rest', rfl, rfl, hab⟩ := h
  exact ⟨front ++ before, b, a, rest, rest', by simp, by simp, hab⟩

/-- What follows does not matter. -/
theorem Falls.append (h : Falls lt xs ys) (more more' : List α) :
    Falls lt (xs ++ more) (ys ++ more') := by
  obtain ⟨before, b, a, rest, rest', rfl, rfl, hab⟩ := h
  exact ⟨before, b, a, rest ++ more, rest' ++ more', by simp, by simp, hab⟩

theorem Falls.trans (htrans : ∀ a b c, lt a b → lt b c → lt a c) (h : Falls lt xs ys)
    (h' : Falls lt ys zs) : Falls lt xs zs := by
  obtain ⟨before, b, a, rest, rest', rfl, hys, hab⟩ := h
  obtain ⟨before', b', a', rest₁, rest₁', rfl, rfl, hab'⟩ := h'
  -- the earlier of the two differences is the first one
  rcases List.append_eq_append_iff.mp hys with ⟨mid, rfl, hmid⟩ | ⟨mid, rfl, hmid⟩
  · rcases mid with _ | ⟨c, mid⟩
    · obtain ⟨rfl, -⟩ := List.cons.inj hmid
      exact ⟨before', b, a', rest, rest₁', by simp, by simp, htrans _ _ _ hab' hab⟩
    · obtain ⟨rfl, -⟩ := List.cons.inj hmid
      exact ⟨before', b', a', mid ++ b :: rest, rest₁', by simp, by simp, hab'⟩
  · rcases mid with _ | ⟨c, mid⟩
    · obtain ⟨rfl, -⟩ := List.cons.inj hmid
      exact ⟨before, b, a', rest, rest₁', by simp, by simp, htrans _ _ _ hab' hab⟩
    · obtain ⟨rfl, -⟩ := List.cons.inj hmid
      exact ⟨before, b, a, rest, mid ++ a' :: rest₁', by simp, by simp, hab⟩

theorem not_falls_self (hirrefl : ∀ a, ¬lt a a) : ¬Falls lt xs xs := by
  rintro ⟨before, b, a, rest, rest', hxs, hxs', hab⟩
  have hsame := hxs.symm.trans hxs'
  obtain ⟨rfl, -⟩ := List.cons.inj (List.append_cancel_left hsame)
  exact hirrefl _ hab

end Falls

/-! ## Joining -/

/-- Pieces joined; the first one stands apart. -/
def joined (between first : List α) (more : List (List α)) : List α :=
  first ++ more.flatMap (between ++ ·)

theorem joined_cons (between first piece : List α) (more : List (List α)) :
    joined between first (piece :: more) = joined between (first ++ between ++ piece) more := by
  simp [joined, List.append_assoc]

theorem joined_append (between first rest : List α) (more : List (List α)) :
    joined between (first ++ rest) more = first ++ joined between rest more :=
  List.append_assoc _ _ _

theorem joined_eq_intercalate (between first : List α) (more : List (List α)) :
    joined between first more = between.intercalate (first :: more) := by
  induction more generalizing first with
  | nil => simp [joined, List.intercalate]
  | cons piece more ih =>
      rw [intercalate_cons_of_ne_nil _ _ (List.cons_ne_nil _ _), joined_cons, joined_append, ih]

theorem length_joined (pat new first : List α) (more : List (List α)) :
    (joined pat first more).length + more.length * new.length =
      (joined new first more).length + more.length * pat.length := by
  induction more with
  | nil => simp [joined]
  | cons piece more ih =>
      simp only [joined, List.length_append, List.flatMap_cons, List.length_cons, Nat.succ_mul] at ih ⊢
      omega

/-! ## Overlaps -/

/-- Where an overlap of `pat` with itself changes the list, the list falls. -/
def OverlapsFall (lt : α → α → Prop) (pat new : List α) : Prop :=
  ∀ x v w, x ++ v = pat → v ++ w = pat → v ≠ [] →
    x ++ new = new ++ w ∨ Falls lt (x ++ new) (new ++ w)

/-- For some order all the overlaps do. -/
def OverlapsAgree (pat new : List α) : Prop :=
  ∃ lt : α → α → Prop, (∀ a, ¬lt a a) ∧ (∀ a b c, lt a b → lt b c → lt a c) ∧
    OverlapsFall lt pat new

/-- Two lists of which neither goes on from the other differ somewhere. -/
theorem exists_apart {xs ys : List α} (hxs : ¬xs <+: ys) (hys : ¬ys <+: xs) :
    ∃ before b a rest rest', xs = before ++ b :: rest ∧ ys = before ++ a :: rest' ∧ a ≠ b := by
  induction xs generalizing ys with
  | nil => exact absurd ⟨ys, rfl⟩ hxs
  | cons x xs ih =>
      rcases ys with _ | ⟨y, ys⟩
      · exact absurd ⟨x :: xs, rfl⟩ hys
      by_cases hxy : x = y
      · subst hxy
        rw [List.cons_prefix_cons, not_and] at hxs hys
        obtain ⟨before, b, a, rest, rest', rfl, rfl, hab⟩ := ih (hxs rfl) (hys rfl)
        exact ⟨x :: before, b, a, rest, rest', rfl, rfl, hab⟩
      · exact ⟨[], x, y, xs, ys, rfl, rfl, Ne.symm hxy⟩

/-- Where `pat` and `new` differ, every overlap makes the list fall at that place. -/
theorem overlapsFall_of_apart {lt : α → α → Prop} {pat new before rest rest' : List α}
    {a b : α} (hlt : lt a b)
    (hpat : pat = before ++ b :: rest) (hnew : new = before ++ a :: rest') :
    OverlapsFall lt pat new := by
  intro x v w hxv hvw _
  -- `x ++ pat` and `pat ++ w` are the same list, read from both ends
  have hboth : (x ++ before) ++ b :: rest = before ++ b :: (rest ++ w) := by
    calc (x ++ before) ++ b :: rest = x ++ pat := by rw [hpat, List.append_assoc]
      _ = (x ++ v) ++ w := by rw [← hvw, List.append_assoc]
      _ = before ++ b :: (rest ++ w) := by rw [hxv, hpat, List.append_assoc, List.cons_append]
  rcases x with _ | ⟨first, x⟩
  · left
    rw [List.nil_append] at hxv
    subst hxv
    rw [List.append_right_eq_self.mp hvw, List.append_nil, List.nil_append]
  · right
    rcases List.append_eq_append_iff.mp hboth with ⟨t, ht, -⟩ | ⟨t, ht, hrest⟩
    · have hlen := congrArg List.length ht
      simp only [List.length_append, List.length_cons] at hlen
      omega
    · rcases t with _ | ⟨c, t⟩
      · have hlen := congrArg List.length ht
        simp only [List.length_append, List.length_cons, List.length_nil] at hlen
        omega
      · obtain ⟨rfl, -⟩ := List.cons.inj hrest
        refine ⟨before, _, a, t ++ a :: rest', rest' ++ w, ?_, ?_, hlt⟩
        · rw [hnew, ← List.append_assoc, ht, List.append_assoc, List.cons_append]
        · rw [hnew, List.append_assoc, List.cons_append]

/-! ## Rounds -/

variable [DecidableEq α]

/-- The first match of `pat` replaced by `new`; `none` without a match. -/
def replaceFirst (pat new xs : List α) : Option (List α) :=
  (cut pat xs).map fun p => p.1 ++ new ++ p.2

/-- `n` rounds take `xs` to `ys`, which has no match. -/
inductive Rescans (pat new : List α) : List α → Nat → List α → Prop
  | stop {xs : List α} : ¬pat <:+: xs → Rescans pat new xs 0 xs
  | next {xs ys zs : List α} {n : Nat} :
      replaceFirst pat new xs = some ys → Rescans pat new ys n zs → Rescans pat new xs (n + 1) zs

/-- At every occurrence the first match found can be replaced with the effect of replacing
    the occurrence, and at the end there is no match.  `done` is what is joined already. -/
def Seamless (pat new : List α) : List α → List (List α) → Prop
  | done, [] => ¬pat <:+: done
  | done, piece :: more =>
    replaceFirst pat new (done ++ pat) = some (done ++ new) ∧
      Seamless pat new (done ++ new ++ piece) more

instance decidableSeamless (pat new : List α) : (done : List α) → (more : List (List α)) →
    Decidable (Seamless pat new done more)
  | _, [] => inferInstanceAs (Decidable (¬_))
  | done, piece :: more =>
    have := decidableSeamless pat new (done ++ new ++ piece) more
    inferInstanceAs (Decidable (_ ∧ _))

variable {pat new : List α}

/-- Input added at the end does not change what is replaced. -/
theorem replaceFirst_append {xs ys : List α} (h : replaceFirst pat new xs = some ys)
    (more : List α) : replaceFirst pat new (xs ++ more) = some (ys ++ more) := by
  obtain ⟨⟨before, rest⟩, hcut, rfl⟩ := Option.map_eq_some_iff.mp h
  rw [replaceFirst, cut_append hcut more]
  simp

/-- A round on a list whose first occurrence is behind `first`. -/
theorem replaceFirst_joined {first ys : List α} (h : replaceFirst pat new (first ++ pat) = some ys)
    (piece : List α) (more : List (List α)) :
    replaceFirst pat new (joined pat first (piece :: more)) = some (joined pat (ys ++ piece) more) := by
  rw [joined_cons, joined_append, joined_append]
  exact replaceFirst_append h _

theorem exists_cut (pat xs : List α) : ∃ p, cut pat (xs ++ pat) = some p := by
  refine Option.ne_none_iff_exists'.mp fun hnone => ?_
  exact cut_eq_none_iff.mp hnone (List.suffix_append xs pat).isInfix

/-- The first match at the end of a list without one: it begins on an overlap `x` of `pat`
    with the list, or behind the list. -/
theorem exists_overlap {xs : List α} (hxs : ¬pat <:+: xs) :
    ∃ before x v w, xs = before ++ x ∧ pat = x ++ v ∧ pat = v ++ w ∧ v ≠ [] ∧
      ∀ new, replaceFirst pat new (xs ++ pat) = some (before ++ (new ++ w)) := by
  obtain ⟨⟨before, w⟩, hcut⟩ := exists_cut pat xs
  have happ := cut_eq_append hcut
  have hlen := congrArg List.length happ
  simp only [List.length_append] at hlen
  obtain ⟨x, rfl⟩ : before <+: xs := by
    refine List.prefix_of_prefix_length_le ⟨pat ++ w, ?_⟩ (List.prefix_append xs pat) (by omega)
    rw [happ, List.append_assoc]
  -- now the two ways to read `before ++ x ++ pat`
  have hoverlap : x ++ pat = pat ++ w := by
    rw [List.append_assoc, List.append_assoc] at happ
    exact List.append_cancel_left happ
  have hshort : x.length < pat.length := by
    by_contra hge
    have hpre : pat <+: x := List.prefix_of_prefix_length_le ⟨w, hoverlap.symm⟩
      (List.prefix_append x pat) (by omega)
    exact hxs (hpre.isInfix.trans (List.suffix_append before x).isInfix)
  obtain ⟨v, hv⟩ : x <+: pat :=
    List.prefix_of_prefix_length_le (List.prefix_append x pat) ⟨w, hoverlap.symm⟩ (by omega)
  refine ⟨before, x, v, w, rfl, hv.symm, ?_, ?_, fun new => ?_⟩
  · have hcancel : x ++ pat = x ++ (v ++ w) := by
      rw [hoverlap, ← List.append_assoc, hv]
    exact List.append_cancel_left hcancel
  · rintro rfl
    rw [List.append_nil] at hv
    rw [hv] at hshort
    omega
  · rw [replaceFirst, hcut]
    simp

/-- The condition is enough: the rounds leave what a single pass would, in as many rounds
    as there are occurrences. -/
theorem rescans_of_seamless {done : List α} {more : List (List α)}
    (h : Seamless pat new done more) :
    Rescans pat new (joined pat done more) more.length (joined new done more) := by
  induction more generalizing done with
  | nil => simpa [joined] using Rescans.stop h
  | cons piece more ih =>
      rw [joined_cons new]
      exact Rescans.next (replaceFirst_joined h.1 piece more) (ih h.2)

theorem Rescans.no_match {xs ys : List α} {n : Nat} (h : Rescans pat new xs n ys) :
    ¬pat <:+: ys := by
  induction h with
  | stop h => exact h
  | next _ _ ih => exact ih

theorem Rescans.seamless_nil {xs done : List α} {n : Nat}
    (h : Rescans pat new xs n (joined new done [])) : Seamless pat new done [] := by
  show ¬pat <:+: done
  simpa [joined] using h.no_match

/-- What the first round is, and that the others follow. -/
theorem Rescans.of_replaceFirst {xs ys zs : List α} {n : Nat} (h : Rescans pat new xs n zs)
    (hfirst : replaceFirst pat new xs = some ys) :
    ∃ m, n = m + 1 ∧ Rescans pat new ys m zs := by
  cases h with
  | stop hno =>
      rw [replaceFirst, cut_eq_none_iff.mpr hno] at hfirst
      cases hfirst
  | next hfirst' hrest =>
      rw [hfirst] at hfirst'
      cases hfirst'
      exact ⟨_, rfl, hrest⟩

theorem Rescans.length {xs ys : List α} {n : Nat} (h : Rescans pat new xs n ys) :
    ys.length + n * pat.length = xs.length + n * new.length := by
  induction h with
  | stop _ => simp
  | next hfirst _ ih =>
      obtain ⟨⟨before, rest⟩, hcut, rfl⟩ := Option.map_eq_some_iff.mp hfirst
      have hlen := congrArg List.length (cut_eq_append hcut)
      simp only [List.length_append] at hlen ih
      rw [Nat.succ_mul, Nat.succ_mul]
      omega

theorem exists_replaceFirst (pat new xs : List α) :
    ∃ ys, replaceFirst pat new (xs ++ pat) = some ys := by
  obtain ⟨p, hcut⟩ := exists_cut pat xs
  exact ⟨_, by rw [replaceFirst, hcut, Option.map_some]⟩

/-- The first round where there is an occurrence: it does not go beyond that one. -/
theorem Rescans.of_joined {first piece zs : List α} {more : List (List α)} {n : Nat}
    (h : Rescans pat new (joined pat first (piece :: more)) n zs) :
    ∃ ys m, replaceFirst pat new (first ++ pat) = some ys ∧ n = m + 1 ∧
      Rescans pat new (joined pat (ys ++ piece) more) m zs := by
  obtain ⟨ys, hys⟩ := exists_replaceFirst pat new first
  obtain ⟨m, hm, hrest⟩ := h.of_replaceFirst (replaceFirst_joined hys piece more)
  exact ⟨ys, m, hys, hm, hrest⟩

/-- Every occurrence in the list takes a round at least. -/
theorem Rescans.length_le {first zs : List α} {more : List (List α)} {n : Nat}
    (h : Rescans pat new (joined pat first more) n zs) : more.length ≤ n := by
  induction more generalizing first n with
  | nil => exact Nat.zero_le n
  | cons piece more ih =>
      obtain ⟨ys, m, -, rfl, hrest⟩ := h.of_joined
      have hle := ih hrest
      rw [List.length_cons]
      omega

/-- With no round to spare, there is no other match in front of the occurrences. -/
theorem Rescans.not_infix_first {first zs : List α} {more : List (List α)}
    (h : Rescans pat new (joined pat first more) more.length zs) : ¬pat <:+: first := by
  rintro ⟨before, rest, rfl⟩
  rw [← joined_cons] at h
  have hle := h.length_le
  rw [List.length_cons] at hle
  omega

/-! ## The condition is necessary -/

section Necessary

variable {lt : α → α → Prop} {done : List α} {more : List (List α)}

/-- The first round either has the effect of replacing the occurrence, or the list falls
    below. -/
theorem first_round (hfall : OverlapsFall lt pat new) (hdone : ¬pat <:+: done) {ys : List α}
    (h : replaceFirst pat new (done ++ pat) = some ys) :
    ys = done ++ new ∨ Falls lt (done ++ new) ys := by
  obtain ⟨before, x, v, w, rfl, hxv, hvw, hv, hround⟩ := exists_overlap hdone
  rw [hround new] at h
  cases h
  rcases hfall x v w hxv.symm hvw.symm hv with hsame | hlower
  · left
    rw [List.append_assoc, hsame]
  · right
    rw [List.append_assoc]
    exact hlower.append_left before

/-- Once below the joined list, the list stays below it. -/
theorem falls_of_rescans (htrans : ∀ a b c, lt a b → lt b c → lt a c)
    (hfall : OverlapsFall lt pat new) {xs zs : List α}
    (h : Rescans pat new (joined pat xs more) more.length zs) (hlower : Falls lt done xs) :
    Falls lt (joined new done more) zs := by
  induction more generalizing done xs with
  | nil =>
      cases h
      exact hlower.append [] []
  | cons piece more ih =>
      obtain ⟨ys, m, hys, hm, hrest⟩ := h.of_joined
      obtain rfl : more.length = m := by simpa using hm
      rw [joined_cons]
      refine ih hrest (Falls.append ?_ piece piece)
      have hkept := hlower.append new new
      rcases first_round hfall h.not_infix_first hys with rfl | hround
      · exact hkept
      · exact hkept.trans htrans hround

/-- In as many rounds as there are occurrences, the joined list is reached only through the
    joined lists. -/
theorem seamless_of_rescans_exact (hirrefl : ∀ a, ¬lt a a)
    (htrans : ∀ a b c, lt a b → lt b c → lt a c) (hfall : OverlapsFall lt pat new)
    (h : Rescans pat new (joined pat done more) more.length (joined new done more)) :
    Seamless pat new done more := by
  induction more generalizing done with
  | nil => exact h.seamless_nil
  | cons piece more ih =>
      obtain ⟨ys, m, hys, hm, hrest⟩ := h.of_joined
      obtain rfl : more.length = m := by simpa using hm
      rw [joined_cons new] at hrest
      rcases first_round hfall h.not_infix_first hys with rfl | hround
      · exact ⟨hys, ih hrest⟩
      · have hbelow := falls_of_rescans htrans hfall hrest (hround.append piece piece)
        exact absurd hbelow (not_falls_self hirrefl)

/-- The condition is necessary where `new` is shorter and the overlaps agree. -/
theorem seamless_of_rescans_agree (hshort : new.length < pat.length)
    (hagree : OverlapsAgree pat new) {n : Nat}
    (h : Rescans pat new (joined pat done more) n (joined new done more)) :
    Seamless pat new done more := by
  obtain ⟨lt, hirrefl, htrans, hfall⟩ := hagree
  have hlen := h.length
  have hjoined := length_joined pat new done more
  -- the lengths fix the number of rounds
  obtain ⟨k, rfl⟩ := Nat.exists_eq_add_of_le h.length_le
  rw [Nat.add_mul, Nat.add_mul] at hlen
  have hk : k * pat.length = k * new.length := by omega
  rcases Nat.eq_zero_or_pos k with rfl | hpos
  · exact seamless_of_rescans_exact hirrefl htrans hfall h
  · have := Nat.eq_of_mul_eq_mul_left hpos hk
    omega

/-- Where `pat` and `new` differ, a round makes the list fall at that place. -/
theorem falls_of_replaceFirst {before rest rest' : List α} {a b : α} (hlt : lt a b)
    (hpat : pat = before ++ b :: rest) (hnew : new = before ++ a :: rest') {xs ys : List α}
    (h : replaceFirst pat new xs = some ys) : Falls lt xs ys := by
  obtain ⟨⟨front, back⟩, hcut, rfl⟩ := Option.map_eq_some_iff.mp h
  refine ⟨front ++ before, b, a, rest ++ back, rest' ++ back, ?_, ?_, hlt⟩
  · rw [cut_eq_append hcut, hpat]
    simp
  · rw [hnew]
    simp

/-- So a run that has rounds makes the list fall. -/
theorem Rescans.falls (htrans : ∀ a b c, lt a b → lt b c → lt a c)
    {before rest rest' : List α} {a b : α} (hlt : lt a b) (hpat : pat = before ++ b :: rest)
    (hnew : new = before ++ a :: rest') {xs zs : List α} {n : Nat} (h : Rescans pat new xs n zs) :
    xs = zs ∨ Falls lt xs zs := by
  induction h with
  | stop _ => exact .inl rfl
  | next hfirst _ ih =>
      have hround := falls_of_replaceFirst hlt hpat hnew hfirst
      rcases ih with rfl | hlater
      · exact .inr hround
      · exact .inr (hround.trans htrans hlater)

/-- The condition is necessary where neither of `pat` and `new` goes on from the other: every
    round makes the list fall. -/
theorem seamless_of_rescans_apart (hpat : ¬pat <+: new) (hnew : ¬new <+: pat) {n : Nat}
    (h : Rescans pat new (joined pat done more) n (joined new done more)) :
    Seamless pat new done more := by
  obtain ⟨before, b, a, rest, rest', hpatEq, hnewEq, hab⟩ := exists_apart hpat hnew
  -- the order in which `a` is below `b` and nothing else is below anything
  have hirrefl : ∀ c, ¬(c = a ∧ c = b) := fun c hc => hab (hc.1.symm.trans hc.2)
  have htrans : ∀ c d e, (c = a ∧ d = b) → (d = a ∧ e = b) → (c = a ∧ e = b) :=
    fun c d e hcd hde => ⟨hcd.1, hde.2⟩
  have hfall : OverlapsFall (fun c d => c = a ∧ d = b) pat new :=
    overlapsFall_of_apart ⟨rfl, rfl⟩ hpatEq hnewEq
  induction more generalizing done n with
  | nil => exact h.seamless_nil
  | cons piece more ih =>
      have hdone : ¬pat <:+: done :=
        fun hin => h.no_match (hin.trans (List.prefix_append done _).isInfix)
      obtain ⟨ys, m, hys, rfl, hrest⟩ := h.of_joined
      rw [joined_cons new] at hrest
      rcases first_round hfall hdone hys with rfl | hround
      · exact ⟨hys, ih hrest⟩
      · have hlower : Falls (fun c d => c = a ∧ d = b) (joined new (done ++ new ++ piece) more)
            (joined pat (ys ++ piece) more) := by
          rw [joined_append, joined_append]
          exact hround.append _ _
        rcases hrest.falls htrans ⟨rfl, rfl⟩ hpatEq hnewEq with hsame | hlater
        · rw [hsame] at hlower
          exact absurd hlower (not_falls_self hirrefl)
        · exact absurd (hlower.trans htrans hlater) (not_falls_self hirrefl)

/-- The condition is necessary unless `new` is a proper prefix of `pat`, and then as well
    where the overlaps agree. -/
theorem seamless_of_rescans (hagree : new <+: pat → new ≠ pat → OverlapsAgree pat new) {n : Nat}
    (h : Rescans pat new (joined pat done more) n (joined new done more)) :
    Seamless pat new done more := by
  by_cases hpat : pat <+: new
  · -- a match comes back with every `new`
    rcases more with _ | ⟨piece, more⟩
    · exact h.seamless_nil
    · refine absurd ?_ h.no_match
      refine hpat.isInfix.trans ⟨done, piece ++ more.flatMap (new ++ ·), ?_⟩
      simp [joined]
  · by_cases hnew : new <+: pat
    · have hne : new ≠ pat := fun heq => hpat (heq ▸ List.prefix_refl new)
      have hle := hnew.length_le
      have hlt : new.length < pat.length := by
        by_contra hge
        exact hne (hnew.eq_of_length (by omega))
      exact seamless_of_rescans_agree hlt (hagree hnew hne) h
    · exact seamless_of_rescans_apart hpat hnew h

end Necessary

end Youth.Lib
