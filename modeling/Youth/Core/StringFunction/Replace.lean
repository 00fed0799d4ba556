/-
  Youth.Core.StringFunction.Replace

  What `string::replace` leaves, compared with a single pass over the text.

  A single pass leaves the pieces of `split` joined with `r`.  The loop searches the text
  from its start in every turn, so it is `Rescans`; `Seams` says where that comes to the
  same, and `replace_once` that it does.
-/

import Youth.Core.StringFunction
import Youth.Lib.Rescan

namespace Youth.Core.StringFunction

open Youth.Lib

variable {text s r result : List UInt8} {fuel : Nat}

theorem replace_of_no_match (h : ¬s <:+: text) (fuel : Nat) :
    replace (fuel + 1) text s r = some text := by
  rw [replace, loop_stop (replaceTurn_of_no_match h)]
  rfl

theorem replace_of_cut {before rest : List UInt8} (h : cut s text = some (before, rest))
    (fuel : Nat) : replace (fuel + 1) text s r = replace fuel (before ++ r ++ rest) s r := by
  rw [replace, replace, loop_next (replaceTurn_of_cut h), Option.map_map]
  rfl

/-- The loop and its rounds. -/
theorem replace_eq_some_iff :
    replace fuel text s r = some result ↔ ∃ n, n < fuel ∧ Rescans s r text n result := by
  induction fuel generalizing text with
  | zero =>
      constructor
      · intro h
        cases h
      · rintro ⟨n, hn, -⟩
        omega
  | succ fuel ih =>
      rcases hcut : cut s text with _ | ⟨before, rest⟩
      · have hno := cut_eq_none_iff.mp hcut
        rw [replace_of_no_match hno, Option.some.injEq]
        constructor
        · rintro rfl
          exact ⟨0, Nat.zero_lt_succ _, .stop hno⟩
        · rintro ⟨n, -, h⟩
          cases h with
          | stop _ => rfl
          | next hfirst _ =>
              rw [replaceFirst, hcut] at hfirst
              cases hfirst
      · have hfirst : replaceFirst s r text = some (before ++ r ++ rest) := by
          rw [replaceFirst, hcut]
          rfl
        rw [replace_of_cut hcut, ih]
        -- the turn is the first round
        constructor
        · rintro ⟨n, hn, h⟩
          exact ⟨n + 1, Nat.succ_lt_succ hn, .next hfirst h⟩
        · rintro ⟨n, hn, h⟩
          obtain ⟨m, rfl, hrest⟩ := h.of_replaceFirst hfirst
          exact ⟨m, Nat.lt_of_succ_lt_succ hn, hrest⟩

/-- `replace` ends and leaves the pieces of `split` with `r` between them. -/
def ReplacesOnce (text s r : List UInt8) : Prop :=
  ∃ fuel result, split fuel text s = some result ∧
    replace fuel text s r = some (r.intercalate result)

/-- In the text joined so far and followed by the next `s`, the first `s` found can be
    replaced with the effect of replacing that next one; the whole joined text has no `s`. -/
def Seams (text s r : List UInt8) : Prop :=
  Seamless s r ((pieces s text).headD []) (pieces s text).tail

instance (text s r : List UInt8) : Decidable (Seams text s r) :=
  inferInstanceAs (Decidable (Seamless _ _ _ _))

theorem replacesOnce_iff_rescans (hs : s ≠ []) :
    ReplacesOnce text s r ↔ ∃ n, Rescans s r (joined s ((pieces s text).headD []) (pieces s text).tail)
      n (joined r ((pieces s text).headD []) (pieces s text).tail) := by
  have hcons : (pieces s text).headD [] :: (pieces s text).tail = pieces s text := by
    obtain ⟨first, more, hpieces⟩ := List.exists_cons_of_ne_nil (pieces_ne_nil hs text)
    rw [hpieces]
    rfl
  rw [joined_eq_intercalate, joined_eq_intercalate, hcons, intercalate_pieces hs]
  constructor
  · rintro ⟨fuel, result, hsplit, hreplace⟩
    rw [eq_pieces_of_split hs hsplit] at hreplace
    obtain ⟨n, -, h⟩ := replace_eq_some_iff.mp hreplace
    exact ⟨n, h⟩
  · rintro ⟨n, h⟩
    refine ⟨max (n + 1) (text.length + 1), pieces s text, split_eq_pieces hs (by omega), ?_⟩
    exact replace_eq_some_iff.mpr ⟨n, by omega, h⟩

/-- Replacing rescans the text, and comes to the same as a single pass where `Seams` holds;
    only there, unless `r` is a proper prefix of `s` whose overlaps with itself disagree. -/
theorem replace_once (text s r : List UInt8) (hs : s ≠ []) :
    (Seams text s r → ReplacesOnce text s r) ∧
      ((r <+: s → r ≠ s → OverlapsAgree s r) → (ReplacesOnce text s r ↔ Seams text s r)) := by
  have henough : Seams text s r → ReplacesOnce text s r := fun h =>
    (replacesOnce_iff_rescans hs).mpr ⟨_, rescans_of_seamless h⟩
  refine ⟨henough, fun hagree => ⟨fun h => ?_, henough⟩⟩
  obtain ⟨n, hrescans⟩ := (replacesOnce_iff_rescans hs).mp h
  exact seamless_of_rescans hagree hrescans

/-- The `x` of `axa` is replaced by `bb`. -/
theorem replace_once_longer :
    [120] ≠ ([] : List UInt8) ∧ Seams [97, 120, 97] [120] [98, 98] ∧
      ReplacesOnce [97, 120, 97] [120] [98, 98] ∧
      (ReplacesOnce [97, 120, 97] [120] [98, 98] ↔ Seams [97, 120, 97] [120] [98, 98]) := by
  have h := replace_once [97, 120, 97] [120] [98, 98] (by decide)
  exact ⟨by decide, by decide, h.1 (by decide), h.2 fun hpre => absurd hpre (by decide)⟩

/-- In `aab` the only `ab` is replaced by `b`, and with the `a` before it that is `ab` again. -/
theorem replace_seam :
    split 2 [97, 97, 98] [97, 98] = some [[97], []] ∧
      List.intercalate [98] [[97], []] = ([97, 98] : List UInt8) ∧
      ∀ fuel, 3 ≤ fuel → replace fuel [97, 97, 98] [97, 98] [98] = some [98] := by
  refine ⟨by decide, by decide, fun fuel hfuel => ?_⟩
  refine replace_eq_some_iff.mpr ⟨2, hfuel, ?_⟩
  have hsecond : Rescans [97, 98] [98] [97, 98] 1 ([98] : List UInt8) :=
    .next rfl (.stop (by decide))
  exact .next rfl hsecond

end Youth.Core.StringFunction
