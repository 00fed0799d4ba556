/-
  Youth.Utils.LogFile

  Where the log files go: `LogFile::setDirectoryAndBaseName` of `youth/utils/LogFile.cpp`.

  The directory is to end with a slash, and `endsWith` decides whether one is added.  It
  holds for every string that is longer than the text by one, so the empty directory stays
  as it is, although it does not end with a slash.

  Left out: `Dir::mkdirs` and `rollFile`, which follow and do not change the two names.
-/

import Youth.Core.StringFunction
import Youth.Lib.Checked

namespace Youth.Utils

open Youth.Lib Youth.Core.StringFunction

structure LogFile where
  directory : List UInt8 := []
  basename : List UInt8 := []
  deriving DecidableEq, Repr

namespace LogFile

inductive Assertion
  /-- `assert(!m_directory.empty())`, before the directory is assigned. -/
  | directory
  /-- `assert(!basename.empty())` -/
  | basename
  deriving DecidableEq, Repr

def slash : UInt8 := 47

def setDirectoryAndBaseName (f : LogFile) (directory basename : List UInt8) :
    Checked Assertion LogFile := do
  Checked.check (f.directory ≠ []) .directory
  let directory := if endsWith directory [slash] then directory else directory ++ [slash]
  Checked.check (basename ≠ []) .basename
  return { f with directory := directory, basename := basename }

theorem directory_setDirectoryAndBaseName (f : LogFile) (directory basename : List UInt8) :
    (f.setDirectoryAndBaseName directory basename).val.directory =
      if endsWith directory [slash] then directory else directory ++ [slash] := rfl

/-- The slash as a string. -/
def slashText : Text := ⟨[slash], by decide⟩

theorem exists_eq_append_iff (text str : List UInt8) : (∃ u, text = u ++ str) ↔ str <:+ text :=
  exists_congr fun _ => eq_comm

/-- `endsWith` is exact unless `str` is longer than `text` by one. -/
theorem endsWith_exact (text str : Text) :
    (endsWith text.bytes str.bytes = true ↔ ∃ u, text.bytes = u ++ str.bytes) ↔
      str.bytes.length ≠ text.bytes.length + 1 := by
  rw [endsWith_iff, exists_eq_append_iff]
  constructor
  · intro h hlen
    have hle := (h.mp (.inr hlen)).length_le
    omega
  · intro hne
    exact ⟨fun h => h.resolve_right hne, .inl⟩

/-- What `setDirectoryAndBaseName` takes for a directory that ends with a slash. -/
theorem endsWith_slash_iff (directory : Text) : endsWith directory.bytes [slash] = true ↔
    [slash] <:+ directory.bytes ∨ directory.bytes = [] := by
  rw [← List.length_eq_zero_iff]
  refine (endsWith_iff directory slashText).trans (or_congr_right ?_)
  show 1 = directory.bytes.length + 1 ↔ _
  omega

/-- The slash is added exactly where there is none, unless the directory is empty. -/
theorem directory_exact (directory : Text) (f : LogFile) (basename : List UInt8) :
    ((f.setDirectoryAndBaseName directory.bytes basename).val.directory =
        directory.bytes ++ [slash] ↔ ¬∃ u, directory.bytes = u ++ [slash]) ↔
      directory.bytes ≠ [] := by
  have hends := endsWith_slash_iff directory
  have hempty : ¬[slash] <:+ ([] : List UInt8) := fun h => absurd h.length_le (by decide)
  rw [directory_setDirectoryAndBaseName, exists_eq_append_iff]
  by_cases hend : endsWith directory.bytes [slash] = true
  · have hkept : directory.bytes ≠ directory.bytes ++ [slash] := by simp
    rw [if_pos hend]
    rcases hends.mp hend with hslash | hnil
    · have hne : directory.bytes ≠ [] := by
        intro hnil
        rw [hnil] at hslash
        exact hempty hslash
      exact ⟨fun _ => hne, fun _ => ⟨fun h => absurd h hkept, fun h => absurd hslash h⟩⟩
    · -- taken for one that ends with a slash
      rw [hnil] at hkept ⊢
      exact ⟨fun h => absurd (h.mpr hempty) hkept, fun hne => absurd rfl hne⟩
  · obtain ⟨hslash, hne⟩ := not_or.mp (mt hends.mpr hend)
    rw [if_neg hend]
    exact ⟨fun _ => hne, fun _ => ⟨fun _ => hslash, fun _ => rfl⟩⟩

/-- `startsWith` is exact; `endsWith` is, unless `str` is longer than `text` by one; and the
    slash is added exactly where there is none, unless the directory is empty. -/
theorem affixes_exact_iff (text str directory : Text) (f : LogFile) (basename : List UInt8) :
    (startsWith text.bytes str.bytes = true ↔ ∃ u, text.bytes = str.bytes ++ u) ∧
    ((endsWith text.bytes str.bytes = true ↔ ∃ u, text.bytes = u ++ str.bytes) ↔
      str.bytes.length ≠ text.bytes.length + 1) ∧
    (((f.setDirectoryAndBaseName directory.bytes basename).val.directory =
        directory.bytes ++ [slash] ↔ ¬∃ u, directory.bytes = u ++ [slash]) ↔
      directory.bytes ≠ []) := by
  refine ⟨?_, endsWith_exact text str, directory_exact directory f basename⟩
  rw [startsWith_iff]
  exact exists_congr fun _ => eq_comm

/-- The empty text does not end with a slash, but `endsWith` says so, and the empty directory
    gets none. -/
theorem endsWith_empty_text :
    endsWith [] [slash] = true ∧ (¬∃ u, ([] : List UInt8) = u ++ [slash]) ∧
      (setDirectoryAndBaseName { directory := [slash] } [] [97]).val.directory = [] := by
  refine ⟨by decide, ?_, by decide⟩
  rintro ⟨u, hu⟩
  exact absurd (congrArg List.length hu) (by simp)

end LogFile
end Youth.Utils
