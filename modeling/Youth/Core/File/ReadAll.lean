/-
  Youth.Core.File.ReadAll

  `File::readAll`: the file line by line.

  `std::getline` takes the line break off each line and `readAll` does not put it back;
  and an empty line ends the loop, wherever in the file it stands.  `readAll_eq` says what
  comes out: the lines before the first empty one, without anything between them.  So a
  file is returned as it is exactly when it has no line break (`readAll_exact_iff`).
-/

import Youth.Core.File
import Youth.Lib.Loop
import Youth.Lib.Pieces

namespace Youth.Core.File

open Youth.Lib

def newline : UInt8 := 10

/-- `std::getline`: up to the next line break, which is taken but not returned; without one,
    to the end of the file, where the good state ends.  A stream that is not good leaves
    `line` as it was. -/
def getline (f : File) (line : List UInt8) : List UInt8 × File :=
  if f.good then
    match cut [newline] (f.content.drop f.position) with
    | some (line, _) => (line, { f with position := f.position + line.length + 1 })
    | none => (f.content.drop f.position, { f with position := f.content.length, good := false })
  else (line, f)

/-- A turn of the loop of `readAll`; `line` is empty at its head. -/
def readAllTurn (s : List UInt8 × File) : Turn Unit (List UInt8 × File) :=
  if s.2.atEnd.1 then .stop [] (s.1, s.2.atEnd.2)
  else
    let (line, f) := s.2.atEnd.2.getline []
    if line = [] then .stop [] (s.1, f) else .next [] (s.1 ++ line, f)

def readAll (fuel : Nat) (f : File) : Option (List UInt8 × File) :=
  if f.isOpen ∧ f.openMode = .readOnly then (loop readAllTurn fuel ([], f)).map (·.2)
  else some ([], f)

/-- A file that has just been opened to be read. -/
def opened (content : List UInt8) : File := { openMode := .readOnly, content := content }

/-! ## A turn -/

section Turn

variable {f : File} {before rest : List UInt8}

/-- Where the stream can be read on. -/
def Reading (f : File) : Prop :=
  f.isOpen = true ∧ f.good = true ∧ f.position ≤ f.content.length

theorem atEnd_of_reading (hf : f.Reading) (hmore : f.content.drop f.position ≠ []) :
    f.atEnd = (false, f) := by
  obtain ⟨hopen, hgood, -⟩ := hf
  have hlt : f.position < f.content.length := by
    by_contra hge
    exact hmore (List.drop_eq_nil_of_le (by omega))
  rw [atEnd, if_pos hopen, if_pos ⟨hgood, hlt⟩]

theorem atEnd_of_not_good (hgood : f.good = false) : f.atEnd.1 = true := by
  rw [atEnd, hgood]
  split <;> rfl

/-- At the end of the file the loop stops, and the file stays there. -/
theorem readAllTurn_end (all : List UInt8) (hopen : f.isOpen = true)
    (hnone : f.content.drop f.position = []) :
    ∃ g, readAllTurn (all, f) = .stop [] (all, g) ∧ g.atEnd.1 = true := by
  have hge := List.drop_eq_nil_iff.mp hnone
  have hend : f.atEnd = (true, { f with good := false }) := by
    rw [atEnd, if_pos hopen, if_neg fun h => absurd h.2 (by omega)]
  refine ⟨_, ?_, atEnd_of_not_good (f := { f with good := false }) rfl⟩
  rw [readAllTurn, hend]
  rfl

/-- The last line, which no line break ends. -/
theorem readAllTurn_last (all : List UInt8) (hf : f.Reading)
    (hmore : f.content.drop f.position ≠ [])
    (hnone : newline ∉ f.content.drop f.position) :
    readAllTurn (all, f) = .next [] (all ++ f.content.drop f.position,
      { f with position := f.content.length, good := false }) := by
  have hcut : cut [newline] (f.content.drop f.position) = none :=
    cut_eq_none_iff.mpr fun hin => hnone ((List.singleton_infix_iff _ _).mp hin)
  have hline : f.getline [] = (f.content.drop f.position,
      { f with position := f.content.length, good := false }) := by
    rw [getline, if_pos hf.2.1, hcut]
  rw [readAllTurn, atEnd_of_reading hf hmore]
  simp only [Bool.false_eq_true, if_false, hline, hmore]

/-- A line with a line break behind it; an empty one ends the loop. -/
theorem readAllTurn_line (all : List UInt8) (hf : f.Reading)
    (hcut : cut [newline] (f.content.drop f.position) = some (before, rest)) :
    ∃ g, g.Reading ∧ g.content = f.content ∧ g.content.drop g.position = rest ∧
      readAllTurn (all, f) =
        if before = [] then .stop [] (all, g) else .next [] (all ++ before, g) := by
  have happ := cut_eq_append hcut
  have hmore : f.content.drop f.position ≠ [] := by
    rw [happ]
    simp
  have hlen := congrArg List.length happ
  simp only [List.length_append, List.length_drop, List.length_singleton] at hlen
  have hline : f.getline [] = (before, { f with position := f.position + before.length + 1 }) := by
    rw [getline, if_pos hf.2.1, hcut]
  refine ⟨{ f with position := f.position + before.length + 1 }, ⟨hf.1, hf.2.1, ?_⟩, rfl, ?_, ?_⟩
  · show f.position + before.length + 1 ≤ f.content.length
    omega
  · show f.content.drop (f.position + before.length + 1) = rest
    rw [Nat.add_assoc, ← List.drop_drop, happ]
    have hboth : before.length + 1 = (before ++ [newline]).length := by simp
    rw [hboth, List.drop_left]
  · rw [readAllTurn, atEnd_of_reading hf hmore]
    simp only [Bool.false_eq_true, if_false, hline]

/-- The loop adds the lines up to the first empty one; without a line break it comes to the
    end of the file. -/
theorem loop_readAllTurn (all : List UInt8) (hf : f.Reading) {fuel : Nat}
    (hfuel : (f.content.drop f.position).length < fuel) :
    ∃ g, loop readAllTurn fuel (all, f) = some ([], all ++
        ((pieces [newline] (f.content.drop f.position)).takeWhile (· ≠ [])).flatten, g) ∧
      (newline ∉ f.content.drop f.position → g.atEnd.1 = true) := by
  induction fuel generalizing f all with
  | zero => omega
  | succ fuel ih =>
      rcases hcut : cut [newline] (f.content.drop f.position) with _ | ⟨before, rest⟩
      · have hno := cut_eq_none_iff.mp hcut
        have hnone : newline ∉ f.content.drop f.position :=
          fun hin => hno ((List.singleton_infix_iff _ _).mpr hin)
        rw [pieces_of_no_match hno]
        by_cases hmore : f.content.drop f.position = []
        · obtain ⟨g, hturn, hend⟩ := readAllTurn_end all hf.1 hmore
          refine ⟨g, ?_, fun _ => hend⟩
          rw [loop_stop hturn, hmore]
          simp
        · -- one more turn finds the end of the file
          obtain ⟨fuel, rfl⟩ : ∃ n, fuel = n + 1 := by
            have hpos := List.length_pos_iff.mpr hmore
            exact Nat.exists_eq_add_one_of_ne_zero (by omega)
          obtain ⟨g, hturn, hend⟩ := readAllTurn_end
            (f := { f with position := f.content.length, good := false })
            (all ++ f.content.drop f.position) hf.1 (List.drop_length)
          refine ⟨g, ?_, fun _ => hend⟩
          rw [loop_next (readAllTurn_last all hf hmore hnone), loop_stop hturn]
          simp [hmore]
      · obtain ⟨g, hg, -, hrest, hturn⟩ := readAllTurn_line all hf hcut
        have happ := cut_eq_append hcut
        have hbreak : newline ∈ f.content.drop f.position := by
          rw [happ]
          simp
        rw [pieces_of_cut (List.cons_ne_nil _ _) hcut]
        by_cases hempty : before = []
        · rw [if_pos hempty] at hturn
          refine ⟨g, ?_, fun hno => absurd hbreak hno⟩
          rw [loop_stop hturn]
          simp [hempty]
        · rw [if_neg hempty] at hturn
          have hlen := congrArg List.length happ
          simp only [List.length_append, List.length_singleton] at hlen
          obtain ⟨last, hloop, -⟩ := ih (all ++ before) hg (by rw [hrest]; omega)
          refine ⟨last, ?_, fun hno => absurd hbreak hno⟩
          rw [loop_next hturn, hloop, hrest]
          simp [hempty]

end Turn

theorem readAll_mono {f : File} {fuel more : Nat} {p : List UInt8 × File}
    (h : readAll fuel f = some p) (hle : fuel ≤ more) : readAll more f = some p := by
  rw [readAll] at h ⊢
  split at h
  next hopen =>
    obtain ⟨q, hq, hpair⟩ := Option.map_eq_some_iff.mp h
    rw [if_pos hopen, loop_mono hq hle, Option.map_some, hpair]
  next hopen =>
    rw [if_neg hopen]
    exact h

/-- What `readAll` returns: the lines before the first empty one, one behind the other. -/
theorem readAll_eq (content : List UInt8) {fuel : Nat} (hfuel : content.length < fuel) :
    ∃ g, readAll fuel (opened content) =
        some (((pieces [newline] content).takeWhile (· ≠ [])).flatten, g) ∧
      (newline ∉ content → g.atEnd.1 = true) := by
  obtain ⟨g, hloop, hend⟩ := loop_readAllTurn (f := opened content) []
    ⟨rfl, rfl, Nat.zero_le _⟩ hfuel
  refine ⟨g, ?_, hend⟩
  rw [readAll, if_pos ⟨rfl, rfl⟩, hloop]
  rfl

/-- No line break is left in what `readAll` returns. -/
theorem newline_not_mem_flatten (content : List UInt8) :
    newline ∉ ((pieces [newline] content).takeWhile (· ≠ [])).flatten := by
  intro hin
  obtain ⟨line, hline, hmem⟩ := List.mem_flatten.mp hin
  have hpiece := List.takeWhile_subset _ hline
  exact not_infix_of_mem_pieces (List.cons_ne_nil _ _) content line hpiece
    ((List.singleton_infix_iff _ _).mpr hmem)

/-- `readAll` returns the file and leaves it at the end exactly when there is no line break
    in it. -/
theorem readAll_exact_iff (content : List UInt8) :
    (∃ fuel g, readAll fuel (opened content) = some (content, g) ∧ g.atEnd.1 = true) ↔
      newline ∉ content := by
  constructor
  · rintro ⟨fuel, g, hread, -⟩
    -- with more fuel it returns the same, and that has no line break
    have hlong : content.length < max fuel (content.length + 1) := by omega
    obtain ⟨last, hall, -⟩ := readAll_eq content hlong
    rw [readAll_mono hread (Nat.le_max_left _ _)] at hall
    obtain ⟨hcontent, -⟩ := Prod.mk.inj (Option.some.inj hall)
    have hno := newline_not_mem_flatten content
    rwa [← hcontent] at hno
  · intro hno
    obtain ⟨g, hread, hend⟩ := readAll_eq content (Nat.lt_succ_self content.length)
    have hpieces : pieces [newline] content = [content] :=
      pieces_of_no_match fun hin => hno ((List.singleton_infix_iff _ _).mp hin)
    refine ⟨content.length + 1, g, ?_, hend hno⟩
    rw [hread, hpieces]
    by_cases hempty : content = [] <;> simp [hempty]

/-- Of `a`, an empty line and `b`, `a` is returned, and the file is not at its end. -/
theorem readAll_empty_line :
    ∃ g, (∀ fuel, 2 ≤ fuel → readAll fuel (opened [97, 10, 10, 98, 10]) = some ([97], g)) ∧
      g.atEnd.1 = false := by
  refine ⟨{ opened [97, 10, 10, 98, 10] with position := 3 }, fun fuel hfuel => ?_, by decide⟩
  have htwo : readAll 2 (opened [97, 10, 10, 98, 10]) =
      some ([97], { opened [97, 10, 10, 98, 10] with position := 3 }) := by decide
  exact readAll_mono htwo hfuel

end Youth.Core.File
