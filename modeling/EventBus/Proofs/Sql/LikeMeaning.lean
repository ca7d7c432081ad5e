import EventBus.Proofs.Pattern.PathText
import EventBus.Sql.Like

/-!
What text patterns match. A pattern is a row of parts: characters, single places and runs. The
escape character stands before a percent sign, an underscore or itself only; a pattern that has it
anywhere else is not well formed and has no parts.
-/

namespace EventBus.Like

inductive Part where
  | char (c : Char)
  /-- Any one character. -/
  | one
  /-- Any characters, or none. -/
  | run
  deriving DecidableEq, Repr

def parts? (mark : Char) : List Char → Option (List Part)
  | [] => some []
  | c :: cs =>
      if c = mark then
        match cs with
        | [] => none
        | d :: ds =>
            if d = '%' ∨ d = '_' ∨ d = mark then (parts? mark ds).map (.char d :: ·) else none
      else if c = '%' then (parts? mark cs).map (.run :: ·)
      else if c = '_' then (parts? mark cs).map (.one :: ·)
      else (parts? mark cs).map (.char c :: ·)

def matchParts : List Part → List Char → Bool
  | [], cs => cs.isEmpty
  | .run :: parts, cs => cs.tails.any (matchParts parts)
  | _ :: _, [] => false
  | .char d :: parts, c :: cs => c == d && matchParts parts cs
  | .one :: parts, _ :: cs => matchParts parts cs

/-- The text matches a pattern, with the case of letters; none when the pattern is not well
formed. -/
def matches? (mark : Char) (pattern text : String) : Option Bool :=
  (parts? mark pattern.toList).map fun parts => matchParts parts text.toList

theorem parts?_marked {mark d : Char} (hd : d = '%' ∨ d = '_' ∨ d = mark) (ds : List Char) :
    parts? mark (mark :: d :: ds) = (parts? mark ds).map (.char d :: ·) := by
  simp [parts?, hd]

theorem parts?_plain {mark c : Char} (hc : ¬ (c = '%' ∨ c = '_' ∨ c = mark)) (cs : List Char) :
    parts? mark (c :: cs) = (parts? mark cs).map (.char c :: ·) := by
  obtain ⟨hpercent, hline, hmark⟩ : c ≠ '%' ∧ c ≠ '_' ∧ c ≠ mark := by simpa [not_or] using hc
  cases cs <;> simp [parts?, hpercent, hline, hmark]

theorem parts?_escape_append (cs rest : List Char) :
    parts? '\\' (escape cs ++ rest) = (parts? '\\' rest).map (cs.map Part.char ++ ·) := by
  induction cs with
  | nil => simp [escape]
  | cons c cs ih =>
      by_cases hspecial : c = '%' ∨ c = '_' ∨ c = '\\'
      · rw [escape, if_pos hspecial, List.cons_append, List.cons_append, parts?_marked hspecial,
          ih, Option.map_map]
        rfl
      · rw [escape, if_neg hspecial, List.cons_append, parts?_plain hspecial, ih, Option.map_map]
        rfl

theorem matchParts_chars_append (start : List Char) (parts : List Part) (cs : List Char) :
    matchParts (start.map Part.char ++ parts) cs = true ↔
      ∃ rest, cs = start ++ rest ∧ matchParts parts rest = true := by
  induction start generalizing cs with
  | nil => simp
  | cons d start ih =>
      cases cs with
      | nil => simp [matchParts]
      | cons c cs =>
          simp only [List.map_cons, List.cons_append, matchParts, Bool.and_eq_true, beq_iff_eq, ih,
            List.cons.injEq]
          constructor
          · rintro ⟨rfl, rest, rfl, hrest⟩
            exact ⟨rest, ⟨rfl, rfl⟩, hrest⟩
          · rintro ⟨rest, ⟨rfl, rfl⟩, hrest⟩
            exact ⟨rfl, rest, rfl, hrest⟩

theorem matchParts_run (cs : List Char) : matchParts [.run] cs = true := by
  simp [matchParts]

/-- The pattern for a start is well formed and matches the texts that start so. -/
theorem matches?_startingWith (start text : String) :
    matches? '\\' (startingWith start) text = some (start.toList.isPrefixOf text.toList) := by
  have hparts : parts? '\\' (startingWith start).toList =
      some (start.toList.map Part.char ++ [.run]) := by
    rw [startingWith, String.toList_ofList, parts?_escape_append]
    rfl
  rw [matches?, hparts, Option.map_some, Option.some.injEq, Bool.eq_iff_iff,
    matchParts_chars_append, List.isPrefixOf_iff_prefix]
  constructor
  · rintro ⟨rest, htext, -⟩
    exact ⟨rest, htext.symm⟩
  · rintro ⟨rest, htext⟩
    exact ⟨rest, htext.symm, matchParts_run rest⟩

/-- The pattern for what stands below a path matches what continues the path after a slash. -/
theorem matches?_below (path row : String) :
    matches? '\\' (below path) row = some true ↔
      ∃ rest, row.toList = path.toList ++ '/' :: rest := by
  have hparts : parts? '\\' (below path).toList =
      some (path.toList.map Part.char ++ [.char '/', .run]) := by
    rw [below, String.toList_ofList, parts?_escape_append]
    rfl
  rw [matches?, hparts, Option.map_some, Option.some.injEq, matchParts_chars_append]
  constructor
  · rintro ⟨rest, hrow, hrest⟩
    cases rest with
    | nil => simp [matchParts] at hrest
    | cons c rest =>
        obtain rfl : c = '/' := by simpa [matchParts] using hrest
        exact ⟨rest, hrow⟩
  · rintro ⟨rest, hrow⟩
    exact ⟨'/' :: rest, hrow, by simp [matchParts]⟩

/-- Equal to a path or like what stands below it is at or below the path. -/
theorem eq_or_below_iff_isAtOrBelow (path row : String) :
    (row = path ∨ matches? '\\' (below path) row = some true) ↔
      Index.isAtOrBelow path row = true := by
  rw [matches?_below, Index.isAtOrBelow_iff]
  constructor
  · rintro (rfl | ⟨rest, hrest⟩)
    · exact ⟨[], Or.inl rfl, by simp⟩
    · exact ⟨'/' :: rest, Or.inr ⟨rest, rfl⟩, hrest⟩
  · rintro ⟨rest, rfl | ⟨more, rfl⟩, hrow⟩
    · exact Or.inl (String.toList_inj.mp (by simpa using hrow))
    · exact Or.inr ⟨more, hrow⟩

end EventBus.Like
