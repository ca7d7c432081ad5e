import EventBus.Proofs.Sql.QueryMeaning
import EventBus.Proofs.Text.Utf8

/-!
Escaping is exact. The pattern made from a text matches what starts with the text and nothing
else, whichever of its characters mean something in patterns. So the condition for a path and what
stands below it, read from its text, holds of just the paths that the rows of an event are compared
with: the path itself and those that go on after it with a slash, byte for byte.
-/

namespace EventBus

namespace Index

/-- The bytes of the row go on after those of the path with nothing or with a slash. -/
def GoesOnInBytes (path row : String) : Prop :=
  ∃ rest, Utf8.encode row.toList = Utf8.encode path.toList ++ rest ∧
    (rest = [] ∨ rest.head? = some '/'.toUInt8)

/-- Only a slash is written with the byte of a slash first. -/
theorem atSlash_iff_encode {cs : List Char} :
    AtSlash cs ↔ Utf8.encode cs = [] ∨ (Utf8.encode cs).head? = some '/'.toUInt8 := by
  have hslash : Utf8.encode ['/'] = ['/'.toUInt8] := rfl
  constructor
  · rintro (rfl | ⟨rest, rfl⟩)
    · exact Or.inl rfl
    · exact Or.inr rfl
  · rintro (hnone | hfirst)
    · exact Or.inl (Utf8.encode_injective hnone)
    · obtain ⟨bytes, hbytes⟩ := List.head?_eq_some_iff.mp hfirst
      rw [← List.singleton_append, ← hslash] at hbytes
      obtain ⟨rest, rfl, -⟩ := Utf8.of_encode_eq_append hbytes
      exact Or.inr ⟨rest, rfl⟩

/-- Comparing paths by characters is comparing them by bytes. -/
theorem isAtOrBelow_iff_bytes {path row : String} :
    isAtOrBelow path row = true ↔ GoesOnInBytes path row := by
  rw [isAtOrBelow_iff]
  constructor
  · rintro ⟨rest, hrest, hrow⟩
    refine ⟨Utf8.encode rest, ?_, atSlash_iff_encode.mp hrest⟩
    rw [hrow, Utf8.encode_append]
  · rintro ⟨bytes, hbytes, hslash⟩
    obtain ⟨rest, hrow, rfl⟩ := Utf8.of_encode_eq_append hbytes
    exact ⟨rest, atSlash_iff_encode.mpr hslash, hrow⟩

end Index

namespace Sql

open Relational (Condition Database Operand Oracle Reads Scope)

/-- The pattern for a start matches exactly the texts that start so, and the path condition holds
of exactly the paths at or below its path. The condition is read from the text about any column
that is not that of stored values, with the parameters for the path. -/
theorem escaped_patterns_are_exact :
    (∀ start text : String, Like.matches? '\\' (Like.startingWith start) text =
      some (start.toList.isPrefixOf text.toList)) ∧
    ∀ {column source name : String}, Reads column [] (Operand.column source name).tokens →
      name ≠ Relational.storedColumn → ∀ (db : Database) (oracle : Oracle) (scope : Scope)
        (path row : String), (scope.record source).value name = .string row →
        ∃ condition, Condition.read? (atOrBelow column) (atOrBelowParams path) = some condition ∧
          (condition.Holds db oracle scope ↔ Index.isAtOrBelow path row = true) ∧
          (condition.Holds db oracle scope ↔ Index.GoesOnInBytes path row) := by
  refine ⟨Like.matches?_startingWith, ?_⟩
  intro column source name hcolumn hname db oracle scope path row hvalue
  have hholds : (Condition.last (atOrBelowAtom (.column source name) path)).Holds db oracle scope ↔
      Index.isAtOrBelow path row = true :=
    (Condition.holds_last _).trans (holds_atOrBelowAtom_of_value hname hvalue)
  have hread : Reads (atOrBelow column) (atOrBelowParams path)
      (Condition.last (atOrBelowAtom (.column source name) path)).tokens :=
    reads_atOrBelow hcolumn path
  exact ⟨_, Condition.read?_of_reads hread, hholds, hholds.trans Index.isAtOrBelow_iff_bytes⟩

/-- What means something in patterns stands for itself in a path. -/
theorem wildcards_of_paths_are_plain :
    let scope (path : String) : Scope := [("x", [("path", .string path)])]
    ∃ condition, Condition.read? (atOrBelow "x.path") (atOrBelowParams "50%_\\") = some condition ∧
      condition.Holds [] (fun _ _ => none) (scope "50%_\\/é") ∧
      ¬ condition.Holds [] (fun _ _ => none) (scope "500_\\/é") ∧
      ¬ condition.Holds [] (fun _ _ => none) (scope "50%_\\é") := by
  intro scope
  have hcolumn : Reads "x.path" [] (Operand.column "x" "path").tokens := ⟨_, _, rfl, rfl, rfl⟩
  have hexact (row : String) := escaped_patterns_are_exact.2 hcolumn (by decide) []
    (fun _ _ => none) (scope row) "50%_\\" row rfl
  obtain ⟨condition, hread, hholds, -⟩ := hexact "50%_\\/é"
  have hother (row : String) :
      condition.Holds [] (fun _ _ => none) (scope row) ↔ Index.isAtOrBelow "50%_\\" row = true := by
    obtain ⟨other, hother, hiff, -⟩ := hexact row
    obtain rfl : condition = other := Option.some.inj (hread.symm.trans hother)
    exact hiff
  exact ⟨condition, hread, hholds.mpr (by decide), fun h => absurd ((hother _).mp h) (by decide),
    fun h => absurd ((hother _).mp h) (by decide)⟩

end Sql

end EventBus
