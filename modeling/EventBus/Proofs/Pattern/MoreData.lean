import EventBus.Proofs.Pattern.NumberLiterals
import EventBus.Proofs.Pattern.PredicateTree

/-!
Matching and more data. A value is extended by further items in its arrays and further keys in its
objects, at any depth. Whatever a predicate accepts it accepts with more data too, unless a field
asks for the absence of a key that the extension brings.
-/

namespace EventBus

/-- Numbers that are one scalar: the same integer or equal floats, among which the two zeros. An
integer and a float are two scalars, also where a literal finds both. -/
inductive Number.SameScalar : Number → Number → Prop where
  | refl (n : Number) : SameScalar n n
  | floats {x y : Binary64} (h : x.equal y = true) : SameScalar (.float x) (.float y)

namespace Json

/-- All that is in the first value is in the second: the same scalar, for each item an extension of
it somewhere in the array, and under each key an extension of what is held there. -/
def ExtendedBy : Json → Json → Prop
  | .null, .null => True
  | .bool a, .bool b => a = b
  | .number a, .number b => a.SameScalar b
  | .string a, .string b => a = b
  | .array items, .array others => ∀ item ∈ items, ∃ other ∈ others, ExtendedBy item other
  | .object entries, .object others => ∀ key value, lookup key entries = some value →
      ∃ other, lookup key others = some other ∧ ExtendedBy value other
  | _, _ => False
termination_by value => sizeOf value
decreasing_by
  · have := List.sizeOf_lt_of_mem ‹item ∈ items›
    simp only [Json.array.sizeOf_spec]
    omega
  · have := List.sizeOf_lt_of_mem (mem_of_lookup ‹lookup key entries = some value›)
    simp only [Json.object.sizeOf_spec, Prod.mk.sizeOf_spec] at *
    omega

section Extension

variable {other : Json}

theorem extendedBy_plain_iff {value : Json} (hscalar : value.isScalar = true)
    (hnumber : ∀ n, value ≠ .number n) : value.ExtendedBy other ↔ value = other := by
  cases value with
  | number n => exact absurd rfl (hnumber n)
  | array items => cases hscalar
  | object entries => cases hscalar
  | _ => cases other <;> simp [ExtendedBy]

theorem extendedBy_number_iff {a : Number} :
    (number a).ExtendedBy other ↔ ∃ b, other = .number b ∧ a.SameScalar b := by
  cases other <;> simp [ExtendedBy]

theorem extendedBy_array_iff {items : List Json} :
    (array items).ExtendedBy other ↔ ∃ others, other = .array others ∧
      ∀ item ∈ items, ∃ held ∈ others, item.ExtendedBy held := by
  cases other <;> simp [ExtendedBy]

theorem extendedBy_object_iff {entries : List (String × Json)} :
    (object entries).ExtendedBy other ↔ ∃ others, other = .object others ∧
      ∀ key value, lookup key entries = some value →
        ∃ held, lookup key others = some held ∧ value.ExtendedBy held := by
  cases other <;> simp [ExtendedBy]

/-- It is enough that the extension has every entry extended, those out of reach included. -/
theorem extendedBy_object_of_entries {entries others : List (String × Json)}
    (h : ∀ entry ∈ entries, ∃ held, lookup entry.1 others = some held ∧
      entry.2.ExtendedBy held) : (object entries).ExtendedBy (.object others) :=
  extendedBy_object_iff.mpr ⟨others, rfl, fun _ _ hlookup => h _ (mem_of_lookup hlookup)⟩

end Extension

end Json

namespace Predicate

theorem holds_of_equal {x y : Binary64} (h : x.equal y = true) (relation : Relation)
    (threshold : Binary64) : relation.holds x threshold = relation.holds y threshold := by
  cases relation <;> simp only [Relation.holds, Binary64.less, Binary64.atMost, Binary64.equal,
    Binary64.compare?_eq_of_equal h, Binary64.compare?_eq_of_equal_right h]

theorem literalEqual_of_extendedBy {expected value other : Json} (hext : value.ExtendedBy other)
    (h : literalEqual expected value = true) : literalEqual expected other = true := by
  cases value with
  | number a =>
      obtain ⟨b, rfl, hsame⟩ := Json.extendedBy_number_iff.mp hext
      cases hsame with
      | refl => exact h
      | @floats x y hequal =>
          cases expected with
          | number n =>
              rw [literalEqual, Number.equal_float_right, Binary64.equal] at h ⊢
              rwa [← Binary64.compare?_eq_of_equal_right hequal]
          | _ => cases h
  | array items => cases expected <;> cases h
  | object entries => cases expected <;> cases h
  | _ => exact (Json.extendedBy_plain_iff rfl (by simp)).mp hext ▸ h

example : literalEqual (.number (.int 9007199254740993))
      (.number (.float (.ofInt 9007199254740992))) = true ∧
    literalEqual (.number (.int 9007199254740993)) (.number (.int 9007199254740992)) = false := by
  decide

/-- What a disjunction looks at is extended by something that it looks at in the extension. -/
theorem exists_candidate_of_extendedBy {value other candidate : Json}
    (hext : value.ExtendedBy other) (h : candidate ∈ candidates value) :
    ∃ more ∈ candidates other, candidate.ExtendedBy more := by
  cases value with
  | array items =>
      obtain ⟨others, rfl, hitems⟩ := Json.extendedBy_array_iff.mp hext
      exact hitems candidate h
  | object entries =>
      obtain ⟨others, rfl, -⟩ := Json.extendedBy_object_iff.mp hext
      exact ⟨_, List.mem_singleton_self _, List.mem_singleton.mp h ▸ hext⟩
  | number a =>
      obtain ⟨b, rfl, -⟩ := Json.extendedBy_number_iff.mp hext
      exact ⟨_, List.mem_singleton_self _, List.mem_singleton.mp h ▸ hext⟩
  | _ =>
      obtain rfl := (Json.extendedBy_plain_iff rfl (by simp)).mp hext
      exact ⟨_, List.mem_singleton_self _, List.mem_singleton.mp h ▸ hext⟩

/-- Somewhere in the predicate a field asks for the absence of a key, and somewhere in the value an
object lacks the key that the object which extends it has. -/
inductive BreaksAbsence (predicate : Predicate) (value other : Json) : Prop where
  | under {entries : List (String × Predicate)} {key : String}
      {object more : List (String × Json)} {brought : Json}
      (hfields : .fields entries ∈ predicate.nodes) (hasks : (key, .present false) ∈ entries)
      (hobject : .object object ∈ value.nodes) (hmore : .object more ∈ other.nodes)
      (hext : (Json.object object).ExtendedBy (.object more))
      (hlacks : Json.lookup key object = none) (hhas : Json.lookup key more = some brought)

theorem BreaksAbsence.of_parts {whole part : Predicate} {value other inner innerOther : Json}
    (h : BreaksAbsence part inner innerOther) (hpart : part.nodes ⊆ whole.nodes)
    (hvalue : inner.nodes ⊆ value.nodes) (hother : innerOther.nodes ⊆ other.nodes) :
    BreaksAbsence whole value other := by
  cases h with
  | under hfields hasks hobject hmore hext hlacks hhas =>
      exact .under (hpart hfields) hasks (hvalue hobject) (hother hmore) hext hlacks hhas

theorem nodes_subset_of_candidate {value candidate : Json} (h : candidate ∈ candidates value) :
    candidate.nodes ⊆ value.nodes := by
  cases value with
  | array items => exact fun _ hnode => Json.mem_nodes_array.mpr (Or.inr ⟨candidate, h, hnode⟩)
  | _ => exact List.mem_singleton.mp h ▸ List.Subset.refl _

theorem nodes_subset_of_lookup {key : String} {object : List (String × Json)} {value : Json}
    (h : Json.lookup key object = some value) : value.nodes ⊆ (Json.object object).nodes :=
  fun _ hnode => Json.mem_nodes_object.mpr (Or.inr ⟨(key, value), Json.mem_of_lookup h, hnode⟩)

/-- More data makes a predicate reject what it accepted only by a key that some field wants absent.
The induction is over the predicate, for all values and what extends them. -/
theorem accepts_or_breaksAbsence {predicate : Predicate} {value other : Json}
    (hext : value.ExtendedBy other) (h : predicate.accepts value = true) :
    predicate.accepts other = true ∨ BreaksAbsence predicate value other := by
  induction predicate using partsInduction generalizing value other with
  | pass => exact Or.inl rfl
  | literal expected => exact Or.inl (literalEqual_of_extendedBy hext h)
  | present want => exact Or.inl h
  | startsWith start =>
      cases value with
      | string s =>
          obtain rfl := (Json.extendedBy_plain_iff rfl (by simp)).mp hext
          exact Or.inl h
      | _ => cases h
  | numeric comparisons =>
      cases value with
      | number a =>
          obtain ⟨b, rfl, hsame⟩ := Json.extendedBy_number_iff.mp hext
          left
          cases hsame with
          | refl => exact h
          | floats hequal =>
              simpa only [accepts, Comparison.accepts, Number.toBinary64, holds_of_equal hequal]
                using h
      | _ => cases h
  | anyOf members ih =>
      obtain ⟨candidate, hcandidate, member, hmember, haccepts⟩ := accepts_anyOf_iff.mp h
      obtain ⟨more, hmore, hinner⟩ := exists_candidate_of_extendedBy hext hcandidate
      rcases ih member hmember hinner haccepts with hstill | hbreaks
      · exact Or.inl (accepts_anyOf_iff.mpr ⟨more, hmore, member, hmember, hstill⟩)
      · refine Or.inr (hbreaks.of_parts ?_ (nodes_subset_of_candidate hcandidate)
          (nodes_subset_of_candidate hmore))
        exact fun _ hnode => mem_nodes_anyOf.mpr (Or.inr ⟨member, hmember, hnode⟩)
  | fields entries ih =>
      have hthere : acceptsField (.fields entries) (some value) = true := h
      obtain ⟨object, hvalue, hfields⟩ := acceptsField_fields_iff.mp hthere
      cases hvalue
      obtain ⟨more, rfl, hheld⟩ := Json.extendedBy_object_iff.mp hext
      by_cases hall : ∀ entry ∈ entries,
          entry.2.acceptsField (Json.lookup entry.1 more) = true
      · have hstill : acceptsField (.fields entries) (some (.object more)) = true :=
          acceptsField_fields_iff.mpr ⟨more, rfl, hall⟩
        exact Or.inl hstill
      · right
        push Not at hall
        obtain ⟨⟨key, child⟩, hentry, hrejects⟩ := hall
        have hfield := hfields (key, child) hentry
        cases hlookup : Json.lookup key object with
        | none =>
            rw [hlookup] at hfield
            cases asksAbsence_iff.mp hfield
            cases hmore : Json.lookup key more with
            | none =>
                rw [hmore] at hrejects
                exact absurd rfl hrejects
            | some brought =>
                exact .under (mem_nodes_self _) hentry ((Json.Reaches.here _).mem_nodes)
                  ((Json.Reaches.here _).mem_nodes) hext hlookup hmore
        | some held =>
            obtain ⟨heldMore, hmore, hinner⟩ := hheld key held hlookup
            rw [hlookup] at hfield
            rw [hmore] at hrejects
            have hbreaks := (ih (key, child) hentry hinner hfield).resolve_left hrejects
            refine hbreaks.of_parts ?_ (nodes_subset_of_lookup hlookup)
              (nodes_subset_of_lookup hmore)
            exact fun _ hnode => mem_nodes_fields.mpr (Or.inr ⟨(key, child), hentry, hnode⟩)

/-- A predicate in which nothing asks for absence goes on to accept what it accepts, whatever data
is added. -/
theorem accepts_of_extendedBy {predicate : Predicate}
    (hnone : .present false ∉ predicate.nodes) {value other : Json}
    (hext : value.ExtendedBy other) (h : predicate.accepts value = true) :
    predicate.accepts other = true := by
  rcases accepts_or_breaksAbsence hext h with hstill | hbreaks
  · exact hstill
  · cases hbreaks with
    | under hfields hasks =>
        have hnode := mem_nodes_fields.mpr (Or.inr ⟨_, hasks, mem_nodes_self _⟩)
        exact absurd (mem_nodes_trans hfields hnode) hnone

/-- A predicate goes on to accept a value that becomes zero from minus zero, gets a unit and another
item in front of the one that was accepted. -/
theorem reading_accepted_with_more_data :
    let predicate : Predicate := .fields [("note", .present true),
      ("reading", .fields [("value", .numeric [⟨.atLeast, .ofInt 0⟩])]),
      ("tags", .anyOf [.startsWith "hot", .fields [("level", .literal (.number (.int 3)))]])]
    let value : Json := .object [("note", .null),
      ("reading", .object [("value", .number (.float (.zero true)))]),
      ("tags", .array [.object [("level", .number (.int 3))], .bool true])]
    let other : Json := .object [("at", .array []), ("note", .null),
      ("reading", .object [("unit", .string "C"), ("value", .number (.float (.zero false)))]),
      ("tags", .array [.bool true, .string "cold",
        .object [("by", .null), ("level", .number (.int 3))]])]
    value.ExtendedBy other ∧ predicate.accepts value = true ∧ predicate.accepts other = true := by
  intro predicate value other
  have hreading : Json.ExtendedBy (.object [("value", .number (.float (.zero true)))])
      (.object [("unit", .string "C"), ("value", .number (.float (.zero false)))]) :=
    Json.extendedBy_object_of_entries (by
      simpa [Json.lookup, Json.ExtendedBy] using Number.SameScalar.floats (by decide))
  have hlevel : Json.ExtendedBy (.object [("level", .number (.int 3))])
      (.object [("by", .null), ("level", .number (.int 3))]) :=
    Json.extendedBy_object_of_entries (by
      simpa [Json.lookup, Json.ExtendedBy] using Number.SameScalar.refl (.int 3))
  have htags : Json.ExtendedBy (.array [.object [("level", .number (.int 3))], .bool true])
      (.array [.bool true, .string "cold",
        .object [("by", .null), ("level", .number (.int 3))]]) := by
    simp [Json.extendedBy_array_iff, hlevel, Json.ExtendedBy]
  have hext : value.ExtendedBy other := Json.extendedBy_object_of_entries (by
    simp [Json.lookup, hreading, htags, Json.ExtendedBy])
  have haccepts : predicate.accepts value = true := by decide
  exact ⟨hext, haccepts, accepts_of_extendedBy (by simp [predicate, nodes, nodesOfEntries,
    nodesOfMembers]) hext haccepts⟩

end Predicate

end EventBus
