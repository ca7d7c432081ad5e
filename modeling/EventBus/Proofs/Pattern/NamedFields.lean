import EventBus.Bus.Command
import EventBus.Proofs.Pattern.PredicateTree
import Mathlib.Data.List.Forall2
import Mathlib.Logic.Relation

/-!
A match depends only on the fields that a predicate names. Taking out of a value every entry whose
key the predicate nowhere names, at any depth and inside arrays too, changes nothing for it, so no
change to such entries does. Hence a payload to which a publisher adds something under keys that no
filter names reaches the same consumers as before.
-/

namespace EventBus

namespace Json

mutual

/-- The value with only those entries of its objects, at any depth, that stand under these keys. -/
def restrict (keys : List String) : Json → Json
  | .array items => .array (restrictItems keys items)
  | .object entries => .object (restrictEntries keys entries)
  | scalar => scalar

def restrictItems (keys : List String) : List Json → List Json
  | [] => []
  | item :: items => restrict keys item :: restrictItems keys items

def restrictEntries (keys : List String) : List (String × Json) → List (String × Json)
  | [] => []
  | (key, value) :: entries =>
      if key ∈ keys then (key, restrict keys value) :: restrictEntries keys entries
      else restrictEntries keys entries

end

/-- One change to a value, at any depth, that leaves the entries under these keys alone. -/
inductive Edit (keys : List String) : Json → Json → Prop where
  /-- Entries of an object are added, taken out or changed under other keys. -/
  | entries {entries others : List (String × Json)}
      (h : entries.filter (·.1 ∈ keys) = others.filter (·.1 ∈ keys)) :
      Edit keys (.object entries) (.object others)
  | underKey (before : List (String × Json)) (key : String) {value other : Json}
      (h : Edit keys value other) (after : List (String × Json)) :
      Edit keys (.object (before ++ (key, value) :: after))
        (.object (before ++ (key, other) :: after))
  | inArray (before : List Json) {item other : Json} (h : Edit keys item other)
      (after : List Json) :
      Edit keys (.array (before ++ item :: after)) (.array (before ++ other :: after))

/-- Changes one after the other, all of them outside the entries under these keys. -/
abbrev Edits (keys : List String) : Json → Json → Prop := Relation.ReflTransGen (Edit keys)

section Restriction

variable {keys : List String}

theorem restrictItems_eq_map (items : List Json) :
    restrictItems keys items = items.map (restrict keys) := by
  induction items with
  | nil => rfl
  | cons item items ih => rw [restrictItems, ih, List.map_cons]

theorem restrictEntries_eq_map (entries : List (String × Json)) :
    restrictEntries keys entries =
      (entries.filter (·.1 ∈ keys)).map fun entry => (entry.1, restrict keys entry.2) := by
  induction entries with
  | nil => rfl
  | cons entry entries ih =>
      obtain ⟨key, value⟩ := entry
      by_cases hkey : key ∈ keys <;> simp [restrictEntries, hkey, ih]

/-- Under a key that is kept the restricted value stands. -/
theorem lookup_restrictEntries {key : String} (hkey : key ∈ keys)
    (entries : List (String × Json)) :
    lookup key (restrictEntries keys entries) = (lookup key entries).map (restrict keys) := by
  induction entries with
  | nil => rfl
  | cons entry entries ih =>
      obtain ⟨first, value⟩ := entry
      by_cases hfirst : first = key
      · subst hfirst
        simp [restrictEntries, lookup, hkey]
      · by_cases hkept : first ∈ keys <;> simp [restrictEntries, lookup, hkept, hfirst, ih]

theorem Edit.restrict_eq {value other : Json} (h : Edit keys value other) :
    value.restrict keys = other.restrict keys := by
  induction h with
  | entries h => simp only [restrict, restrictEntries_eq_map, h]
  | underKey before key _ after ih =>
      simp only [restrict, restrictEntries_eq_map, List.filter_append, List.map_append,
        List.filter_cons]
      split <;> simp [ih]
  | inArray before _ after ih => simp [restrict, restrictItems_eq_map, ih]

theorem Edits.restrict_eq {value other : Json} (h : Edits keys value other) :
    value.restrict keys = other.restrict keys := by
  induction h with
  | refl => rfl
  | tail _ hlast ih => rw [ih, hlast.restrict_eq]

end Restriction

end Json

namespace Predicate

variable {kept : List String}

theorem literalEqual_restrict (expected value : Json) :
    literalEqual expected (value.restrict kept) = literalEqual expected value := by
  cases expected <;> cases value <;> rfl

theorem candidates_restrict (value : Json) :
    candidates (value.restrict kept) = (candidates value).map (Json.restrict kept) := by
  cases value with
  | array items => exact Json.restrictItems_eq_map items
  | _ => rfl

theorem keys_subset_of_member {members : List Predicate} {member : Predicate}
    (hmember : member ∈ members) : member.keys ⊆ keys (.anyOf members) := by
  intro key hkey
  simp only [keys, List.mem_flatMap] at hkey ⊢
  obtain ⟨node, hnode, hown⟩ := hkey
  exact ⟨node, mem_nodes_anyOf.mpr (Or.inr ⟨member, hmember, hnode⟩), hown⟩

/-- A predicate whose keys are all kept does not miss the other entries. -/
theorem accepts_restrict {predicate : Predicate} (hkeys : predicate.keys ⊆ kept) (value : Json) :
    predicate.accepts (value.restrict kept) = predicate.accepts value := by
  induction predicate using partsInduction generalizing value with
  | pass => rfl
  | literal expected => simp only [accepts, literalEqual_restrict]
  | startsWith start => cases value <;> rfl
  | present want => rfl
  | numeric comparisons => cases value <;> rfl
  | anyOf members ih =>
      have hmember (member : Predicate) (hmem : member ∈ members) (candidate : Json) :
          member.accepts (candidate.restrict kept) = member.accepts candidate :=
        ih member hmem (List.Subset.trans (keys_subset_of_member hmem) hkeys) candidate
      rw [Bool.eq_iff_iff, accepts_anyOf_iff, accepts_anyOf_iff, candidates_restrict]
      constructor
      · rintro ⟨_, hrestricted, member, hmem, haccepts⟩
        obtain ⟨candidate, hcandidate, rfl⟩ := List.mem_map.mp hrestricted
        exact ⟨candidate, hcandidate, member, hmem, hmember member hmem candidate ▸ haccepts⟩
      · rintro ⟨candidate, hcandidate, member, hmem, haccepts⟩
        refine ⟨_, List.mem_map_of_mem hcandidate, member, hmem, ?_⟩
        rw [hmember member hmem, haccepts]
  | fields entries ih =>
      have hfield (entry : String × Predicate) (hentry : entry ∈ entries)
          (object : List (String × Json)) :
          entry.2.acceptsField (Json.lookup entry.1 (Json.restrictEntries kept object)) =
            entry.2.acceptsField (Json.lookup entry.1 object) := by
        rw [Json.lookup_restrictEntries (hkeys (mem_keys_of_field hentry))]
        cases Json.lookup entry.1 object with
        | none => rfl
        | some value =>
            exact ih entry hentry (List.Subset.trans (keys_subset_of_field hentry) hkeys) value
      cases value with
      | object object =>
          rw [Json.restrict, accepts, accepts, Bool.eq_iff_iff, allAccept_iff, allAccept_iff]
          exact forall₂_congr fun entry hentry => by rw [hfield entry hentry]
      | _ => rfl

theorem accepts_eq_of_edits {predicate : Predicate} {value other : Json}
    (h : Json.Edits predicate.keys value other) :
    predicate.accepts value = predicate.accepts other := by
  have hsame := h.restrict_eq
  rw [← accepts_restrict (List.Subset.refl _) value, hsame,
    accepts_restrict (List.Subset.refl _)]

end Predicate

namespace Query

/-- The payload of the one event becomes that of the other by changes that the filter does not
name. -/
def Alike (query : Query) (event other : Event) : Prop :=
  Json.Edits query.filter.keys event.payload other.payload

theorem Alike.accepts_eq {query : Query} {event other : Event} (h : query.Alike event other) :
    query.accepts event = query.accepts other := Predicate.accepts_eq_of_edits h

/-- From batches that differ in entries not named, the events at the same places are selected. -/
theorem forall₂_select {query : Query} {batch others : List Event}
    (h : List.Forall₂ query.Alike batch others) :
    List.Forall₂ query.Alike (query.select batch) (query.select others) := by
  induction h with
  | nil => exact .nil
  | @cons event other batch others hfirst _ ih =>
      have hsame := hfirst.accepts_eq
      simp only [select, List.filter_cons, ← hsame] at ih ⊢
      split
      · exact .cons hfirst ih
      · exact ih

end Query

/-- A predicate takes a value as it takes what is left of it under the keys of its fields, and so no
change to other entries, at whatever depth, makes a difference to it. A batch of events changed in
this way goes to the same consumers, and of the batch each of them gets the same events. -/
theorem Predicate.accepts_by_named_fields :
    (∀ (predicate : Predicate) (value : Json),
      predicate.accepts (value.restrict predicate.keys) = predicate.accepts value) ∧
    (∀ (predicate : Predicate) (value other : Json), Json.Edits predicate.keys value other →
      predicate.accepts value = predicate.accepts other) ∧
    (∀ (consumers : List Bus.Consumer) (event other : Event),
      (∀ consumer ∈ consumers, consumer.query.Alike event other) →
      consumers.filter (·.query.accepts event) = consumers.filter (·.query.accepts other)) ∧
    ∀ (query : Query) (batch others : List Event), List.Forall₂ query.Alike batch others →
      List.Forall₂ query.Alike (query.select batch) (query.select others) := by
  refine ⟨fun predicate value => accepts_restrict (List.Subset.refl _) value,
    fun predicate value other => accepts_eq_of_edits, fun consumers event other h => ?_,
    fun query batch others => Query.forall₂_select⟩
  exact List.filter_congr fun consumer hconsumer => (h consumer hconsumer).accepts_eq

/-- An entry inside an array goes, and one beside the array comes whose own key is not named,
though a key in it is. -/
theorem Predicate.accepts_past_two_changes :
    let predicate : Predicate := .fields [("a", .anyOf [.fields [("b", .present true)]])]
    let value : Json :=
      .object [("a", .array [.null, .object [("b", .bool false), ("x", .null)]])]
    let other : Json := .object [("a", .array [.null, .object [("b", .bool false)]]),
      ("y", .object [("b", .null)])]
    Json.Edits predicate.keys value other ∧ predicate.accepts other = true := by
  intro predicate value other
  have hitem : Json.Edit predicate.keys (.object [("b", .bool false), ("x", .null)])
      (.object [("b", .bool false)]) := .entries rfl
  have hinside := Json.Edit.underKey [] "a" (.inArray [.null] hitem []) []
  have hedits : Json.Edits predicate.keys value other := .tail (.single hinside) (.entries rfl)
  refine ⟨hedits, ?_⟩
  rw [← accepts_by_named_fields.2.1 predicate value other hedits]
  rfl

end EventBus
