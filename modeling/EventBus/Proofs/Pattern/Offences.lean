import EventBus.Proofs.Json.Canonical
import EventBus.Proofs.Json.Equality
import EventBus.Proofs.Pattern.Grammar

/-!
Where a document departs from the grammar of patterns. An offence stands at a place, given by
keys and positions from the root. Places are ordered as they are met going through a document
from the root down, keys in their order and items by position, and a place comes before all that
lies within it. The error of the compiler is the one of the first offence.
-/

namespace EventBus.Pattern

/-- One step from a value to a part of it. -/
inductive Step where
  | key (key : String)
  | item (position : Nat)
  deriving DecidableEq, Repr

abbrev Place := List Step

/-- The order of the parts of one value: keys as texts, items by position. -/
inductive Step.Before : Step → Step → Prop where
  | key {a b : String} (h : a < b) : Step.Before (.key a) (.key b)
  | item {i j : Nat} (h : i < j) : Step.Before (.item i) (.item j)

/-- The order in which places are met from the root down. -/
def Place.Before : Place → Place → Prop := List.Lex Step.Before

/-- What is wrong with an element of a numeric list: signs stand at the even positions and
numbers at the odd ones. -/
inductive Misplaced : Nat → Json → PatternError → Prop where
  | relation {i : Nat} {value : Json} (heven : i % 2 = 0) (h : ∀ sign, value ≠ .string sign) :
      Misplaced i value (.badRelation value)
  | unknown {i : Nat} {sign : String} (heven : i % 2 = 0) (h : sign ∉ signs) :
      Misplaced i (.string sign) (.unknownRelation sign)
  | threshold {i : Nat} {value : Json} (hodd : i % 2 = 1) (h : ∀ n, value ≠ .number n) :
      Misplaced i value (.badThreshold value)

/-- The offences in the value of a `numeric` key, by their place in it. -/
inductive NumericOffence : Json → Place → PatternError → Prop where
  | noArray {value : Json} (h : ∀ items, value ≠ .array items) :
      NumericOffence value [] (.badNumeric value)
  | odd {items : List Json} (h : items.length % 2 = 1) :
      NumericOffence (.array items) [] (.oddNumeric items.length)
  | element {items : List Json} {i : Nat} {value : Json} {error : PatternError}
      (hvalue : items[i]? = some value) (h : Misplaced i value error) :
      NumericOffence (.array items) [.item i] error

/-- The offences against the grammar in a document, by their place and with what each says of
the part that stands there. -/
inductive Offence : Json → Place → PatternError → Prop where
  | nested {items inner : List Json} {i : Nat} (h : items[i]? = some (.array inner)) :
      Offence (.array items) [.item i] (.nestedArray (.array inner))
  | item {items : List Json} {i : Nat} {item : Json} {place : Place} {error : PatternError}
      (hitem : items[i]? = some item) (hplain : ∀ inner, item ≠ .array inner)
      (h : Offence item place error) : Offence (.array items) (.item i :: place) error
  | start {entries : List (String × Json)} {value : Json}
      (hform : Form.ofEntries entries = .start value) (h : ∀ text, value ≠ .string text) :
      Offence (.object entries) [.key "prefix"] (.badPrefix value)
  | present {entries : List (String × Json)} {value : Json}
      (hform : Form.ofEntries entries = .present value) (h : ∀ want, value ≠ .bool want) :
      Offence (.object entries) [.key "exists"] (.badExists value)
  | numeric {entries : List (String × Json)} {value : Json} {place : Place} {error : PatternError}
      (hform : Form.ofEntries entries = .numeric value) (h : NumericOffence value place error) :
      Offence (.object entries) (.key "numeric" :: place) error
  | field {entries : List (String × Json)} {key : String} {value : Json} {place : Place}
      {error : PatternError} (hform : Form.ofEntries entries = .fields)
      (hentry : (key, value) ∈ entries) (h : Offence value place error) :
      Offence (.object entries) (.key key :: place) error

/-- An offence that comes before every other. -/
def First (offends : Place → PatternError → Prop) (place : Place) (error : PatternError) : Prop :=
  offends place error ∧ ∀ other later, offends other later →
    (other = place ∧ later = error) ∨ place.Before other

theorem misplaced_add_two_iff {i : Nat} {value : Json} {error : PatternError} :
    Misplaced (i + 2) value error ↔ Misplaced i value error := by
  constructor
  · intro h
    cases h with
    | relation heven h => exact .relation (by omega) h
    | unknown heven h => exact .unknown (by omega) h
    | threshold hodd h => exact .threshold (by omega) h
  · intro h
    cases h with
    | relation heven h => exact .relation (by omega) h
    | unknown heven h => exact .unknown (by omega) h
    | threshold hodd h => exact .threshold (by omega) h

/-- One element is misplaced in one way at most. -/
theorem Misplaced.unique {i : Nat} {value : Json} {error other : PatternError}
    (h : Misplaced i value error) (hother : Misplaced i value other) : error = other := by
  cases h with
  | relation heven h =>
      cases hother with
      | relation => rfl
      | unknown => exact absurd rfl (h _)
      | threshold hodd => omega
  | unknown heven h =>
      cases hother with
      | relation _ hother => exact absurd rfl (hother _)
      | unknown => rfl
      | threshold hodd => omega
  | threshold hodd h =>
      cases hother with
      | relation => omega
      | unknown => omega
      | threshold => rfl

/-- A pair that makes no comparison has a misplaced element; the name is looked at first. -/
theorem misplaced_of_comparison {name threshold : Json} {error : PatternError}
    (h : comparison name threshold = .error error) :
    Misplaced 0 name error ∨ (∀ e, ¬ Misplaced 0 name e) ∧ Misplaced 1 threshold error := by
  unfold comparison at h
  split at h
  next sign =>
    split at h
    next hsign =>
      cases h
      exact Or.inl (.unknown rfl (ofSign?_eq_none_iff.mp hsign))
    next relation hsign =>
      refine Or.inr ⟨?_, ?_⟩
      · rintro e (⟨-, hname⟩ | ⟨-, hunknown⟩ | hodd)
        · exact hname _ rfl
        · rw [ofSign?_eq_none_iff.mpr hunknown] at hsign
          cases hsign
        · omega
      · split at h
        · cases h
        · cases h
          exact .threshold rfl (by assumption)
  next hname =>
    cases h
    exact Or.inl (.relation rfl hname)

/-- The first misplaced element of a list in pairs is the one that is reported. -/
theorem first_misplaced {items : List Json} {error : PatternError}
    (h : comparisons items = .error error) :
    ∃ i value, items[i]? = some value ∧ Misplaced i value error ∧
      ∀ j < i, ∀ other e, items[j]? = some other → ¬ Misplaced j other e := by
  induction items using comparisons.induct generalizing error with
  | case1 name threshold rest ih =>
      rw [comparisons] at h
      cases hfirst : comparison name threshold with
      | error first =>
          rw [hfirst] at h
          cases h
          rcases misplaced_of_comparison hfirst with hname | ⟨hname, hthreshold⟩
          · exact ⟨0, name, rfl, hname, by omega⟩
          · refine ⟨1, threshold, rfl, hthreshold, ?_⟩
            intro j hj other e hother
            obtain rfl : j = 0 := by omega
            cases hother
            exact hname e
      | ok first =>
          obtain ⟨sign, n, rfl, hsign, rfl⟩ := comparison_eq_ok_iff.mp ⟨first, hfirst⟩
          cases hrest : comparisons rest with
          | ok others =>
              rw [hfirst, hrest] at h
              cases h
          | error later =>
              rw [hfirst, hrest] at h
              cases h
              obtain ⟨i, value, hvalue, hmisplaced, hbefore⟩ := ih hrest
              refine ⟨i + 2, value, hvalue, misplaced_add_two_iff.mpr hmisplaced, ?_⟩
              rintro (_ | _ | j) hj other e hother hwrong
              · cases hother
                cases hwrong with
                | relation _ h => exact h _ rfl
                | unknown _ h => exact h hsign
                | threshold hodd => omega
              · cases hother
                cases hwrong with
                | relation heven => omega
                | threshold _ h => exact h _ rfl
              · exact hbefore j (by omega) other e hother (misplaced_add_two_iff.mp hwrong)
  | case2 items hshort =>
      rw [comparisons] at h
      · cases h
      · exact hshort

theorem Alternating.not_misplaced {items : List Json} (h : Alternating items) {i : Nat}
    {value : Json} {error : PatternError} (hvalue : items[i]? = some value) :
    ¬ Misplaced i value error := by
  induction h generalizing i with
  | nil => simp at hvalue
  | pair hsign n _ ih =>
      intro hwrong
      rcases i with _ | _ | i
      · cases hvalue
        cases hwrong with
        | relation _ h => exact h _ rfl
        | unknown _ h => exact h hsign
        | threshold hodd => omega
      · cases hvalue
        cases hwrong with
        | relation heven => omega
        | threshold _ h => exact h _ rfl
      · exact ih hvalue (misplaced_add_two_iff.mp hwrong)

theorem Alternating.not_numericOffence {items : List Json} (h : Alternating items) {place : Place}
    {error : PatternError} : ¬ NumericOffence (.array items) place error := by
  intro hoffence
  cases hoffence with
  | noArray hnone => exact hnone items rfl
  | odd hodd =>
      have heven := (alternating_iff.mp h).1
      omega
  | element hvalue hwrong => exact h.not_misplaced hvalue hwrong

theorem WellFormed.not_offence {document : Json} (h : WellFormed document) {place : Place}
    {error : PatternError} : ¬ Offence document place error := by
  intro hoffence
  induction hoffence with
  | nested hitem => exact (wellFormed_array_iff.mp h _ (List.mem_of_getElem? hitem)).1 _ rfl
  | item hitem _ _ ih => exact ih (wellFormed_array_iff.mp h _ (List.mem_of_getElem? hitem)).2
  | start hform hvalue =>
      rw [wellFormed_object_iff, hform] at h
      obtain ⟨text, rfl⟩ := h
      exact hvalue text rfl
  | present hform hvalue =>
      rw [wellFormed_object_iff, hform] at h
      obtain ⟨want, rfl⟩ := h
      exact hvalue want rfl
  | numeric hform hnumeric =>
      rw [wellFormed_object_iff, hform] at h
      obtain ⟨items, rfl, hitems⟩ := h
      exact hitems.not_numericOffence hnumeric
  | field hform hentry _ ih =>
      rw [wellFormed_object_iff, hform] at h
      exact ih (h _ hentry)

theorem First.of_iff {offends others : Place → PatternError → Prop} {place : Place}
    {error : PatternError} (h : First offends place error)
    (hiff : ∀ place error, others place error ↔ offends place error) :
    First others place error :=
  ⟨(hiff _ _).mpr h.1, fun other later hother => h.2 other later ((hiff _ _).mp hother)⟩

/-- What is the only offence is the first. -/
theorem First.of_only {offends : Place → PatternError → Prop} {place : Place}
    {error : PatternError} (h : offends place error)
    (honly : ∀ other later, offends other later → other = place ∧ later = error) :
    First offends place error :=
  ⟨h, fun other later hother => Or.inl (honly other later hother)⟩

/-- The first offence of a part is the first of the whole where no other part counts. -/
theorem First.under {offends : Place → PatternError → Prop} {place : Place} {error : PatternError}
    (h : First offends place error) (step : Step) :
    First (fun place error => ∃ rest, place = step :: rest ∧ offends rest error)
      (step :: place) error := by
  refine ⟨⟨place, rfl, h.1⟩, ?_⟩
  rintro - later ⟨rest, rfl, hlater⟩
  rcases h.2 rest later hlater with ⟨rfl, rfl⟩ | hbefore
  · exact Or.inl ⟨rfl, rfl⟩
  · exact Or.inr (.cons hbefore)

/-- The first offence of parts in their order is the first one of the first part that has any. -/
theorem First.of_split {α : Type} (offends : α → Place → PatternError → Prop)
    (label : Nat → α → Step) {parts before after : List α} {part : α} {place : Place}
    {error : PatternError} (hparts : parts = before ++ part :: after)
    (hlabel : ∀ i j a b, i < j → parts[i]? = some a → parts[j]? = some b →
      (label i a).Before (label j b))
    (hbefore : ∀ a ∈ before, ∀ place error, ¬ offends a place error)
    (h : First (offends part) place error) :
    First (fun place error => ∃ i a rest, parts[i]? = some a ∧ place = label i a :: rest ∧
      offends a rest error) (label before.length part :: place) error := by
  have hpart : parts[before.length]? = some part := by simp [hparts]
  refine ⟨⟨_, part, place, hpart, rfl, h.1⟩, ?_⟩
  rintro - later ⟨j, other, rest, hother, rfl, hlater⟩
  rcases Nat.lt_trichotomy j before.length with hlt | rfl | hgt
  · have hmem : other ∈ before := by
      rw [hparts, List.getElem?_append_left hlt] at hother
      exact List.mem_of_getElem? hother
    exact absurd hlater (hbefore other hmem rest later)
  · cases hpart.symm.trans hother
    rcases h.2 rest later hlater with ⟨rfl, rfl⟩ | hrest
    · exact Or.inl ⟨rfl, rfl⟩
    · exact Or.inr (.cons hrest)
  · exact Or.inr (.rel (hlabel _ _ _ _ hgt hpart hother))

/-- The first offence in the value of a `numeric` key is the one that is reported. -/
theorem first_numericOffence {value : Json} {error : PatternError}
    (h : numeric value = .error error) : ∃ place, First (NumericOffence value) place error := by
  unfold numeric at h
  split at h
  next items =>
    split at h
    next hodd =>
      cases h
      refine ⟨[], .odd hodd, ?_⟩
      intro other later hother
      cases hother with
      | noArray hnone => exact absurd rfl (hnone items)
      | odd => exact Or.inl ⟨rfl, rfl⟩
      | element => exact Or.inr .nil
    next heven =>
      cases hcomparisons : comparisons items with
      | ok cs =>
          rw [hcomparisons] at h
          cases h
      | error first =>
          rw [hcomparisons] at h
          cases h
          obtain ⟨i, value, hvalue, hwrong, hbefore⟩ := first_misplaced hcomparisons
          refine ⟨[.item i], .element hvalue hwrong, ?_⟩
          intro other later hother
          cases hother with
          | noArray hnone => exact absurd rfl (hnone items)
          | odd hodd => exact absurd hodd heven
          | @element _ j found _ hfound hlater =>
              rcases Nat.lt_trichotomy j i with hlt | rfl | hgt
              · exact absurd hlater (hbefore j hlt found later hfound)
              · cases hvalue.symm.trans hfound
                exact Or.inl ⟨rfl, hlater.unique hwrong⟩
              · exact Or.inr (.rel (.item hgt))
  next hnone =>
    cases h
    refine ⟨[], .noArray hnone, ?_⟩
    intro other later hother
    cases hother with
    | noArray => exact Or.inl ⟨rfl, rfl⟩
    | odd | element => exact absurd rfl (hnone _)

/-- The offences of an item of an array, which must not be an array itself. -/
def MemberOffence (item : Json) (place : Place) (error : PatternError) : Prop :=
  (∃ inner, item = .array inner ∧ place = [] ∧ error = .nestedArray item) ∨
    (∀ inner, item ≠ .array inner) ∧ Offence item place error

theorem offence_array_iff {items : List Json} {place : Place} {error : PatternError} :
    Offence (.array items) place error ↔ ∃ i item rest, items[i]? = some item ∧
      place = .item i :: rest ∧ MemberOffence item rest error := by
  constructor
  · intro h
    cases h with
    | nested hitem => exact ⟨_, _, [], hitem, rfl, Or.inl ⟨_, rfl, rfl, rfl⟩⟩
    | item hitem hplain h => exact ⟨_, _, _, hitem, rfl, Or.inr ⟨hplain, h⟩⟩
  · rintro ⟨i, item, rest, hitem, rfl, ⟨inner, rfl, rfl, rfl⟩ | ⟨hplain, h⟩⟩
    · exact .nested hitem
    · exact .item hitem hplain h

theorem not_memberOffence {item : Json} {member : Predicate} (h : compileMember item = .ok member)
    (place : Place) (error : PatternError) : ¬ MemberOffence item place error := by
  rintro (⟨inner, rfl, -, -⟩ | ⟨hplain, hoffence⟩)
  · cases h
  · have hcompile : compile item = .ok member := by
      cases item with
      | array inner => exact absurd rfl (hplain inner)
      | _ => exact h
    exact (exists_compile_iff.mp ⟨member, hcompile⟩).not_offence hoffence

theorem offence_object_iff {entries : List (String × Json)} {place : Place}
    {error : PatternError} :
    Offence (.object entries) place error ↔
      match Form.ofEntries entries with
      | .start value =>
          (∀ text, value ≠ .string text) ∧ place = [.key "prefix"] ∧ error = .badPrefix value
      | .present value =>
          (∀ want, value ≠ .bool want) ∧ place = [.key "exists"] ∧ error = .badExists value
      | .numeric value => ∃ rest, place = .key "numeric" :: rest ∧ NumericOffence value rest error
      | .fields => ∃ (i : Nat) (entry : String × Json) (rest : Place), entries[i]? = some entry ∧
          place = .key entry.1 :: rest ∧ Offence entry.2 rest error := by
  constructor
  · intro h
    cases h with
    | start hform h => simpa [hform] using h
    | present hform h => simpa [hform] using h
    | numeric hform h => simpa [hform] using h
    | field hform hentry h =>
        obtain ⟨i, hi⟩ := List.mem_iff_getElem?.mp hentry
        rw [hform]
        exact ⟨i, _, _, hi, rfl, h⟩
  · intro h
    split at h
    next hform =>
      obtain ⟨hvalue, rfl, rfl⟩ := h
      exact .start hform hvalue
    next hform =>
      obtain ⟨hvalue, rfl, rfl⟩ := h
      exact .present hform hvalue
    next hform =>
      obtain ⟨rest, rfl, h⟩ := h
      exact .numeric hform h
    next hform =>
      obtain ⟨i, entry, rest, hentry, rfl, h⟩ := h
      exact .field hform (List.mem_of_getElem? hentry) h

theorem error_of_map {ε α β : Type} {x : Except ε α} {f : α → β} {error : ε}
    (h : x.map f = .error error) : x = .error error := by
  cases x <;> cases h
  rfl

theorem first_memberOffence {item : Json} {error : PatternError}
    (hitem : compile item = .error error → ∃ place, First (Offence item) place error)
    (h : compileMember item = .error error) :
    ∃ place, First (MemberOffence item) place error := by
  rcases Classical.em (∀ inner, item ≠ .array inner) with hplain | hnested
  · have hcompile : compile item = .error error := by
      cases item with
      | array inner => exact absurd rfl (hplain inner)
      | _ => exact h
    obtain ⟨place, hplace⟩ := hitem hcompile
    refine ⟨place, hplace.of_iff fun other later => ?_⟩
    simp [MemberOffence, hplain]
  · obtain ⟨inner, rfl⟩ : ∃ inner, item = .array inner := by simpa using hnested
    cases h
    refine ⟨[], Or.inl ⟨inner, rfl, rfl, rfl⟩, ?_⟩
    rintro other later (⟨-, -, rfl, rfl⟩ | ⟨hplain, -⟩)
    · exact Or.inl ⟨rfl, rfl⟩
    · exact absurd rfl (hplain inner)

/-- In an object without a special key the first offence is in the first entry that does not
compile, since the keys stand in ascending order. -/
theorem first_offence_fields {entries : List (String × Json)}
    (hform : Form.ofEntries entries = .fields)
    (hascending : entries.Pairwise fun a b => a.1 < b.1)
    (hentries : ∀ entry ∈ entries, ∀ {error}, compile entry.2 = .error error →
      ∃ place, First (Offence entry.2) place error) {error : PatternError}
    (h : compileFields entries = .error error) :
    ∃ place, First (Offence (.object entries)) place error := by
  rw [compileFields_eq_mapM] at h
  obtain ⟨before, entry, after, hsplit, hbefore, hentry⟩ := split_of_mapM_eq_error h
  obtain ⟨place, hplace⟩ := hentries entry (by simp [hsplit]) (error_of_map hentry)
  have hparts := First.of_split (fun entry => Offence entry.2) (fun _ entry => .key entry.1)
    hsplit ?_ ?_ hplace
  · refine ⟨_, hparts.of_iff fun other later => ?_⟩
    rw [offence_object_iff, hform]
  · intro i j a b hlt ha hb
    obtain ⟨hi, rfl⟩ := List.getElem?_eq_some_iff.mp ha
    obtain ⟨hj, rfl⟩ := List.getElem?_eq_some_iff.mp hb
    exact .key (List.pairwise_iff_getElem.mp hascending i j hi hj hlt)
  · intro other hother later error hoffence
    obtain ⟨child, hchild⟩ := hbefore other hother
    obtain ⟨predicate, hcompile, -⟩ := map_eq_ok_iff.mp hchild
    exact (exists_compile_iff.mp ⟨predicate, hcompile⟩).not_offence hoffence

/-- The error of the compiler is that of the first offence. -/
theorem first_offence {document : Json} (hcanonical : document.Canonical) {error : PatternError}
    (h : compile document = .error error) : ∃ place, First (Offence document) place error := by
  induction document using Json.partsInduction generalizing error with
  | scalar value hscalar =>
      have hwellFormed : WellFormed value := .scalar hscalar
      obtain ⟨predicate, hcompile⟩ := exists_compile_iff.mpr hwellFormed
      cases hcompile.symm.trans h
  | array items ih =>
      rw [compile, compileMembers_eq_mapM] at h
      obtain ⟨before, item, after, hsplit, hbefore, hitem⟩ :=
        split_of_mapM_eq_error (error_of_map h)
      have hmem : item ∈ items := by simp [hsplit]
      obtain ⟨place, hplace⟩ := first_memberOffence
        (ih item hmem (Json.canonicalItems_iff.mp hcanonical item hmem)) hitem
      have hparts := First.of_split MemberOffence (fun i _ => .item i) hsplit
        (fun i j _ _ hlt _ _ => .item hlt) ?_ hplace
      · exact ⟨_, hparts.of_iff fun _ _ => offence_array_iff⟩
      · intro other hother
        obtain ⟨member, hmember⟩ := hbefore other hother
        exact not_memberOffence hmember
  | object entries ih =>
      rw [compile_object] at h
      cases hform : Form.ofEntries entries with
      | start value =>
          rw [hform] at h
          obtain ⟨hvalue, rfl⟩ : (∀ text, value ≠ .string text) ∧ error = .badPrefix value := by
            cases value with
            | string => cases h
            | _ => cases h; simp
          refine ⟨_, .of_only (.start hform hvalue) fun other later hother => ?_⟩
          rw [offence_object_iff, hform] at hother
          exact hother.2
      | present value =>
          rw [hform] at h
          obtain ⟨hvalue, rfl⟩ : (∀ want, value ≠ .bool want) ∧ error = .badExists value := by
            cases value with
            | bool => cases h
            | _ => cases h; simp
          refine ⟨_, .of_only (.present hform hvalue) fun other later hother => ?_⟩
          rw [offence_object_iff, hform] at hother
          exact hother.2
      | numeric value =>
          rw [hform] at h
          obtain ⟨place, hplace⟩ := first_numericOffence h
          refine ⟨_, (hplace.under (.key "numeric")).of_iff fun other later => ?_⟩
          rw [offence_object_iff, hform]
      | fields =>
          rw [hform] at h
          exact first_offence_fields hform hcanonical.1
            (fun entry hentry => ih entry hentry
              (Json.canonicalEntries_iff.mp hcanonical.2 entry hentry)) (error_of_map h)

theorem Step.Before.asymm {a b : Step} (h : a.Before b) : ¬ b.Before a := by
  cases h with
  | key h =>
      rintro (h' | -)
      exact lt_asymm h h'
  | item h =>
      rintro (- | h')
      omega

theorem Place.Before.asymm {a b : Place} (h : a.Before b) : ¬ b.Before a := by
  intro hback
  induction h with
  | nil => cases hback
  | cons _ ih =>
      cases hback with
      | cons hback => exact ih hback
      | rel hback => exact hback.asymm hback
  | rel h =>
      cases hback with
      | cons hback => exact h.asymm h
      | rel hback => exact h.asymm hback

/-- Only one offence is first. -/
theorem First.unique {offends : Place → PatternError → Prop} {place other : Place}
    {error later : PatternError} (h : First offends place error)
    (hother : First offends other later) :
    later = error := by
  rcases h.2 other later hother.1 with ⟨-, heq⟩ | hbefore
  · exact heq
  · rcases hother.2 place error h.1 with ⟨-, heq⟩ | hafter
    · exact heq.symm
    · exact absurd hafter hbefore.asymm

/-- A document compiles exactly when it is well formed by the grammar. Otherwise the error is
that of the first offence, going through the document from the root with the keys of an object in
ascending order and the items of an array by position; so an odd number of elements in a numeric
list, which offends at the list, is reported before what is wrong with any of them. -/
theorem compile_follows_grammar (document : Json) (hcanonical : document.Canonical) :
    ((∃ predicate, compile document = .ok predicate) ↔ WellFormed document) ∧
      ∀ error, compile document = .error error ↔
        ∃ place, First (Offence document) place error := by
  refine ⟨exists_compile_iff, fun error => ⟨first_offence hcanonical, ?_⟩⟩
  rintro ⟨place, hfirst⟩
  cases hcompile : compile document with
  | ok predicate =>
      exact absurd hfirst.1 (exists_compile_iff.mp ⟨predicate, hcompile⟩).not_offence
  | error other =>
      obtain ⟨_, hother⟩ := first_offence hcanonical hcompile
      rw [hother.unique hfirst]

/-- The unknown relation stands before the odd end of its list, and `prefix` hides the keys
beside it; what is reported is the length of the list under `a`. -/
theorem odd_list_reported_first :
    let document : Json := .object
      [("a", .array [.null, .object [("numeric", .array [.string "~", .null, .string "<"])]]),
        ("b", .object [("c", .array [.array []]), ("prefix", .bool true)])]
    document.Canonical ∧ compile document = .error (.oddNumeric 3) ∧
      ∃ place, First (Offence document) place (.oddNumeric 3) := by
  intro document
  have hread : Json.ofChars? ("\x7b\"b\":\x7b\"prefix\":true,\"c\":[[]]\x7d,".toList
      ++ "\"a\":[null,\x7b\"numeric\":[\"~\",null,\"<\"]\x7d]\x7d".toList) = some document := by
    decide +kernel
  have hcanonical : document.Canonical := Json.canonical_of_ofChars? hread
  have hcompile : compile document = .error (.oddNumeric 3) := rfl
  exact ⟨hcanonical, hcompile,
    ((compile_follows_grammar document hcanonical).2 _).mp hcompile⟩

end EventBus.Pattern
