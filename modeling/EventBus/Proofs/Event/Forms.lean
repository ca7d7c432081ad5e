import EventBus.Event.Reader
import Mathlib.Tactic.Common

/-!
Which values stand for which events. An object describes an event when each of the three known
keys comes at most once and gives the field under it. An array of up to three parts is taken as
well, each part for the field in its place. Taking in the entries of an object one after the other
amounts to this, since a field that has been seen refuses every later value.
-/

namespace EventBus.Event

/-- The type or id that a value gives: a string gives itself and null gives none. -/
inductive GivesText : Json → Option String → Prop where
  | null : GivesText .null none
  | text (s : String) : GivesText (.string s) (some s)

/-- A payload is kept with its keys in order. -/
def GivesPayload (value payload : Json) : Prop := value.canonical = payload

theorem optionalString?_eq_some_iff {value : Json} {s? : Option String} :
    optionalString? value = some s? ↔ GivesText value s? := by
  constructor
  · intro h
    cases value with
    | null =>
        cases h
        exact .null
    | string s =>
        cases h
        exact .text s
    | _ => cases h
  · rintro (_ | s) <;> rfl

section Fields

variable {α : Type} {gives : Json → α → Prop} {seen now : Option α} {value : Json}
  {values : List Json}

/-- The values given for a field leave it as it is, if there are none, or the only one gives it. -/
inductive Takes (gives : Json → α → Prop) : Option α → Option α → List Json → Prop where
  | nothing (seen : Option α) : Takes gives seen seen []
  | first {value : Json} {a : α} (h : gives value a) : Takes gives none (some a) [value]

theorem takes_nil_iff : Takes gives seen now [] ↔ now = seen := by
  constructor
  · rintro (_ | _)
    rfl
  · rintro rfl
    exact .nothing _

/-- The first value for a field is taken if none was, and then there is no place for another. -/
theorem takes_cons_iff : Takes gives seen now (value :: values) ↔
    seen = none ∧ ∃ a, gives value a ∧ Takes gives (some a) now values := by
  constructor
  · rintro (_ | h)
    exact ⟨rfl, _, h, .nothing _⟩
  · rintro ⟨rfl, a, hgives, htakes⟩
    cases htakes
    exact .first hgives

/-- No value is given for a field, which then counts as absent, or the only value gives it. -/
inductive Gives (gives : Json → α → Prop) (absent : α) : List Json → α → Prop where
  | absent : Gives gives absent [] absent
  | once {value : Json} {a : α} (h : gives value a) : Gives gives absent [value] a

theorem gives_iff_takes {absent a : α} : Gives gives absent values a ↔
    ∃ now, Takes gives none now values ∧ now.getD absent = a := by
  constructor
  · rintro (_ | h)
    · exact ⟨none, .nothing none, rfl⟩
    · exact ⟨some a, .first h, rfl⟩
  · rintro ⟨now, _ | h, rfl⟩
    · exact .absent
    · exact .once h

theorem gives_nil_iff {absent a : α} : Gives gives absent [] a ↔ absent = a := by
  constructor
  · rintro ⟨⟩
    rfl
  · rintro rfl
    exact .absent

theorem gives_singleton_iff {absent a : α} : Gives gives absent [value] a ↔ gives value a :=
  ⟨fun (.once h) => h, .once⟩

end Fields

/-- The values that entries have under a key. -/
def valuesOf (key : String) (entries : List (String × Json)) : List Json :=
  (entries.filter fun entry => entry.1 = key).map (·.2)

theorem valuesOf_cons_self (key : String) (value : Json) (entries : List (String × Json)) :
    valuesOf key ((key, value) :: entries) = value :: valuesOf key entries := by
  simp [valuesOf]

theorem valuesOf_cons_of_ne {key other : String} (h : other ≠ key) (value : Json)
    (entries : List (String × Json)) :
    valuesOf key ((other, value) :: entries) = valuesOf key entries := by
  simp [valuesOf, h]

section Entries

variable {fields added all : Fields} {value : Json}

theorem add?_type_eq_some_iff : fields.add? "type" value = some added ↔
    fields.kind? = none ∧ ∃ kind?, GivesText value kind? ∧
      { fields with kind? := some kind? } = added := by
  cases hseen : fields.kind? <;>
    simp [Fields.add?, hseen, ← optionalString?_eq_some_iff, Option.map_eq_some_iff]

theorem add?_payload_eq_some_iff : fields.add? "payload" value = some added ↔
    fields.payload? = none ∧ ∃ payload, GivesPayload value payload ∧
      { fields with payload? := some payload } = added := by
  cases hseen : fields.payload? <;> simp [Fields.add?, hseen, GivesPayload]

theorem add?_id_eq_some_iff : fields.add? "id" value = some added ↔
    fields.id? = none ∧ ∃ id?, GivesText value id? ∧
      { fields with id? := some id? } = added := by
  cases hseen : fields.id? <;>
    simp [Fields.add?, hseen, ← optionalString?_eq_some_iff, Option.map_eq_some_iff]

theorem add?_of_ne {key : String} (htype : key ≠ "type") (hpayload : key ≠ "payload")
    (hid : key ≠ "id") : fields.add? key value = some fields := by
  simp [Fields.add?, htype, hpayload, hid]

/-- Entries are taken in when each field takes the values under its key. -/
theorem addAll?_eq_some_iff {entries : List (String × Json)} :
    fields.addAll? entries = some all ↔
      Takes GivesText fields.kind? all.kind? (valuesOf "type" entries) ∧
        Takes GivesPayload fields.payload? all.payload? (valuesOf "payload" entries) ∧
        Takes GivesText fields.id? all.id? (valuesOf "id" entries) := by
  induction entries generalizing fields with
  | nil =>
      obtain ⟨kind?, payload?, id?⟩ := fields
      obtain ⟨kindNow?, payloadNow?, idNow?⟩ := all
      simp [Fields.addAll?, valuesOf, takes_nil_iff, eq_comm]
  | cons entry entries ih =>
      obtain ⟨key, value⟩ := entry
      rw [Fields.addAll?, Option.bind_eq_bind, Option.bind_eq_some_iff]
      simp only [ih]
      -- Each known key is taken by its own field and is nothing to the others.
      by_cases htype : key = "type"
      · subst htype
        simp only [add?_type_eq_some_iff, valuesOf_cons_self, takes_cons_iff,
          valuesOf_cons_of_ne (by decide : "type" ≠ "payload"),
          valuesOf_cons_of_ne (by decide : "type" ≠ "id")]
        constructor
        · rintro ⟨_, ⟨hseen, kind?, hgives, rfl⟩, hkind, hothers⟩
          exact ⟨⟨hseen, kind?, hgives, hkind⟩, hothers⟩
        · rintro ⟨⟨hseen, kind?, hgives, hkind⟩, hothers⟩
          exact ⟨_, ⟨hseen, kind?, hgives, rfl⟩, hkind, hothers⟩
      by_cases hpayload : key = "payload"
      · subst hpayload
        simp only [add?_payload_eq_some_iff, valuesOf_cons_self, takes_cons_iff,
          valuesOf_cons_of_ne (by decide : "payload" ≠ "type"),
          valuesOf_cons_of_ne (by decide : "payload" ≠ "id")]
        constructor
        · rintro ⟨_, ⟨hseen, payload, hgives, rfl⟩, hkind, hpayload, hid⟩
          exact ⟨hkind, ⟨hseen, payload, hgives, hpayload⟩, hid⟩
        · rintro ⟨hkind, ⟨hseen, payload, hgives, hpayload⟩, hid⟩
          exact ⟨_, ⟨hseen, payload, hgives, rfl⟩, hkind, hpayload, hid⟩
      by_cases hid : key = "id"
      · subst hid
        simp only [add?_id_eq_some_iff, valuesOf_cons_self, takes_cons_iff,
          valuesOf_cons_of_ne (by decide : "id" ≠ "type"),
          valuesOf_cons_of_ne (by decide : "id" ≠ "payload")]
        constructor
        · rintro ⟨_, ⟨hseen, id?, hgives, rfl⟩, hkind, hpayload, hid⟩
          exact ⟨hkind, hpayload, hseen, id?, hgives, hid⟩
        · rintro ⟨hkind, hpayload, hseen, id?, hgives, hid⟩
          exact ⟨_, ⟨hseen, id?, hgives, rfl⟩, hkind, hpayload, hid⟩
      · simp [add?_of_ne htype hpayload hid, valuesOf_cons_of_ne htype,
          valuesOf_cons_of_ne hpayload, valuesOf_cons_of_ne hid]

end Entries

/-- The values given for the type, the payload and the id make up the event. -/
structure MadeOf (kinds payloads ids : List Json) (event : Event) : Prop where
  kind : Gives GivesText none kinds event.kind?
  payload : Gives GivesPayload .null payloads event.payload
  id : Gives GivesText none ids event.id?

/-- The value is an object whose entries describe the event. -/
inductive Describes : Json → Event → Prop where
  | object {entries : List (String × Json)} {event : Event}
      (h : MadeOf (valuesOf "type" entries) (valuesOf "payload" entries) (valuesOf "id" entries)
        event) :
      Describes (.object entries) event

/-- The value is an array of the type, the payload and the id of the event, or the first of them. -/
inductive Lists : Json → Event → Prop where
  | parts {parts : List Json} {event : Event} (hlength : parts.length ≤ 3)
      (h : MadeOf parts[0]?.toList parts[1]?.toList parts[2]?.toList event) :
      Lists (.array parts) event

section Values

variable {event : Event}

theorem addAll?_unseen_iff {entries : List (String × Json)} :
    (Fields.unseen.addAll? entries).map Fields.event = some event ↔
      Describes (.object entries) event := by
  rw [Option.map_eq_some_iff]
  constructor
  · rintro ⟨all, hall, rfl⟩
    obtain ⟨hkind, hpayload, hid⟩ := addAll?_eq_some_iff.mp hall
    exact .object ⟨gives_iff_takes.mpr ⟨_, hkind, rfl⟩, gives_iff_takes.mpr ⟨_, hpayload, rfl⟩,
      gives_iff_takes.mpr ⟨_, hid, rfl⟩⟩
  · rintro ⟨hgiven⟩
    obtain ⟨kind?, hkind, hkindNow⟩ := gives_iff_takes.mp hgiven.kind
    obtain ⟨payload?, hpayload, hpayloadNow⟩ := gives_iff_takes.mp hgiven.payload
    obtain ⟨id?, hid, hidNow⟩ := gives_iff_takes.mp hgiven.id
    refine ⟨⟨kind?, payload?, id?⟩, addAll?_eq_some_iff.mpr ⟨hkind, hpayload, hid⟩, ?_⟩
    rw [Fields.event, hkindNow, hpayloadNow, hidNow]

theorem lists_array_iff {parts : List Json} : Lists (.array parts) event ↔
    parts.length ≤ 3 ∧ MadeOf parts[0]?.toList parts[1]?.toList parts[2]?.toList event :=
  ⟨fun ⟨hlength, h⟩ => ⟨hlength, h⟩, fun ⟨hlength, h⟩ => ⟨hlength, h⟩⟩

theorem madeOf_iff {kinds payloads ids : List Json} : MadeOf kinds payloads ids event ↔
    Gives GivesText none kinds event.kind? ∧ Gives GivesPayload .null payloads event.payload ∧
      Gives GivesText none ids event.id? :=
  ⟨fun ⟨hkind, hpayload, hid⟩ => ⟨hkind, hpayload, hid⟩,
    fun ⟨hkind, hpayload, hid⟩ => ⟨hkind, hpayload, hid⟩⟩

theorem ofParts?_eq_some_iff {parts : List Json} :
    ofParts? parts = some event ↔ Lists (.array parts) event := by
  obtain ⟨kind?, payload, id?⟩ := event
  rw [lists_array_iff, madeOf_iff]
  rcases parts with _ | ⟨first, _ | ⟨second, _ | ⟨third, _ | ⟨fourth, more⟩⟩⟩⟩ <;>
    simp [ofParts?, gives_nil_iff, gives_singleton_iff, optionalString?_eq_some_iff,
      Option.bind_eq_some_iff, GivesPayload, Fields.event, Fields.unseen, and_comm]

/-- A value is read as an event if it is an object that describes it or an array that lists it. -/
theorem ofJson?_eq_some_iff {value : Json} :
    ofJson? value = some event ↔ Describes value event ∨ Lists value event := by
  cases value with
  | object entries =>
      rw [ofJson?, addAll?_unseen_iff]
      exact ⟨Or.inl, fun h => h.elim id nofun⟩
  | array parts =>
      rw [ofJson?, ofParts?_eq_some_iff]
      exact ⟨Or.inr, fun h => h.elim nofun id⟩
  | _ => exact ⟨nofun, fun h => h.elim nofun nofun⟩

end Values

end EventBus.Event
