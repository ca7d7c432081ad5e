import EventBus.Event.Reader
import EventBus.Proofs.Json.ReadBack

/-!
The text of an event reads back as the event. The fields that are written are known and written
once, so the reader takes each of them in, and the absent ones keep what they start with. The
event is itself an object around its payload: one level less is left for the payload.
-/

namespace EventBus.Event

section Fields

variable {fields added all : Fields} {key : String} {value : Json} {cs left after rest : List Char}
  {fuel : Nat}

theorem readField?_known (hknown : isKnown key = true)
    (hread : Json.value? (Json.maxDepth - 1) cs = some (value, rest))
    (hadd : fields.add? key value = some added) :
    readField? fields key cs = some (added, rest) := by
  simp only [readField?, hknown, if_true, hread, hadd, Option.bind_eq_bind, Option.bind_some]
  rfl

theorem readEntries?_last (hkey : Json.key? cs = some (key, left))
    (hread : readField? fields key left = some (added, '\x7d' :: rest)) :
    readEntries? fields (fuel + 1) cs = some (added, rest) := by
  simp only [readEntries?, hkey, hread, Option.bind_eq_bind, Option.bind_some]
  rfl

theorem readEntries?_more (hkey : Json.key? cs = some (key, left))
    (hread : readField? fields key left = some (added, ',' :: rest))
    (hlater : readEntries? added fuel rest = some (all, after)) :
    readEntries? fields (fuel + 1) cs = some (all, after) := by
  simp only [readEntries?, hkey, hread, Option.bind_eq_bind, Option.bind_some]
  exact hlater

theorem leading?_object (hspace : Json.skipSpace cs = cs) (hmore : ∀ left, cs ≠ '\x7d' :: left)
    (hread : readEntries? .unseen (cs.length + 1) cs = some (all, rest)) :
    leading? ('\x7b' :: cs) = some (all.event, rest) := by
  have hbrace : Json.skipSpace ('\x7b' :: cs) = '\x7b' :: cs := rfl
  simp only [leading?, hbrace, hspace, hread, Option.map_some]

/-- The reader takes the value of a known field from text, and finds the field writable. -/
def ReadsField (entry : String × Json) : Prop :=
  isKnown entry.1 = true ∧ Json.Reads (Json.value? (Json.maxDepth - 1)) entry.2

/-- Fields that are known are taken in one after the other as they come in the text. -/
theorem readEntries?_chars {entries : List (String × Json)}
    (h : ∀ entry ∈ (key, value) :: entries, ReadsField entry) (hfuel : entries.length < fuel)
    (hadd : fields.addAll? ((key, value) :: entries) = some all) (rest : List Char) :
    readEntries? fields fuel (Json.entriesText key value entries rest) = some (all, rest) := by
  induction entries generalizing key value fields fuel with
  | nil =>
      obtain ⟨fuel, rfl⟩ : ∃ more, fuel = more + 1 := Nat.exists_eq_add_one.mpr hfuel
      obtain ⟨hknown, hstart, hread⟩ := h _ List.mem_cons_self
      obtain ⟨added, hfirst, hall⟩ := Option.bind_eq_some_iff.mp hadd
      cases hall
      exact readEntries?_last (Json.key?_stringChars key (hstart.append _))
        (readField?_known hknown (hread _ (Json.stops_entriesChars [] rest)) hfirst)
  | cons next entries ih =>
      obtain ⟨fuel, rfl⟩ : ∃ more, fuel = more + 1 :=
        Nat.exists_eq_add_one.mpr (Nat.zero_lt_of_lt hfuel)
      obtain ⟨hknown, hstart, hread⟩ := h _ List.mem_cons_self
      obtain ⟨added, hfirst, hall⟩ := Option.bind_eq_some_iff.mp hadd
      have hlater := ih (fun other hother => h other (List.mem_cons_of_mem _ hother))
        (Nat.lt_of_succ_lt_succ hfuel) hall
      refine readEntries?_more (Json.key?_stringChars key (hstart.append _))
        (readField?_known hknown ?_ hfirst) hlater
      rw [hread _ (Json.stops_entriesChars _ rest), Json.entriesChars_cons_append]

end Fields

theorem addAll?_entries (event : Event) (h : event.payload.Canonical) :
    ∃ fields, Fields.unseen.addAll? event.entries = some fields ∧ fields.event = event := by
  obtain ⟨kind?, payload, id?⟩ := event
  -- What is absent was not written, and an unseen field counts as absent.
  cases kind? <;> cases id? <;>
    simp [entries, Fields.addAll?, Fields.add?, Fields.unseen, optionalString?, Fields.event,
      Json.canonical_eq_self h]

theorem entries_ne_nil (event : Event) : event.entries ≠ [] := by simp [entries]

theorem readsField_of_mem_entries {event : Event} {entry : String × Json}
    (hpayload : Json.Reads (Json.value? (Json.maxDepth - 1)) event.payload)
    (hentry : entry ∈ event.entries) : ReadsField entry := by
  have hstring (s : String) : Json.Reads (Json.value? (Json.maxDepth - 1)) (.string s) :=
    Json.reads_value? (by simp [Json.nodes]) (Nat.zero_le _)
  obtain ⟨kind?, payload, id?⟩ := event
  simp only [entries, List.mem_append, List.mem_singleton] at hentry
  rcases hentry with (hkind | rfl) | hid
  · cases kind? with
    | none => cases hkind
    | some kind =>
        obtain rfl := List.mem_singleton.mp hkind
        exact ⟨(by decide : isKnown "type" = true), hstring kind⟩
  · exact ⟨(by decide : isKnown "payload" = true), hpayload⟩
  · cases id? with
    | none => cases hid
    | some id =>
        obtain rfl := List.mem_singleton.mp hid
        exact ⟨(by decide : isKnown "id" = true), hstring id⟩

/-- The text of an event reads as the event, whatever its type and id hold. -/
theorem ofText?_text {event : Event} (hcanonical : event.payload.Canonical)
    (hpayload : Json.Reads (Json.value? (Json.maxDepth - 1)) event.payload) :
    ofText? event.text = some event := by
  obtain ⟨fields, hadd, hevent⟩ := addAll?_entries event hcanonical
  have hfields : ∀ entry ∈ event.entries, ReadsField entry := fun entry hentry =>
    readsField_of_mem_entries hpayload hentry
  obtain ⟨⟨key, value⟩, entries, hentries⟩ := List.exists_cons_of_ne_nil event.entries_ne_nil
  rw [hentries] at hadd hfields
  have htext : event.text.toList = '\x7b' :: Json.entriesText key value entries [] := by
    rw [text, toJson, hentries, Json.text, String.toList_ofList, ← Json.chars_object_append,
      List.append_nil]
  have hread := readEntries?_chars hfields (Json.length_lt_entriesText key value entries []) hadd []
  rw [ofText?, htext, leading?_object (Json.skipSpace_entriesText ..) nofun hread, hevent]
  rfl

/-- Writing an event and reading it back gives the event, and writing that gives the same text. The
payload nests one level less than the reader goes, and of fractions it is asked that what is written
for them reads back. -/
theorem text_round_trip (event : Event) (hcanonical : event.payload.Canonical)
    (hwhole : ∀ n, .number (.int n) ∈ event.payload.nodes → Json.IsWord n)
    (hfraction : ∀ x, .number (.float x) ∈ event.payload.nodes → Json.ReadsBack (.float x))
    (hdepth : event.payload.depth ≤ 126) :
    ofText? event.text = some event ∧ (ofText? event.text).map text = some event.text := by
  have hnumbers : ∀ n, .number n ∈ event.payload.nodes → Json.ReadsBack n := by
    intro n hn
    cases n with
    | int n => exact Json.readsBack_int (hwhole n hn)
    | float x => exact hfraction x hn
  have hread := ofText?_text hcanonical (Json.reads_value? hnumbers hdepth)
  exact ⟨hread, by rw [hread, Option.map_some]⟩

/-- Escapes in the type, an empty id, the outermost integers and a fraction in the payload. -/
def mixed : Event where
  kind? := some "a \"b\" \\ \t\u0001\u00e9"
  payload := .object
    [("", .array [.number (.int 0xFFFFFFFFFFFFFFFF), .number (.int (-0x8000000000000000)), .null]),
      ("half", .number (.float (.finite false 0x10000000000000 (-53))))]
  id? := some ""

theorem mixed_round_trip :
    ofText? mixed.text = some mixed ∧ (ofText? mixed.text).map text = some mixed.text := by
  have hnumbers (n : Number) (hn : .number n ∈ mixed.payload.nodes) :
      n = .int 0xFFFFFFFFFFFFFFFF ∨ n = .int (-0x8000000000000000) ∨
        n = .float (.finite false 0x10000000000000 (-53)) := by
    simpa [mixed, Json.nodes, Json.nodesOfEntries, Json.nodesOfItems] using hn
  apply text_round_trip
  · simp only [mixed, Json.Canonical, Json.CanonicalEntries, Json.CanonicalItems, Json.Ascending,
      List.pairwise_pair, and_true]
    decide +kernel
  · intro n hn
    obtain ⟨⟨⟩⟩ | ⟨⟨⟩⟩ | ⟨⟨⟩⟩ := hnumbers _ hn <;> decide
  · intro x hx
    obtain ⟨⟨⟩⟩ | ⟨⟨⟩⟩ | ⟨⟨⟩⟩ := hnumbers _ hx
    rw [Json.ReadsBack]
    decide +kernel
  · decide

end EventBus.Event
