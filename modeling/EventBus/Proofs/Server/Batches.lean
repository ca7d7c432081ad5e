import EventBus.Proofs.Event.Forms
import EventBus.Proofs.Json.Equality
import EventBus.Server.Service
import Mathlib.Data.List.Forall2

/-!
Bodies that publish events. The documented ones are an object that describes an event and an array
of such objects. The reader takes two more: an array with an event listed by its parts in place of
an object, and an array that is itself such a list while it is no list of events. A body of any
other kind is refused and leaves everything as it was; for the rest the answer counts the events
that the bus is handed.
-/

namespace EventBus

namespace Batch

/-- The body is the text of the value with nothing but space around it. -/
def Writes (body : List UInt8) (value : Json) : Prop :=
  ∃ cs rest, Utf8.decode body = .ok cs ∧ Json.leading? Json.maxDepth cs = some (value, rest) ∧
    Json.atEnd rest = true

theorem Writes.unique {body : List UInt8} {value other : Json} (h : Writes body value)
    (hother : Writes body other) : value = other := by
  obtain ⟨cs, rest, hdecode, hvalue, -⟩ := h
  obtain ⟨cs', rest', hdecode', hother, -⟩ := hother
  cases hdecode.symm.trans hdecode'
  cases hvalue.symm.trans hother
  rfl

/-- One object that describes an event, or an array with one such object for each event. -/
inductive Documented : Json → List Event → Prop where
  | one {value : Json} {event : Event} (h : Event.Describes value event) : Documented value [event]
  | many {items : List Json} {events : List Event} (h : List.Forall₂ Event.Describes items events) :
      Documented (.array items) events

/-- An object that describes the event, or an array that lists its parts. -/
def StandsFor (value : Json) (event : Event) : Prop :=
  Event.Describes value event ∨ Event.Lists value event

/-- An array that is taken for events though not all of its elements are objects. -/
inductive Listed : Json → List Event → Prop where
  /-- Each element stands for an event, and some element lists the parts of one. -/
  | among {items parts : List Json} {events : List Event}
      (h : List.Forall₂ StandsFor items events) (hparts : .array parts ∈ items) :
      Listed (.array items) events
  /-- The elements do not all stand for events, and are taken for the parts of a single one. -/
  | alone {items : List Json} {event : Event}
      (hitems : ∀ events, ¬List.Forall₂ StandsFor items events)
      (h : Event.Lists (.array items) event) : Listed (.array items) [event]

section Reading

variable {items : List Json} {events : List Event} {value : Json}

theorem listOfJson?_eq_some_iff :
    Event.listOfJson? items = some events ↔ List.Forall₂ StandsFor items events := by
  induction items generalizing events with
  | nil => simp [Event.listOfJson?, eq_comm]
  | cons item items ih =>
      rw [Event.listOfJson?, List.forall₂_cons_left_iff]
      simp only [Option.bind_eq_bind, Option.bind_eq_some_iff, Event.ofJson?_eq_some_iff, ih]
      constructor
      · rintro ⟨event, hevent, events, hevents, ⟨⟩⟩
        exact ⟨event, events, hevent, hevents, rfl⟩
      · rintro ⟨event, events, hevent, hevents, rfl⟩
        exact ⟨event, hevent, events, hevents, rfl⟩

/-- Where no element is an array, elements that stand for events describe them. -/
theorem describes_of_standsFor (h : List.Forall₂ StandsFor items events)
    (hparts : ∀ parts, .array parts ∉ items) : List.Forall₂ Event.Describes items events := by
  induction h with
  | nil => exact .nil
  | cons hfirst _ ih =>
      refine .cons (hfirst.resolve_right ?_) (ih fun parts hmem => hparts parts (by simp [hmem]))
      rintro ⟨⟩
      exact hparts _ List.mem_cons_self

theorem ofJson?_array_iff : ofJson? (.array items) = some events ↔
    List.Forall₂ StandsFor items events ∨
      (∀ others, ¬List.Forall₂ StandsFor items others) ∧
        ∃ event, Event.Lists (.array items) event ∧ events = [event] := by
  simp only [ofJson?]
  cases hlist : Event.listOfJson? items with
  | some others =>
      have hothers := listOfJson?_eq_some_iff.mp hlist
      rw [← listOfJson?_eq_some_iff, hlist]
      exact ⟨Or.inl, fun h => h.elim id fun ⟨hnone, _⟩ => absurd hothers (hnone others)⟩
  | none =>
      have hnone : ∀ others, ¬List.Forall₂ StandsFor items others := fun others hothers => by
        rw [← listOfJson?_eq_some_iff, hlist] at hothers
        cases hothers
      rw [Option.map_eq_some_iff]
      simp only [Event.ofJson?_eq_some_iff]
      constructor
      · rintro ⟨event, hevent, rfl⟩
        exact Or.inr ⟨hnone, event, hevent.resolve_left nofun, rfl⟩
      · rintro (hlist | ⟨-, event, hevent, rfl⟩)
        · exact absurd hlist (hnone events)
        · exact ⟨event, Or.inr hevent, rfl⟩

theorem ofJson?_of_not_array (h : ∀ items, value ≠ .array items) :
    ofJson? value = some events ↔ ∃ event, Event.Describes value event ∧ events = [event] := by
  have hone : ofJson? value = (Event.ofJson? value).map ([·]) := by
    cases value with
    | array items => exact absurd rfl (h items)
    | _ => rfl
  rw [hone, Option.map_eq_some_iff]
  simp only [Event.ofJson?_eq_some_iff]
  constructor
  · rintro ⟨event, hdescribes | hlists, rfl⟩
    · exact ⟨event, hdescribes, rfl⟩
    · obtain ⟨items, rfl⟩ : ∃ items, value = .array items := by
        cases hlists
        exact ⟨_, rfl⟩
      exact absurd rfl (h items)
  · rintro ⟨event, hdescribes, rfl⟩
    exact ⟨event, Or.inl hdescribes, rfl⟩

/-- A value is taken for events when it is one of the documented ones or lists parts of events. -/
theorem ofJson?_eq_some_iff :
    ofJson? value = some events ↔ Documented value events ∨ Listed value events := by
  by_cases harray : ∃ items, value = .array items
  · obtain ⟨items, rfl⟩ := harray
    rw [ofJson?_array_iff]
    constructor
    · rintro (hall | ⟨hnone, event, hevent, rfl⟩)
      · by_cases hparts : ∃ parts, .array parts ∈ items
        · exact Or.inr (.among hall hparts.choose_spec)
        · exact Or.inl (.many (describes_of_standsFor hall (not_exists.mp hparts)))
      · exact Or.inr (.alone hnone hevent)
    · rintro ((⟨⟨⟩⟩ | hall) | (⟨hall, _⟩ | ⟨hnone, hevent⟩))
      · exact Or.inl (hall.imp fun _ _ => Or.inl)
      · exact Or.inl hall
      · exact Or.inr ⟨hnone, _, hevent, rfl⟩
  · have hvalue : ∀ items, value ≠ .array items := fun items heq => harray ⟨items, heq⟩
    rw [ofJson?_of_not_array hvalue]
    constructor
    · rintro ⟨event, hevent, rfl⟩
      exact Or.inl (.one hevent)
    · rintro ((hevent | _) | (_ | _))
      · exact ⟨_, hevent, rfl⟩
      all_goals exact absurd rfl (hvalue _)

/-- What is taken beyond the documented bodies is an array with an element that is no object. -/
theorem Listed.exists_not_object (h : Listed value events) :
    ∃ items, value = .array items ∧ ∃ item ∈ items, ∀ entries, item ≠ .object entries := by
  cases h with
  | among _ hparts => exact ⟨_, rfl, _, hparts, nofun⟩
  | @alone items event hnone hlists =>
      refine ⟨items, rfl, ?_⟩
      obtain ⟨-, hmade⟩ := hlists
      rcases items with _ | ⟨first, items⟩
      · exact absurd .nil (hnone [])
      · -- The first part gives the type, which an object cannot.
        refine ⟨first, List.mem_cons_self, ?_⟩
        rintro entries rfl
        cases Event.gives_singleton_iff.mp hmade.kind

end Reading

section Bodies

variable {body : List UInt8} {events : List Event}

theorem readable_eq_whole_iff {cs : List Char} :
    readable body = (cs, true) ↔ Utf8.decode body = .ok cs := by
  unfold readable
  cases Utf8.decode body with
  | ok cs => simp
  | error fault =>
      dsimp only
      split <;> simp

/-- A body is read as the events that its value is taken for, if it is a value and nothing else. -/
theorem read_eq_ok_iff :
    read body = .ok events ↔ ∃ value, Writes body value ∧ ofJson? value = some events := by
  simp only [Writes, ← readable_eq_whole_iff, read]
  obtain ⟨cs, whole⟩ := readable body
  constructor
  · intro h
    cases hleading : Json.leading? Json.maxDepth cs with
    | none => simp [hleading] at h
    | some read =>
        obtain ⟨value, rest⟩ := read
        cases hevents : ofJson? value with
        | none => simp [hleading, hevents] at h
        | some others =>
            cases hend : Json.atEnd rest <;> cases whole <;>
              simp [hleading, hevents, hend] at h
            subst h
            exact ⟨value, ⟨cs, rest, rfl, hleading, hend⟩, hevents⟩
  · rintro ⟨value, ⟨cs', rest, heq, hleading, hend⟩, hevents⟩
    cases heq
    simp [hleading, hevents, hend]

/-- Whatever else a body is, it is refused as bad events. -/
theorem read_cases (body : List UInt8) :
    (∃ events, read body = .ok events) ∨ ∃ text, read body = .error (refused text) := by
  simp only [read]
  repeat' split
  · exact Or.inr ⟨_, rfl⟩
  · exact Or.inr ⟨_, rfl⟩
  · exact Or.inl ⟨_, rfl⟩
  · exact Or.inr ⟨_, rfl⟩

end Bodies

/-- A null and an object, which are taken for an event without a type and with the object as its
payload. -/
def parted : List UInt8 := Utf8.encode "[null, \x7b\"payload\": 1\x7d]".toList

def inner : Json := .object [("payload", .number (.int 1))]

theorem writes_parted : Writes parted (.array [.null, inner]) := by
  refine ⟨"[null, \x7b\"payload\": 1\x7d]".toList, [], ?_, ?_, ?_⟩ <;> decide +kernel

/-- The reader takes a body that is none of the documented ones for an event. -/
theorem parts_taken_for_event : ¬∀ (body : List UInt8) (events : List Event),
    read body = .ok events → ∃ value, Writes body value ∧ Documented value events := by
  intro h
  have hread : read parted = .ok [⟨none, inner, none⟩] := by
    rw [read_eq_ok_iff]
    exact ⟨_, writes_parted, rfl⟩
  obtain ⟨value, hwrites, hdocumented⟩ := h parted _ hread
  obtain rfl := hwrites.unique writes_parted
  cases hdocumented with
  | one hdescribes => cases hdescribes
  | many hall => cases hall with | cons hnull _ => cases hnull

end Batch

namespace Server

variable {σ : Type}

/-- How a request to publish a body may end. -/
inductive Publishing (server : Server σ) (body : List UInt8) :
    Option Response × Server σ → Prop where
  /-- The bus is handed the events in one batch, and they are counted. -/
  | accepted {events : List Event} (hread : Batch.read body = .ok events)
      (hadmitted : server.bus.admission server.bus.canceled = .ok) :
      Publishing server body
        (some (.json 202 (.object [("accepted", .number (.int events.length))])),
          { server with bus := server.bus.enqueue (.publish events) })
  /-- The queue of the bus is full and the request waits. -/
  | waiting {events : List Event} (hread : Batch.read body = .ok events)
      (hfull : server.bus.admission server.bus.canceled = .full) :
      Publishing server body (none, server)
  | unavailable {events : List Event} {error : BusError} (hread : Batch.read body = .ok events)
      (hfailed : server.bus.admission server.bus.canceled = .failed error) :
      Publishing server body (some (.ofError (.ofBusError error)), server)
  /-- The body is no batch, and nothing is published. -/
  | refused {text : String} (hread : ∀ events, Batch.read body ≠ .ok events) :
      Publishing server body (some (.ofError (Batch.refused text)), server)

theorem publishing_publishEvents (server : Server σ) (body : List UInt8) :
    Publishing server body (server.publishEvents body) := by
  rcases Batch.read_cases body with ⟨events, hread⟩ | ⟨text, hread⟩
  · cases hadmission : server.bus.admission server.bus.canceled with
    | ok =>
        simpa [publishEvents, hread, Bus.publish, Bus.send, hadmission]
          using Publishing.accepted hread hadmission
    | full =>
        simpa [publishEvents, hread, Bus.publish, Bus.send, hadmission]
          using Publishing.waiting hread hadmission
    | failed error =>
        simpa [publishEvents, hread, Bus.publish, Bus.send, hadmission]
          using Publishing.unavailable hread hadmission
  · simpa [publishEvents, hread] using Publishing.refused (by simp [hread])

/-- Which bodies are taken and what becomes of them. Apart from arrays with an element that is no
object, the bodies that are taken are the documented ones; the events handed to the bus are the ones
counted in the answer, and nothing is published of a body that is refused. -/
theorem publishEvents_takes_batches (server : Server σ) (body : List UInt8) :
    (∀ events, Batch.read body = .ok events ↔ ∃ value, Batch.Writes body value ∧
      (Batch.Documented value events ∨ Batch.Listed value events)) ∧
    (∀ value events, Batch.Listed value events →
      ∃ items, value = .array items ∧ ∃ item ∈ items, ∀ entries, item ≠ .object entries) ∧
    Publishing server body (server.publishEvents body) := by
  refine ⟨fun events => ?_, fun value events h => h.exists_not_object,
    publishing_publishEvents server body⟩
  simp only [Batch.read_eq_ok_iff, Batch.ofJson?_eq_some_iff]

end Server

end EventBus
