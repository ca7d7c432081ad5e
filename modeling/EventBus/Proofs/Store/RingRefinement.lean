import EventBus.Proofs.Store.RingHistory
import EventBus.Store.Recorder

/-!
A ring read against a history without a bound. The recorder is such a history, kept as a plain
list that is read from its end; a ring of a capacity answers a read as a recorder does that was
given only so many of the last events. Both leave their batches in a queue with room for all of
them, so that neither loses one there.
-/

namespace EventBus

namespace Recorder

/-- Write batches one after the other, by a caller that is not cancelled. -/
def given (batches : List (List Event)) : Recorder :=
  batches.foldl (fun recorder batch => (recorder.write false batch).store) empty

theorem write_of_no_error {recorder : Recorder} (h : recorder.writeError? = none)
    (batch : List Event) :
    (recorder.write false batch).store.events = recorder.events ++ batch ∧
      (recorder.write false batch).store.writeError? = none := by
  simp [write, remember, h]

/-- What a recorder was given is what it holds. -/
theorem events_given (batches : List (List Event)) : (given batches).events = batches.flatten := by
  have hwritten : ∀ recorder : Recorder, recorder.writeError? = none →
      (batches.foldl (fun recorder batch => (recorder.write false batch).store) recorder).events =
        recorder.events ++ batches.flatten := by
    induction batches with
    | nil => simp
    | cons batch batches ih =>
        intro recorder hnone
        obtain ⟨hevents, hlater⟩ := write_of_no_error hnone batch
        rw [List.foldl_cons, ih _ hlater, hevents, List.flatten_cons, List.append_assoc]
  simpa [given, empty] using hwritten empty rfl

theorem read_result (recorder : Recorder) (query : Query) :
    (recorder.read false query).result =
      .ok ⟨((query.select recorder.events.reverse).take query.limit).map ([·]), true⟩ :=
  congrArg Except.ok (recorder.outbox_stream query)

end Recorder

namespace Ring

theorem read_result {ring : Ring} (hopen : ring.closed = false) (query : Query) :
    (ring.read false query).result = .ok ⟨(ring.matching query).map ([·]), true⟩ := by
  simp only [read, Bool.false_eq_true, if_false, hopen]
  exact congrArg Except.ok (ring.outbox_stream query)

/-- All that a ring holds is the end of its history. -/
theorem Reflects.recent_capacity {ring : Ring} {history : List Event} {shut : Bool}
    (h : Reflects ring history shut) :
    ring.recent ring.capacity = history.reverse.take ring.capacity := by
  rw [h.recent_eq, h.len_eq, ← List.length_reverse, ← Nat.min_assoc, Nat.min_self,
    ← List.take_eq_take_min]

/-- A ring answers a read as a recorder that was given only the last events of its history, as
many as the ring has slots, in any batches. After any calls that leave the ring in use, both
yield the first events of the query's limit that match its filter, newest first and each in a
batch of its own, and then the stream ends. -/
theorem read_eq_read_of_recorder (capacity : Nat) (calls : List Call) (query : Query)
    (batches : List (List Event)) :
    let ring := run (ofCapacity capacity) calls
    let history := written (log (ofCapacity capacity) calls)
    ring.closed = false →
    batches.flatten = history.drop (history.length - capacity) →
    (ring.read false query).result = ((Recorder.given batches).read false query).result ∧
    (ring.read false query).result =
      .ok ⟨(((history.reverse.take capacity).filter query.accepts).take query.limit).map ([·]),
        true⟩ := by
  intro ring history hopen hbatches
  have hreflects : Reflects ring history (shutBy (log (ofCapacity capacity) calls)) := by
    have hempty : Reflects (ofCapacity capacity) (written []) (shutBy []) :=
      ofCapacity_reflects capacity
    exact hempty.run calls
  have hcapacity : ring.capacity = capacity := run_capacity (ofCapacity capacity) calls
  have hring : (ring.read false query).result =
      .ok ⟨((query.select (history.reverse.take capacity)).take query.limit).map ([·]), true⟩ := by
    rw [read_result hopen, matching, hreflects.recent_capacity, hcapacity]
  have hrecorder : (Recorder.given batches).events.reverse = history.reverse.take capacity := by
    rw [Recorder.events_given, hbatches, List.take_reverse]
  rw [hring, Recorder.read_result, hrecorder]
  exact ⟨rfl, rfl⟩

/-- Two slots after three writes: of the two texts that match, the older has been replaced. -/
theorem replaced_event_not_read :
    let text (s : String) : Event := ⟨none, .string s, none⟩
    let calls : List Call :=
      [.write false [text "xa", text "b"], .close false, .write false [text "d"], .reopen false,
        .write false [text "xc"]]
    let ring := run (ofCapacity 2) calls
    let query : Query := ⟨true, 3, .startsWith "x"⟩
    ring.closed = false ∧
      (ring.read false query).result = .ok ⟨[[text "xc"]], true⟩ ∧
      (ring.read false query).result =
        ((Recorder.given [[text "b", text "xc"]]).read false query).result := by
  intro text calls ring query
  have hopen : ring.closed = false := rfl
  obtain ⟨hrecorder, hread⟩ :=
    read_eq_read_of_recorder 2 calls query [[text "b", text "xc"]] hopen rfl
  exact ⟨hopen, hread.trans rfl, hrecorder⟩

end Ring

end EventBus
