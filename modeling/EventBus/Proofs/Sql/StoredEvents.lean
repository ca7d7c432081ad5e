import EventBus.Proofs.Pattern.EventFromRows
import EventBus.Proofs.Sql.Filling

/-!
Stored events back from the index table. Storing an event adds a record for each of its rows, so
the records of its id are its rows, and those of a plain event tell all of it.
-/

namespace EventBus.Sql

open Relational (Record Database)

/-- The index row that a record of the index table holds. -/
def rowOf (record : Record) : Index.Row :=
  let path := match record.value "path" with
    | .string path => path
    | _ => ""
  ⟨path, record.value "value"⟩

def ofEvent (id : String) (records : List Record) : List Record :=
  records.filter fun record => record.value "eid" == .string id

namespace Stored

theorem rowOf_record (stored : Stored) (row : Index.Row) : rowOf (stored.record row) = row := rfl

/-- Events of different ids have none of their records in common. -/
theorem mem_ofEvent_iff {stored : List Stored} (hids : (stored.map (·.id)).Nodup)
    {event : Stored} (hevent : event ∈ stored) {record : Record} :
    record ∈ ofEvent event.id (stored.flatMap (·.records)) ↔ record ∈ event.records := by
  simp only [ofEvent, List.mem_filter, List.mem_flatMap, beq_iff_eq]
  have hid (owner : Stored) (howner : record ∈ owner.records) :
      record.value "eid" = .string owner.id := by
    obtain ⟨row, -, rfl⟩ := List.mem_map.mp howner
    rfl
  constructor
  · rintro ⟨⟨owner, hmem, howner⟩, hvalue⟩
    have hsame : owner.id = event.id := Json.string.inj ((hid owner howner).symm.trans hvalue)
    obtain rfl := List.inj_on_of_nodup_map hids hmem hevent hsame
    exact howner
  · exact fun howner => ⟨⟨event, hevent, howner⟩, hid event howner⟩

end Stored

/-- The rows of an event without arrays, whose keys have no slash, tell it from all others of the
kind. So each such event that was stored can be put together again from what the index table has
under its id, in whatever order the records come. -/
theorem rows_tell_events :
    (∀ event other : Json, Index.Plain event → Index.Plain other →
      (Index.rows event).Perm (Index.rows other) → event = other) ∧
    ∀ (tables : Tables) (events index : String) (stored : List Stored),
      tables.Named events index → (stored.map (·.id)).Nodup →
      ∃ db, Database.runAll? [] (createTables tables ++ stored.flatMap (·.statements tables)) =
          some db ∧
        ∀ event ∈ stored, Index.Plain event.event →
          ∀ records : List Record, records.Perm (ofEvent event.id (db.records index)) →
            Index.rebuild (records.map rowOf) = event.event := by
  refine ⟨fun event other plain hother => plain.eq_of_rows_perm hother, ?_⟩
  intro tables events index stored named hids
  refine ⟨_, runAll?_statements named hids, fun event hevent plain records hrecords => ?_⟩
  have htable : (filled events index stored).records index = stored.flatMap (·.records) := by
    rw [Database.records, filled, table?_index named.distinct]
  refine plain.rebuild_eq fun row => ?_
  rw [List.mem_map]
  constructor
  · rintro ⟨record, hrecord, rfl⟩
    rw [hrecords.mem_iff, htable, Stored.mem_ofEvent_iff hids hevent] at hrecord
    obtain ⟨row, hrow, rfl⟩ := List.mem_map.mp hrecord
    exact hrow
  · intro hrow
    refine ⟨event.record row, ?_, event.rowOf_record row⟩
    rw [hrecords.mem_iff, htable, Stored.mem_ofEvent_iff hids hevent]
    exact List.mem_map_of_mem hrow

/-- Of two stored events the one that has an empty key in an empty key, and an empty object, comes
back from its records in reverse. -/
theorem nested_event_from_records :
    let tables : Tables := ⟨"Events", "fields"⟩
    let event : Stored := ⟨"1", ⟨86400, 0⟩, .object [("", .object [("", .bool true)]),
      ("a", .object []), ("b", .object [("c", .null), ("d", .string "x/y")])]⟩
    let other : Stored := ⟨"2", ⟨0, 0⟩, .object [("a", .null)]⟩
    ∃ db, Database.runAll? [] (createTables tables ++
        [event, other].flatMap (·.statements tables)) = some db ∧
      Index.rebuild ((ofEvent "1" (db.records "fields")).reverse.map rowOf) = event.event := by
  intro tables event other
  have named : Tables.Named ⟨"Events", "fields"⟩ "events" "fields" := ⟨rfl, rfl, by decide⟩
  have hids : ([event, other].map (·.id)).Nodup := by decide
  obtain ⟨db, hrun, hback⟩ := rows_tell_events.2 tables _ _ [event, other] named hids
  have plain : Index.Plain event.event := ⟨⟨_, rfl⟩, by decide, by decide, by decide⟩
  exact ⟨db, hrun, hback event List.mem_cons_self plain _ (List.reverse_perm _)⟩

end EventBus.Sql
