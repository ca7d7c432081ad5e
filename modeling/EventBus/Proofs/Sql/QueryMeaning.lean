import EventBus.Proofs.Sql.QueryNames
import Mathlib.Data.List.Nodup

/-!
What a compiled query selects. With different ids a choice of records for the joined copies is a
choice of index rows of one event, one row for each copy, together with the event itself. The
filter then asks each copy for what its branch asks, and the rows of the event for what must be
absent.
-/

namespace EventBus.Sql

open Relational (Atom Check Database Join Operand Oracle Record Scope)

variable {tables : Tables} {events index : String} {stored : List Stored} {oracle : Oracle}

section Records

theorem mem_records_index (hdistinct : events ≠ index) {record : Record} :
    record ∈ (filled events index stored).records index ↔
      ∃ event ∈ stored, ∃ row ∈ Index.rows event.event, record = event.record row := by
  simp only [Database.records, filled, table?_index hdistinct, List.mem_flatMap, Stored.records,
    List.mem_map, eq_comm]

theorem mem_records_events {record : Record} :
    record ∈ (filled events index stored).records events ↔
      ∃ event ∈ stored, record = event.answer := by
  simp only [Database.records, filled, table?_events, List.mem_map, eq_comm]

/-- Columns other than that of the stored values compare as they are. -/
theorem holds_column_test {db : Database} {scope : Scope} {source name : String}
    (hname : name ≠ Relational.storedColumn) (check : Check Operand) :
    (Atom.test (.column source name) check).Holds db oracle scope ↔
      (check.map (·.eval scope)).truth ((scope.record source).value name) = some true := by
  simp only [Atom.Holds, Atom.truth, Operand.test, hname, if_false]

/-- Two names stand for records of one event when the records have one id. -/
theorem holds_sameEvent {db : Database} {scope : Scope} {name other id otherId : String}
    (hname : (scope.record name).value "eid" = .string id)
    (hother : (scope.record other).value "eid" = .string otherId) :
    (sameEvent name other).Holds db oracle scope ↔ id = otherId := by
  rw [sameEvent, holds_column_test (by decide), hname]
  simp only [Check.map, Operand.eval, hother, Check.truth, Relational.compareValues,
    Relational.holdsBetween, Option.some.injEq, decide_eq_true_eq]

end Records

section Scopes

theorem record_copies {records : List Record} {n : Nat} {record : Record}
    (hn : records[n]? = some record) (more : Scope) :
    Scope.record (copies records ++ more) (aliasName n) = record := by
  rw [Scope.record, lookup_copies_append hn, Option.getD_some]

/-- The names of a query for index rows of one event. -/
def eventScope (events : String) (event : Stored) (rows : List Index.Row) : Scope :=
  copies (rows.map event.record) ++ [(events, event.answer)]

theorem record_eventScope {event : Stored} {rows : List Index.Row} {n : Nat} {row : Index.Row}
    (hn : rows[n]? = some row) :
    (eventScope events event rows).record (aliasName n) = event.record row :=
  record_copies (by simp [hn]) _

theorem record_events {event : Stored} {rows : List Index.Row}
    (hnot : ∀ n < rows.length, events ≠ aliasName n) :
    (eventScope events event rows).record events = event.answer := by
  rw [Scope.record, eventScope, lookup_append_events (by rwa [List.length_map]), Option.getD_some]

theorem copies_map_concat {event : Stored} {rows : List Index.Row} {row : Index.Row} {more : Nat}
    (hlength : rows.length = more + 1) :
    copies ((rows ++ [row]).map event.record) =
      copies (rows.map event.record) ++ [(aliasName (1 + more), event.record row)] := by
  rw [List.map_append, List.map_singleton, copies_concat, List.length_map, hlength, Nat.add_comm]

/-- One more copy is joined to those of an event when its record has the id of the event. -/
theorem holds_copyJoin {db : Database} {event other : Stored} {rows : List Index.Row}
    {row : Index.Row} {more : Nat} (hlength : rows.length = more + 1) :
    (Select.copyJoin index (1 + more)).condition.Holds db oracle
        (copies (rows.map event.record) ++ [(aliasName (1 + more), other.record row)]) ↔
      other.id = event.id := by
  obtain ⟨first, rest, rfl⟩ := List.exists_cons_of_length_eq_add_one hlength
  have hlast : 1 + more = ((first :: rest).map event.record).length := by
    rw [List.length_map, hlength, Nat.add_comm]
  have hnew : Scope.record
      (copies ((first :: rest).map event.record) ++ [(aliasName (1 + more), other.record row)])
        (aliasName (1 + more)) = other.record row := by
    rw [hlast, ← copies_concat, ← List.append_nil (copies _)]
    exact record_copies (by simp) []
  have hfirst : Scope.record
      (copies ((first :: rest).map event.record) ++ [(aliasName (1 + more), other.record row)])
        (aliasName 0) = event.record first := record_copies rfl _
  rw [Select.copyJoin, Relational.Condition.holds_last]
  exact holds_sameEvent (by rw [hnew]; rfl) (by rw [hfirst]; rfl)

/-- The events table is joined by the event that has the id of the copies. -/
theorem holds_eventsJoin {db : Database} {event other : Stored} {rows : List Index.Row}
    {more : Nat} (hlength : rows.length = more + 1)
    (hnot : ∀ n < rows.length, events ≠ aliasName n) :
    (Select.eventsJoin events).condition.Holds db oracle
        (copies (rows.map event.record) ++ [(events, other.answer)]) ↔ other.id = event.id := by
  obtain ⟨first, rest, rfl⟩ := List.exists_cons_of_length_eq_add_one hlength
  have hevents : Scope.record (copies ((first :: rest).map event.record) ++
      [(events, other.answer)]) events = other.answer := by
    rw [Scope.record, lookup_append_events (by rwa [List.length_map]), Option.getD_some]
  have hfirst : Scope.record (copies ((first :: rest).map event.record) ++
      [(events, other.answer)]) (aliasName 0) = event.record first := record_copies rfl _
  rw [Select.eventsJoin, Relational.Condition.holds_last]
  exact holds_sameEvent (by rw [hevents]; rfl) (by rw [hfirst]; rfl)

variable (named : tables.Named events index) (hids : (stored.map (·.id)).Nodup)

include named hids

/-- Choices of records for the first copies are choices of rows of one event. -/
theorem mem_foldl_copyJoin (more : Nat) {scope : Scope} :
    scope ∈ ((List.range' 1 more).map (Select.copyJoin index)).foldl
        (Join.extend (filled events index stored) oracle)
        (((filled events index stored).records index).map fun record => [(aliasName 0, record)]) ↔
      ∃ event ∈ stored, ∃ rows : List Index.Row, rows.length = more + 1 ∧
        (∀ row ∈ rows, row ∈ Index.rows event.event) ∧ scope = copies (rows.map event.record) := by
  induction more generalizing scope with
  | zero =>
      simp only [List.range'_zero, List.map_nil, List.foldl_nil, List.mem_map]
      constructor
      · rintro ⟨record, hrecord, rfl⟩
        obtain ⟨event, hevent, row, hrow, rfl⟩ := (mem_records_index named.distinct).mp hrecord
        exact ⟨event, hevent, [row], rfl, by simpa using hrow, rfl⟩
      · rintro ⟨event, hevent, rows, hlength, hrows, rfl⟩
        obtain ⟨row, rfl⟩ := List.length_eq_one_iff.mp hlength
        refine ⟨event.record row, (mem_records_index named.distinct).mpr ?_, rfl⟩
        exact ⟨event, hevent, row, hrows row List.mem_cons_self, rfl⟩
  | succ more ih =>
      -- The last copy is joined to choices for the copies before it, which are those of an event.
      rw [List.range'_1_concat, List.map_append, List.foldl_append, List.map_singleton,
        List.foldl_cons, List.foldl_nil, Join.mem_extend]
      constructor
      · rintro ⟨before, hbefore, record, hrecord, rfl, hholds⟩
        obtain ⟨event, hevent, rows, hlength, hrows, rfl⟩ := ih.mp hbefore
        obtain ⟨other, hother, row, hrow, rfl⟩ := (mem_records_index named.distinct).mp hrecord
        have hid : other.id = event.id := (holds_copyJoin hlength).mp hholds
        obtain rfl : other = event := List.inj_on_of_nodup_map hids hother hevent hid
        refine ⟨other, hevent, rows ++ [row], by simp [hlength], ?_, ?_⟩
        · intro other hother
          rcases List.mem_append.mp hother with hold | hnew
          · exact hrows other hold
          · rw [List.mem_singleton.mp hnew]
            exact hrow
        · exact (copies_map_concat hlength).symm
      · rintro ⟨event, hevent, rows, hlength, hrows, rfl⟩
        obtain ⟨front, row, rfl⟩ := (List.eq_nil_or_concat' rows).resolve_left (by
          rintro rfl
          simp at hlength)
        have hfront : front.length = more + 1 := by simpa using hlength
        refine ⟨copies (front.map event.record), ih.mpr ⟨event, hevent, front, hfront,
          fun row hrow => hrows row (List.mem_append_left _ hrow), rfl⟩, event.record row,
          (mem_records_index named.distinct).mpr ⟨event, hevent, row, hrows row (by simp), rfl⟩,
          ?_, ?_⟩
        · exact copies_map_concat hfront
        · rw [copies_map_concat hfront]
          exact (holds_copyJoin hfront).mpr rfl

/-- Choices of records for a whole query are choices of rows of one event, with the event. -/
theorem mem_scopes {query : Select}
    (hnot : ∀ n < query.joined.length - 1 + 1, events ≠ aliasName n) (since : String)
    {scope : Scope} :
    scope ∈ (query.tree events index since).scopes (filled events index stored) oracle ↔
      ∃ event ∈ stored, ∃ rows : List Index.Row, rows.length = query.joined.length - 1 + 1 ∧
        (∀ row ∈ rows, row ∈ Index.rows event.event) ∧ scope = eventScope events event rows := by
  have hscopes : (query.tree events index since).scopes (filled events index stored) oracle =
      (Select.eventsJoin events).extend (filled events index stored) oracle
        (((List.range' 1 (query.joined.length - 1)).map (Select.copyJoin index)).foldl
          (Join.extend (filled events index stored) oracle)
          (((filled events index stored).records index).map
            fun record => [(aliasName 0, record)])) := by
    rw [Relational.Query.scopes, Select.tree, List.foldl_append]
    rfl
  rw [hscopes, Join.mem_extend]
  constructor
  · rintro ⟨before, hbefore, record, hrecord, rfl, hholds⟩
    obtain ⟨event, hevent, rows, hlength, hrows, rfl⟩ :=
      (mem_foldl_copyJoin named hids _).mp hbefore
    obtain ⟨other, hother, rfl⟩ := mem_records_events.mp hrecord
    have hid : other.id = event.id := (holds_eventsJoin hlength (by rwa [hlength])).mp hholds
    obtain rfl : other = event := List.inj_on_of_nodup_map hids hother hevent hid
    exact ⟨other, hevent, rows, hlength, hrows, rfl⟩
  · rintro ⟨event, hevent, rows, hlength, hrows, rfl⟩
    exact ⟨copies (rows.map event.record),
      (mem_foldl_copyJoin named hids _).mpr ⟨event, hevent, rows, hlength, hrows, rfl⟩,
      event.answer, mem_records_events.mpr ⟨event, hevent, rfl⟩, rfl,
      (holds_eventsJoin hlength (by rwa [hlength])).mpr rfl⟩

end Scopes

section Tests

variable {db : Database} {scope : Scope} {event : Stored} {row : Index.Row} {since : String}
  {n : Nat}

theorem holds_newerAtom (hrecord : scope.record (aliasName n) = event.record row) :
    (newerAtom since n).Holds db oracle scope ↔ since < event.ts.text := by
  have hts : (event.record row).value "ts" = .string event.ts.text := rfl
  rw [newerAtom, copyColumn, holds_column_test (by decide), hrecord, hts]
  simp only [Check.map, Operand.eval, Check.truth, Relational.compareValues,
    Relational.holdsBetween, Option.some.injEq, decide_eq_true_eq]

theorem holds_equalsText {source name text held : String} (hname : name ≠ Relational.storedColumn)
    (hvalue : (scope.record source).value name = .string held) :
    (Atom.test (.column source name) (.compare .equal (.value (.string text)))).Holds
      db oracle scope ↔ held = text := by
  rw [holds_column_test hname, hvalue]
  simp only [Check.map, Operand.eval, Check.truth, Relational.compareValues,
    Relational.holdsBetween, Option.some.injEq, decide_eq_true_eq]

theorem holds_atPath {source path : String} (hrecord : scope.record source = event.record row) :
    (Atom.test (.column source "path") (.compare .equal (.value (.string path)))).Holds
      db oracle scope ↔ row.path = path :=
  holds_equalsText (by decide) (congrArg (·.value "path") hrecord)

/-- The path condition holds of a record whose column has a path at the path or below it. -/
theorem holds_atOrBelowAtom_of_value {source name path row : String}
    (hname : name ≠ Relational.storedColumn)
    (hvalue : (scope.record source).value name = .string row) :
    (atOrBelowAtom (.column source name) path).Holds db oracle scope ↔
      Index.isAtOrBelow path row = true := by
  have hbelow : (Atom.test (.column source name)
      (.like (.value (.string (Like.below path))) '\\')).Holds db oracle scope ↔
        Like.matches? '\\' (Like.below path) row = some true := by
    rw [holds_column_test hname, hvalue]
    rfl
  have hat : (Atom.test (.column source name) (.compare .equal (.value (.string path)))).Holds
      db oracle scope ↔ row = path := holds_equalsText hname hvalue
  rw [← Like.eq_or_below_iff_isAtOrBelow, ← hbelow, ← hat]
  refine (Relational.Condition.holds_any _ _).trans ?_
  simp

theorem holds_atOrBelowAtom {source path : String}
    (hrecord : scope.record source = event.record row) :
    (atOrBelowAtom (.column source "path") path).Holds db oracle scope ↔
      Index.isAtOrBelow path row.path = true :=
  holds_atOrBelowAtom_of_value (by decide) (congrArg (·.value "path") hrecord)

/-- A row of the event is absent from a path when no row stands at the path or below it. -/
theorem holds_absentAtom (hdistinct : events ≠ index) (hids : (stored.map (·.id)).Nodup)
    (hevent : event ∈ stored) (hrecord : scope.record (aliasName 0) = event.record row)
    (path : String) :
    (absentAtom index path).Holds (filled events index stored) oracle scope ↔
      ∀ other ∈ Index.rows event.event, ¬ Index.isAtOrBelow path other.path = true := by
  have hcondition : ∀ (owner : Stored) (other : Index.Row),
      (Relational.Condition.all (sameEvent "x" (aliasName 0))
        [atOrBelowAtom (.column "x" "path") path]).Holds (filled events index stored) oracle
          (("x", owner.record other) :: scope) ↔
        owner.id = event.id ∧ Index.isAtOrBelow path other.path = true := by
    intro owner other
    have hinner : Scope.record (("x", owner.record other) :: scope) "x" = owner.record other := by
      rw [Scope.record, List.lookup_cons_self, Option.getD_some]
    have houter : Scope.record (("x", owner.record other) :: scope) (aliasName 0) =
        event.record row := by
      have hname : (aliasName 0 == "x") = false := by decide
      rw [Scope.record, List.lookup_cons, hname]
      exact hrecord
    rw [Relational.Condition.holds_all, List.forall_mem_cons, List.forall_mem_singleton,
      holds_atOrBelowAtom hinner]
    refine and_congr_left fun _ => holds_sameEvent ?_ ?_
    · rw [hinner]
      rfl
    · rw [houter]
      rfl
  rw [absentAtom, Atom.holds_notExists]
  constructor
  · intro hnone other hother hbelow
    exact hnone _ ((mem_records_index hdistinct).mpr ⟨event, hevent, other, hother, rfl⟩)
      ((hcondition event other).mpr ⟨rfl, hbelow⟩)
  · intro hnone record hmem hholds
    obtain ⟨owner, howner, other, hother, rfl⟩ := (mem_records_index hdistinct).mp hmem
    obtain ⟨hid, hbelow⟩ := (hcondition owner other).mp hholds
    obtain rfl : owner = event := List.inj_on_of_nodup_map hids howner hevent hid
    exact hnone other hother hbelow

end Tests

end EventBus.Sql
