import EventBus.Proofs.Relational.Meaning
import EventBus.Proofs.Sql.QueryText
import EventBus.Sql.Insert

/-!
What the two tables hold. The statements that make the tables and store events are read as
commands, and run in order on an empty database none of them is refused when the events have
different ids. The tables then hold each event once, and one record for each of its index rows.
-/

namespace EventBus.Sql

open Relational (Reads Closed Joint Token Keyword ColumnKind Command Record Table Database
  separated inParens valuesTokens)

/-- An event as it is stored. -/
structure Stored where
  id : String
  ts : Instant
  event : Json
  deriving Repr

namespace Stored

/-- The record of the event in the events table. -/
def answer (stored : Stored) : Record :=
  [("eid", .string stored.id), ("event", .string stored.event.text)]

/-- The record of an index row of the event. -/
def record (stored : Stored) (row : Index.Row) : Record :=
  [("eid", .string stored.id), ("ts", .string stored.ts.text), ("path", .string row.path),
    ("value", row.value)]

def records (stored : Stored) : List Record := (Index.rows stored.event).map stored.record

def statements (tables : Tables) (stored : Stored) : List Statement :=
  insertStatements tables stored.ts stored.id stored.event

end Stored

def eventColumns : List ColumnKind := [⟨"eid", true, true⟩, ⟨"event", true, false⟩]

def indexColumns : List ColumnKind :=
  [⟨"eid", true, false⟩, ⟨"ts", true, false⟩, ⟨"path", true, false⟩, ⟨"value", false, false⟩]

def eventNames : List String := eventColumns.map (·.name)

def indexNames : List String := indexColumns.map (·.name)

def twoTables (events index : String) (answers records : List Record) : Database :=
  [⟨events, eventColumns, answers⟩, ⟨index, indexColumns, records⟩]

/-- The database of the two tables with events stored. -/
def filled (events index : String) (stored : List Stored) : Database :=
  twoTables events index (stored.map (·.answer)) (stored.flatMap (·.records))

section Reading

variable {tables : Tables} {events index : String}

theorem read?_createTables (named : tables.Named events index) :
    (createTables tables).map Command.read? =
      [Command.create events eventColumns, .create index indexColumns].map some := by
  have hcreate : Closed "CREATE TABLE " [] [.keyword .create, .keyword .table] := ⟨_, rfl, rfl⟩
  have hevents : Reads "(eid TEXT PRIMARY KEY, event TEXT)" []
      (inParens (separated [.comma] (eventColumns.map ColumnKind.tokens))) := ⟨_, _, rfl, rfl, rfl⟩
  have hindex : Reads "(eid TEXT, ts TEXT, path TEXT, value)" []
      (inParens (separated [.comma] (indexColumns.map ColumnKind.tokens))) := ⟨_, _, rfl, rfl, rfl⟩
  have hfirst : Reads ("CREATE TABLE " ++ tables.events ++ "(eid TEXT PRIMARY KEY, event TEXT)") []
      (Command.create events eventColumns).tokens := by
    rw [String.append_assoc]
    exact .append_closed hcreate ((Reads.of_lex_name named.events_lex).append hevents rfl)
  have hsecond : Reads ("CREATE TABLE " ++ tables.index ++
      "(eid TEXT, ts TEXT, path TEXT, value)") [] (Command.create index indexColumns).tokens := by
    rw [String.append_assoc]
    exact .append_closed hcreate ((Reads.of_lex_name named.index_lex).append hindex rfl)
  exact congrArg₂ (fun first second => [first, second])
    (Command.read?_create hfirst (by simp [eventColumns]))
    (Command.read?_create hsecond (by simp [indexColumns]))

theorem reads_rows (eid ts : String) (rows : List Index.Row) :
    Reads (joinWith ", " (List.replicate rows.length "(?,?,?,?)"))
      (rows.flatMap (rowParams eid ts))
      (separated [.comma] ((rows.map (rowParams eid ts)).map fun row =>
        inParens (valuesTokens row))) := by
  have hcomma : Joint ", " [] [.comma] := ⟨rfl, _, rfl, rfl⟩
  have hrow : ∀ row ∈ rows, Reads "(?,?,?,?)" (rowParams eid ts row)
      (inParens (valuesTokens (rowParams eid ts row))) := fun _ _ => ⟨_, _, rfl, rfl, rfl⟩
  have hrows := Reads.joinWith_map hcomma (fun row => ⟨"(?,?,?,?)", rowParams eid ts row⟩)
    (fun row => inParens (valuesTokens (rowParams eid ts row))) hrow
  rw [List.map_const'] at hrows
  rw [List.map_map]
  exact hrows

theorem reads_indexInsert (named : tables.Named events index) (eid ts : String)
    (rows : List Index.Row) :
    Reads ("INSERT INTO " ++ tables.index ++ " (eid,ts,path,value) VALUES "
        ++ joinWith ", " (List.replicate rows.length "(?,?,?,?)"))
      (rows.flatMap (rowParams eid ts))
      (Command.insert index indexNames (rows.map (rowParams eid ts))).tokens := by
  have hinsert : Closed "INSERT INTO " [] [.keyword .insert, .keyword .into] := ⟨_, rfl, rfl⟩
  have hvalues : Joint " (eid,ts,path,value) VALUES " []
      (inParens (separated [.comma] (indexNames.map fun name => [.name name])) ++
        [.keyword .values]) := ⟨rfl, _, rfl, rfl⟩
  refine (Reads.append_closed hinsert ((Reads.of_lex_name named.index_lex).joined hvalues
    (reads_rows eid ts rows))).of_eq ?_ rfl ?_
  · simp only [String.append_assoc]
  · simp [Command.tokens]

theorem reads_eventInsert (named : tables.Named events index) (eid event : Json) :
    Reads ("INSERT INTO " ++ tables.events ++ " (eid,event) VALUES (?,?)") [eid, event]
      (Command.insert events eventNames [[eid, event]]).tokens := by
  have hinsert : Closed "INSERT INTO " [] [.keyword .insert, .keyword .into] := ⟨_, rfl, rfl⟩
  have hvalues : Reads " (eid,event) VALUES (?,?)" [eid, event]
      (inParens (separated [.comma] (eventNames.map fun name => [.name name])) ++
        .keyword .values :: inParens (valuesTokens [eid, event])) := ⟨_, _, rfl, rfl, rfl⟩
  refine (Reads.append_closed hinsert
    ((Reads.of_lex_name named.events_lex).append hvalues rfl)).of_eq ?_ rfl rfl
  simp only [String.append_assoc]

/-- The commands that store an event. -/
def Stored.commands (events index : String) (stored : Stored) : List Command :=
  (if (Index.rows stored.event).isEmpty then []
    else [.insert index indexNames
      ((Index.rows stored.event).map (rowParams stored.id stored.ts.text))]) ++
    [.insert events eventNames [[.string stored.id, .string stored.event.text]]]

theorem read?_statements (named : tables.Named events index) (stored : Stored) :
    (stored.statements tables).map Command.read? = (stored.commands events index).map some := by
  have hevent : Command.read? ⟨"INSERT INTO " ++ tables.events ++ " (eid,event) VALUES (?,?)",
      [.string stored.id, .string stored.event.text]⟩ =
        some (.insert events eventNames [[.string stored.id, .string stored.event.text]]) :=
    Command.read?_insert (reads_eventInsert named _ _) (by simp [eventNames, eventColumns])
      (by simp) (by simp)
  unfold Stored.statements insertStatements Stored.commands
  cases hrows : Index.rows stored.event with
  | nil => exact congrArg (· :: []) hevent
  | cons row rows =>
      have hindex : Command.read? ⟨"INSERT INTO " ++ tables.index ++ " (eid,ts,path,value) VALUES "
            ++ joinWith ", " (List.replicate (row :: rows).length "(?,?,?,?)"),
          (row :: rows).flatMap (rowParams stored.id stored.ts.text)⟩ =
            some (.insert index indexNames
              ((row :: rows).map (rowParams stored.id stored.ts.text))) :=
        Command.read?_insert (reads_indexInsert named _ _ _) (by simp [indexNames, indexColumns])
          (by simp) (by simp [rowParams])
      exact congrArg₂ (fun first second => [first, second]) hindex hevent

end Reading

section Running

variable {events index : String}

/-- The rows of an event fit the index table, which has no key and keeps any value. -/
theorem foldlM_insert?_rows (stored : Stored) (rows : List Index.Row) (name : String)
    (records : List Record) :
    (rows.map (rowParams stored.id stored.ts.text)).foldlM (Table.insert? indexNames)
        ⟨name, indexColumns, records⟩ =
      some ⟨name, indexColumns, records ++ rows.map stored.record⟩ := by
  induction rows generalizing records with
  | nil => simp
  | cons row rows ih =>
      have hinsert : Table.insert? indexNames ⟨name, indexColumns, records⟩
          (rowParams stored.id stored.ts.text row) =
            some ⟨name, indexColumns, records ++ [stored.record row]⟩ := if_pos ⟨rfl, rfl⟩
      rw [List.map_cons, List.foldlM_cons, hinsert, Option.bind_eq_bind, Option.bind_some, ih]
      simp

theorem insert?_event {stored : Stored} {others : List Stored}
    (hid : ∀ other ∈ others, other.id ≠ stored.id) (name : String) :
    Table.insert? eventNames ⟨name, eventColumns, others.map (·.answer)⟩
        [.string stored.id, .string stored.event.text] =
      some ⟨name, eventColumns, (others ++ [stored]).map (·.answer)⟩ := by
  have hnew : (others.map (·.answer)).all
      (fun other => other.value "eid" != stored.answer.value "eid") = true := by
    rw [List.all_map, List.all_eq_true]
    intro other hother
    have hvalue : Json.string other.id ≠ Json.string stored.id := fun h =>
      hid other hother (Json.string.inj h)
    exact bne_iff_ne.mpr hvalue
  have haccepts : eventColumns.all (·.accepts (others.map (·.answer)) stored.answer) = true := by
    simp only [eventColumns, List.all_cons, List.all_nil, ColumnKind.accepts, hnew]
    rfl
  rw [List.map_append, List.map_singleton]
  exact if_pos ⟨rfl, haccepts⟩

theorem run?_createTables (hdistinct : events ≠ index) :
    [Command.create events eventColumns, .create index indexColumns].foldlM Database.run? [] =
      some (filled events index []) := by
  have hevents : Database.run? [] (.create events eventColumns) =
      some [⟨events, eventColumns, []⟩] := by
    rw [Database.run?]
    exact if_pos ⟨rfl, by decide⟩
  have hindex : Database.run? [⟨events, eventColumns, []⟩] (.create index indexColumns) =
      some (filled events index []) := by
    rw [Database.run?]
    refine if_pos ⟨?_, by decide⟩
    simp [Database.table?, hdistinct]
  simp only [List.foldlM_cons, hevents, Option.bind_eq_bind, Option.bind_some, hindex]
  rfl

theorem table?_index (hdistinct : events ≠ index) (answers records : List Record) :
    (twoTables events index answers records).table? index =
      some ⟨index, indexColumns, records⟩ := by
  simp [twoTables, Database.table?, hdistinct]

theorem table?_events (answers records : List Record) :
    (twoTables events index answers records).table? events =
      some ⟨events, eventColumns, answers⟩ := by
  simp [twoTables, Database.table?]

/-- The index rows of a new event are added after those of the others. -/
theorem run?_indexInsert (hdistinct : events ≠ index) (stored : Stored) (rows : List Index.Row)
    (answers records : List Record) :
    (twoTables events index answers records).run?
        (.insert index indexNames (rows.map (rowParams stored.id stored.ts.text))) =
      some (twoTables events index answers (records ++ rows.map stored.record)) := by
  have hnames : indexNames.Nodup ∧ indexNames ⊆ indexColumns.map (·.name) := by decide
  rw [Database.run?_insert (table?_index hdistinct answers records) hnames
    (foldlM_insert?_rows stored rows index records)]
  simp [twoTables, hdistinct]

theorem run?_eventInsert (hdistinct : events ≠ index) {stored : Stored} {others : List Stored}
    (hid : ∀ other ∈ others, other.id ≠ stored.id) (records : List Record) :
    (twoTables events index (others.map (·.answer)) records).run?
        (.insert events eventNames [[.string stored.id, .string stored.event.text]]) =
      some (twoTables events index ((others ++ [stored]).map (·.answer)) records) := by
  have hnames : eventNames.Nodup ∧ eventNames ⊆ eventColumns.map (·.name) := by decide
  have hinsert : [[Json.string stored.id, Json.string stored.event.text]].foldlM
      (Table.insert? eventNames) ⟨events, eventColumns, others.map (·.answer)⟩ =
        some ⟨events, eventColumns, (others ++ [stored]).map (·.answer)⟩ := by
    rw [List.foldlM_cons, insert?_event hid]
    rfl
  rw [Database.run?_insert (table?_events _ records) hnames hinsert]
  simp [twoTables, hdistinct.symm]

theorem foldlM_run?_commands (hdistinct : events ≠ index) {stored : Stored} {others : List Stored}
    (hid : ∀ other ∈ others, other.id ≠ stored.id) :
    (stored.commands events index).foldlM Database.run? (filled events index others) =
      some (filled events index (others ++ [stored])) := by
  have hevent := run?_eventInsert hdistinct hid
  unfold Stored.commands
  split
  · next hempty =>
      have hnone : stored.records = [] := by
        rw [Stored.records, List.isEmpty_iff.mp hempty, List.map_nil]
      simp [filled, hevent, hnone]
  · rw [List.singleton_append, List.foldlM_cons, filled, run?_indexInsert hdistinct,
      Option.bind_eq_bind, Option.bind_some, List.foldlM_cons, hevent]
    simp [filled, Stored.records]

/-- Making the tables and storing events in them is never refused when the ids differ. -/
theorem runAll?_statements {tables : Tables} (named : tables.Named events index)
    {stored : List Stored} (hids : (stored.map (·.id)).Nodup) :
    Database.runAll? [] (createTables tables ++ stored.flatMap (·.statements tables)) =
      some (filled events index stored) := by
  have hstore : ∀ others later : List Stored, ((others ++ later).map (·.id)).Nodup →
      Database.runAll? (filled events index others) (later.flatMap (·.statements tables)) =
        some (filled events index (others ++ later)) := by
    intro others later hids
    induction later generalizing others with
    | nil =>
        rw [List.append_nil]
        rfl
    | cons stored later ih =>
        have hid : ∀ other ∈ others, other.id ≠ stored.id := by
          intro other hother hsame
          rw [List.map_append, List.map_cons, List.nodup_append] at hids
          exact hids.2.2 _ (List.mem_map_of_mem hother) _ List.mem_cons_self hsame
        rw [List.flatMap_cons, Database.runAll?_append,
          Database.runAll?_of_read (read?_statements named stored),
          foldlM_run?_commands named.distinct hid, Option.bind_some,
          ih (others ++ [stored]) (by simpa using hids)]
        simp
  have hcreate : Database.runAll? [] (createTables tables) = some (filled events index []) :=
    (Database.runAll?_of_read (read?_createTables named) []).trans
      (run?_createTables named.distinct)
  rw [Database.runAll?_append, hcreate, Option.bind_some]
  exact hstore [] stored hids

end Running

end EventBus.Sql
