import EventBus.Sql.Select

/-!
Making and filling the two tables. An event is stored whole, and once more as its index
rows; an event without rows adds none.
-/

namespace EventBus.Sql

def createTables (tables : Tables) : List Statement :=
  [⟨"CREATE TABLE " ++ tables.events ++ "(eid TEXT PRIMARY KEY, event TEXT)", []⟩,
    ⟨"CREATE TABLE " ++ tables.index ++ "(eid TEXT, ts TEXT, path TEXT, value)", []⟩]

def rowParams (eid ts : String) (row : Index.Row) : List Json :=
  [.string eid, .string ts, .string row.path, row.value]

def insertStatements (tables : Tables) (ts : Instant) (eid : String) (event : Json) :
    List Statement :=
  let rows := Index.rows event
  let stored : Statement :=
    { sql := "INSERT INTO " ++ tables.events ++ " (eid,event) VALUES (?,?)"
      params := [.string eid, .string event.text] }
  if rows.isEmpty then [stored]
  else
    [{ sql := "INSERT INTO " ++ tables.index ++ " (eid,ts,path,value) VALUES "
        ++ joinWith ", " (List.replicate rows.length "(?,?,?,?)")
       params := rows.flatMap (rowParams eid ts.text) },
      stored]

end EventBus.Sql
