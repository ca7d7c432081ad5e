import EventBus.Ingest.Line
import EventBus.Proofs.Sql.Selection
import EventBus.Proofs.Time.StampOrder

/-!
Stored times decide like time. A query compares the texts of times, and of two texts the smaller
is that of the earlier instant; so what a query finds new was stored after the instant it asks
from, and events that lines were made into later have greater ids.
-/

namespace EventBus.Sql

open Relational (Database Oracle)

/-- The event is one that a pattern asks for, whenever it was stored. -/
structure Stored.Asked (oracle : Oracle) (pattern : Predicate) (event : Stored) : Prop where
  indexed : Index.rows event.event ≠ []
  found : ∀ branch ∈ Index.branches pattern, branch.predicate ≠ .present false →
    ∃ row ∈ Index.rows event.event, Finds (oracle (event.record row)) branch row
  absent : ∀ branch ∈ Index.branches pattern, branch.predicate = .present false →
    ∀ row ∈ Index.rows event.event, ¬ Index.isAtOrBelow branch.pathText row.path = true

variable {oracle : Oracle} {pattern : Predicate} {since : Instant} {event : Stored}

theorem Stored.hasNewRow_iff (hsince : since.IsDated) (hevent : event.ts.IsDated)
    (holds : Index.Row → Prop) :
    event.HasNewRow since holds ↔
      since.isBefore event.ts = true ∧ ∃ row ∈ Index.rows event.event, holds row := by
  simp only [HasNewRow, hsince.text_lt_iff hevent]
  constructor
  · rintro ⟨row, hrow, hbefore, hholds⟩
    exact ⟨hbefore, row, hrow, hholds⟩
  · rintro ⟨hbefore, row, hrow, hholds⟩
    exact ⟨row, hrow, hbefore, hholds⟩

/-- A query selects what its pattern asks for and was stored later. -/
theorem Stored.selected_iff_isBefore (hsince : since.IsDated) (hevent : event.ts.IsDated) :
    event.Selected oracle since pattern ↔
      since.isBefore event.ts = true ∧ event.Asked oracle pattern := by
  constructor
  · rintro ⟨hnew, hfound, habsent⟩
    obtain ⟨hbefore, row, hrow, -⟩ := (hasNewRow_iff hsince hevent _).mp hnew
    refine ⟨hbefore, List.ne_nil_of_mem hrow, fun branch hbranch hasks => ?_, habsent⟩
    exact ((hasNewRow_iff hsince hevent _).mp (hfound branch hbranch hasks)).2
  · rintro ⟨hbefore, hindexed, hfound, habsent⟩
    obtain ⟨row, hrow⟩ := List.exists_mem_of_ne_nil _ hindexed
    refine ⟨(hasNewRow_iff hsince hevent _).mpr ⟨hbefore, row, hrow, trivial⟩,
      fun branch hbranch hasks => ?_, habsent⟩
    exact (hasNewRow_iff hsince hevent _).mpr ⟨hbefore, hfound branch hbranch hasks⟩

/-- A compiled query answers with the events that its pattern asks for and that were stored after
its instant. -/
theorem answers_stored_later {tables : Tables} {events index : String}
    (named : tables.Named events index) {stored : List Stored} (hids : (stored.map (·.id)).Nodup)
    (hstored : ∀ event ∈ stored, event.ts.IsDated) (hsince : since.IsDated)
    {statement : Statement} (hcompiled : compilePredicate tables since pattern = .ok statement)
    (hname : ∀ n < copyCount pattern, events ≠ aliasName n) (oracle : Oracle) :
    ∃ db answers,
      Database.runAll? [] (createTables tables ++ stored.flatMap (·.statements tables)) = some db ∧
        db.answers? oracle statement = some answers ∧
        ∀ answer, answer ∈ answers ↔ ∃ event ∈ stored,
          answer = event.answer ∧ since.isBefore event.ts = true ∧ event.Asked oracle pattern := by
  unfold compilePredicate at hcompiled
  cases hquery : Select.ofPredicate pattern with
  | error error =>
      rw [hquery] at hcompiled
      cases hcompiled
  | ok query =>
      rw [hquery] at hcompiled
      obtain rfl : query.statement tables since = statement := Except.ok.inj hcompiled
      obtain ⟨hstands, -⟩ := Select.of_ofBranches_eq_ok hquery
      have hcount : copyCount pattern = query.joined.length - 1 + 1 := by
        rw [copyCount, hstands.length_eq]
        omega
      rw [hcount] at hname
      let db := filled events index stored
      have hanswers : db.answers? oracle (query.statement tables since) =
          some ((query.tree events index since.text).answers db oracle) := by
        rw [Database.answers?, Select.read?_statement named hstands since, Option.bind_some]
        exact if_pos (isNamed_tree _ _ named (by rwa [Nat.add_comm]) since.text)
      refine ⟨_, _, runAll?_statements named hids, hanswers, fun answer => ?_⟩
      rw [mem_answers_tree named hids hquery hname]
      refine exists_congr fun event => and_congr_right fun hevent => and_congr_right fun _ => ?_
      exact Stored.selected_iff_isBefore hsince (hstored event hevent)

/-- Times of years with four digits have texts of one length that sort like them, leap seconds
included; so comparing the texts, as compiled queries do, finds what was stored later, and of two
lines the one that is made into an event at a later time gets the greater id. -/
theorem timestamps_sort_like_time {t u : Instant} (ht : t.IsDated) (hu : u.IsDated) :
    t.text.length = u.text.length ∧ (t.text < u.text ↔ t.isBefore u = true) ∧
    (∀ (tables : Tables) (events index : String) (stored : List Stored) (pattern : Predicate)
        (statement : Statement) (oracle : Oracle), tables.Named events index →
      (stored.map (·.id)).Nodup → (∀ event ∈ stored, event.ts.IsDated) →
      compilePredicate tables t pattern = .ok statement →
      (∀ n < copyCount pattern, events ≠ aliasName n) →
      ∃ db answers,
        Database.runAll? [] (createTables tables ++ stored.flatMap (·.statements tables)) =
          some db ∧ db.answers? oracle statement = some answers ∧
        ∀ answer, answer ∈ answers ↔ ∃ event ∈ stored,
          answer = event.answer ∧ t.isBefore event.ts = true ∧ event.Asked oracle pattern) ∧
    (t.isBefore u = true → ∀ topic topic' line line', ∃ id id',
      (Ingest.normalize topic ⟨t⟩ line).id? = some id ∧
        (Ingest.normalize topic' ⟨u⟩ line').id? = some id' ∧ id < id') := by
  refine ⟨by rw [ht.length_text, hu.length_text], ht.text_lt_iff hu, ?_, ?_⟩
  · intro tables events index stored pattern statement oracle named hids hstored hcompiled hname
    exact answers_stored_later named hids hstored ht hcompiled hname oracle
  · intro hbefore topic topic' line line'
    exact ⟨t.text, u.text, rfl, rfl, (ht.text_lt_iff hu).mpr hbefore⟩

/-- The half of a leap second and the midnight after it. -/
theorem leap_second_sorts_before_midnight :
    let leap : Instant := ⟨1483228799, 1500000000⟩
    let midnight : Instant := ⟨1483228800, 0⟩
    leap.IsDated ∧ midnight.IsDated ∧ leap.text = "2016-12-31T23:59:60.500000000Z" ∧
      midnight.text = "2017-01-01T00:00:00.000000000Z" ∧
      leap.text.length = midnight.text.length ∧ leap.text < midnight.text := by
  intro leap midnight
  have hleap : leap.IsDated := by decide
  have hmidnight : midnight.IsDated := by decide
  obtain ⟨hlength, hless, -⟩ := timestamps_sort_like_time hleap hmidnight
  exact ⟨hleap, hmidnight, by decide, by decide, hlength, hless.mpr (by decide)⟩

end EventBus.Sql
