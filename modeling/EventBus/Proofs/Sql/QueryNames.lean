import EventBus.Proofs.Sql.Filling

/-!
The names in a query. The joined copies of the index are called by their place, so each name leads
to its own copy, whatever the number of copies, and the events table keeps a name apart from
theirs. So every column of a compiled query is one of the tables, and no name is given twice.
-/

namespace EventBus.Sql

open Relational (Atom Database Frame Operand Check Join Source)

/-- Things under the names of the joined copies, in their order. -/
def copies {α : Type} (xs : List α) : List (String × α) := xs.mapIdx fun n x => (aliasName n, x)

section Copies

variable {α : Type}

theorem copies_concat (xs : List α) (x : α) :
    copies (xs ++ [x]) = copies xs ++ [(aliasName xs.length, x)] := by
  simp [copies, List.mapIdx_concat]

theorem lookup_copies (xs : List α) (n : Nat) : (copies xs).lookup (aliasName n) = xs[n]? := by
  induction xs using List.reverseRecOn with
  | nil => rfl
  | append_singleton xs x ih =>
      rw [copies_concat, List.lookup_append, ih]
      rcases Nat.lt_trichotomy n xs.length with hless | rfl | hmore
      · rw [List.getElem?_append_left hless, List.getElem?_eq_getElem hless, Option.some_or]
      · simp
      · have hother : (aliasName n == aliasName xs.length) = false := by
          rw [beq_eq_false_iff_ne, ne_eq, aliasName_inj]
          omega
        have hlonger : (xs ++ [x]).length ≤ n := by
          rw [List.length_append, List.length_singleton]
          omega
        rw [List.getElem?_eq_none (by omega), List.getElem?_eq_none hlonger, Option.none_or,
          List.lookup_cons, hother]
        rfl

theorem lookup_copies_of_not_alias {name : String} {xs : List α}
    (h : ∀ n < xs.length, name ≠ aliasName n) : (copies xs).lookup name = none := by
  induction xs using List.reverseRecOn with
  | nil => rfl
  | append_singleton xs x ih =>
      rw [List.length_append, List.length_singleton] at h
      rw [copies_concat, List.lookup_append, ih fun n hn => h n (Nat.lt_succ_of_lt hn),
        Option.none_or, List.lookup_cons, beq_eq_false_iff_ne.mpr (h _ (Nat.lt_succ_self _))]
      rfl

/-- The names in a whole query: the copies, and the events table after them. -/
theorem lookup_copies_append {xs : List α} {n : Nat} {x : α} (hn : xs[n]? = some x)
    (more : List (String × α)) : (copies xs ++ more).lookup (aliasName n) = some x := by
  rw [List.lookup_append, lookup_copies, hn, Option.some_or]

theorem lookup_append_events {events : String} {xs : List α}
    (h : ∀ n < xs.length, events ≠ aliasName n) (x : α) :
    (copies xs ++ [(events, x)]).lookup events = some x := by
  rw [List.lookup_append, lookup_copies_of_not_alias h, Option.none_or, List.lookup_cons_self]

end Copies

section Columns

variable {db : Database} {frame : Frame} {n : Nat}

theorem isNamed_column {source name : String} {names : List String}
    (hsource : frame.lookup source = some names) (hname : name ∈ names) :
    (Operand.column source name).isNamed frame = true := by
  simpa [Operand.isNamed, hsource] using hname

theorem isNamed_sameEvent {name other : String} {names others : List String}
    (hname : frame.lookup name = some names) (hother : frame.lookup other = some others)
    (hin : "eid" ∈ names) (hinOther : "eid" ∈ others) :
    (sameEvent name other).isNamed db frame = true := by
  simp [sameEvent, Atom.isNamed, Check.isNamed, isNamed_column hname hin,
    isNamed_column hother hinOther]

theorem isNamed_atOrBelowAtom {column : Operand} (h : column.isNamed frame = true)
    (path : String) : (atOrBelowAtom column path).isNamed db frame = true := by
  simp [atOrBelowAtom, Atom.isNamed, Relational.Condition.isNamed_any, h, Check.isNamed]

mutual

theorem Condition.isNamed_tree {column : Operand} (h : column.isNamed frame = true) :
    ∀ condition : Condition, (tree column condition).isNamed db frame = true
  | .always | .never | .isIn [] | .any [] => by
      simp [tree, equalNumbers, Relational.Condition.isNamed, Atom.isNamed, Check.isNamed]
  | .isNull | .isNotNull | .equals _ | .like _ | .isIn (_ :: _) => by
      simp [tree, Relational.Condition.isNamed, Atom.isNamed, Check.isNamed, h]
  | .compares _ _ => by
      simp [tree, Relational.Condition.isNamed_all, comparisonAtom, Atom.isNamed, Check.isNamed, h]
  | .any (condition :: conditions) => by
      have hfirst := isNamed_tree h condition
      have hrest := isNamed_groups h conditions
      simp only [tree, Relational.Condition.isNamed, Atom.isNamed, Relational.Condition.isNamed_any,
        List.all_cons, hfirst, hrest, Bool.and_self]

theorem Condition.isNamed_groups {column : Operand} (h : column.isNamed frame = true) :
    ∀ conditions : List Condition, (groups column conditions).all (·.isNamed db frame) = true
  | [] => rfl
  | condition :: conditions => by
      have hfirst := isNamed_tree h condition
      have hrest := isNamed_groups h conditions
      simp only [groups, List.all_cons, Atom.isNamed, hfirst, hrest, Bool.and_self]

end

theorem Joined.isNamed_atom (hn : frame.lookup (aliasName n) = some indexNames) (since : String)
    (joined : Joined) : (joined.atom since n).isNamed db frame = true := by
  have hcolumn : ∀ name ∈ indexNames, (copyColumn n name).isNamed frame = true :=
    fun name hname => isNamed_column hn hname
  have hts := hcolumn "ts" (by decide)
  have hpath := hcolumn "path" (by decide)
  cases joined with
  | present path =>
      simp [Joined.atom, newerAtom, Atom.isNamed, Relational.Condition.isNamed_all, Check.isNamed,
        hts, isNamed_atOrBelowAtom hpath]
  | leaf path condition =>
      have hvalue : (condition.tree (copyColumn n "value")).isNamed db frame = true :=
        Condition.isNamed_tree (hcolumn "value" (by decide)) condition
      simp [Joined.atom, newerAtom, Atom.isNamed, Relational.Condition.isNamed, Check.isNamed, hts,
        hpath, hvalue]

theorem isNamed_joinedAtoms {joined : List Joined} (since : String)
    (h : ∀ m < joined.length, frame.lookup (aliasName (n + m)) = some indexNames) :
    (joinedAtoms since n joined).all (·.isNamed db frame) = true := by
  induction joined generalizing n with
  | nil => rfl
  | cons first rest ih =>
      have hfirst : (first.atom since n).isNamed db frame = true :=
        Joined.isNamed_atom (h 0 (by simp)) since first
      rw [joinedAtoms, List.all_cons, hfirst, Bool.true_and]
      refine ih fun m hm => ?_
      rw [Nat.add_assoc, Nat.add_comm 1 m]
      exact h (m + 1) (by simpa using hm)

theorem isNamed_absentAtom {index : String} (hindex : db.columns? index = some indexNames)
    (hfirst : frame.lookup (aliasName 0) = some indexNames) (path : String) :
    (absentAtom index path).isNamed db frame = true := by
  have hin : ∀ name ∈ indexNames,
      (Operand.column "x" name).isNamed (("x", indexNames) :: frame) = true :=
    fun name hname => isNamed_column List.lookup_cons_self hname
  have hother : (aliasName 0 == "x") = false := by decide
  have hsame : (sameEvent "x" (aliasName 0)).isNamed db (("x", indexNames) :: frame) = true :=
    isNamed_sameEvent List.lookup_cons_self (by rw [List.lookup_cons, hother]; exact hfirst)
      (by decide) (by decide)
  simp [absentAtom, Atom.isNamed, hindex, Relational.Condition.isNamed_all, hsame,
    isNamed_atOrBelowAtom (hin "path" (by decide))]

end Columns

section Queries

variable {events index : String} (answers records : List Relational.Record)

theorem columns?_index (hdistinct : events ≠ index) :
    (twoTables events index answers records).columns? index = some indexNames := by
  rw [Database.columns?, table?_index hdistinct]
  rfl

theorem columns?_events :
    (twoTables events index answers records).columns? events = some eventNames := by
  rw [Database.columns?, table?_events]
  rfl

/-- One more copy of the index table is joined under a new name. -/
theorem joinFrame?_copyJoin {tables : Tables} (named : tables.Named events index) (count : Nat)
    (joins : List Join) :
    Relational.joinFrame? (twoTables events index answers records)
        (copies (List.replicate count indexNames)) (Select.copyJoin index count :: joins) =
      Relational.joinFrame? (twoTables events index answers records)
        (copies (List.replicate (count + 1) indexNames)) joins := by
  have hzero : (List.replicate (count + 1) indexNames)[0]? = some indexNames := by simp
  have hlast : (List.replicate (count + 1) indexNames)[count]? = some indexNames := by simp
  have hframe : copies (List.replicate count indexNames) ++ [(aliasName count, indexNames)] =
      copies (List.replicate (count + 1) indexNames) := by
    rw [List.replicate_succ', copies_concat, List.length_replicate]
  have hadd : (Select.copyJoin index count).source.addTo?
      (twoTables events index answers records) (copies (List.replicate count indexNames)) =
        some (copies (List.replicate (count + 1) indexNames)) := by
    simp [Source.addTo?, Select.copyJoin, Source.name, columns?_index _ _ named.distinct,
      lookup_copies, hframe]
  have hsame : (Select.copyJoin index count).condition.isNamed
      (twoTables events index answers records)
      (copies (List.replicate (count + 1) indexNames)) = true := by
    rw [Select.copyJoin, Relational.Condition.isNamed]
    exact isNamed_sameEvent (by rw [lookup_copies, hlast]) (by rw [lookup_copies, hzero])
      (by decide) (by decide)
  simp only [Relational.joinFrame?, hadd, hsame, if_true]

/-- The events table is joined last, under its own name. -/
theorem joinFrame?_eventsJoin {count : Nat} (hcount : 0 < count)
    (hnot : ∀ n < count, events ≠ aliasName n) :
    Relational.joinFrame? (twoTables events index answers records)
        (copies (List.replicate count indexNames)) [Select.eventsJoin events] =
      some (copies (List.replicate count indexNames) ++ [(events, eventNames)]) := by
  have hnames : ∀ n < (List.replicate count indexNames).length, events ≠ aliasName n := by
    rwa [List.length_replicate]
  have hzero : (List.replicate count indexNames)[0]? = some indexNames := by simp [hcount]
  have hadd : (Select.eventsJoin events).source.addTo?
      (twoTables events index answers records) (copies (List.replicate count indexNames)) =
        some (copies (List.replicate count indexNames) ++ [(events, eventNames)]) := by
    simp [Source.addTo?, Select.eventsJoin, Source.name, columns?_events,
      lookup_copies_of_not_alias hnames]
  have hsame : (Select.eventsJoin events).condition.isNamed
      (twoTables events index answers records)
      (copies (List.replicate count indexNames) ++ [(events, eventNames)]) = true := by
    rw [Select.eventsJoin, Relational.Condition.isNamed]
    exact isNamed_sameEvent (lookup_append_events hnames _)
      (lookup_copies_append hzero _) (by decide) (by decide)
  simp only [Relational.joinFrame?, hadd, hsame, if_true]

/-- The copies of the index table that are joined get new names, and so does the events table. -/
theorem joinFrame?_joins {tables : Tables} (named : tables.Named events index)
    {first more : Nat} (hfirst : 0 < first) (hnot : ∀ n < first + more, events ≠ aliasName n) :
    Relational.joinFrame? (twoTables events index answers records)
        (copies (List.replicate first indexNames))
        ((List.range' first more).map (Select.copyJoin index) ++ [Select.eventsJoin events]) =
      some (copies (List.replicate (first + more) indexNames) ++ [(events, eventNames)]) := by
  induction more generalizing first with
  | zero => exact joinFrame?_eventsJoin answers records hfirst hnot
  | succ more ih =>
      have hshift : first + 1 + more = first + (more + 1) := by omega
      rw [List.range'_succ, List.map_cons, List.cons_append,
        joinFrame?_copyJoin answers records named,
        ih (by omega : 0 < first + 1) (by rwa [hshift]), hshift]

/-- Every name of the filter is there when each copy has its name. -/
theorem isNamed_filter {tables : Tables} (named : tables.Named events index) (query : Select)
    (since : String) {frame : Frame}
    (hcopies : ∀ n ≤ query.joined.length - 1, frame.lookup (aliasName n) = some indexNames) :
    (query.tree events index since).filter.isNamed
      (twoTables events index answers records) frame = true := by
  have hjoined : (joinedAtoms since 0 query.joined).all
      (·.isNamed (twoTables events index answers records) frame) = true :=
    isNamed_joinedAtoms since fun m hm => hcopies (0 + m) (by omega)
  have hts : (copyColumn 0 "ts").isNamed frame = true :=
    isNamed_column (hcopies 0 (Nat.zero_le _)) (by decide)
  have habsent : (query.absent.map (absentAtom index)).all
      (·.isNamed (twoTables events index answers records) frame) = true := by
    rw [List.all_map, List.all_eq_true]
    exact fun path _ => isNamed_absentAtom (columns?_index _ _ named.distinct)
      (hcopies 0 (Nat.zero_le _)) path
  obtain ⟨first, rest, hatoms⟩ := List.exists_cons_of_ne_nil (query.atoms_ne_nil index since)
  rw [Select.tree, hatoms, Relational.Condition.allOf, Relational.Condition.isNamed_all, ← hatoms,
    Select.atoms, List.all_append, habsent, Bool.and_true]
  split
  · simp [newerAtom, Atom.isNamed, Relational.Condition.isNamed, Check.isNamed, hts]
  · exact hjoined

/-- Every name of a compiled query is there. -/
theorem isNamed_tree {tables : Tables} (named : tables.Named events index) {query : Select}
    (hnot : ∀ n < 1 + (query.joined.length - 1), events ≠ aliasName n) (since : String) :
    (query.tree events index since).isNamed (twoTables events index answers records) = true := by
  have hfirst : (Select.firstCopy index).addTo? (twoTables events index answers records) [] =
      some (copies (List.replicate 1 indexNames)) := by
    simp only [Source.addTo?, Select.firstCopy, columns?_index _ _ named.distinct]
    rfl
  have hjoins := joinFrame?_joins answers records named Nat.one_pos hnot
  -- From here on only the names of the copies count, not how the frame came about.
  generalize hcopies : List.replicate (1 + (query.joined.length - 1)) indexNames = names at hjoins
  have hnames : ∀ m ≤ query.joined.length - 1,
      (copies names ++ [(events, eventNames)]).lookup (aliasName m) = some indexNames := by
    intro m hm
    refine lookup_copies_append ?_ _
    rw [← hcopies, List.getElem?_replicate_of_lt (by omega)]
  have hevents : (copies names ++ [(events, eventNames)]).lookup events = some eventNames := by
    refine lookup_append_events ?_ eventNames
    rwa [← hcopies, List.length_replicate]
  have hcolumns : (Select.columns events).all (fun column =>
      (Operand.column column.source column.name).isNamed
        (copies names ++ [(events, eventNames)])) = true := by
    simp [Select.columns, isNamed_column (hnames 0 (Nat.zero_le _))
      (by decide : "eid" ∈ indexNames), isNamed_column hevents (by decide : "event" ∈ eventNames)]
  have hframe : ((Select.firstCopy index).addTo? (twoTables events index answers records) []).bind
      (fun frame => Relational.joinFrame? (twoTables events index answers records) frame
        (query.tree events index since).joins) =
        some (copies names ++ [(events, eventNames)]) := by
    rw [hfirst]
    exact hjoins
  exact Relational.Query.isNamed_of_frame _ hframe
    (isNamed_filter answers records named query since hnames) hcolumns

end Queries

end EventBus.Sql
