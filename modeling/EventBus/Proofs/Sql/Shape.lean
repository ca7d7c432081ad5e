import EventBus.Proofs.Json.Canonical
import EventBus.Proofs.Pattern.PredicateTree
import EventBus.Proofs.Sql.Branches
import EventBus.Sql.Insert
import Mathlib.Data.List.Forall2
import Mathlib.Data.List.Sort

/-!
What the text of a statement depends on. Literals, starts of texts, thresholds and paths go into
the parameters, so two predicates of one shape have the same text, and so have the insertions of
two events with the same number of rows. The shape of a predicate is what is left when these
are taken out of it: the kinds of its nodes, which literals are null, the relations of its
comparisons, and how many members and fields there are, in order.
-/

namespace EventBus

def Json.isNull : Json → Bool
  | .null => true
  | _ => false

namespace Predicate

mutual

/-- Two predicates differ in nothing but literals other than null, starts of texts, thresholds
and keys. Fields correspond in their order. -/
def sameShape : Predicate → Predicate → Bool
  | .pass, .pass => true
  | .literal a, .literal b => a.isNull == b.isNull
  | .startsWith _, .startsWith _ => true
  | .present a, .present b => a == b
  | .numeric as, .numeric bs => as.map (·.relation) == bs.map (·.relation)
  | .anyOf as, .anyOf bs => sameShapeOfMembers as bs
  | .fields as, .fields bs => sameShapeOfFields as bs
  | _, _ => false

def sameShapeOfMembers : List Predicate → List Predicate → Bool
  | [], [] => true
  | a :: as, b :: bs => sameShape a b && sameShapeOfMembers as bs
  | _, _ => false

def sameShapeOfFields : List (String × Predicate) → List (String × Predicate) → Bool
  | [], [] => true
  | (_, a) :: as, (_, b) :: bs => sameShape a b && sameShapeOfFields as bs
  | _, _ => false

end

theorem sameShapeOfMembers_iff {as bs : List Predicate} :
    sameShapeOfMembers as bs = true ↔ List.Forall₂ (fun a b => sameShape a b = true) as bs := by
  induction as generalizing bs with
  | nil => cases bs <;> simp [sameShapeOfMembers]
  | cons a as ih => cases bs <;> simp [sameShapeOfMembers, ih]

theorem sameShapeOfFields_iff {as bs : List (String × Predicate)} :
    sameShapeOfFields as bs = true ↔
      List.Forall₂ (fun a b => sameShape a.2 b.2 = true) as bs := by
  induction as generalizing bs with
  | nil => cases bs <;> simp [sameShapeOfFields]
  | cons a as ih => cases bs <;> simp [sameShapeOfFields, ih]

/-- Fields in ascending order of their keys correspond when the keys of the one are those of the
other renamed so that their order is kept. -/
theorem sameShape_fields_of_renaming {as bs : List (String × Predicate)}
    (has : as.Pairwise fun a b => a.1 < b.1) (hbs : bs.Pairwise fun a b => a.1 < b.1)
    (rename : String → String)
    (horder : ∀ a ∈ as, ∀ b ∈ as, a.1 < b.1 → rename a.1 < rename b.1)
    (hkeys : ∀ key, key ∈ bs.map Prod.fst ↔ key ∈ as.map fun a => rename a.1)
    (hchildren : ∀ a ∈ as, ∀ b ∈ bs, b.1 = rename a.1 → sameShape a.2 b.2 = true) :
    sameShape (.fields as) (.fields bs) = true := by
  have hrenamed : (as.map fun a => rename a.1).Pairwise (· < ·) := by
    rw [List.pairwise_map]
    exact has.imp_of_mem fun ha hb hab => horder _ ha _ hb hab
  have hnames : (bs.map Prod.fst).Pairwise (· < ·) := List.pairwise_map.mpr hbs
  have heq : as.map (fun a => rename a.1) = bs.map Prod.fst := by
    refine List.Perm.eq_of_pairwise' hrenamed hnames ?_
    rw [List.perm_ext_iff_of_nodup (hrenamed.imp ne_of_lt) (hnames.imp ne_of_lt)]
    exact fun key => (hkeys key).symm
  rw [sameShape, sameShapeOfFields_iff]
  clear has hbs horder hkeys hrenamed hnames
  induction as generalizing bs with
  | nil =>
      obtain rfl : bs = [] := by simpa using heq.symm
      exact .nil
  | cons a as ih =>
      cases bs with
      | nil => simp at heq
      | cons b bs =>
          obtain ⟨hfirst, hlater⟩ := List.cons.inj heq
          refine .cons (hchildren a List.mem_cons_self b List.mem_cons_self hfirst.symm) ?_
          exact ih (fun c hc d hd =>
            hchildren c (List.mem_cons_of_mem _ hc) d (List.mem_cons_of_mem _ hd)) hlater

end Predicate

namespace Sql

open Predicate (sameShape)

namespace Condition

theorem isSome_listed?_eq {p q : Predicate} (h : sameShape p q = true) :
    (listed? p).isSome = (listed? q).isSome := by
  cases p with
  | literal a =>
      cases q with
      | literal b => cases a <;> cases b <;> simp_all [sameShape, listed?, Json.isNull]
      | _ => simp [sameShape] at h
  | _ => cases q <;> simp_all [sameShape, listed?]

/-- Members of one shape are listed together, and then there are as many values. -/
theorem length_listedAll?_eq {ps qs : List Predicate}
    (h : List.Forall₂ (fun p q => sameShape p q = true) ps qs) :
    (listedAll? ps).map List.length = (listedAll? qs).map List.length := by
  induction h with
  | nil => rfl
  | @cons p q ps qs hpq _ ih =>
      have hsome := isSome_listed?_eq hpq
      rw [listedAll?, listedAll?]
      cases hp : listed? p <;> cases hq : listed? q <;> simp [hp, hq] at hsome ⊢
      cases hps : listedAll? ps <;> cases hqs : listedAll? qs <;> simp_all

theorem sql_compares (column : String) (first : Comparison) (rest : List Comparison) :
    sql column (.compares first rest) =
      joinWith " AND " (((first :: rest).map (·.relation)).map fun relation =>
        column ++ " " ++ relation.sign ++ " ?") := by
  rw [sql, List.map_map]
  rfl

theorem sqlParts_ofLeaves?_cons (column : String) (p : Predicate) (ps : List Predicate) :
    (ofLeaves? (p :: ps)).map (sqlParts column) =
      ((ofLeaf? p).map (sql column)).bind fun part =>
        ((ofLeaves? ps).map (sqlParts column)).map fun parts => ("(" ++ part ++ ")") :: parts := by
  rw [ofLeaves?]
  cases ofLeaf? p with
  | none => rfl
  | some condition => cases ofLeaves? ps <;> rfl

theorem sql_ofLeaf?_anyOf_cons (column : String) (p : Predicate) (ps : List Predicate) :
    (ofLeaf? (.anyOf (p :: ps))).map (sql column) =
      match (listedAll? (p :: ps)).map List.length with
      | some n => some (column ++ " IN (" ++ placeholders n ++ ")")
      | none => ((ofLeaves? (p :: ps)).map (sqlParts column)).map fun parts =>
          "(" ++ joinWith " OR " parts ++ ")" := by
  rw [ofLeaf?]
  cases listedAll? (p :: ps) with
  | some values => rfl
  | none => cases ofLeaves? (p :: ps) <;> rfl

/-- The condition of a leaf is one text about a column for all leaves of one shape. -/
theorem sql_ofLeaf?_eq {p q : Predicate} (h : sameShape p q = true) (column : String) :
    (ofLeaf? p).map (sql column) = (ofLeaf? q).map (sql column) := by
  induction p using Predicate.partsInduction generalizing q with
  | pass => cases q <;> simp_all [sameShape]
  | literal a =>
      cases q with
      | literal b =>
          cases a <;> cases b <;> simp_all [sameShape, Json.isNull, ofLeaf?, sql]
      | _ => simp [sameShape] at h
  | startsWith start => cases q <;> simp_all [sameShape, ofLeaf?, sql]
  | present want => cases q <;> simp_all [sameShape]
  | numeric as =>
      cases q with
      | numeric bs =>
          have hrelations : as.map (·.relation) = bs.map (·.relation) := by
            simpa [sameShape] using h
          cases as with
          | nil => cases bs <;> simp_all [ofLeaf?]
          | cons a as =>
              cases bs with
              | nil => simp at hrelations
              | cons b bs =>
                  simp only [ofLeaf?, Option.map_some, sql_compares, hrelations]
      | _ => simp [sameShape] at h
  | anyOf ps ih =>
      cases q with
      | anyOf qs =>
          have hmembers := Predicate.sameShapeOfMembers_iff.mp h
          have hparts : (ofLeaves? ps).map (sqlParts column) =
              (ofLeaves? qs).map (sqlParts column) := by
            clear h
            induction hmembers with
            | nil => rfl
            | @cons p q ps qs hpq _ ihlater =>
                have hfirst := ih p List.mem_cons_self hpq
                have hlater := ihlater fun member hmember =>
                  ih member (List.mem_cons_of_mem _ hmember)
                rw [sqlParts_ofLeaves?_cons, sqlParts_ofLeaves?_cons, hfirst, hlater]
          cases hmembers with
          | nil => rfl
          | cons hpq hmembers =>
              rw [sql_ofLeaf?_anyOf_cons, sql_ofLeaf?_anyOf_cons, hparts,
                length_listedAll?_eq (.cons hpq hmembers)]
      | _ => simp [sameShape] at h
  | fields entries => cases q <;> simp_all [sameShape, ofLeaf?]

end Condition

/-- The branches of predicates of one shape have predicates of one shape, in the same order. -/
theorem branchesAt_sameShape {p q : Predicate} (h : sameShape p q = true)
    (path other : List String) :
    List.Forall₂ (fun a b => sameShape a.predicate b.predicate = true)
      (Index.branchesAt path p) (Index.branchesAt other q) := by
  induction p using Predicate.partsInduction generalizing q path other with
  | fields as ih =>
      cases q with
      | fields bs =>
          have hfields := Predicate.sameShapeOfFields_iff.mp h
          clear h
          rw [Index.branchesAt, Index.branchesAt]
          induction hfields with
          | nil => exact .nil
          | @cons a b as bs hab _ ihlater =>
              have hfirst := ih a List.mem_cons_self hab (path ++ [a.1]) (other ++ [b.1])
              have hlater := ihlater fun entry hentry => ih entry (List.mem_cons_of_mem _ hentry)
              exact List.rel_append hfirst hlater
      | _ => simp [sameShape] at h
  | pass => cases q <;> simp_all [sameShape, Index.branchesAt]
  | literal a => cases q <;> simp_all [sameShape, Index.branchesAt]
  | startsWith start => cases q <;> simp_all [sameShape, Index.branchesAt]
  | present want => cases q <;> simp_all [sameShape, Index.branchesAt]
  | numeric as => cases q <;> simp_all [sameShape, Index.branchesAt]
  | anyOf ps ih => cases q <;> simp_all [sameShape, Index.branchesAt]

/-- Two joined copies have the same text, whatever the instants. -/
def Joined.SameText (a b : Joined) : Prop :=
  ∀ since later n, (a.fragment since n).sql = (b.fragment later n).sql

theorem Joined.present_sameText (path other : String) :
    Joined.SameText (.present path) (.present other) := fun _ _ _ => rfl

theorem Joined.leaf_sameText {a b : Condition} (h : ∀ column, a.sql column = b.sql column)
    (path other : String) : Joined.SameText (.leaf path a) (.leaf other b) := by
  intro since later n
  simp only [Joined.fragment, h]

namespace Select

/-- Two queries join copies with the same texts, and ask for absence as often. -/
structure SameText (a b : Select) : Prop where
  joined : List.Forall₂ Joined.SameText a.joined b.joined
  absent : a.absent.length = b.absent.length

/-- Two attempts both fail, or both give queries with the same texts. -/
def SameOutcome : Except QueryError Select → Except QueryError Select → Prop
  | .ok a, .ok b => a.SameText b
  | .error _, .error _ => True
  | _, _ => False

theorem SameOutcome.map {x y : Except QueryError Select} (h : SameOutcome x y)
    {f g : Select → Select} (hfg : ∀ a b, a.SameText b → (f a).SameText (g b)) :
    SameOutcome (x.map f) (y.map g) := by
  cases x with
  | error => cases y <;> exact h
  | ok a =>
      cases y with
      | error => exact h
      | ok b => exact hfg a b h

theorem ofBranches_sameOutcome {as bs : List Index.Branch}
    (h : List.Forall₂ (fun a b => sameShape a.predicate b.predicate = true) as bs) :
    SameOutcome (ofBranches as) (ofBranches bs) := by
  induction h with
  | nil => exact ⟨.nil, rfl⟩
  | @cons a b as bs hab _ ih =>
      obtain ⟨path, p⟩ := a
      obtain ⟨other, q⟩ := b
      by_cases hpresent : ∃ want, p = .present want
      · obtain ⟨want, rfl⟩ := hpresent
        obtain rfl : q = .present want := by
          cases q <;> simp_all [sameShape]
        rw [ofBranches_cons_present, ofBranches_cons_present]
        refine ih.map fun a b hsame => ?_
        cases want with
        | false => exact ⟨hsame.joined, congrArg Nat.succ hsame.absent⟩
        | true => exact ⟨.cons (Joined.present_sameText _ _) hsame.joined, hsame.absent⟩
      · have hp : ∀ want, p ≠ .present want := fun want hwant => hpresent ⟨want, hwant⟩
        have hq : ∀ want, q ≠ .present want := by
          rintro want rfl
          cases p <;> simp_all [sameShape]
        rw [ofBranches_cons_leaf hp, ofBranches_cons_leaf hq]
        have hsql := Condition.sql_ofLeaf?_eq hab
        cases hc : Condition.ofLeaf? p with
        | none =>
            cases hd : Condition.ofLeaf? q with
            | none => exact trivial
            | some d => simp [hc, hd] at hsql
        | some c =>
            cases hd : Condition.ofLeaf? q with
            | none => simp [hc, hd] at hsql
            | some d =>
                have hcolumn : ∀ column, c.sql column = d.sql column := by
                  intro column
                  simpa [hc, hd] using hsql column
                refine ih.map fun a b hsame => ?_
                exact ⟨.cons (Joined.leaf_sameText hcolumn _ _) hsame.joined, hsame.absent⟩

theorem joinedFragments_sql_eq {as bs : List Joined} (h : List.Forall₂ Joined.SameText as bs)
    (since later : String) (n : Nat) :
    (joinedFragments since n as).map (·.sql) = (joinedFragments later n bs).map (·.sql) := by
  induction h generalizing n with
  | nil => rfl
  | cons hab _ ih => simp only [joinedFragments, List.map_cons, hab since later n, ih (n + 1)]

theorem absentFragments_sql (index : String) (paths : List String) :
    (paths.map (absentFragment index)).map (·.sql) =
      List.replicate paths.length (absentFragment index "").sql := by
  rw [List.map_map, ← List.map_const']
  rfl

theorem fragments_sql_eq {a b : Select} (h : a.SameText b) (index since later : String) :
    (a.fragments index since).map (·.sql) = (b.fragments index later).map (·.sql) := by
  have hlength : a.joined.length = b.joined.length := h.joined.length_eq
  have hempty : a.joined.isEmpty = b.joined.isEmpty := by
    rw [Bool.eq_iff_iff, List.isEmpty_iff_length_eq_zero, List.isEmpty_iff_length_eq_zero, hlength]
  simp only [fragments, List.map_append, absentFragments_sql, h.absent, hempty]
  congr 1
  split
  · rfl
  · exact joinedFragments_sql_eq h.joined since later 0

/-- The text of a query depends on its instant in nothing. -/
theorem statement_sql_eq {a b : Select} (h : a.SameText b) (tables : Tables)
    (since later : Instant) :
    (a.statement tables since).sql = (b.statement tables later).sql := by
  simp only [statement, joinLines, h.joined.length_eq,
    fragments_sql_eq h tables.index since.text later.text]

end Select

/-- The texts of statements do not depend on what users write. Of two predicates of one shape,
for any two instants, both fail to compile or both have the same text; and any two events with
the same number of rows are inserted by the same texts. -/
theorem sql_independent_of_texts (tables : Tables) :
    (∀ (p q : Predicate) (since later : Instant), sameShape p q = true →
      (compilePredicate tables since p).toOption.map (·.sql) =
        (compilePredicate tables later q).toOption.map (·.sql)) ∧
    ∀ (event other : Json) (ts later : Instant) (eid id : String),
      (Index.rows event).length = (Index.rows other).length →
      (insertStatements tables ts eid event).map (·.sql) =
        (insertStatements tables later id other).map (·.sql) := by
  constructor
  · intro p q since later hshape
    have houtcome := Select.ofBranches_sameOutcome (branchesAt_sameShape hshape [] [])
    unfold compilePredicate Select.ofPredicate Index.branches
    cases ha : Select.ofBranches (Index.branchesAt [] p) <;>
      cases hb : Select.ofBranches (Index.branchesAt [] q) <;>
      rw [ha, hb] at houtcome
    · rfl
    · exact houtcome.elim
    · exact houtcome.elim
    · exact congrArg some (Select.statement_sql_eq houtcome tables since later)
  · intro event other ts later eid id hlength
    have hempty : (Index.rows event).isEmpty = (Index.rows other).isEmpty := by
      rw [Bool.eq_iff_iff, List.isEmpty_iff_length_eq_zero, List.isEmpty_iff_length_eq_zero,
        hlength]
    simp only [insertStatements, hempty]
    split
    · rfl
    · simp only [List.map_cons, List.map_nil, hlength]

/-- A quote, a wildcard and a question mark in place of plain texts change the parameters only. -/
theorem hostile_texts_leave_sql :
    let p : Predicate := .fields [("a", .anyOf [.literal (.string "x"), .startsWith "y"]),
      ("b", .present false), ("c", .numeric [⟨.less, .ofInt 1⟩])]
    let q : Predicate := .fields [("'; --", .anyOf [.literal (.number (.int 3)), .startsWith "%'"]),
      ("?", .present false), ("t0.ts", .numeric [⟨.less, .ofInt 2⟩])]
    let tables : Tables := ⟨"events", "fields"⟩
    sameShape p q = true ∧
      (compilePredicate tables ⟨0, 0⟩ p).toOption.map (·.sql) =
        (compilePredicate tables ⟨86400, 7⟩ q).toOption.map (·.sql) ∧
      (insertStatements tables ⟨0, 0⟩ "1" (.object [("a", .null)])).map (·.sql) =
        (insertStatements tables ⟨1, 0⟩ "'?" (.string "?,?")).map (·.sql) := by
  intro p q tables
  let rename (key : String) : String :=
    if key = "a" then "'; --" else if key = "b" then "?" else "t0.ts"
  have hshape : sameShape p q = true := by
    refine Predicate.sameShape_fields_of_renaming ?_ ?_ rename ?_ (fun key => ?_) ?_
    · decide
    · decide
    · decide
    · simp [rename]
    · decide
  obtain ⟨hquery, hinsert⟩ := sql_independent_of_texts tables
  exact ⟨hshape, hquery p q _ _ hshape, hinsert _ _ _ _ _ _ rfl⟩

end Sql

end EventBus
