import EventBus.Proofs.Pattern.DocumentParts
import EventBus.Sql.Select
import Mathlib.Data.List.Forall2

/-!
How leaves become conditions, and branches a query. Each branch gives either one joined copy of
the index or one path that must have no row, in the order of the branches; a branch whose leaf has
no condition fails the whole.
-/

namespace EventBus.Sql.Condition

theorem forall₂_of_mapM_eq_some {α β : Type} {f : α → Option β} {as : List α} {bs : List β}
    (h : as.mapM f = some bs) : List.Forall₂ (fun a b => f a = some b) as bs := by
  induction as generalizing bs with
  | nil =>
      obtain rfl : [] = bs := by simpa using h
      exact .nil
  | cons a as ih =>
      rw [List.mapM_cons] at h
      obtain ⟨b, hb, hrest⟩ := Option.bind_eq_some_iff.mp h
      obtain ⟨rest, hlater, hbs⟩ := Option.bind_eq_some_iff.mp hrest
      obtain rfl : b :: rest = bs := Option.some.inj hbs
      exact .cons hb (ih hlater)

theorem exists_of_forall₂ {α β : Type} {R : α → β → Prop} {as : List α} {bs : List β}
    (h : List.Forall₂ R as bs) {b : β} (hb : b ∈ bs) : ∃ a ∈ as, R a b := by
  induction h with
  | nil => cases hb
  | @cons a first as bs hfirst _ ih =>
      rcases List.mem_cons.mp hb with rfl | hb
      · exact ⟨a, List.mem_cons_self, hfirst⟩
      · obtain ⟨other, hother, hrelated⟩ := ih hb
        exact ⟨other, List.mem_cons_of_mem _ hother, hrelated⟩

/-- Of two lists whose elements correspond, each has an element with a property when the other has
one with its own. -/
theorem exists_iff_of_forall₂ {α β : Type} {R : α → β → Prop} {as : List α} {bs : List β}
    (h : List.Forall₂ R as bs) {P : α → Prop} {Q : β → Prop}
    (hsame : ∀ a ∈ as, ∀ b, R a b → (Q b ↔ P a)) : (∃ b ∈ bs, Q b) ↔ ∃ a ∈ as, P a := by
  constructor
  · rintro ⟨b, hb, hholds⟩
    obtain ⟨a, ha, hrelated⟩ := exists_of_forall₂ h hb
    exact ⟨a, ha, (hsame a ha b hrelated).mp hholds⟩
  · rintro ⟨a, ha, hholds⟩
    obtain ⟨b, hb, hrelated⟩ := exists_of_forall₂ h.flip ha
    exact ⟨b, hb, (hsame a ha b hrelated).mpr hholds⟩

theorem ofLeaves?_eq_mapM (members : List Predicate) :
    ofLeaves? members = members.mapM ofLeaf? := by
  induction members with
  | nil => rfl
  | cons member members ih => rw [ofLeaves?, ih, List.mapM_cons]

theorem listedAll?_eq_mapM (members : List Predicate) :
    listedAll? members = members.mapM listed? := by
  induction members with
  | nil => rfl
  | cons member members ih => rw [listedAll?, ih, List.mapM_cons]

/-- The conditions of members stand for them one by one. -/
theorem forall₂_of_ofLeaves? {members : List Predicate} {conditions : List Condition}
    (h : ofLeaves? members = some conditions) :
    List.Forall₂ (fun member condition => ofLeaf? member = some condition) members conditions :=
  forall₂_of_mapM_eq_some (ofLeaves?_eq_mapM members ▸ h)

theorem forall₂_of_listedAll? {members : List Predicate} {values : List Json}
    (h : listedAll? members = some values) :
    List.Forall₂ (fun member value => listed? member = some value) members values :=
  forall₂_of_mapM_eq_some (listedAll?_eq_mapM members ▸ h)

/-- The condition of a leaf, by the form of the leaf: a disjunction is a list of values, or has
the conditions of its members. -/
theorem ofLeaf?_anyOf {members : List Predicate} {condition : Condition}
    (h : ofLeaf? (.anyOf members) = some condition) :
    (members = [] ∧ condition = .never) ∨
      (∃ value values, condition = .isIn (value :: values) ∧
        List.Forall₂ (fun member value => listed? member = some value) members
          (value :: values)) ∨
      ∃ first rest, condition = .any (first :: rest) ∧
        List.Forall₂ (fun member condition => ofLeaf? member = some condition) members
          (first :: rest) := by
  cases members with
  | nil => exact Or.inl ⟨rfl, (Option.some.inj h).symm⟩
  | cons member members =>
      rw [ofLeaf?] at h
      cases hlisted : listedAll? (member :: members) with
      | some values =>
          have hvalues := forall₂_of_listedAll? hlisted
          rw [hlisted] at h
          cases hvalues with
          | @cons _ value _ values hfirst hlater =>
              exact Or.inr (Or.inl ⟨value, values, (Option.some.inj h).symm, .cons hfirst hlater⟩)
      | none =>
          rw [hlisted] at h
          obtain ⟨conditions, hconditions, hany⟩ := Option.map_eq_some_iff.mp h
          cases forall₂_of_ofLeaves? hconditions with
          | @cons _ first _ rest hfirst hlater =>
              exact Or.inr (Or.inr ⟨first, rest, hany.symm, .cons hfirst hlater⟩)

end EventBus.Sql.Condition

namespace EventBus.Sql.Select

theorem ofBranches_cons_present (path : List String) (want : Bool)
    (branches : List Index.Branch) :
    ofBranches (⟨path, .present want⟩ :: branches) =
      (ofBranches branches).map fun rest =>
        if want then { rest with joined := .present (Index.joinPath path) :: rest.joined }
        else { rest with absent := Index.joinPath path :: rest.absent } := by
  cases want with
  | false =>
      rw [ofBranches]
      cases ofBranches branches <;> rfl
  | true =>
      rw [ofBranches]
      cases ofBranches branches <;> rfl

theorem ofBranches_cons_leaf {branch : Index.Branch}
    (h : ∀ want, branch.predicate ≠ .present want) (branches : List Index.Branch) :
    ofBranches (branch :: branches) =
      match Condition.ofLeaf? branch.predicate with
      | none => .error (.nestedFieldMap branch.pathText)
      | some condition => (ofBranches branches).map fun rest =>
          { rest with joined := .leaf branch.pathText condition :: rest.joined } := by
  obtain ⟨path, predicate⟩ := branch
  cases predicate with
  | present want => exact absurd rfl (h want)
  | _ =>
      simp only [ofBranches]
      cases Condition.ofLeaf? _ with
      | none => rfl
      | some condition => cases ofBranches branches <;> rfl

/-- A joined copy that a branch becomes. -/
inductive Stands : Index.Branch → Joined → Prop where
  | present (path : List String) :
      Stands ⟨path, .present true⟩ (.present (Index.joinPath path))
  | leaf {branch : Index.Branch} {condition : Condition}
      (hleaf : ∀ want, branch.predicate ≠ .present want)
      (hcondition : Condition.ofLeaf? branch.predicate = some condition) :
      Stands branch (.leaf branch.pathText condition)

/-- A query has one joined copy for each branch that does not ask for absence, in their order, and
the paths of those that do. -/
theorem of_ofBranches_eq_ok {branches : List Index.Branch} {query : Select}
    (h : ofBranches branches = .ok query) :
    List.Forall₂ Stands (branches.filter fun branch => !branch.predicate.asksAbsence)
        query.joined ∧
      query.absent =
        (branches.filter fun branch => branch.predicate.asksAbsence).map (·.pathText) := by
  induction branches generalizing query with
  | nil =>
      cases h
      exact ⟨.nil, rfl⟩
  | cons branch branches ih =>
      obtain ⟨path, predicate⟩ := branch
      by_cases hpresent : ∃ want, predicate = .present want
      · obtain ⟨want, rfl⟩ := hpresent
        rw [ofBranches_cons_present] at h
        cases hrest : ofBranches branches with
        | error error =>
            rw [hrest] at h
            cases h
        | ok rest =>
            rw [hrest] at h
            obtain ⟨hjoined, habsent⟩ := ih hrest
            cases want with
            | false =>
                cases h
                exact ⟨hjoined, congrArg (Index.joinPath path :: ·) habsent⟩
            | true =>
                cases h
                exact ⟨.cons (.present path) hjoined, habsent⟩
      · have hleaf : ∀ want, predicate ≠ .present want := fun want hwant => hpresent ⟨want, hwant⟩
        have hpresence : predicate.asksAbsence = false := by
          cases predicate with
          | present want => exact absurd rfl (hleaf want)
          | _ => rfl
        rw [ofBranches_cons_leaf hleaf] at h
        cases hcondition : Condition.ofLeaf? predicate with
        | none => simp [hcondition] at h
        | some condition =>
            cases hrest : ofBranches branches with
            | error error =>
                simp only [hcondition, hrest] at h
                cases h
            | ok rest =>
                simp only [hcondition, hrest] at h
                cases h
                obtain ⟨hjoined, habsent⟩ := ih hrest
                simp only [List.filter_cons, hpresence, Bool.not_false, if_true,
                  Bool.false_eq_true, if_false]
                exact ⟨.cons (.leaf hleaf hcondition) hjoined, habsent⟩

end EventBus.Sql.Select
