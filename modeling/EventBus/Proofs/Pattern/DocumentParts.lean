import EventBus.Pattern.Document
import EventBus.Proofs.Pattern.PredicateTree

/-!
The parts of a compiled document. The members of a disjunction come from the items of an
array and the fields of a predicate from the entries of an object, each compiled by itself, so
what holds of every part can be shown by induction on the document.
-/

namespace EventBus.Pattern

theorem bind_eq_ok_iff {ε α β : Type} {x : Except ε α} {f : α → Except ε β} {b : β} :
    x >>= f = .ok b ↔ ∃ a, x = .ok a ∧ f a = .ok b := by
  cases x <;> simp [bind, Except.bind]

theorem map_eq_ok_iff {ε α β : Type} {x : Except ε α} {f : α → β} {b : β} :
    x.map f = .ok b ↔ ∃ a, x = .ok a ∧ f a = b := by
  cases x <;> simp [Except.map]

theorem exists_item_of_mem_members {items : List Json} {members : List Predicate}
    (h : compileMembers items = .ok members) :
    ∀ member ∈ members, ∃ item ∈ items, compile item = .ok member := by
  induction items generalizing members with
  | nil =>
      cases h
      simp
  | cons item items ih =>
      cases item with
      | array inner => simp [compileMembers] at h
      | _ =>
          obtain ⟨first, hfirst, h⟩ := bind_eq_ok_iff.mp h
          obtain ⟨others, hothers, h⟩ := bind_eq_ok_iff.mp h
          cases h
          rw [List.forall_mem_cons]
          refine ⟨⟨_, List.mem_cons_self, hfirst⟩, ?_⟩
          intro member hmember
          obtain ⟨item, hitem, hcompile⟩ := ih hothers member hmember
          exact ⟨item, List.mem_cons_of_mem _ hitem, hcompile⟩

theorem exists_entry_of_mem_fields {entries : List (String × Json)}
    {fields : List (String × Predicate)} (h : compileFields entries = .ok fields) :
    ∀ field ∈ fields, ∃ entry ∈ entries, compile entry.2 = .ok field.2 := by
  induction entries generalizing fields with
  | nil =>
      cases h
      simp
  | cons entry entries ih =>
      obtain ⟨key, value⟩ := entry
      obtain ⟨first, hfirst, h⟩ := bind_eq_ok_iff.mp h
      obtain ⟨others, hothers, h⟩ := bind_eq_ok_iff.mp h
      cases h
      rw [List.forall_mem_cons]
      refine ⟨⟨_, List.mem_cons_self, hfirst⟩, ?_⟩
      intro field hfield
      obtain ⟨entry, hentry, hcompile⟩ := ih hothers field hfield
      exact ⟨entry, List.mem_cons_of_mem _ hentry, hcompile⟩

/-- A special key makes a constraint on a single value, never one without a demand. -/
theorem ne_pass_of_special? {entries : List (String × Json)} {predicate : Predicate}
    (h : special? entries = some (.ok predicate)) :
    predicate ≠ .pass ∧ predicate.nodes = [predicate] := by
  unfold special? at h
  split at h
  · cases h
    simp [Predicate.nodes]
  · cases h
  · split at h
    · cases h
      simp [Predicate.nodes]
    · cases h
    · obtain ⟨value, -, hnumeric⟩ := Option.map_eq_some_iff.mp h
      unfold numeric at hnumeric
      split at hnumeric
      · split at hnumeric
        · cases hnumeric
        · obtain ⟨comparisons, -, rfl⟩ := map_eq_ok_iff.mp hnumeric
          simp [Predicate.nodes]
      · cases hnumeric

/-- No part of a compiled document is without a demand. -/
theorem pass_not_mem_nodes_of_compile {document : Json} {predicate : Predicate}
    (h : compile document = .ok predicate) : .pass ∉ predicate.nodes := by
  induction document using Json.partsInduction generalizing predicate with
  | scalar value hscalar =>
      cases value with
      | array items => simp [Json.isScalar] at hscalar
      | object entries => simp [Json.isScalar] at hscalar
      | _ =>
          cases h
          simp [Predicate.nodes]
  | array items ih =>
      rw [compile] at h
      obtain ⟨members, hmembers, rfl⟩ := map_eq_ok_iff.mp h
      rw [Predicate.mem_nodes_anyOf]
      rintro (hself | ⟨member, hmember, hnode⟩)
      · cases hself
      · obtain ⟨item, hitem, hcompile⟩ := exists_item_of_mem_members hmembers member hmember
        exact ih item hitem hcompile hnode
  | object entries ih =>
      rw [compile] at h
      split at h
      next result hspecial =>
        subst h
        obtain ⟨hne, hnodes⟩ := ne_pass_of_special? hspecial
        rw [hnodes, List.mem_singleton]
        exact hne.symm
      next =>
        obtain ⟨fields, hfields, rfl⟩ := map_eq_ok_iff.mp h
        rw [Predicate.mem_nodes_fields]
        rintro (hself | ⟨field, hfield, hnode⟩)
        · cases hself
        · obtain ⟨entry, hentry, hcompile⟩ := exists_entry_of_mem_fields hfields field hfield
          exact ih entry hentry hcompile hnode

end EventBus.Pattern
