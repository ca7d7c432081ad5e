import EventBus.Proofs.Pattern.Grammar

/-!
Where the parts of a compiled document come from. Each of them is compiled from something in the
document, so what a form compiles to says what a part of that kind can hold: its thresholds are
numbers of the document, and no disjunction is a member of another.
-/

namespace EventBus.Pattern

/-- All that a compiled document is made of is compiled from something in the document. -/
theorem exists_part_of_node {document : Json} {pattern node : Predicate}
    (h : compile document = .ok pattern) (hnode : node ∈ pattern.nodes) :
    ∃ part ∈ document.nodes, compile part = .ok node := by
  have hwhole (value : Json) : value ∈ value.nodes := (Json.Reaches.here value).mem_nodes
  induction document using Json.partsInduction generalizing pattern with
  | scalar value hscalar =>
      have hpattern : pattern.nodes = [pattern] := by
        cases value <;> simp [Json.isScalar] at hscalar <;> cases h <;> rfl
      rw [hpattern, List.mem_singleton] at hnode
      exact ⟨value, hwhole value, hnode ▸ h⟩
  | array items ih =>
      obtain ⟨members, hmembers, rfl⟩ := map_eq_ok_iff.mp h
      rcases Predicate.mem_nodes_anyOf.mp hnode with rfl | ⟨member, hmember, hinner⟩
      · exact ⟨.array items, hwhole _, h⟩
      · obtain ⟨item, hitem, hcompile⟩ := exists_item_of_mem_members hmembers member hmember
        obtain ⟨part, hpart, hof⟩ := ih item hitem hcompile hinner
        exact ⟨part, Json.mem_nodes_array.mpr (Or.inr ⟨item, hitem, hpart⟩), hof⟩
  | object entries ih =>
      have hcompiled := h
      rw [compile] at h
      split at h
      next result hspecial =>
        subst h
        obtain ⟨-, hnodes⟩ := ne_pass_of_special? hspecial
        rw [hnodes, List.mem_singleton] at hnode
        exact ⟨.object entries, hwhole _, hnode ▸ hcompiled⟩
      next =>
        obtain ⟨fields, hfields, rfl⟩ := map_eq_ok_iff.mp h
        rcases Predicate.mem_nodes_fields.mp hnode with rfl | ⟨field, hfield, hinner⟩
        · exact ⟨.object entries, hwhole _, hcompiled⟩
        · obtain ⟨entry, hentry, hcompile⟩ := exists_entry_of_mem_fields hfields field hfield
          obtain ⟨part, hpart, hof⟩ := ih entry hentry hcompile hinner
          exact ⟨part, Json.mem_nodes_object.mpr (Or.inr ⟨entry, hentry, hpart⟩), hof⟩

theorem number_of_comparison {name threshold : Json} {c : Comparison}
    (h : comparison name threshold = .ok c) :
    ∃ n, threshold = .number n ∧ c.threshold = n.toBinary64 := by
  obtain ⟨sign, n, rfl, -, rfl⟩ := comparison_eq_ok_iff.mp ⟨c, h⟩
  cases hsign : Relation.ofSign? sign with
  | none => simp [comparison, hsign] at h
  | some relation =>
      simp only [comparison, hsign, Except.ok.injEq] at h
      exact ⟨n, rfl, h ▸ rfl⟩

theorem number_of_mem_comparisons {items : List Json} {all : List Comparison}
    (h : comparisons items = .ok all) {c : Comparison} (hmem : c ∈ all) :
    ∃ n, .number n ∈ items ∧ c.threshold = n.toBinary64 := by
  induction items using comparisons.induct generalizing all with
  | case1 name threshold rest ih =>
      rw [comparisons] at h
      obtain ⟨first, hfirst, h⟩ := bind_eq_ok_iff.mp h
      obtain ⟨others, hothers, h⟩ := bind_eq_ok_iff.mp h
      cases h
      rcases List.mem_cons.mp hmem with rfl | hlater
      · obtain ⟨n, rfl, hthreshold⟩ := number_of_comparison hfirst
        exact ⟨n, by simp, hthreshold⟩
      · obtain ⟨n, hn, hthreshold⟩ := ih hothers hlater
        exact ⟨n, List.mem_cons_of_mem _ (List.mem_cons_of_mem _ hn), hthreshold⟩
  | case2 items hshort =>
      rw [comparisons] at h
      · cases h
        cases hmem
      · exact hshort

theorem lookup_numeric_of_form {entries : List (String × Json)} {value : Json}
    (h : Form.ofEntries entries = .numeric value) :
    Json.lookup "numeric" entries = some value := by
  unfold Form.ofEntries at h
  split at h
  all_goals cases h
  assumption

theorem numeric_eq_ok {value : Json} {predicate : Predicate} (h : numeric value = .ok predicate) :
    ∃ items all, value = .array items ∧ comparisons items = .ok all ∧ predicate = .numeric all := by
  obtain ⟨items, rfl, -⟩ := exists_numeric_iff.mp ⟨predicate, h⟩
  simp only [numeric] at h
  split at h
  · cases h
  · obtain ⟨all, hall, rfl⟩ := map_eq_ok_iff.mp h
    exact ⟨items, all, rfl, hall, rfl⟩

/-- What a document compiles to by its outermost form. -/
theorem form_of_compile {document : Json} {predicate : Predicate}
    (h : compile document = .ok predicate) :
    (∀ members, predicate = .anyOf members →
        ∃ items, document = .array items ∧ compileMembers items = .ok members) ∧
      ∀ all, predicate = .numeric all →
        ∃ items, .array items ∈ document.nodes ∧ comparisons items = .ok all := by
  cases document with
  | object entries =>
      rw [compile_object] at h
      cases hform : Form.ofEntries entries with
      | start value =>
          rw [hform] at h
          cases value <;> cases h
          simp
      | present value =>
          rw [hform] at h
          cases value <;> cases h
          simp
      | fields =>
          rw [hform] at h
          obtain ⟨fields, -, rfl⟩ := map_eq_ok_iff.mp h
          simp
      | numeric value =>
          rw [hform] at h
          obtain ⟨items, all, rfl, hall, rfl⟩ := numeric_eq_ok h
          have hentry := Json.mem_of_lookup (lookup_numeric_of_form hform)
          have hnode : .array items ∈ (Json.object entries).nodes :=
            Json.mem_nodes_object.mpr (Or.inr ⟨_, hentry, Json.mem_nodes_array.mpr (Or.inl rfl)⟩)
          refine ⟨by simp, ?_⟩
          intro other hother
          cases hother
          exact ⟨items, hnode, hall⟩
  | array items =>
      obtain ⟨members, hmembers, rfl⟩ := map_eq_ok_iff.mp h
      refine ⟨?_, by simp⟩
      intro other hother
      cases hother
      exact ⟨items, rfl, hmembers⟩
  | _ =>
      cases h
      simp

/-- A threshold of a compiled document is a number of the document. -/
theorem number_of_threshold {document : Json} {pattern : Predicate} {all : List Comparison}
    (h : compile document = .ok pattern) (hnode : .numeric all ∈ pattern.nodes) {c : Comparison}
    (hmem : c ∈ all) : ∃ n, .number n ∈ document.nodes ∧ c.threshold = n.toBinary64 := by
  obtain ⟨part, hpart, hcompile⟩ := exists_part_of_node h hnode
  obtain ⟨items, hitems, hall⟩ := (form_of_compile hcompile).2 all rfl
  obtain ⟨n, hn, hthreshold⟩ := number_of_mem_comparisons hall hmem
  have hnumber : .number n ∈ (Json.array items).nodes :=
    Json.mem_nodes_array.mpr (Or.inr ⟨_, hn, (Json.Reaches.here _).mem_nodes⟩)
  exact ⟨n, Json.mem_nodes_trans hpart (Json.mem_nodes_trans hitems hnumber), hthreshold⟩

/-- In a compiled document no disjunction is a member of another. -/
theorem member_ne_anyOf {document : Json} {pattern : Predicate} {members : List Predicate}
    (h : compile document = .ok pattern) (hnode : .anyOf members ∈ pattern.nodes)
    {member : Predicate} (hmember : member ∈ members) (inner : List Predicate) :
    member ≠ .anyOf inner := by
  obtain ⟨part, -, hcompile⟩ := exists_part_of_node h hnode
  obtain ⟨items, rfl, hmembers⟩ := (form_of_compile hcompile).1 members rfl
  obtain ⟨item, hitem, hof⟩ := exists_item_of_mem_members hmembers member hmember
  rintro rfl
  obtain ⟨others, rfl, -⟩ := (form_of_compile hof).1 inner rfl
  exact (wellFormed_array_iff.mp (exists_compile_iff.mp ⟨_, hcompile⟩) _ hitem).1 others rfl

end EventBus.Pattern
