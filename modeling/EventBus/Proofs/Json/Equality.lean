import EventBus.Proofs.Json.Canonical

/-!
The comparison of JSON values, part by part, is equality.
-/

namespace EventBus.Json

theorem sameItems_iff {as bs : List Json} (ih : ∀ a ∈ as, ∀ b, same a b = true ↔ a = b) :
    sameItems as bs = true ↔ as = bs := by
  induction as generalizing bs with
  | nil => cases bs <;> simp [sameItems]
  | cons a as ihlater =>
      cases bs with
      | nil => simp [sameItems]
      | cons b bs =>
          rw [sameItems, Bool.and_eq_true, ih a List.mem_cons_self,
            ihlater fun item hitem => ih item (List.mem_cons_of_mem _ hitem), List.cons.injEq]

theorem sameEntries_iff {as bs : List (String × Json)}
    (ih : ∀ a ∈ as, ∀ b, same a.2 b = true ↔ a.2 = b) : sameEntries as bs = true ↔ as = bs := by
  induction as generalizing bs with
  | nil => cases bs <;> simp [sameEntries]
  | cons a as ihlater =>
      obtain ⟨key, value⟩ := a
      cases bs with
      | nil => simp [sameEntries]
      | cons b bs =>
          obtain ⟨other, held⟩ := b
          rw [sameEntries, Bool.and_eq_true, Bool.and_eq_true, ih _ List.mem_cons_self,
            ihlater fun entry hentry => ih entry (List.mem_cons_of_mem _ hentry), List.cons.injEq,
            Prod.mk.injEq, beq_iff_eq]

theorem same_iff {a b : Json} : same a b = true ↔ a = b := by
  induction a using partsInduction generalizing b with
  | scalar value h => cases value <;> cases b <;> simp_all [same, isScalar]
  | array items ih =>
      cases b with
      | array others => simp only [same, sameItems_iff fun a ha b => ih a ha, array.injEq]
      | _ => simp [same]
  | object entries ih =>
      cases b with
      | object others => simp only [same, sameEntries_iff fun a ha b => ih a ha, object.injEq]
      | _ => simp [same]

instance : LawfulBEq Json where
  eq_of_beq := same_iff.mp
  rfl := same_iff.mpr rfl

instance : DecidableEq Json := fun _ _ => decidable_of_iff _ same_iff

end EventBus.Json
