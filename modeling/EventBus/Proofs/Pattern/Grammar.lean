import EventBus.Proofs.Pattern.DocumentParts

/-!
The grammar of pattern documents, with one rule for each form of a document, and that the
compiler accepts exactly these documents. Compiling an array or the fields of an object goes
through the parts in order and fails with the first part that fails.
-/

namespace EventBus.Pattern

section Traversal

variable {ε α β : Type} {f : α → Except ε β}

theorem exists_mapM_eq_ok_iff {as : List α} :
    (∃ bs, as.mapM f = .ok bs) ↔ ∀ a ∈ as, ∃ b, f a = .ok b := by
  induction as with
  | nil => exact ⟨fun _ => by simp, fun _ => ⟨[], rfl⟩⟩
  | cons a as ih =>
      rw [List.forall_mem_cons, ← ih, List.mapM_cons]
      constructor
      · rintro ⟨bs, h⟩
        obtain ⟨b, hb, h⟩ := bind_eq_ok_iff.mp h
        obtain ⟨others, hothers, -⟩ := bind_eq_ok_iff.mp h
        exact ⟨⟨b, hb⟩, others, hothers⟩
      · rintro ⟨⟨b, hb⟩, others, hothers⟩
        refine ⟨b :: others, ?_⟩
        rw [hb, hothers]
        rfl

/-- A traversal fails with the error of the first element that fails. -/
theorem split_of_mapM_eq_error {as : List α} {error : ε} (h : as.mapM f = .error error) :
    ∃ before a after, as = before ++ a :: after ∧ (∀ b ∈ before, ∃ c, f b = .ok c) ∧
      f a = .error error := by
  induction as with
  | nil => cases h
  | cons a as ih =>
      rw [List.mapM_cons] at h
      cases ha : f a with
      | error other =>
          rw [ha] at h
          cases h
          exact ⟨[], a, as, rfl, by simp, ha⟩
      | ok b =>
          cases hrest : as.mapM f with
          | ok bs =>
              rw [ha, hrest] at h
              cases h
          | error other =>
              rw [ha, hrest] at h
              cases h
              obtain ⟨before, found, after, rfl, hbefore, hfound⟩ := ih hrest
              refine ⟨a :: before, found, after, rfl, ?_, hfound⟩
              rw [List.forall_mem_cons]
              exact ⟨⟨b, ha⟩, hbefore⟩

end Traversal

/-- The compilation of one item of an array. -/
def compileMember : Json → Except PatternError Predicate
  | .array items => .error (.nestedArray (.array items))
  | item => compile item

theorem compileMembers_eq_mapM (items : List Json) :
    compileMembers items = items.mapM compileMember := by
  induction items with
  | nil => rfl
  | cons item items ih =>
      rw [List.mapM_cons, ← ih]
      cases item <;> rfl

theorem compileFields_eq_mapM (entries : List (String × Json)) :
    compileFields entries =
      entries.mapM fun entry => (compile entry.2).map fun child => (entry.1, child) := by
  induction entries with
  | nil => rfl
  | cons entry entries ih =>
      obtain ⟨key, value⟩ := entry
      rw [List.mapM_cons, ← ih, compileFields]
      cases compile value <;> rfl

/-- The signs of the relations of a numeric constraint. -/
def signs : List String := ["<", "<=", ">", ">=", "="]

theorem ofSign?_eq_none_iff {sign : String} : Relation.ofSign? sign = none ↔ sign ∉ signs := by
  unfold Relation.ofSign? signs
  repeat' split
  all_goals simp_all

/-- A list in which a sign and a number alternate, and that ends with a number. -/
inductive Alternating : List Json → Prop where
  | nil : Alternating []
  | pair {sign : String} {rest : List Json} (hsign : sign ∈ signs) (n : Number)
      (hrest : Alternating rest) : Alternating (.string sign :: .number n :: rest)

/-- What an object is by its keys: a constraint on a single value, said by the value under the
first special key it has, or fields. -/
inductive Form where
  | start (value : Json)
  | present (value : Json)
  | numeric (value : Json)
  | fields

def Form.ofEntries (entries : List (String × Json)) : Form :=
  match Json.lookup "prefix" entries, Json.lookup "exists" entries,
    Json.lookup "numeric" entries with
  | some value, _, _ => .start value
  | none, some value, _ => .present value
  | none, none, some value => .numeric value
  | none, none, none => .fields

/-- The documents that are patterns. Under a special key only its own value counts. -/
inductive WellFormed : Json → Prop where
  | scalar {value : Json} (h : value.isScalar = true) : WellFormed value
  | array {items : List Json} (hplain : ∀ item ∈ items, ∀ inner, item ≠ .array inner)
      (hitems : ∀ item ∈ items, WellFormed item) : WellFormed (.array items)
  | start {entries : List (String × Json)} {text : String}
      (hform : Form.ofEntries entries = .start (.string text)) : WellFormed (.object entries)
  | present {entries : List (String × Json)} {want : Bool}
      (hform : Form.ofEntries entries = .present (.bool want)) : WellFormed (.object entries)
  | numeric {entries : List (String × Json)} {items : List Json}
      (hform : Form.ofEntries entries = .numeric (.array items)) (hitems : Alternating items) :
      WellFormed (.object entries)
  | fields {entries : List (String × Json)} (hform : Form.ofEntries entries = .fields)
      (hentries : ∀ entry ∈ entries, WellFormed entry.2) : WellFormed (.object entries)

theorem comparison_eq_ok_iff {name threshold : Json} :
    (∃ c, comparison name threshold = .ok c) ↔
      ∃ sign n, name = .string sign ∧ sign ∈ signs ∧ threshold = .number n := by
  cases name with
  | string sign =>
      cases hsign : Relation.ofSign? sign with
      | none =>
          have hunknown := ofSign?_eq_none_iff.mp hsign
          simp [comparison, hsign, hunknown]
      | some relation =>
          have hknown : sign ∈ signs := by
            by_contra hunknown
            rw [ofSign?_eq_none_iff.mpr hunknown] at hsign
            cases hsign
          cases threshold <;> simp [comparison, hsign, hknown]
  | _ => simp [comparison]

theorem alternating_iff {items : List Json} :
    Alternating items ↔ items.length % 2 = 0 ∧ ∃ cs, comparisons items = .ok cs := by
  induction items using comparisons.induct with
  | case1 name threshold rest ih =>
      have hlength : (name :: threshold :: rest).length % 2 = rest.length % 2 := by
        simp only [List.length_cons]
        omega
      rw [hlength, comparisons]
      constructor
      · intro h
        cases h with
        | pair hsign n hrest =>
            obtain ⟨heven, cs, hcs⟩ := ih.mp hrest
            obtain ⟨c, hc⟩ := comparison_eq_ok_iff.mpr ⟨_, n, rfl, hsign, rfl⟩
            refine ⟨heven, c :: cs, ?_⟩
            rw [hc, hcs]
            rfl
      · rintro ⟨heven, all, h⟩
        obtain ⟨c, hc, h⟩ := bind_eq_ok_iff.mp h
        obtain ⟨cs, hcs, -⟩ := bind_eq_ok_iff.mp h
        obtain ⟨sign, n, rfl, hsign, rfl⟩ := comparison_eq_ok_iff.mp ⟨c, hc⟩
        exact .pair hsign n (ih.mpr ⟨heven, cs, hcs⟩)
  | case2 items hshort =>
      rcases items with _ | ⟨only, _ | ⟨second, rest⟩⟩
      · exact ⟨fun _ => ⟨rfl, [], rfl⟩, fun _ => .nil⟩
      · refine ⟨nofun, ?_⟩
        rintro ⟨hodd, -⟩
        simp at hodd
      · exact absurd rfl (hshort only second rest)

theorem exists_numeric_iff {value : Json} :
    (∃ predicate, numeric value = .ok predicate) ↔
      ∃ items, value = .array items ∧ Alternating items := by
  cases value with
  | array items =>
      simp only [numeric, Json.array.injEq, exists_eq_left', alternating_iff]
      split
      next hodd => simp [hodd]
      next heven =>
        have hmod : items.length % 2 = 0 := by omega
        simp only [map_eq_ok_iff, hmod, true_and]
        exact ⟨fun ⟨_, cs, hcs, _⟩ => ⟨cs, hcs⟩, fun ⟨cs, hcs⟩ => ⟨_, cs, hcs, rfl⟩⟩
  | _ => simp [numeric]

theorem exists_map_eq_ok_iff {ε α β : Type} {x : Except ε α} {f : α → β} :
    (∃ b, x.map f = .ok b) ↔ ∃ a, x = .ok a := by
  cases x <;> simp [Except.map]

theorem compile_object (entries : List (String × Json)) :
    compile (.object entries) =
      match Form.ofEntries entries with
      | .start (.string text) => .ok (.startsWith text)
      | .start other => .error (.badPrefix other)
      | .present (.bool want) => .ok (.present want)
      | .present other => .error (.badExists other)
      | .numeric value => numeric value
      | .fields => (compileFields entries).map .fields := by
  rw [compile, special?, Form.ofEntries]
  cases Json.lookup "prefix" entries with
  | some value => cases value <;> rfl
  | none =>
      cases Json.lookup "exists" entries with
      | some value => cases value <;> rfl
      | none => cases Json.lookup "numeric" entries <;> rfl

theorem wellFormed_array_iff {items : List Json} :
    WellFormed (.array items) ↔
      ∀ item ∈ items, (∀ inner, item ≠ .array inner) ∧ WellFormed item := by
  constructor
  · intro h item hitem
    cases h with
    | scalar hscalar => simp [Json.isScalar] at hscalar
    | array hplain hitems => exact ⟨hplain item hitem, hitems item hitem⟩
  · exact fun h => .array (fun item hitem => (h item hitem).1) (fun item hitem => (h item hitem).2)

theorem wellFormed_object_iff {entries : List (String × Json)} :
    WellFormed (.object entries) ↔
      match Form.ofEntries entries with
      | .start value => ∃ text, value = .string text
      | .present value => ∃ want, value = .bool want
      | .numeric value => ∃ items, value = .array items ∧ Alternating items
      | .fields => ∀ entry ∈ entries, WellFormed entry.2 := by
  constructor
  · intro h
    cases h with
    | scalar hscalar => simp [Json.isScalar] at hscalar
    | start hform | present hform => simp [hform]
    | numeric hform hitems => simpa [hform] using hitems
    | fields hform hentries => simpa [hform] using hentries
  · intro h
    split at h
    next hform =>
      obtain ⟨text, rfl⟩ := h
      exact .start hform
    next hform =>
      obtain ⟨want, rfl⟩ := h
      exact .present hform
    next hform =>
      obtain ⟨items, rfl, hitems⟩ := h
      exact .numeric hform hitems
    next hform => exact .fields hform h

/-- The compiler accepts exactly the grammar. -/
theorem exists_compile_iff {document : Json} :
    (∃ predicate, compile document = .ok predicate) ↔ WellFormed document := by
  induction document using Json.partsInduction with
  | scalar value hscalar =>
      refine ⟨fun _ => .scalar hscalar, fun _ => ?_⟩
      cases value with
      | array items => simp [Json.isScalar] at hscalar
      | object entries => simp [Json.isScalar] at hscalar
      | _ => exact ⟨_, rfl⟩
  | array items ih =>
      rw [compile, exists_map_eq_ok_iff, compileMembers_eq_mapM, exists_mapM_eq_ok_iff,
        wellFormed_array_iff]
      refine forall₂_congr fun item hitem => ?_
      rw [← ih item hitem]
      cases item <;> simp [compileMember]
  | object entries ih =>
      rw [compile_object, wellFormed_object_iff]
      cases Form.ofEntries entries with
      | start value => cases value <;> simp
      | present value => cases value <;> simp
      | numeric value => exact exists_numeric_iff
      | fields =>
          simp only [exists_map_eq_ok_iff, compileFields_eq_mapM, exists_mapM_eq_ok_iff]
          exact forall₂_congr ih

end EventBus.Pattern
