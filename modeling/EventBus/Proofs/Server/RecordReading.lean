import EventBus.Proofs.Json.OneLine
import EventBus.Server.Record

/-!
Reading an event stream. A line ends with a carriage return, a line feed or both; it is a field
with the name before its first colon and the value after it, without one leading space, or a
comment when there is no name. An empty line ends a record, and a record without fields is none.
What is written for events is read as one record for each of them, with the fields they have.
-/

namespace EventBus.Record

/-- The lines that end in a text, after a started one held backwards. -/
def linesFrom (started : List Char) : List Char → List (List Char)
  | [] => []
  | '\r' :: '\n' :: rest => started.reverse :: linesFrom [] rest
  | c :: rest =>
      if c = '\r' ∨ c = '\n' then started.reverse :: linesFrom [] rest
      else linesFrom (c :: started) rest

structure Field where
  name : String
  value : String
  deriving DecidableEq, Repr

def withoutSpace : List Char → List Char
  | ' ' :: cs => cs
  | cs => cs

/-- The field of a line; a line that starts with a colon is a comment. -/
def field? (line : List Char) : Option Field :=
  match line.takeWhile (· != ':') with
  | [] => none
  | name => some ⟨String.ofList name,
      String.ofList (withoutSpace ((line.dropWhile (· != ':')).drop 1))⟩

/-- The fields of each record that ends among some lines, after those of a started one. -/
def groupsFrom (started : List Field) : List (List Char) → List (List Field)
  | [] => []
  | [] :: lines => started :: groupsFrom [] lines
  | line :: lines => groupsFrom (started ++ (field? line).toList) lines

/-- The records of a text. -/
def read (text : List Char) : List (List Field) :=
  (groupsFrom [] (linesFrom [] text)).filter (!·.isEmpty)

theorem read_nil : read [] = [] := rfl

/-- A field value that no line end and no null character breaks. -/
def Fits (s : String) : Prop := '\n' ∉ s.toList ∧ '\r' ∉ s.toList ∧ Char.ofNat 0 ∉ s.toList

instance (s : String) : Decidable (Fits s) := inferInstanceAs (Decidable (_ ∧ _ ∧ _))

theorem isLine_iff {s : String} : isLine s = true ↔ Fits s := by
  simp only [isLine, List.all_eq_true, Bool.and_eq_true, bne_iff_ne, Fits]
  constructor
  · intro h
    exact ⟨fun hc => (h _ hc).1.1 rfl, fun hc => (h _ hc).1.2 rfl, fun hc => (h _ hc).2 rfl⟩
  · rintro ⟨hfeed, hreturn, hnull⟩ c hc
    refine ⟨⟨?_, ?_⟩, ?_⟩
    · rintro rfl
      exact hfeed hc
    · rintro rfl
      exact hreturn hc
    · rintro rfl
      exact hnull hc

/-- The field of a value that is there and fits. -/
def fieldOf (name : String) : Option String → List Field
  | some value => if Fits value then [⟨name, value⟩] else []
  | none => []

/-- What a record says of an event. -/
def fields (event : Event) : List Field :=
  fieldOf "event" event.kind? ++ fieldOf "id" event.id? ++ [⟨"data", event.text⟩]

/-- No line end is in the text. -/
def NoEnd (cs : List Char) : Prop := '\n' ∉ cs ∧ '\r' ∉ cs

instance (cs : List Char) : Decidable (NoEnd cs) := inferInstanceAs (Decidable (_ ∧ _))

theorem noEnd_append {cs ds : List Char} : NoEnd (cs ++ ds) ↔ NoEnd cs ∧ NoEnd ds := by
  simp only [NoEnd, List.mem_append, not_or]
  exact and_and_and_comm

theorem noEnd_of_plain {cs : List Char} (h : Json.Plain cs) : NoEnd cs :=
  ⟨fun hc => absurd (h _ hc) (by decide), fun hc => absurd (h _ hc) (by decide)⟩

theorem linesFrom_cons {c : Char} (hfeed : '\n' ≠ c) (hreturn : '\r' ≠ c)
    (started rest : List Char) :
    linesFrom started (c :: rest) = linesFrom (c :: started) rest := by
  rw [linesFrom, if_neg (by simp [hfeed.symm, hreturn.symm])]
  rintro _ rfl
  exact absurd rfl hreturn

theorem linesFrom_line {line : List Char} (h : NoEnd line) (started rest : List Char) :
    linesFrom started (line ++ '\n' :: rest) =
      (started.reverse ++ line) :: linesFrom [] rest := by
  induction line generalizing started with
  | nil =>
      rw [List.nil_append, linesFrom, if_pos (Or.inr rfl), List.append_nil]
      rintro _ hreturn
      cases hreturn
  | cons c line ih =>
      simp only [NoEnd, List.mem_cons, not_or] at h
      rw [List.cons_append, linesFrom_cons h.1.1 h.2.1, ih ⟨h.1.2, h.2.2⟩]
      simp

/-- The text can name a field. -/
def IsName (name : String) : Prop := name ≠ "" ∧ ':' ∉ name.toList ∧ NoEnd name.toList

instance (name : String) : Decidable (IsName name) := inferInstanceAs (Decidable (_ ∧ _ ∧ _))

/-- A field can be written on a line of its own. -/
structure Field.Writable (field : Field) : Prop where
  name : IsName field.name
  value : NoEnd field.value.toList

def Field.line (field : Field) : List Char := field.name.toList ++ ':' :: ' ' :: field.value.toList

theorem Field.Writable.noEnd_line {field : Field} (h : field.Writable) : NoEnd field.line := by
  rw [Field.line, noEnd_append]
  refine ⟨h.name.2.2, ?_, ?_⟩
  · simpa using h.value.1
  · simpa using h.value.2

/-- The line of a field is read back as the field. -/
theorem Field.Writable.field?_line {field : Field} (h : field.Writable) :
    field? field.line = some field := by
  obtain ⟨name, value⟩ := field
  obtain ⟨⟨hnamed, hplain, -⟩, -⟩ := h
  have hcolon : ∀ c ∈ name.toList, (c != ':') = true := by
    intro c hc
    rw [bne_iff_ne]
    rintro rfl
    exact hplain hc
  have hname : (Field.line ⟨name, value⟩).takeWhile (· != ':') = name.toList := by
    rw [line, List.takeWhile_append_of_pos hcolon]
    simp
  have hvalue : (Field.line ⟨name, value⟩).dropWhile (· != ':') = ':' :: ' ' :: value.toList := by
    rw [line, List.dropWhile_append_of_pos hcolon]
    simp
  rw [field?, hname, hvalue]
  split
  next hnone =>
    have hempty : name = "" := String.toList_eq_nil_iff.mp hnone
    exact absurd hempty hnamed
  next => simp [withoutSpace]

theorem Field.line_ne_nil (field : Field) : field.line ≠ [] := by simp [Field.line]

theorem groupsFrom_lines {written : List Field} (h : ∀ field ∈ written, field.Writable)
    (started : List Field) (lines : List (List Char)) :
    groupsFrom started (written.map Field.line ++ [] :: lines) =
      (started ++ written) :: groupsFrom [] lines := by
  induction written generalizing started with
  | nil => simp [groupsFrom]
  | cons field written ih =>
      rw [List.forall_mem_cons] at h
      rw [List.map_cons, List.cons_append, groupsFrom, h.1.field?_line, ih h.2]
      · simp
      · exact field.line_ne_nil

theorem linesFrom_fields {written : List Field} (h : ∀ field ∈ written, field.Writable)
    (rest : List Char) :
    linesFrom [] (written.flatMap (fun field => field.line ++ ['\n']) ++ '\n' :: rest) =
      written.map Field.line ++ [] :: linesFrom [] rest := by
  induction written with
  | nil => exact linesFrom_line ⟨List.not_mem_nil, List.not_mem_nil⟩ [] rest
  | cons field written ih =>
      rw [List.forall_mem_cons] at h
      rw [List.flatMap_cons, List.append_assoc, List.append_assoc, List.singleton_append,
        linesFrom_line h.1.noEnd_line, ih h.2]
      rfl

theorem writable_fieldOf {name : String} (hname : IsName name) (value? : Option String) :
    ∀ field ∈ fieldOf name value?, field.Writable := by
  intro field hfield
  cases value? with
  | none => cases hfield
  | some value =>
      rw [fieldOf] at hfield
      split at hfield
      next hfits =>
        obtain rfl := List.mem_singleton.mp hfield
        exact ⟨hname, hfits.1, hfits.2.1⟩
      next => cases hfield

theorem writable_fields (event : Event) : ∀ field ∈ fields event, field.Writable := by
  have hdata : IsName "data" := by decide
  have htext : NoEnd event.text.toList := by
    rw [Event.text, Json.text, String.toList_ofList]
    exact noEnd_of_plain (Json.plain_chars event.toJson)
  rw [fields, List.forall_mem_append, List.forall_mem_append, List.forall_mem_singleton]
  exact ⟨⟨writable_fieldOf (by decide) event.kind?, writable_fieldOf (by decide) event.id?⟩,
    hdata, htext⟩

theorem toList_fieldIfLine (name : String) (value? : Option String) :
    (fieldIfLine name value?).toList =
      (fieldOf name value?).flatMap fun field => field.line ++ ['\n'] := by
  cases value? with
  | none => rfl
  | some value =>
      rw [fieldIfLine, fieldOf]
      by_cases hfits : Fits value
      · rw [if_pos (isLine_iff.mpr hfits), if_pos hfits]
        simp [field, Field.line]
      · rw [if_neg (fun h => hfits (isLine_iff.mp h)), if_neg hfits]
        rfl

/-- The text of a record is the lines of its fields and an empty line. -/
theorem toList_text (event : Event) :
    (text event).toList =
      (fields event).flatMap (fun field => field.line ++ ['\n']) ++ ['\n'] := by
  simp [text, fields, toList_fieldIfLine, field, Field.line]

theorem groups_text_append (event : Event) (rest : List Char) :
    groupsFrom [] (linesFrom [] ((text event).toList ++ rest)) =
      fields event :: groupsFrom [] (linesFrom [] rest) := by
  rw [toList_text, List.append_assoc, List.singleton_append,
    linesFrom_fields (writable_fields event), groupsFrom_lines (writable_fields event)]
  rfl

/-- What is written for an event is read first, as one record with its fields. -/
theorem read_text_append (event : Event) (rest : List Char) :
    read ((text event).toList ++ rest) = fields event :: read rest := by
  have hsome : (fields event).isEmpty = false := by simp [fields]
  rw [read, groups_text_append, List.filter_cons, hsome]
  rfl

example :
    read (text ⟨some "a\nid: 1", .string "\r\n\ndata: x", some " 7"⟩).toList =
      [[⟨"id", " 7"⟩, ⟨"data", "\x7b\"type\":\"a\\nid: 1\"," ++
        "\"payload\":\"\\r\\n\\ndata: x\",\"id\":\" 7\"\x7d"⟩]] := by
  decide +kernel

theorem read_keepAlive_append (rest : List Char) :
    read (keepAlive.toList ++ rest) = read rest := rfl

end EventBus.Record
