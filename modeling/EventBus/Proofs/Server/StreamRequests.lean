import EventBus.Proofs.Pattern.DocumentParts
import EventBus.Proofs.Text.Utf8
import EventBus.Proofs.Text.Words
import EventBus.Server.StreamRequest
import Mathlib

/-!
Which requests for a stream are taken. Each of the three parts asks for something of its own: a
limit, whether to replay, and a filter. A request is taken when every part asks for something, and
the query then holds what each part asks for, whatever the others are. Else the first part that asks
for nothing decides the answer.
-/

namespace EventBus

namespace Utf8

theorem decodeFrom_ascii {bytes : List UInt8} (h : ∀ b ∈ bytes, b < 0x80) (index : Nat) :
    decodeFrom index bytes = .ok (bytes.map fun b => Char.ofNat b.toNat) := by
  induction bytes generalizing index with
  | nil => rfl
  | cons b bytes ih =>
      obtain ⟨hfirst, hrest⟩ := List.forall_mem_cons.mp h
      have hread := decodeFrom_sequence (.one hfirst) index bytes
      rw [List.singleton_append, ih hrest] at hread
      exact hread

end Utf8

namespace Json

/-- Space, tab, line feed, form feed and carriage return. -/
def blanks : List Char := [' ', '\t', '\n', Char.ofNat 12, '\r']

/-- Blanks hold no value. A form feed does not even separate two of them. -/
theorem leading?_blanks {cs : List Char} (h : ∀ c ∈ cs, c ∈ blanks) (depth : Nat) :
    leading? depth cs = none := by
  induction cs with
  | nil => cases depth <;> rfl
  | cons c cs ih =>
      obtain ⟨hfirst, hrest⟩ := List.forall_mem_cons.mp h
      by_cases hspace : c = ' ' ∨ c = '\t' ∨ c = '\n' ∨ c = '\r'
      · rw [leading?, skipSpace, if_pos hspace]
        exact ih hrest
      · have hfeed : c = Char.ofNat 12 := by
          simp only [blanks, List.mem_cons, List.not_mem_nil, or_false] at hfirst
          tauto
        subst hfeed
        cases depth <;> rfl

theorem ofBytes?_of_blank {body : List UInt8} (h : ∀ b ∈ body, isBlankByte b = true) :
    ofBytes? body = none := by
  have hblank : ∀ b, isBlankByte b = true → b < 0x80 ∧ Char.ofNat b.toNat ∈ blanks := by
    intro b hb
    simp only [isBlankByte, Bool.or_eq_true, beq_iff_eq] at hb
    rcases hb with (((rfl | rfl) | rfl) | rfl) | rfl <;> decide
  have hchars : ∀ c ∈ body.map fun b => Char.ofNat b.toNat, c ∈ blanks := by
    intro c hc
    obtain ⟨b, hb, rfl⟩ := List.mem_map.mp hc
    exact (hblank b (h b hb)).2
  have hdecode := Utf8.decodeFrom_ascii (fun b hb => (hblank b (h b hb)).1) 0
  simp only [ofBytes?, Utf8.decode, hdecode, ofChars?, leading?_blanks hchars]
  rfl

end Json

namespace StreamRequest

/-- What the limit of a request asks for; nothing, or nothing written, asks for the default. -/
inductive AsksLimit : Option String → Nat → Prop where
  | absent : AsksLimit none Query.initial.limit
  | empty : AsksLimit (some "") Query.initial.limit
  | word {text : String} {n : Nat} (h : Word.Writes text.toList n) : AsksLimit (some text) n

/-- The text spells the word with letters of either case. -/
def Spells (text word : String) : Prop :=
  List.Forall₂ (fun c letter => c = letter ∨ c = letter.toUpper) text.toList word.toList

/-- Whether a request asks for a replay. -/
inductive AsksReplay : Option String → Bool → Prop where
  | absent : AsksReplay none Query.initial.replay
  | empty : AsksReplay (some "") Query.initial.replay
  | spelled {text : String} {want : Bool} (h : Spells text (toString want)) :
      AsksReplay (some text) want

/-- The filter that a body asks for: none if it is blank, else the pattern that it is. -/
inductive AsksFilter : List UInt8 → Predicate → Prop where
  | blank {body : List UInt8} (h : ∀ b ∈ body, isBlankByte b = true) :
      AsksFilter body Query.initial.filter
  | pattern {body : List UInt8} {document : Json} {predicate : Predicate}
      (hdocument : Json.ofBytes? body = some document)
      (hcompile : Pattern.compile document = .ok predicate) : AsksFilter body predicate

/-- How a request is refused: by its first part that asks for nothing. -/
inductive Refused (params : StreamParams) (body : List UInt8) : ApiError → Prop where
  | limit {text : String} (htext : params.limit? = some text)
      (h : ∀ n, ¬AsksLimit params.limit? n) (reason : String) :
      Refused params body (.badRequest ("bad limit " ++ text ++ ": " ++ reason))
  | replay {text : String} (hlimit : ∃ n, AsksLimit params.limit? n)
      (htext : params.replay? = some text) (h : ∀ want, ¬AsksReplay params.replay? want) :
      Refused params body (.badRequest ("bad replay " ++ text))
  | filter (hlimit : ∃ n, AsksLimit params.limit? n)
      (hreplay : ∃ want, AsksReplay params.replay? want)
      (h : ∀ predicate, ¬AsksFilter body predicate) (reason : String) :
      Refused params body (.badRequest ("bad filter: " ++ reason))

section Letters

/-- Only a small letter and its capital become the small letter. -/
theorem toLower_eq_iff {c letter : Char} (hlower : letter.isLower = true) :
    c.toLower = letter ↔ c = letter ∨ c = letter.toUpper := by
  have hsmall : letter.toLower = letter :=
    Char.toLower_eq_of_not_isUpper (Char.not_isUpper_of_isLower hlower)
  constructor
  · rintro rfl
    by_cases hupper : c.isUpper = true
    · have hcapital : c.toUpper = c :=
        Char.toUpper_eq_of_not_isLower (Char.not_isLower_of_isUpper hupper)
      exact Or.inr (by rw [Char.toUpper_toLower_eq_toUpper, hcapital])
    · exact Or.inl (Char.toLower_eq_of_not_isUpper hupper).symm
  · rintro (rfl | rfl)
    · exact hsmall
    · rw [Char.toLower_toUpper_eq_toLower, hsmall]

theorem spells_iff {text word : String} (hlower : ∀ letter ∈ word.toList, letter.isLower = true) :
    Spells text word ↔ String.ofList (text.toList.map Char.toLower) = word := by
  rw [← String.toList_inj, String.toList_ofList, Spells]
  generalize text.toList = cs, word.toList = letters at hlower
  induction letters generalizing cs with
  | nil =>
      cases cs with
      | nil => exact iff_of_true .nil rfl
      | cons c cs => exact iff_of_false nofun nofun
  | cons letter letters ih =>
      obtain ⟨hletter, hlater⟩ := List.forall_mem_cons.mp hlower
      cases cs with
      | nil => exact iff_of_false nofun nofun
      | cons c cs =>
          rw [List.forall₂_cons, ih cs hlater, List.map_cons, List.cons.injEq,
            toLower_eq_iff hletter]

end Letters

section Parts

variable {text : String} {body : List UInt8}

theorem asksLimit_some_iff {n : Nat} : AsksLimit (some text) n ↔
    (text = "" ∧ n = Query.initial.limit) ∨ Word.Writes text.toList n := by
  constructor
  · intro h
    cases h with
    | empty => exact Or.inl ⟨rfl, rfl⟩
    | word h => exact Or.inr h
  · rintro (⟨rfl, rfl⟩ | h)
    · exact .empty
    · exact .word h

theorem limit_eq_ok_iff {text? : Option String} {n : Nat} :
    limit Query.initial.limit text? = .ok n ↔ AsksLimit text? n := by
  cases text? with
  | none =>
      rw [limit, Except.ok.injEq]
      constructor
      · rintro rfl
        exact .absent
      · rintro ⟨⟩
        rfl
  | some text =>
      rw [limit, asksLimit_some_iff, ← Word.read_eq_ok_iff]
      by_cases hempty : text = ""
      · subst hempty
        constructor
        · intro h
          exact Or.inl ⟨rfl, (Except.ok.inj h).symm⟩
        · rintro (⟨-, rfl⟩ | h)
          · rfl
          · cases h
      · have hwritten : ¬text.isEmpty = true := by simpa using hempty
        rw [if_neg hwritten]
        cases Word.read text.toList <;> simp [hempty]

/-- A limit that cannot be read is named in the error. -/
theorem limit_error {text? : Option String} {error : ApiError}
    (h : limit Query.initial.limit text? = .error error) :
    ∃ text reason, text? = some text ∧
      error = .badRequest ("bad limit " ++ text ++ ": " ++ reason) := by
  cases text? with
  | none => cases h
  | some text =>
      rw [limit] at h
      split at h
      · cases h
      · cases hread : Word.read text.toList with
        | ok n => simp [hread] at h
        | error fault =>
            simp only [hread, Except.error.injEq] at h
            exact ⟨text, fault.message, rfl, h.symm⟩

theorem asksReplay_some_iff {want : Bool} : AsksReplay (some text) want ↔
    (text = "" ∧ want = Query.initial.replay) ∨ Spells text (toString want) := by
  constructor
  · intro h
    cases h with
    | empty => exact Or.inl ⟨rfl, rfl⟩
    | spelled h => exact Or.inr h
  · rintro (⟨rfl, rfl⟩ | h)
    · exact .empty
    · exact .spelled h

theorem spells_toString_iff (want : Bool) : Spells text (toString want) ↔
    String.ofList (text.toList.map Char.toLower) = toString want :=
  spells_iff (List.all_eq_true.mp (by cases want <;> decide))

theorem map_toLower_eq_empty_iff :
    String.ofList (text.toList.map Char.toLower) = "" ↔ text = "" := by
  rw [← String.toList_inj, String.toList_ofList, ← String.toList_inj]
  exact List.map_eq_nil_iff

theorem replay_eq_ok_iff {text? : Option String} {want : Bool} :
    replay Query.initial.replay text? = .ok want ↔ AsksReplay text? want := by
  cases text? with
  | none =>
      rw [replay, Except.ok.injEq]
      constructor
      · rintro rfl
        exact .absent
      · rintro ⟨⟩
        rfl
  | some text =>
      have hblank : String.ofList (text.toList.map Char.toLower) = "" ↔ text = "" :=
        map_toLower_eq_empty_iff
      rw [replay, asksReplay_some_iff, spells_toString_iff, ← hblank]
      generalize String.ofList (text.toList.map Char.toLower) = word
      have hyes : toString true = "true" := rfl
      have hno : toString false = "false" := rfl
      split
      next htrue => cases want <;> simp [htrue, hyes, hno]
      next htrue =>
        split
        next hfalse => cases want <;> simp [hfalse, hyes, hno]
        next hfalse =>
          split
          next hempty => cases want <;> simp [hempty, Query.initial, hno]
          next hempty => cases want <;> simp [htrue, hfalse, hempty, hyes, hno]

theorem replay_error {text? : Option String} {error : ApiError}
    (h : replay Query.initial.replay text? = .error error) :
    ∃ text, text? = some text ∧ error = .badRequest ("bad replay " ++ text) := by
  cases text? with
  | none => cases h
  | some text =>
      rw [replay] at h
      repeat' split at h
      · cases h
      · cases h
      · cases h
      · exact ⟨text, rfl, (Except.error.inj h).symm⟩

theorem filter_eq_ok_iff {predicate : Predicate} :
    filter Query.initial.filter body = .ok predicate ↔ AsksFilter body predicate := by
  rw [filter]
  split
  next hblank =>
    have hnone := Json.ofBytes?_of_blank (List.all_eq_true.mp hblank)
    rw [Except.ok.injEq]
    constructor
    · rintro rfl
      exact .blank (List.all_eq_true.mp hblank)
    · intro h
      cases h with
      | blank => rfl
      | pattern hdocument => simp [hnone] at hdocument
  next hwritten =>
    constructor
    · intro h
      cases hdocument : Json.ofBytes? body with
      | none => simp [hdocument] at h
      | some document =>
          cases hcompile : Pattern.compile document with
          | error error => simp [hdocument, hcompile, Except.mapError] at h
          | ok compiled =>
              simp only [hdocument, hcompile, Except.mapError, Except.ok.injEq] at h
              exact h ▸ .pattern hdocument hcompile
    · intro h
      cases h with
      | blank hblank => exact absurd (List.all_eq_true.mpr hblank) hwritten
      | pattern hdocument hcompile => simp [hdocument, hcompile, Except.mapError]

theorem filter_error {error : ApiError} (h : filter Query.initial.filter body = .error error) :
    ∃ reason, error = .badRequest ("bad filter: " ++ reason) := by
  rw [filter] at h
  split at h
  · cases h
  · cases hdocument : Json.ofBytes? body with
    | none =>
        simp only [hdocument, Except.error.injEq] at h
        exact ⟨_, h.symm⟩
    | some document =>
        cases hcompile : Pattern.compile document with
        | ok predicate => simp [hdocument, hcompile, Except.mapError] at h
        | error fault =>
            simp only [hdocument, hcompile, Except.mapError, Except.error.injEq] at h
            exact ⟨_, h.symm⟩

end Parts

section Requests

variable {params : StreamParams} {body : List UInt8}

/-- A request is taken part by part, and each part decides its own share of the query. -/
theorem read_eq_ok_iff {query : Query} : read params body = .ok query ↔
    AsksLimit params.limit? query.limit ∧ AsksReplay params.replay? query.replay ∧
      AsksFilter body query.filter := by
  simp only [read, Pattern.bind_eq_ok_iff, ← limit_eq_ok_iff, ← replay_eq_ok_iff,
    ← filter_eq_ok_iff, pure, Except.pure, Except.ok.injEq]
  constructor
  · rintro ⟨_, hlimit, _, hreplay, _, hfilter, rfl⟩
    exact ⟨hlimit, hreplay, hfilter⟩
  · rintro ⟨hlimit, hreplay, hfilter⟩
    exact ⟨_, hlimit, _, hreplay, _, hfilter, rfl⟩

theorem not_exists_of_error {ε α : Type} {x : Except ε α} {error : ε} {p : α → Prop}
    (hx : x = .error error) (hp : ∀ {a}, x = .ok a ↔ p a) (a : α) : ¬p a := by
  rw [← hp, hx]
  nofun

/-- The first part that asks for nothing is the one that is reported. -/
theorem refused_of_read {error : ApiError} (h : read params body = .error error) :
    Refused params body error := by
  cases hlimit : limit Query.initial.limit params.limit? with
  | error fault =>
      obtain ⟨text, reason, htext, rfl⟩ := limit_error hlimit
      simp only [read, hlimit] at h
      cases h
      exact .limit htext (not_exists_of_error hlimit limit_eq_ok_iff) reason
  | ok n =>
      cases hreplay : replay Query.initial.replay params.replay? with
      | error fault =>
          obtain ⟨text, htext, rfl⟩ := replay_error hreplay
          simp only [read, hlimit, hreplay] at h
          cases h
          exact .replay ⟨n, limit_eq_ok_iff.mp hlimit⟩ htext
            (not_exists_of_error hreplay replay_eq_ok_iff)
      | ok want =>
          cases hfilter : filter Query.initial.filter body with
          | error fault =>
              obtain ⟨reason, rfl⟩ := filter_error hfilter
              simp only [read, hlimit, hreplay, hfilter] at h
              cases h
              exact .filter ⟨n, limit_eq_ok_iff.mp hlimit⟩ ⟨want, replay_eq_ok_iff.mp hreplay⟩
                (not_exists_of_error hfilter filter_eq_ok_iff) reason
          | ok predicate =>
              simp only [read, hlimit, hreplay, hfilter] at h
              cases h

theorem Refused.status_eq {error : ApiError} (h : Refused params body error) :
    error.status = 400 := by
  cases h <;> rfl

theorem unique_of_eq_ok_iff {ε α : Type} {x : Except ε α} {p : α → Prop}
    (h : ∀ {a}, x = .ok a ↔ p a) {a b : α} (ha : p a) (hb : p b) : a = b :=
  Except.ok.inj ((h.mpr ha).symm.trans (h.mpr hb))

/-- A request is taken exactly when each of its parts asks for something. The query is then made up
of what the parts ask for, and each part asks for one thing at most, so no part has a say in the
share of another, and one that is left out or blank asks for the default. Any other request is
answered with the status of a bad one, and its error names the first part that asks for nothing. -/
theorem parts_decide_query (params : StreamParams) (body : List UInt8) :
    ((∃ query, read params body = .ok query) ↔ (∃ n, AsksLimit params.limit? n) ∧
      (∃ want, AsksReplay params.replay? want) ∧ ∃ predicate, AsksFilter body predicate) ∧
    (∀ query, read params body = .ok query ↔ AsksLimit params.limit? query.limit ∧
      AsksReplay params.replay? query.replay ∧ AsksFilter body query.filter) ∧
    (∀ m n, AsksLimit params.limit? m → AsksLimit params.limit? n → m = n) ∧
    (∀ want other, AsksReplay params.replay? want → AsksReplay params.replay? other →
      want = other) ∧
    (∀ predicate other, AsksFilter body predicate → AsksFilter body other → predicate = other) ∧
    (∀ error, read params body = .error error → error.status = 400 ∧
      Refused params body error) := by
  refine ⟨?_, fun query => read_eq_ok_iff, fun m n => unique_of_eq_ok_iff limit_eq_ok_iff,
    fun want other => unique_of_eq_ok_iff replay_eq_ok_iff,
    fun predicate other => unique_of_eq_ok_iff filter_eq_ok_iff, fun error h => ?_⟩
  · simp only [read_eq_ok_iff]
    constructor
    · rintro ⟨query, hlimit, hreplay, hfilter⟩
      exact ⟨⟨_, hlimit⟩, ⟨_, hreplay⟩, _, hfilter⟩
    · rintro ⟨⟨n, hlimit⟩, ⟨want, hreplay⟩, predicate, hfilter⟩
      exact ⟨⟨want, n, predicate⟩, hlimit, hreplay, hfilter⟩
  · exact ⟨(refused_of_read h).status_eq, refused_of_read h⟩

/-- A sign and zeros in front, capitals, and a body with a form feed in it. -/
example : read ⟨some "+007", some "FaLsE"⟩ [0x20, 0x0C] = .ok ⟨false, 7, .pass⟩ := by
  rfl

end Requests

end StreamRequest

end EventBus
