import EventBus.Proofs.Json.NumberReading
import EventBus.Proofs.Text.Words
import EventBus.Proofs.Toml.Strings
import EventBus.Toml.Reader

/-!
Written documents read back. A string or a count reads as itself up to the end of its line, and so
does a line with a key; counts are no dates, since no mark that a date needs comes after their
digits. Lines with different keys, a header, and more lines with different keys are read as what
stands under each key, with a table under the name in the header.
-/

namespace EventBus.Toml

section Counts

variable {digits : List Char}

theorem digit?_of_isDigit {c : Char} (h : c.isDigit = true) :
    digit? 10 c = some (c.toNat - '0'.toNat) := by
  have hrange : '0'.toNat ≤ c.toNat ∧ c.toNat ≤ '9'.toNat := by
    simpa [Char.isDigit, UInt32.le_iff_toNat_le] using h
  have hle : '0' ≤ c ∧ c ≤ '9' := hrange
  have hsmall : c.toNat - '0'.toNat < 10 := Nat.lt_succ_of_le (Nat.sub_le_sub_right hrange.2 _)
  simp only [digit?, if_pos hle, Option.filter_some, hsmall, decide_true, if_true]

theorem digitsValue?_eq (h : ∀ c ∈ digits, c.isDigit = true) :
    digitsValue? 10 digits = some (Nat.ofDigitChars 10 digits 0) := by
  have hfrom : ∀ start, digits.foldlM (fun n c => (digit? 10 c).map (n * 10 + ·)) start =
      some (Nat.ofDigitChars 10 digits start) := by
    induction digits with
    | nil => exact fun start => rfl
    | cons c digits ih =>
        intro start
        obtain ⟨hfirst, hlater⟩ := List.forall_mem_cons.mp h
        rw [List.foldlM_cons, digit?_of_isDigit hfirst, Nat.ofDigitChars_cons, Nat.mul_comm 10]
        exact ih hlater _
  exact hfrom 0

theorem moreDigits?_append (h : ∀ c ∈ digits, c.isDigit = true) (rest : List Char) :
    moreDigits? 10 (digits ++ '\n' :: rest) = some (digits, '\n' :: rest) := by
  induction digits with
  | nil => rfl
  | cons c digits ih =>
      obtain ⟨hfirst, hlater⟩ := List.forall_mem_cons.mp h
      have hunder : c ≠ '_' := by
        rintro rfl
        cases hfirst
      rw [List.cons_append, moreDigits?, digit?_of_isDigit hfirst, Option.isSome_some, if_pos rfl,
        ih hlater]
      · rfl
      · exact fun _ _ h => absurd h hunder

/-- Digits at the end of a line start with a digit or are none, so with no other mark. -/
theorem digits_ne_mark (h : ∀ c ∈ digits, c.isDigit = true) (mark : Char)
    (hmark : mark.isDigit = false) (hfeed : mark ≠ '\n') (rest more : List Char) :
    digits ++ '\n' :: rest ≠ mark :: more := by
  cases digits with
  | nil => exact fun heq => hfeed (List.cons.inj heq).1.symm
  | cons c digits =>
      intro heq
      obtain ⟨rfl, -⟩ := List.cons.inj heq
      rw [h c List.mem_cons_self] at hmark
      cases hmark

/-- After so many digits stands no mark: there is a further digit or the end of the line. -/
theorem exactly?_digits (h : ∀ c ∈ digits, c.isDigit = true) (count : Nat) (mark : Char)
    (hmark : mark.isDigit = false) (hfeed : mark ≠ '\n') (rest : List Char) :
    exactly? count (digits ++ '\n' :: rest) = none ∨ ∃ n after,
      exactly? count (digits ++ '\n' :: rest) = some (n, after) ∧ word? [mark] after = none := by
  by_cases hcount : count ≤ digits.length
  · have htaken : ∀ c ∈ digits.take count, c.isDigit = true := fun c hc =>
      h c (List.mem_of_mem_take hc)
    have hlater : ∀ c ∈ digits.drop count, c.isDigit = true := fun c hc =>
      h c (List.mem_of_mem_drop hc)
    refine Or.inr ⟨Nat.ofDigitChars 10 (digits.take count) 0, digits.drop count ++ '\n' :: rest,
      ?_, ?_⟩
    · simp [exactly?, List.take_append_of_le_length hcount, digitsValue?_eq htaken, hcount,
        List.drop_append_of_le_length hcount]
    · refine if_neg fun hprefix => ?_
      obtain ⟨more, hmore⟩ := List.isPrefixOf_iff_prefix.mp hprefix
      exact digits_ne_mark hlater mark hmark hfeed rest more hmore.symm
  · obtain ⟨more, rfl⟩ := Nat.exists_eq_add_of_lt (Nat.lt_of_not_le hcount)
    have hvalue := digitsValue?_eq h
    have hnone : digitsValue? 10 (digits ++ '\n' :: rest.take more) = none := by
      rw [digitsValue?] at hvalue ⊢
      rw [List.foldlM_append, hvalue]
      rfl
    refine Or.inl ?_
    rw [exactly?, Nat.add_assoc, List.take_length_add_append, List.take_succ_cons, hnone]
    simp

theorem date?_digits (h : ∀ c ∈ digits, c.isDigit = true) (rest : List Char) :
    date? (digits ++ '\n' :: rest) = none := by
  have hday : day? (digits ++ '\n' :: rest) = none := by
    rcases exactly?_digits h 4 '-' rfl (by decide) rest with hnone | ⟨n, after, hsome, hword⟩
    · simp [day?, hnone]
    · simp [day?, hsome, hword]
  have htime : time? (digits ++ '\n' :: rest) = none := by
    rcases exactly?_digits h 2 ':' rfl (by decide) rest with hnone | ⟨n, after, hsome, hword⟩
    · simp [time?, twoDigits?, hnone]
    · simp [time?, twoDigits?, hsome, hword]
  simp [date?, dateEnd?, hday, htime]

theorem decimal?_toDigits (n : Nat) (rest : List Char) :
    decimal? (Nat.toDigits 10 n ++ '\n' :: rest) = some (Nat.toDigits 10 n, '\n' :: rest) := by
  obtain ⟨hnonempty, hdigits, -⟩ := Word.decimal_toDigits n
  rcases Nat.eq_zero_or_pos n with rfl | hpos
  · rfl
  · obtain ⟨c, more, hcons⟩ := List.exists_cons_of_ne_nil hnonempty
    have hzero : c ≠ '0' := by
      rintro rfl
      exact Json.head?_toDigits_ne_zero hpos (by rw [hcons]; rfl)
    rw [hcons] at hdigits ⊢
    obtain ⟨hfirst, hlater⟩ := List.forall_mem_cons.mp hdigits
    rw [List.cons_append, decimal?, digits?, digit?_of_isDigit hfirst, Option.isSome_some,
      if_pos rfl, moreDigits?_append hlater]
    · rfl
    · exact fun _ heq => hzero (List.cons.inj heq).1

theorem sign_digits (h : ∀ c ∈ digits, c.isDigit = true) (rest : List Char) :
    sign (digits ++ '\n' :: rest) = (none, digits ++ '\n' :: rest) := by
  rw [sign]
  · exact fun more => digits_ne_mark h '-' rfl (by decide) rest more
  · exact fun more => digits_ne_mark h '+' rfl (by decide) rest more

theorem number?_toDigits {n : Nat} (h : n ≤ maxInteger) (rest : List Char) :
    number? (Nat.toDigits 10 n ++ '\n' :: rest) = some (.integer n, '\n' :: rest) := by
  obtain ⟨-, hdigits, hdecimal⟩ := Word.decimal_toDigits n
  have hvalue : digitsValue? 10 (Nat.toDigits 10 n) = some n := by
    rw [digitsValue?_eq hdigits, hdecimal]
  have hbound : n < Nat.pow 2 63 := Nat.lt_of_le_of_lt h (by decide)
  simp [number?, sign_digits hdigits, decimal?_toDigits, fractionPart?, exponentPart?, hvalue,
    integerOf?, hbound]

theorem notFinite?_digits (h : ∀ c ∈ digits, c.isDigit = true) (rest : List Char) :
    notFinite? (digits ++ '\n' :: rest) = none := by
  have hword (first : Char) (more : List Char) (hfirst : first.isDigit = false)
      (hfeed : first ≠ '\n') : word? (first :: more) (digits ++ '\n' :: rest) = none := by
    refine if_neg fun hprefix => ?_
    obtain ⟨after, hafter⟩ := List.isPrefixOf_iff_prefix.mp hprefix
    exact digits_ne_mark h first hfirst hfeed rest (more ++ after) hafter.symm
  have hinf := hword 'i' ['n', 'f'] rfl (by decide)
  have hnan := hword 'n' ['a', 'n'] rfl (by decide)
  simp [notFinite?, sign_digits h, hinf, hnan]

/-- A count reads as itself, up to the end of its line. -/
theorem scalarValue?_toDigits {n : Nat} (h : n ≤ maxInteger) (rest : List Char) :
    scalarValue? (Nat.toDigits 10 n ++ '\n' :: rest) = some (.integer n, '\n' :: rest) := by
  obtain ⟨hnonempty, hdigits, -⟩ := Word.decimal_toDigits n
  have hdate := date?_digits hdigits rest
  have hnotFinite := notFinite?_digits hdigits rest
  have hnumber := number?_toDigits h rest
  obtain ⟨c, more, hcons⟩ := List.exists_cons_of_ne_nil hnonempty
  rw [hcons] at hdigits hdate hnotFinite hnumber ⊢
  obtain ⟨hfirst, hlater⟩ := List.forall_mem_cons.mp hdigits
  have hsecond (mark : Char) (hmark : mark.isDigit = false) (hfeed : mark ≠ '\n') :=
    digits_ne_mark hlater mark hmark hfeed rest
  have hstring : ¬(c = '"' ∨ c = '\'') := by
    rintro (rfl | rfl) <;> cases hfirst
  have htrue : c ≠ 't' := by
    rintro rfl
    cases hfirst
  have hfalse : c ≠ 'f' := by
    rintro rfl
    cases hfirst
  rw [List.cons_append] at hdate hnotFinite hnumber ⊢
  rw [scalarValue?, if_neg hstring, if_neg htrue, if_neg hfalse, numeral?, hdate]
  · exact (congrArg₂ Option.or hnotFinite hnumber).trans Option.none_or
  · exact fun _ heq => hsecond 'x' rfl (by decide) _ (List.cons.inj heq).2
  · exact fun _ heq => hsecond 'o' rfl (by decide) _ (List.cons.inj heq).2
  · exact fun _ heq => hsecond 'b' rfl (by decide) _ (List.cons.inj heq).2

end Counts

section Values

/-- The text stands for the value where the line ends after it. -/
def Writes (text : String) (value : Value) : Prop :=
  ∀ rest, value? maxDepth (skipSpace (text.toList ++ '\n' :: rest)) = some (value, '\n' :: rest)

theorem value?_scalar {c : Char} (harray : c ≠ '[') (htable : c ≠ '\x7b') (depth : Nat)
    (cs : List Char) : value? depth (c :: cs) = scalarValue? (c :: cs) := by
  cases depth <;> rw [value?] <;> simp_all

theorem writes_of_scalarValue? {text : String} {value : Value} {c : Char} {more : List Char}
    (htext : text.toList = c :: more) (hstart : c ∉ [' ', '\t', '[', '\x7b'])
    (h : ∀ rest, scalarValue? (text.toList ++ '\n' :: rest) = some (value, '\n' :: rest)) :
    Writes text value := by
  simp only [List.mem_cons, List.not_mem_nil, or_false, not_or] at hstart
  obtain ⟨hspace, htab, harray, htable⟩ := hstart
  intro rest
  have hskip : skipSpace (text.toList ++ '\n' :: rest) = text.toList ++ '\n' :: rest := by
    simp [skipSpace, htext, isSpace, hspace, htab]
  rw [hskip, ← h rest, htext]
  exact value?_scalar harray htable maxDepth _

theorem exists_stringChars_eq_cons (cs : List Char) :
    ∃ c more, stringChars cs = c :: more ∧ (c = '"' ∨ c = '\'') := by
  simp only [stringChars]
  split
  · exact ⟨_, _, rfl, Or.inl rfl⟩
  · exact ⟨_, _, rfl, Or.inr rfl⟩
  · exact ⟨_, _, rfl, Or.inl rfl⟩
  · exact ⟨_, _, rfl, Or.inr rfl⟩

theorem writes_stringText (s : String) : Writes (stringText s) (.string s) := by
  obtain ⟨c, more, hcons, hquote⟩ := exists_stringChars_eq_cons s.toList
  have htext : (stringText s).toList = c :: more := by rw [stringText, String.toList_ofList, hcons]
  refine writes_of_scalarValue? htext (by rcases hquote with rfl | rfl <;> decide) fun rest => ?_
  have hread := string?_stringChars s.toList rest
  rw [hcons] at hread
  rw [htext, List.cons_append, scalarValue?, if_pos hquote]
  rw [List.cons_append] at hread
  simp only [hread, Option.map_some, String.ofList_toList]

theorem writes_natText? {n : Nat} {text : String} (h : natText? n = some text) :
    Writes text (.integer n) := by
  unfold natText? at h
  split at h
  next hle =>
    cases h
    obtain ⟨hnonempty, hdigits, -⟩ := Word.decimal_toDigits n
    obtain ⟨c, more, hcons⟩ := List.exists_cons_of_ne_nil hnonempty
    have htext : (toString n).toList = Nat.toDigits 10 n := by simp
    have hdigit : c.isDigit = true := hdigits c (hcons ▸ List.mem_cons_self)
    have hstart : c ∉ [' ', '\t', '[', '\x7b'] := by
      simp only [List.mem_cons, List.not_mem_nil, or_false, not_or]
      refine ⟨?_, ?_, ?_, ?_⟩ <;> (rintro rfl; cases hdigit)
    refine writes_of_scalarValue? (htext.trans hcons) hstart fun rest => ?_
    rw [htext, scalarValue?_toDigits hle]
  next => cases h

end Values

section Lines

/-- A key that is written as it is. -/
structure Bare (key : String) : Prop where
  nonempty : key.toList ≠ []
  bare : ∀ c ∈ key.toList, isBareChar c = true

instance (key : String) : Decidable (Bare key) :=
  decidable_of_iff (key.toList ≠ [] ∧ key.toList.all isBareChar = true)
    ⟨fun h => ⟨h.1, List.all_eq_true.mp h.2⟩,
      fun h => ⟨h.nonempty, List.all_eq_true.mpr h.bare⟩⟩

theorem ne_of_isBareChar {c : Char} (h : isBareChar c = true) (mark : Char)
    (hmark : isBareChar mark = false) : c ≠ mark := by
  rintro rfl
  rw [h] at hmark
  cases hmark

theorem Bare.skipSpace_eq {key : String} (h : Bare key) (rest : List Char) :
    skipSpace (key.toList ++ rest) = key.toList ++ rest := by
  obtain ⟨c, more, hcons⟩ := List.exists_cons_of_ne_nil h.nonempty
  have hbare := h.bare c (hcons ▸ List.mem_cons_self)
  have hspace : isSpace c = false := by
    simp [isSpace, ne_of_isBareChar hbare ' ' rfl, ne_of_isBareChar hbare '\t' rfl]
  simp [skipSpace, hcons, hspace]

theorem simpleKey?_bare {key : String} (h : Bare key) {c : Char} (hend : isBareChar c = false)
    (rest : List Char) : simpleKey? (key.toList ++ c :: rest) = some (key.toList, c :: rest) := by
  have htake : (key.toList ++ c :: rest).takeWhile isBareChar = key.toList := by
    rw [List.takeWhile_append_of_pos h.bare]
    simp [hend]
  have hdrop : (key.toList ++ c :: rest).dropWhile isBareChar = c :: rest := by
    rw [List.dropWhile_append_of_pos h.bare]
    simp [hend]
  obtain ⟨first, more, hcons⟩ := List.exists_cons_of_ne_nil h.nonempty
  have hbare := h.bare first (hcons ▸ List.mem_cons_self)
  have hquote : ¬(first = '"' ∨ first = '\'') := by
    rintro (rfl | rfl) <;> cases hbare
  rw [hcons, List.cons_append] at htake hdrop ⊢
  rw [simpleKey?, if_neg hquote, if_pos hbare, htake, hdrop]

/-- A key without quotes ends at the first character that is none of its kind. No dot comes
after it here. -/
theorem key?_bare {key : String} (h : Bare key) {c : Char} (hend : isBareChar c = false)
    {rest : List Char} (hdot : ∀ more, skipSpace (c :: rest) ≠ '.' :: more) :
    key? maxDepth (key.toList ++ c :: rest) = some ([key], skipSpace (c :: rest)) := by
  rw [maxDepth, key?, h.skipSpace_eq, simpleKey?_bare h hend]
  simp only [Option.bind_eq_bind, Option.bind_some]
  rw [String.ofList_toList]
  rfl

theorem keyValue?_bare {key text : String} {value : Value} (hkey : Bare key)
    (h : Writes text value) (rest : List Char) :
    keyValue? (value? maxDepth)
        (key.toList ++ ' ' :: '=' :: ' ' :: (text.toList ++ '\n' :: rest)) =
      some (([key], value), '\n' :: rest) := by
  have hread : value? maxDepth (skipSpace (' ' :: (text.toList ++ '\n' :: rest))) =
      some (value, '\n' :: rest) := h rest
  have hspace : skipSpace (' ' :: '=' :: ' ' :: (text.toList ++ '\n' :: rest)) =
      '=' :: ' ' :: (text.toList ++ '\n' :: rest) := rfl
  have hpath := key?_bare hkey (c := ' ') rfl fun more heq =>
    absurd (List.cons.inj (hspace.symm.trans heq)).1 (by decide)
  rw [keyValue?, hpath, hspace]
  simp [word?, hread]

theorem line?_entryLine {key text : String} {value : Value} (hkey : Bare key)
    (h : Writes text value) (rest : List Char) :
    line? ((entryLine key text).toList ++ rest) = some (.entry [key] value, rest) := by
  have htext : (entryLine key text).toList ++ rest =
      key.toList ++ ' ' :: '=' :: ' ' :: (text.toList ++ '\n' :: rest) := by
    simp [entryLine]
  have hread := keyValue?_bare hkey h rest
  rw [htext, line?, hkey.skipSpace_eq]
  obtain ⟨first, more, hcons⟩ := List.exists_cons_of_ne_nil hkey.nonempty
  have hbare := hkey.bare first (hcons ▸ List.mem_cons_self)
  have hbracket := ne_of_isBareChar hbare '[' rfl
  have hempty : ¬(first = '#' ∨ first = '\n' ∨ first = '\r') := by
    rintro (rfl | rfl | rfl) <;> cases hbare
  rw [hcons, List.cons_append] at hread ⊢
  rw [lineStart?, if_neg hempty, hread]
  · simp [lineEnd?, skipSpace, isSpace]
  · exact fun _ hfirst _ => hbracket hfirst
  · exact hbracket

theorem line?_header {key : String} (hkey : Bare key) (rest : List Char) :
    line? ('[' :: (key.toList ++ ']' :: '\n' :: rest)) = some (.header [key], rest) := by
  have hclose : skipSpace (']' :: '\n' :: rest) = ']' :: '\n' :: rest := rfl
  have hpath := key?_bare hkey (c := ']') rfl fun more heq =>
    absurd (List.cons.inj (hclose.symm.trans heq)).1 (by decide)
  have hstart : skipSpace ('[' :: (key.toList ++ ']' :: '\n' :: rest)) =
      '[' :: (key.toList ++ ']' :: '\n' :: rest) := rfl
  obtain ⟨first, more, hcons⟩ := List.exists_cons_of_ne_nil hkey.nonempty
  have hbracket := ne_of_isBareChar (hkey.bare first (hcons ▸ List.mem_cons_self)) '[' rfl
  rw [line?, hstart, lineStart?, hpath, hclose]
  · simp [word?, lineEnd?, skipSpace, isSpace]
  · rw [hcons]
    exact fun _ heq => hbracket (List.cons.inj heq).1

/-- Text that is read as lines, one after the other, each with its end. -/
inductive ReadsLines : List Char → List Line → Prop where
  | nil : ReadsLines [] []
  | cons {text more : List Char} {line : Line} {lines : List Line} (hne : text ≠ [])
      (h : line? (text ++ more) = some (line, more)) (hmore : ReadsLines more lines) :
      ReadsLines (text ++ more) (line :: lines)

/-- Every line takes a character at least, so there is fuel enough. -/
theorem ReadsLines.lines?_eq {cs : List Char} {lines : List Line} (h : ReadsLines cs lines)
    {fuel : Nat} (hfuel : cs.length < fuel) : lines? fuel cs = some lines := by
  induction h generalizing fuel with
  | nil => rw [lines?]
  | @cons text more line lines hne hline _ ih =>
      have hlength : 0 < text.length := List.length_pos_of_ne_nil hne
      rw [List.length_append] at hfuel
      obtain ⟨fuel, rfl⟩ : ∃ less, fuel = less + 1 := ⟨fuel - 1, by omega⟩
      rw [lines?, hline]
      · simp [ih (show more.length < fuel by omega)]
      · exact fun hnil => hne (List.append_eq_nil_iff.mp hnil).1

end Lines

section Documents

/-- A key with a text and the value that the text stands for. -/
structure Setting where
  key : String
  text : String
  value : Value

namespace Setting

structure Sound (setting : Setting) : Prop where
  bare : Bare setting.key
  writes : Writes setting.text setting.value

def line (setting : Setting) : Line := .entry [setting.key] setting.value

def held (setting : Setting) : String × Value := (setting.key, setting.value)

def node (setting : Setting) : String × Node := (setting.key, .value setting.value)

def chars (setting : Setting) : List Char := (entryLine setting.key setting.text).toList

end Setting

/-- Settings of the document itself, and below a header those of one table. -/
def documentChars (top : List Setting) (name : String) (inner : List Setting) : List Char :=
  top.flatMap (·.chars) ++ ((headerLine name).toList ++ inner.flatMap (·.chars))

variable {top inner : List Setting} {name : String}

theorem ReadsLines.append_settings {settings : List Setting} (h : ∀ s ∈ settings, s.Sound)
    {cs : List Char} {lines : List Line} (hmore : ReadsLines cs lines) :
    ReadsLines (settings.flatMap (·.chars) ++ cs) (settings.map (·.line) ++ lines) := by
  induction settings with
  | nil => exact hmore
  | cons setting settings ih =>
      obtain ⟨hfirst, hlater⟩ := List.forall_mem_cons.mp h
      rw [List.flatMap_cons, List.append_assoc, List.map_cons, List.cons_append]
      refine .cons ?_ (line?_entryLine hfirst.bare hfirst.writes _) (ih hlater)
      simp [Setting.chars, entryLine]

theorem readsLines_documentChars (htop : ∀ s ∈ top, s.Sound) (hname : Bare name)
    (hinner : ∀ s ∈ inner, s.Sound) :
    ReadsLines (documentChars top name inner)
      (top.map (·.line) ++ .empty :: .header [name] :: inner.map (·.line)) := by
  have hafter : ReadsLines (inner.flatMap (·.chars)) (inner.map (·.line)) := by
    have h := ReadsLines.nil.append_settings hinner
    simpa using h
  have hheader : ReadsLines ((headerLine name).toList ++ inner.flatMap (·.chars))
      (.empty :: .header [name] :: inner.map (·.line)) := by
    have htext : (headerLine name).toList ++ inner.flatMap (·.chars) =
        ['\n'] ++ ('[' :: (name.toList ++ [']', '\n']) ++ inner.flatMap (·.chars)) := by
      simp [headerLine]
    rw [htext]
    refine .cons (by simp) rfl (.cons (by simp) ?_ hafter)
    simpa using line?_header hname (inner.flatMap (·.chars))
  exact hheader.append_settings htop

theorem find?_new {entries : Entries} (h : name ∉ entries.map (·.1)) :
    Entries.find? name entries = none := by
  rw [Entries.find?, List.lookup_eq_none_iff]
  exact fun entry hentry => bne_iff_ne.mpr fun hsame => h (hsame ▸ List.mem_map_of_mem hentry)

theorem remove_new {entries : Entries} (h : name ∉ entries.map (·.1)) :
    Entries.remove name entries = entries := by
  rw [Entries.remove, List.filter_eq_self]
  exact fun entry hentry => bne_iff_ne.mpr fun hsame => h (hsame ▸ List.mem_map_of_mem hentry)

/-- Under a name that is not among the keys yet, a node is put at the end. -/
theorem put_new {node : Node} {entries : Entries} (h : name ∉ entries.map (·.1)) :
    Entries.put name node entries = entries ++ [(name, node)] := by
  induction entries with
  | nil => rfl
  | cons entry entries ih =>
      obtain ⟨hfirst, hlater⟩ := not_or.mp (mt List.mem_cons.mpr h)
      rw [Entries.put, if_neg (Ne.symm hfirst), ih hlater, List.cons_append]

/-- Lines with new keys, all different, are added to the table at hand one after the other. -/
theorem foldlM_addLine?_settings {settings : List Setting} {document : Document}
    (h : (document.current.map (·.1) ++ settings.map (·.key)).Nodup) :
    (settings.map (·.line)).foldlM Document.addLine? document =
      some { document with current := document.current ++ settings.map (·.node) } := by
  induction settings generalizing document with
  | nil => simp
  | cons setting settings ih =>
      have hnew : Entries.find? setting.key document.current = none := by
        rw [List.map_cons] at h
        exact find?_new fun hmem =>
          (List.nodup_append.mp h).2.2 _ hmem _ List.mem_cons_self rfl
      have hadd : document.addLine? setting.line =
          some { document with current := document.current ++ [setting.node] } := by
        simp [Document.addLine?, Setting.line, Document.add?, Entries.add?, Entries.update,
          Entries.addValue, hnew, Setting.node]
      rw [List.map_cons, List.foldlM_cons, hadd, Option.bind_eq_bind, Option.bind_some, ih]
      · simp
      · simpa [Setting.node] using h

theorem toValues_append (entries others : Entries) :
    toValues (entries ++ others) = toValues entries ++ toValues others := by
  induction entries with
  | nil => rfl
  | cons entry entries ih => rw [List.cons_append, toValues, ih, toValues, List.cons_append]

theorem toValues_nodes (settings : List Setting) :
    toValues (settings.map (·.node)) = settings.map (·.held) := by
  induction settings with
  | nil => rfl
  | cons setting settings ih => rw [List.map_cons, toValues, ih]; rfl

/-- The mark that a text may start with is no character of a key. -/
theorem dropByteOrderMark_documentChars (htop : ∀ s ∈ top, s.Sound) :
    dropByteOrderMark (documentChars top name inner) = documentChars top name inner := by
  cases top with
  | nil => simp [documentChars, headerLine, dropByteOrderMark]
  | cons setting top =>
      have hbare := (htop setting List.mem_cons_self).bare
      obtain ⟨first, more, hcons⟩ := List.exists_cons_of_ne_nil hbare.nonempty
      have hfirst : first.toNat ≠ 0xFEFF := by
        intro hmark
        obtain rfl : first = Char.ofNat 0xFEFF := by rw [← hmark, Char.ofNat_toNat]
        exact absurd (hbare.bare _ (hcons ▸ List.mem_cons_self)) (by decide)
      simp [documentChars, Setting.chars, entryLine, hcons, dropByteOrderMark, hfirst]

/-- A document with different keys reads as what stands under them. -/
theorem read?_documentChars (htop : ∀ s ∈ top, s.Sound) (hname : Bare name)
    (hinner : ∀ s ∈ inner, s.Sound) (htopKeys : (top.map (·.key) ++ [name]).Nodup)
    (hinnerKeys : (inner.map (·.key)).Nodup) :
    read? (String.ofList (documentChars top name inner)) =
      some (top.map (·.held) ++ [(name, .table (inner.map (·.held)))]) := by
  obtain ⟨hkeys, -, hfresh⟩ := List.nodup_append.mp htopKeys
  have hnew : name ∉ (top.map (·.node)).map (·.1) := by
    rw [List.map_map]
    exact fun hmem => hfresh name hmem name List.mem_cons_self rfl
  have hlines := (readsLines_documentChars htop hname hinner).lines?_eq (Nat.lt_succ_self _)
  have hfirst : (top.map (·.line)).foldlM Document.addLine? Document.start =
      some { Document.start with current := top.map (·.node) } :=
    foldlM_addLine?_settings (by simpa [Document.start] using hkeys)
  have hopen : Document.openTable? { Document.start with current := top.map (·.node) } [name] =
      some ⟨top.map (·.node), .table [name], []⟩ := by
    simp [Document.openTable?, Document.close?, Document.start, Document.at?, find?_new hnew,
      Document.takeOut?, Document.updateParent, Entries.update, remove_new hnew]
  have hlast : (inner.map (·.line)).foldlM Document.addLine?
      ⟨top.map (·.node), .table [name], []⟩ =
        some ⟨top.map (·.node), .table [name], inner.map (·.node)⟩ :=
    foldlM_addLine?_settings (by simpa using hinnerKeys)
  have hclose : Document.finish? ⟨top.map (·.node), .table [name], inner.map (·.node)⟩ =
      some (top.map (·.held) ++ [(name, .table (inner.map (·.held)))]) := by
    simp [Document.finish?, Document.close?, Document.updateParent, Entries.update, put_new hnew,
      toValues_append, toValues_nodes, toValues, Node.toValue]
  rw [read?, String.toList_ofList, dropByteOrderMark_documentChars htop, hlines]
  simp only [Option.bind_eq_bind, Option.bind_some, List.foldlM_append, hfirst, List.foldlM_cons,
    Document.addLine?, hopen, hlast, hclose]

end Documents

end EventBus.Toml
