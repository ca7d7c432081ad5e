import EventBus.Proofs.Json.NumberReading
import EventBus.Proofs.Json.Walk

/-!
Written values read back. Each escape of a character reads as the character, and the items and
entries of a container end where the next separator stands, so the text of a value is read as the
value up to its last character, whatever follows. Of numbers it is asked that their own text reads
back, and of the reader that it goes as deep as the value does.
-/

namespace EventBus.Json

section Strings

theorem hexDigit?_hexChar (n : Nat) : hexDigit? (hexChar n) = some (n % 16) := by
  have hall : ∀ m < 16, hexDigit? (Nat.digitChar m) = some m := by decide
  exact hall _ (Nat.mod_lt n (by decide))

/-- The last two of four digits write a code point below the space. -/
theorem hexFour?_hexChar {n : Nat} (h : n < 32) :
    hexFour? '0' '0' (hexChar (n / 16)) (hexChar n) = some n := by
  have hzero : hexDigit? '0' = some 0 := by decide
  simp only [hexFour?, hexDigit?_hexChar, hzero, Option.bind_eq_bind, Option.bind_some, pure,
    Option.some.injEq]
  omega

theorem stringRest?_plain {c : Char} (hquote : c ≠ '"') (hslash : c ≠ '\\') (h : 32 ≤ c.toNat)
    (rest : List Char) :
    stringRest? (c :: rest) = (stringRest? rest).map fun read => (c :: read.1, read.2) := by
  have hplain : ¬(c.toNat < 32 ∨ c = '\\') := by
    simp [hslash, h]
  rw [stringRest?.eq_def]
  split
  · next heq => cases heq
  · next heq => exact absurd (List.cons.inj heq).1 hquote
  · next heq => exact absurd (List.cons.inj heq).1 hslash
  · next heq => exact absurd (List.cons.inj heq).1 hslash
  · next heq =>
      obtain ⟨rfl, rfl⟩ := List.cons.inj heq
      simp only [hplain, if_false, Option.map_eq_bind]
      rfl

theorem stringRest?_short {c d : Char} (hlong : c ≠ 'u') (h : shortEscape? c = some d)
    (rest : List Char) :
    stringRest? ('\\' :: c :: rest) = (stringRest? rest).map fun read => (d :: read.1, read.2) := by
  rw [stringRest?.eq_def]
  split
  · next heq => cases heq
  · next heq => exact absurd (List.cons.inj heq).1 (by decide)
  · next heq => exact absurd (List.cons.inj (List.cons.inj heq).2).1 hlong
  · next heq =>
      obtain ⟨rfl, rfl⟩ := List.cons.inj (List.cons.inj heq).2
      simp only [h, Option.bind_eq_bind, Option.bind_some, Option.map_eq_bind]
      rfl
  · next hshort heq =>
      obtain ⟨rfl, rfl⟩ := List.cons.inj heq
      exact (hshort _ _ rfl rfl).elim

theorem stringRest?_long {n : Nat} (h : n < 32) (rest : List Char) :
    stringRest? ('\\' :: 'u' :: '0' :: '0' :: hexChar (n / 16) :: hexChar n :: rest) =
      (stringRest? rest).map fun read => (Char.ofNat n :: read.1, read.2) := by
  have hsingle : ¬(0xD800 ≤ n ∧ n < 0xDC00) ∧ ¬(0xDC00 ≤ n ∧ n < 0xE000) := by omega
  rw [stringRest?]
  simp only [hexFour?_hexChar h, Option.bind_eq_bind, Option.bind_some, hsingle, if_false,
    Option.map_eq_bind]
  rfl

/-- What is written for a character reads as the character. -/
theorem stringRest?_escaped (c : Char) (rest : List Char) :
    stringRest? (escaped c ++ rest) =
      (stringRest? rest).map fun read => (c :: read.1, read.2) := by
  have hnamed {c d : Char} (hlong : d ≠ 'u') (hshort : shortEscape? d = some c)
      (hescaped : escaped c = ['\\', d]) :
      stringRest? (escaped c ++ rest) =
        (stringRest? rest).map fun read => (c :: read.1, read.2) := by
    rw [hescaped]
    exact stringRest?_short hlong hshort rest
  by_cases hquote : c = '"'
  · subst hquote
    exact hnamed (d := '"') (by decide) (by decide) (by decide)
  by_cases hslash : c = '\\'
  · subst hslash
    exact hnamed (d := '\\') (by decide) (by decide) (by decide)
  by_cases hfeed : c = '\n'
  · subst hfeed
    exact hnamed (d := 'n') (by decide) (by decide) (by decide)
  by_cases hreturn : c = '\r'
  · subst hreturn
    exact hnamed (d := 'r') (by decide) (by decide) (by decide)
  by_cases htab : c = '\t'
  · subst htab
    exact hnamed (d := 't') (by decide) (by decide) (by decide)
  by_cases hback : c.toNat = 8
  · obtain rfl : c = Char.ofNat 8 := by rw [← hback, Char.ofNat_toNat]
    exact hnamed (d := 'b') (by decide) (by decide) (by decide)
  by_cases hform : c.toNat = 12
  · obtain rfl : c = Char.ofNat 12 := by rw [← hform, Char.ofNat_toNat]
    exact hnamed (d := 'f') (by decide) (by decide) (by decide)
  simp only [escaped, hquote, hslash, hfeed, hreturn, htab, hback, hform, if_false]
  by_cases hcontrol : c.toNat < 32
  · rw [if_pos hcontrol]
    exact (stringRest?_long hcontrol rest).trans (by rw [Char.ofNat_toNat])
  · rw [if_neg hcontrol]
    exact stringRest?_plain hquote hslash (Nat.not_lt.mp hcontrol) rest

/-- The text of a string up to its closing quote reads as the string. -/
theorem stringRest?_flatMap_escaped (cs rest : List Char) :
    stringRest? (cs.flatMap escaped ++ '"' :: rest) = some (cs, rest) := by
  induction cs with
  | nil => rfl
  | cons c cs ih => rw [List.flatMap_cons, List.append_assoc, stringRest?_escaped, ih]; rfl

theorem stringRest?_stringChars (s : String) (rest : List Char) :
    stringRest? (s.toList.flatMap escaped ++ ['"'] ++ rest) = some (s.toList, rest) := by
  rw [List.append_assoc, List.singleton_append, stringRest?_flatMap_escaped]

end Strings

/-- The text starts as a value does, and not with a space or a closing bracket. -/
def StartsValue (cs : List Char) : Prop :=
  ∃ c more, cs = c :: more ∧ (c ∈ "ntf\"[\x7b-".toList ∨ c.isDigit = true)

/-- The text of the number reads as the number. -/
def ReadsBack (n : Number) : Prop := number? (numberChars n) = some (n, [])

theorem readsBack_int {n : Int} (h : IsWord n) : ReadsBack (.int n) := number?_integerChars h

section Starts

variable {cs : List Char}

theorem StartsValue.append (h : StartsValue cs) (rest : List Char) : StartsValue (cs ++ rest) := by
  obtain ⟨c, more, rfl, hstart⟩ := h
  exact ⟨c, more ++ rest, rfl, hstart⟩

theorem StartsValue.skipSpace_eq (h : StartsValue cs) : skipSpace cs = cs := by
  obtain ⟨c, more, rfl, hstart⟩ := h
  have hspace : ¬(c = ' ' ∨ c = '\t' ∨ c = '\n' ∨ c = '\r') := by
    rintro (rfl | rfl | rfl | rfl) <;> exact absurd hstart (by decide)
  rw [skipSpace, if_neg hspace]

theorem StartsValue.ne_close (h : StartsValue cs) (rest : List Char) : cs ≠ ']' :: rest := by
  obtain ⟨c, more, rfl, hstart⟩ := h
  rintro heq
  obtain ⟨rfl, -⟩ := List.cons.inj heq
  exact absurd hstart (by decide)

theorem startsValue_of_number? {n : Number} {rest : List Char} (h : number? cs = some (n, rest)) :
    StartsValue cs := by
  obtain ⟨c, more, rfl, hstart⟩ := number?_start h
  refine ⟨c, more, rfl, hstart.imp_left ?_⟩
  rintro rfl
  decide

theorem startsValue_chars {value : Json} (h : ∀ n, value = .number n → ReadsBack n) :
    StartsValue value.chars := by
  cases value with
  | null => exact ⟨'n', _, rfl, by decide⟩
  | bool value => cases value <;> exact ⟨_, _, rfl, by decide⟩
  | number n => exact startsValue_of_number? (h n rfl)
  | string s => exact ⟨'"', _, rfl, by decide⟩
  | array items => cases items <;> exact ⟨'[', _, rfl, by decide⟩
  | object entries =>
      rcases entries with _ | ⟨⟨key, value⟩, entries⟩ <;> exact ⟨'\x7b', _, rfl, by decide⟩

end Starts

/-- The reader takes the text of the value for the value, up to whatever ends it. -/
structure Reads (read : List Char → Option (Json × List Char)) (value : Json) : Prop where
  start : StartsValue value.chars
  read : ∀ rest, Stops rest → read (value.chars ++ rest) = some (value, rest)

section Containers

variable {read : List Char → Option (Json × List Char)} {cs rest : List Char} {fuel : Nat}

theorem items?_last {item : Json} (hstart : StartsValue cs)
    (hread : read cs = some (item, ']' :: rest)) :
    items? read (fuel + 1) cs = some ([item], rest) := by
  rw [items?, hstart.skipSpace_eq, hread]
  rfl

theorem items?_more {item : Json} {items : List Json} {left : List Char}
    (hstart : StartsValue cs) (hread : read cs = some (item, ',' :: rest))
    (hlater : items? read fuel rest = some (items, left)) :
    items? read (fuel + 1) cs = some (item :: items, left) := by
  rw [items?, hstart.skipSpace_eq, hread]
  exact congrArg (fun read? => read?.bind fun read => some (item :: read.1, read.2)) hlater

theorem key?_stringChars (key : String) (hstart : StartsValue cs) :
    key? (stringChars key ++ ':' :: cs) = some (key, cs) := by
  have hquote : skipSpace (stringChars key ++ ':' :: cs) =
      '"' :: (key.toList.flatMap escaped ++ ['"'] ++ ':' :: cs) := rfl
  rw [key?, hquote]
  simp only [stringRest?_stringChars, Option.bind_eq_bind, Option.bind_some]
  exact congrArg some (Prod.ext (String.ofList_toList) hstart.skipSpace_eq)

theorem entries?_last {key : String} {value : Json} {left : List Char}
    (hkey : key? cs = some (key, left)) (hread : read left = some (value, '\x7d' :: rest)) :
    entries? read (fuel + 1) cs = some ([(key, value)], rest) := by
  simp only [entries?, hkey, hread, Option.bind_eq_bind, Option.bind_some]
  rfl

theorem entries?_more {key : String} {value : Json} {entries : List (String × Json)}
    {left after : List Char} (hkey : key? cs = some (key, left))
    (hread : read left = some (value, ',' :: rest))
    (hlater : entries? read fuel rest = some (entries, after)) :
    entries? read (fuel + 1) cs = some ((key, value) :: entries, after) := by
  simp only [entries?, hkey, hread, Option.bind_eq_bind, Option.bind_some]
  exact congrArg (fun read? => read?.bind fun read => some ((key, value) :: read.1, read.2)) hlater

theorem itemsChars_cons_append (item : Json) (items : List Json) (rest : List Char) :
    itemsChars (item :: items) ++ rest = ',' :: (item.chars ++ (itemsChars items ++ rest)) := by
  simp [itemsChars]

/-- The text of one entry and more after the opening brace, and what follows the closing one. -/
def entriesText (key : String) (value : Json) (entries : List (String × Json))
    (rest : List Char) : List Char :=
  stringChars key ++ ':' :: (value.chars ++ (entriesChars entries ++ rest))

theorem entriesChars_cons_append (key : String) (value : Json) (entries : List (String × Json))
    (rest : List Char) :
    entriesChars ((key, value) :: entries) ++ rest = ',' :: entriesText key value entries rest := by
  simp [entriesChars, entriesText]

theorem chars_object_append (key : String) (value : Json) (entries : List (String × Json))
    (rest : List Char) :
    chars (.object ((key, value) :: entries)) ++ rest =
      '\x7b' :: entriesText key value entries rest := by
  simp [chars, entriesText]

theorem skipSpace_entriesText (key : String) (value : Json) (entries : List (String × Json))
    (rest : List Char) :
    skipSpace (entriesText key value entries rest) = entriesText key value entries rest := rfl

theorem stops_itemsChars (items : List Json) (rest : List Char) :
    Stops (itemsChars items ++ rest) := by
  cases items <;> simp [itemsChars, Stops]

theorem stops_entriesChars (entries : List (String × Json)) (rest : List Char) :
    Stops (entriesChars entries ++ rest) := by
  rcases entries with _ | ⟨⟨key, value⟩, entries⟩ <;> simp [entriesChars, Stops]

theorem length_lt_itemsChars (items : List Json) : items.length < (itemsChars items).length := by
  induction items with
  | nil => decide
  | cons item items ih =>
      simp only [itemsChars, List.length_cons, List.length_append]
      omega

theorem length_lt_entriesChars (entries : List (String × Json)) :
    entries.length < (entriesChars entries).length := by
  induction entries with
  | nil => decide
  | cons entry entries ih =>
      simp only [entriesChars, List.length_cons, List.length_append]
      omega

theorem length_lt_entriesText (key : String) (value : Json) (entries : List (String × Json))
    (rest : List Char) : entries.length < (entriesText key value entries rest).length + 1 := by
  have := length_lt_entriesChars entries
  simp only [entriesText, List.length_append, List.length_cons]
  omega

/-- Items that a reader takes for themselves are taken as the items of an array. -/
theorem items?_chars {item : Json} {items : List Json}
    (h : ∀ other ∈ item :: items, Reads read other) (hfuel : items.length < fuel)
    (rest : List Char) :
    items? read fuel (item.chars ++ (itemsChars items ++ rest)) = some (item :: items, rest) := by
  induction items generalizing item fuel with
  | nil =>
      obtain ⟨fuel, rfl⟩ : ∃ more, fuel = more + 1 := Nat.exists_eq_add_one.mpr hfuel
      obtain ⟨hstart, hread⟩ := h item List.mem_cons_self
      exact items?_last (hstart.append _) (hread _ (stops_itemsChars [] rest))
  | cons next items ih =>
      obtain ⟨fuel, rfl⟩ : ∃ more, fuel = more + 1 :=
        Nat.exists_eq_add_one.mpr (Nat.zero_lt_of_lt hfuel)
      obtain ⟨hstart, hread⟩ := h item List.mem_cons_self
      have hlater := ih (fun other hother => h other (List.mem_cons_of_mem _ hother))
        (Nat.lt_of_succ_lt_succ hfuel)
      refine items?_more (hstart.append _) ?_ hlater
      rw [hread _ (stops_itemsChars _ rest), itemsChars_cons_append]

/-- Entries whose values a reader takes for themselves are taken as the entries of an object. -/
theorem entries?_chars {key : String} {value : Json} {entries : List (String × Json)}
    (h : ∀ entry ∈ (key, value) :: entries, Reads read entry.2) (hfuel : entries.length < fuel)
    (rest : List Char) :
    entries? read fuel (entriesText key value entries rest) =
      some ((key, value) :: entries, rest) := by
  induction entries generalizing key value fuel with
  | nil =>
      obtain ⟨fuel, rfl⟩ : ∃ more, fuel = more + 1 := Nat.exists_eq_add_one.mpr hfuel
      obtain ⟨hstart, hread⟩ := h _ List.mem_cons_self
      exact entries?_last (key?_stringChars key (hstart.append _))
        (hread _ (stops_entriesChars [] rest))
  | cons next entries ih =>
      obtain ⟨fuel, rfl⟩ : ∃ more, fuel = more + 1 :=
        Nat.exists_eq_add_one.mpr (Nat.zero_lt_of_lt hfuel)
      obtain ⟨hstart, hread⟩ := h _ List.mem_cons_self
      have hlater := ih (fun other hother => h other (List.mem_cons_of_mem _ hother))
        (Nat.lt_of_succ_lt_succ hfuel)
      refine entries?_more (key?_stringChars key (hstart.append _)) ?_ hlater
      rw [hread _ (stops_entriesChars _ rest), entriesChars_cons_append]

end Containers

section Values

variable {depth : Nat} {cs rest : List Char}

theorem value?_number {n : Number} (h : number? cs = some (n, rest)) :
    value? depth cs = some (.number n, rest) := by
  obtain ⟨c, more, rfl, hstart⟩ := number?_start h
  have hne (d : Char) (hd : d ≠ '-' ∧ d.isDigit = false) : c ≠ d := by
    rintro rfl
    simp [hd] at hstart
  cases depth <;> rw [value?] <;>
    simp [h, hne 'n' (by decide), hne 't' (by decide), hne 'f' (by decide), hne '"' (by decide),
      hne '[' (by decide), hne '\x7b' (by decide)]

theorem value?_string (s : String) (rest : List Char) :
    value? depth (stringChars s ++ rest) = some (.string s, rest) := by
  have hquote : stringChars s ++ rest = '"' :: (s.toList.flatMap escaped ++ ['"'] ++ rest) := rfl
  rw [hquote, value?, stringRest?_stringChars]
  simp only [Option.map_some, String.ofList_toList]

theorem value?_array {item : Json} {items : List Json}
    (h : ∀ other ∈ item :: items, Reads (value? depth) other) (rest : List Char) :
    value? (depth + 1) (chars (.array (item :: items)) ++ rest) =
      some (.array (item :: items), rest) := by
  have hbracket : chars (.array (item :: items)) ++ rest =
      '[' :: (item.chars ++ (itemsChars items ++ rest)) := by
    simp [chars]
  have hstart := (h item List.mem_cons_self).start.append (itemsChars items ++ rest)
  have hfuel : items.length < (item.chars ++ (itemsChars items ++ rest)).length + 1 := by
    have := length_lt_itemsChars items
    simp only [List.length_append]
    omega
  rw [hbracket, value?, hstart.skipSpace_eq]
  split
  · next heq => exact absurd heq (hstart.ne_close _)
  · rw [items?_chars h hfuel, Option.map_some]

theorem value?_object {key : String} {value : Json} {entries : List (String × Json)}
    (h : ∀ entry ∈ (key, value) :: entries, Reads (value? depth) entry.2) (rest : List Char) :
    value? (depth + 1) (chars (.object ((key, value) :: entries)) ++ rest) =
      some (.object ((key, value) :: entries), rest) := by
  rw [chars_object_append, value?, skipSpace_entriesText]
  split
  · next heq => cases heq
  · rw [entries?_chars h (length_lt_entriesText key value entries rest), Option.map_some]

theorem depthItems_le_iff {items : List Json} {most : Nat} :
    depthItems items ≤ most ↔ ∀ item ∈ items, item.depth ≤ most := by
  induction items with
  | nil => simp [depthItems]
  | cons item items ih => simp [depthItems, ih]

theorem depthEntries_le_iff {entries : List (String × Json)} {most : Nat} :
    depthEntries entries ≤ most ↔ ∀ entry ∈ entries, entry.2.depth ≤ most := by
  induction entries with
  | nil => simp [depthEntries]
  | cons entry entries ih => simp [depthEntries, ih]

/-- A value is read from its text and whatever follows is left, by a reader that goes as deep. -/
theorem reads_value? {value : Json} (hnumbers : ∀ n, .number n ∈ value.nodes → ReadsBack n)
    (hdepth : value.depth ≤ depth) : Reads (value? depth) value := by
  -- Over the value, for all readers: its parts are read by one that goes one level less deep.
  induction value using partsInduction generalizing depth with
  | scalar value hscalar =>
      refine ⟨startsValue_chars fun n hn => hnumbers n (by simp [hn, nodes]), ?_⟩
      intro rest hstops
      cases value with
      | null => simp [chars, value?, word?]
      | bool value => cases value <;> simp [chars, value?, word?]
      | number n => exact value?_number (number?_append hstops (hnumbers n (by simp [nodes])))
      | string s => exact value?_string s rest
      | array items => simp [isScalar] at hscalar
      | object entries => simp [isScalar] at hscalar
  | array items ih =>
      obtain ⟨depth, rfl⟩ : ∃ less, depth = less + 1 :=
        Nat.exists_eq_add_one.mpr (Nat.zero_lt_of_lt hdepth)
      have hreads : ∀ item ∈ items, Reads (value? depth) item := fun item hitem =>
        ih item hitem (fun n hn => hnumbers n (mem_nodes_array.mpr (Or.inr ⟨item, hitem, hn⟩)))
          (depthItems_le_iff.mp (Nat.le_of_succ_le_succ hdepth) item hitem)
      refine ⟨startsValue_chars (by simp), ?_⟩
      intro rest _
      cases items with
      | nil => rfl
      | cons item items => exact value?_array hreads rest
  | object entries ih =>
      obtain ⟨depth, rfl⟩ : ∃ less, depth = less + 1 :=
        Nat.exists_eq_add_one.mpr (Nat.zero_lt_of_lt hdepth)
      have hreads : ∀ entry ∈ entries, Reads (value? depth) entry.2 := fun entry hentry =>
        ih entry hentry
          (fun n hn => hnumbers n (mem_nodes_object.mpr (Or.inr ⟨entry, hentry, hn⟩)))
          (depthEntries_le_iff.mp (Nat.le_of_succ_le_succ hdepth) entry hentry)
      refine ⟨startsValue_chars (by simp), ?_⟩
      intro rest _
      rcases entries with _ | ⟨⟨key, value⟩, entries⟩
      · rfl
      · exact value?_object hreads rest

end Values

end EventBus.Json
