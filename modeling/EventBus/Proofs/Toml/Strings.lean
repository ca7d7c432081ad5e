import EventBus.Toml.Scalar
import EventBus.Toml.Writer
import Mathlib.Tactic.Common

/-!
Written strings read back. The way of quoting is chosen so that between apostrophes nothing stands
that could not stand there, and over several lines no run of marks is as long as the one that
closes the string, except at its very end. A line has to end after the string, because one more
mark right after it would be read as part of it.
-/

namespace EventBus.Toml

section Escapes

/-- How a reader of text between quotes takes one character, whether written as it is or not. -/
structure ReadsEscapes (read : List Char → Option (List Char × List Char)) : Prop where
  plain {c : Char} {rest : List Char} (hquote : c ≠ '"') (hslash : c ≠ '\\')
    (htext : isTextChar c = true) : read (c :: rest) = (read rest).map (consChar c)
  short {c d : Char} {rest : List Char} (h : shortEscape? c = some d) :
    read ('\\' :: c :: rest) = (read rest).map (consChar d)
  long {a b c d x : Char} {rest : List Char} (h : scalar? [a, b, c, d] = some x) :
    read ('\\' :: 'u' :: a :: b :: c :: d :: rest) = (read rest).map (consChar x)

theorem ne_u_of_shortEscape? {c d : Char} (h : shortEscape? c = some d) : c ≠ 'u' ∧ c ≠ 'U' := by
  constructor <;> (rintro rfl; cases h)

theorem not_blank_of_shortEscape? {c d : Char} (h : shortEscape? c = some d) :
    ¬(isSpace c = true ∨ c = '\n' ∨ c = '\r') := by
  simp only [isSpace, Bool.or_eq_true, beq_iff_eq]
  rintro ((rfl | rfl) | rfl | rfl) <;> cases h

theorem readsEscapes_basicRest? : ReadsEscapes basicRest? where
  plain hquote hslash htext := by
    rw [basicRest?]
    · simp [htext, hslash]
    all_goals simp_all
  short h := by
    have hlong := ne_u_of_shortEscape? h
    rw [basicRest?]
    · simp [h]
    all_goals simp_all
  long h := by rw [basicRest?, h, Option.bind_some]

/-- A line feed needs no escape in text over several lines. -/
theorem basicLinesRest?_plain {c : Char} {rest : List Char} (hquote : c ≠ '"') (hslash : c ≠ '\\')
    (h : isTextChar c = true ∨ c = '\n') :
    basicLinesRest? .text (c :: rest) = (basicLinesRest? .text rest).map (consChar c) := by
  have hreturn : c ≠ '\r' := by
    rintro rfl
    exact absurd h (by decide)
  rw [basicLinesRest?]
  · simp_all
  all_goals simp_all

theorem readsEscapes_basicLinesRest? : ReadsEscapes (basicLinesRest? .text) where
  plain hquote hslash htext := basicLinesRest?_plain hquote hslash (Or.inl htext)
  short h := by
    have hlong := ne_u_of_shortEscape? h
    have hblank := not_blank_of_shortEscape? h
    rw [basicLinesRest?]
    · simp [h, hblank]
    all_goals simp_all
  long h := by
    rw [basicLinesRest?, h, Option.bind_some]
    simp

theorem scalar?_hexChar {n : Nat} (h : n < 128) :
    scalar? ['0', '0', hexChar (n / 16), hexChar n] = some (Char.ofNat n) := by
  have hall : ∀ n < 128, scalar? ['0', '0', hexChar (n / 16), hexChar n] = some (Char.ofNat n) := by
    decide +kernel
  exact hall n h

theorem isTextChar_of_not_isControl {c : Char} (hcontrol : isControl c = false) (hfeed : c ≠ '\n') :
    isTextChar c = true := by
  by_cases htab : c = '\t'
  · rw [htab]
    rfl
  · simp only [isControl, Bool.or_eq_false_iff, Bool.and_eq_false_iff, decide_eq_false_iff_not,
      bne_eq_false_iff_eq, htab, hfeed, or_false, beq_eq_false_iff_ne] at hcontrol
    simp only [isTextChar, Bool.or_eq_true, beq_iff_eq, htab, false_or, Bool.and_eq_true,
      decide_eq_true_eq, bne_iff_ne]
    omega

/-- What is written for a character reads as the character. -/
theorem ReadsEscapes.escaped {read : List Char → Option (List Char × List Char)}
    (reads : ReadsEscapes read) {c : Char} (hquote : c ≠ '"') (hfeed : c ≠ '\n')
    (rest : List Char) : read (escaped c ++ rest) = (read rest).map (consChar c) := by
  unfold Toml.escaped
  split
  next hback =>
    obtain rfl : c = Char.ofNat 8 := by rw [← hback, Char.ofNat_toNat]
    exact reads.short (by decide)
  split
  next htab =>
    subst htab
    exact reads.short (by decide)
  split
  next hform =>
    obtain rfl : c = Char.ofNat 12 := by rw [← hform, Char.ofNat_toNat]
    exact reads.short (by decide)
  split
  next hreturn =>
    subst hreturn
    exact reads.short (by decide)
  split
  next hslash =>
    subst hslash
    exact reads.short (by decide)
  next hslash =>
    split
    next hcontrol =>
      have hsmall : c.toNat < 128 := by
        simp only [isControl, Bool.or_eq_true, Bool.and_eq_true, decide_eq_true_eq,
          beq_iff_eq] at hcontrol
        omega
      exact reads.long ((scalar?_hexChar hsmall).trans (by rw [Char.ofNat_toNat]))
    next hcontrol =>
      exact reads.plain hquote hslash
        (isTextChar_of_not_isControl (Bool.eq_false_iff.mpr hcontrol) hfeed)

/-- Escaped text starts with a backslash, or is the character itself and no control character. -/
theorem exists_escaped_eq_cons (c : Char) :
    ∃ first more, escaped c = first :: more ∧
      (first = '\\' ∨ first = c ∧ isControl c = false) := by
  unfold escaped
  repeat' split
  case isFalse hcontrol => exact ⟨c, [], rfl, Or.inr ⟨rfl, Bool.eq_false_iff.mpr hcontrol⟩⟩
  all_goals exact ⟨_, _, rfl, Or.inl rfl⟩

theorem escaped_append_ne_quote {c : Char} (hquote : c ≠ '"') (rest more : List Char) :
    escaped c ++ rest ≠ '"' :: more := by
  obtain ⟨first, later, hescaped, hfirst⟩ := exists_escaped_eq_cons c
  rw [hescaped]
  intro h
  obtain ⟨rfl, -⟩ := List.cons.inj h
  rcases hfirst with hslash | ⟨hself, -⟩
  · cases hslash
  · exact hquote hself.symm

end Escapes

section Runs

variable {mark : Char} {run : Nat} {cs : List Char}

theorem le_longestRun : run ≤ longestRun mark run cs := by
  induction cs generalizing run with
  | nil => exact Nat.le_refl run
  | cons c cs ih =>
      rw [longestRun]
      split
      · exact Nat.le_trans (Nat.le_succ run) ih
      · exact Nat.le_max_left _ _

theorem not_mem_of_longestRun_eq_zero (h : longestRun mark 0 cs = 0) : mark ∉ cs := by
  induction cs with
  | nil => exact List.not_mem_nil
  | cons c cs ih =>
      rw [longestRun] at h
      split at h
      · have hone : 1 ≤ longestRun mark (0 + 1) cs := le_longestRun
        omega
      next hne =>
        rw [List.mem_cons, not_or]
        exact ⟨Ne.symm hne, ih (by omega)⟩

end Runs

section Marks

variable {cs rest : List Char}

theorem basicRest?_basicChars (cs rest : List Char) :
    basicRest? (basicChars cs ++ '"' :: rest) = some (cs, rest) := by
  induction cs with
  | nil => rw [basicChars, List.flatMap_nil, List.nil_append, basicRest?]
  | cons c cs ih =>
      have hstep : basicRest? (basicChars (c :: cs) ++ '"' :: rest) =
          (basicRest? (basicChars cs ++ '"' :: rest)).map (consChar c) := by
        rw [basicChars, List.flatMap_cons, List.append_assoc]
        split
        next hquote =>
          subst hquote
          exact readsEscapes_basicRest?.short (by decide)
        next hquote =>
          split
          next hfeed =>
            subst hfeed
            exact readsEscapes_basicRest?.short (by decide)
          next hfeed => exact readsEscapes_basicRest?.escaped hquote hfeed _
      rw [hstep, ih]
      rfl

theorem literalRest?_append (htext : ∀ c ∈ cs, isTextChar c = true) (hmark : '\'' ∉ cs)
    (rest : List Char) : literalRest? (cs ++ '\'' :: rest) = some (cs, rest) := by
  induction cs with
  | nil => rw [List.nil_append, literalRest?]
  | cons c cs ih =>
      obtain ⟨hfirst, hlater⟩ := List.forall_mem_cons.mp htext
      obtain ⟨hne, hnot⟩ := not_or.mp (mt List.mem_cons.mpr hmark)
      rw [List.cons_append, literalRest?, if_pos hfirst, ih hlater hnot]
      · rfl
      · exact fun h => hne h.symm

/-- Where text over several lines starts with a quote, it is one of its own characters. -/
theorem basicLinesChars_eq_cons {quotes : Nat} {c : Char} {more : List Char}
    (h : basicLinesChars quotes (c :: cs) ++ rest = '"' :: more) :
    quotes ≠ 2 ∧ c = '"' ∧ more = basicLinesChars (quotes + 1) cs ++ rest := by
  rw [basicLinesChars] at h
  split at h
  next hquote =>
    split at h
    · cases h
    next htwo => exact ⟨htwo, hquote, (List.cons.inj h).2.symm⟩
  next hquote =>
    split at h
    · cases h
    · rw [List.append_assoc] at h
      exact absurd h (escaped_append_ne_quote hquote _ _)

theorem basicLinesRest?_quote (h : ∀ more, rest ≠ '"' :: '"' :: more) :
    basicLinesRest? .text ('"' :: rest) = (basicLinesRest? .text rest).map (consChar '"') := by
  rw [basicLinesRest?]
  · simp [isTextChar]
  all_goals simp_all

theorem closingMarks_feed {mark : Char} (h : mark ≠ '\n') (rest : List Char) :
    closingMarks mark ('\n' :: rest) = ([], '\n' :: rest) := by
  cases rest <;> simp [closingMarks, Ne.symm h]

theorem basicLinesRest?_basicLinesChars (cs rest : List Char) {quotes : Nat}
    (hquotes : quotes ≤ 2) :
    basicLinesRest? .text (basicLinesChars quotes cs ++ ("\"\"\"".toList ++ '\n' :: rest)) =
      some (cs, '\n' :: rest) := by
  induction cs generalizing quotes with
  | nil => simp [basicLinesChars, basicLinesRest?, closingMarks_feed]
  | cons c cs ih =>
      rw [basicLinesChars]
      split
      next hquote =>
        subst hquote
        split
        next =>
          rw [List.cons_append, List.cons_append, readsEscapes_basicLinesRest?.short rfl,
            ih (Nat.zero_le 2)]
          rfl
        next htwo =>
          by_cases hends : ∃ more, basicLinesChars (quotes + 1) cs ++
              ("\"\"\"".toList ++ '\n' :: rest) = '"' :: '"' :: more
          · obtain ⟨more, hmore⟩ := hends
            -- One or two quotes at the very end are read together with those that close.
            cases cs with
            | nil => simp [basicLinesChars, basicLinesRest?, closingMarks]
            | cons second cs =>
                obtain ⟨hone, rfl, hrest⟩ := basicLinesChars_eq_cons hmore
                obtain rfl : quotes = 0 := by omega
                cases cs with
                | nil => simp [basicLinesChars, basicLinesRest?, closingMarks]
                | cons third cs => exact absurd rfl (basicLinesChars_eq_cons hrest.symm).1
          · rw [List.cons_append, basicLinesRest?_quote (not_exists.mp hends), ih (by omega)]
            rfl
      next hquote =>
        split
        next hfeed =>
          subst hfeed
          rw [List.cons_append, basicLinesRest?_plain (by decide) (by decide) (Or.inr rfl),
            ih (Nat.zero_le 2)]
          rfl
        next hfeed =>
          rw [List.append_assoc, readsEscapes_basicLinesRest?.escaped hquote hfeed,
            ih (Nat.zero_le 2)]
          rfl

theorem literalLinesRest?_plain {c : Char} (hmark : c ≠ '\'') (h : isControl c = false) :
    literalLinesRest? (c :: rest) = (literalLinesRest? rest).map (consChar c) := by
  have hreturn : c ≠ '\r' := by
    rintro rfl
    exact absurd h (by decide)
  have htext : isTextChar c = true ∨ c = '\n' := by
    by_cases hfeed : c = '\n'
    · exact Or.inr hfeed
    · exact Or.inl (isTextChar_of_not_isControl h hfeed)
  rw [literalLinesRest?]
  · simp [htext]
  all_goals simp_all

theorem literalLinesRest?_mark (h : ∀ more, rest ≠ '\'' :: '\'' :: more) :
    literalLinesRest? ('\'' :: rest) = (literalLinesRest? rest).map (consChar '\'') := by
  rw [literalLinesRest?]
  · simp [isTextChar]
  all_goals simp_all

/-- Characters without control characters among them, and with a run of three marks nowhere, also
not together with the marks just read. -/
theorem literalLinesRest?_append (rest : List Char) (hcontrol : ∀ c ∈ cs, isControl c = false)
    {run : Nat} (hrun : longestRun '\'' run cs ≤ 2) :
    literalLinesRest? (cs ++ ("\x27\x27\x27".toList ++ '\n' :: rest)) =
      some (cs, '\n' :: rest) := by
  induction cs generalizing run with
  | nil => simp [literalLinesRest?, closingMarks_feed]
  | cons c cs ih =>
      obtain ⟨hfirst, hlater⟩ := List.forall_mem_cons.mp hcontrol
      rw [longestRun] at hrun
      split at hrun
      next hmark =>
        subst hmark
        by_cases hends : ∃ more, cs ++ ("\x27\x27\x27".toList ++ '\n' :: rest) =
            '\'' :: '\'' :: more
        · obtain ⟨more, hmore⟩ := hends
          cases cs with
          | nil => simp [literalLinesRest?, closingMarks]
          | cons second cs =>
              obtain ⟨rfl, hrest⟩ := List.cons.inj hmore
              cases cs with
              | nil => simp [literalLinesRest?, closingMarks]
              | cons third cs =>
                  obtain ⟨hthird, -⟩ := List.cons.inj hrest
                  have hthree : run + 1 + 1 + 1 ≤ longestRun '\'' (run + 1 + 1 + 1) cs :=
                    le_longestRun
                  rw [longestRun, if_pos rfl, longestRun, if_pos hthird] at hrun
                  omega
        · rw [List.cons_append, literalLinesRest?_mark (not_exists.mp hends), ih hlater hrun]
          rfl
      next hmark =>
        rw [List.cons_append, literalLinesRest?_plain hmark hfirst,
          ih hlater (Nat.le_trans (Nat.le_max_right _ _) hrun)]
        rfl

end Marks

section Quotings

variable {traits : Traits}

theorem literal_of_quoting (h : traits.quoting = .literal) :
    traits.hasControl = false ∧ traits.apostrophes = 0 ∧ traits.hasNewline = false := by
  unfold Traits.quoting at h
  repeat' split at h
  all_goals simp_all

theorem literalLines_of_quoting (h : traits.quoting = .literalLines) :
    traits.hasControl = false ∧ traits.apostrophes ≤ 2 := by
  unfold Traits.quoting at h
  repeat' split at h
  all_goals simp_all

end Quotings

section Written

variable {cs rest : List Char}

theorem isControl_eq_false (h : (Traits.of cs).hasControl = false) :
    ∀ c ∈ cs, isControl c = false := by
  simpa [Traits.of] using h

theorem not_mem_newline (h : (Traits.of cs).hasNewline = false) : '\n' ∉ cs := by
  simpa [Traits.of] using h

end Written

section Quoted

variable {cs rest : List Char}

theorem string?_basic {written : List Char} (h : ∀ more, written ≠ '"' :: '"' :: more) :
    string? ('"' :: written) = basicRest? written := by
  rw [string?]
  · rfl
  all_goals simp_all

theorem string?_literal {written : List Char} (h : ∀ more, written ≠ '\'' :: '\'' :: more) :
    string? ('\'' :: written) = literalRest? written := by
  rw [string?]
  · rfl
  all_goals simp_all

theorem basicChars_ne (cs rest more : List Char) :
    basicChars cs ++ '"' :: '\n' :: rest ≠ '"' :: '"' :: more := by
  cases cs with
  | nil => simp [basicChars]
  | cons c cs =>
      rw [basicChars, List.flatMap_cons, List.append_assoc]
      split
      · exact fun h => absurd (List.cons.inj h).1 (by decide)
      next hquote =>
        split
        · exact fun h => absurd (List.cons.inj h).1 (by decide)
        · exact escaped_append_ne_quote hquote _ _

theorem basicLinesChars_ne (hnone : '\n' ∉ cs) (rest more : List Char) :
    basicLinesChars 0 cs ++ ("\"\"\"".toList ++ rest) ≠ '\n' :: more ∧
      basicLinesChars 0 cs ++ ("\"\"\"".toList ++ rest) ≠ '\r' :: '\n' :: more := by
  cases cs with
  | nil => simp [basicLinesChars]
  | cons c cs =>
      obtain ⟨hfeed, -⟩ := not_or.mp (mt List.mem_cons.mpr hnone)
      rw [basicLinesChars, if_neg (Ne.symm hfeed)]
      split
      · simp
      · obtain ⟨first, later, hescaped, rfl | ⟨rfl, hcontrol⟩⟩ := exists_escaped_eq_cons c
        · simp [hescaped]
        · have hreturn : first ≠ '\r' := by
            rintro rfl
            cases hcontrol
          simp [hescaped, Ne.symm hfeed, hreturn]

theorem literalLines_ne (hcontrol : ∀ c ∈ cs, isControl c = false) (hnone : '\n' ∉ cs)
    (rest more : List Char) :
    cs ++ ("\x27\x27\x27".toList ++ rest) ≠ '\n' :: more ∧
      cs ++ ("\x27\x27\x27".toList ++ rest) ≠ '\r' :: '\n' :: more := by
  cases cs with
  | nil => simp
  | cons c cs =>
      obtain ⟨hfeed, -⟩ := not_or.mp (mt List.mem_cons.mpr hnone)
      have hreturn : c ≠ '\r' := by
        rintro rfl
        exact absurd (hcontrol _ List.mem_cons_self) (by decide)
      simp [Ne.symm hfeed, hreturn]

theorem string?_basic_quoted (cs rest : List Char) :
    string? ('"' :: basicChars cs ++ ['"'] ++ '\n' :: rest) = some (cs, '\n' :: rest) := by
  simp only [List.cons_append, List.append_assoc, List.nil_append]
  rw [string?_basic (basicChars_ne cs rest), basicRest?_basicChars]

theorem string?_literal_quoted (hcontrol : ∀ c ∈ cs, isControl c = false) (hnone : '\n' ∉ cs)
    (hmark : '\'' ∉ cs) (rest : List Char) :
    string? ('\'' :: cs ++ ['\''] ++ '\n' :: rest) = some (cs, '\n' :: rest) := by
  have htext : ∀ c ∈ cs, isTextChar c = true := fun c hc =>
    isTextChar_of_not_isControl (hcontrol c hc) (ne_of_mem_of_not_mem hc hnone)
  have hne : ∀ more, cs ++ '\'' :: '\n' :: rest ≠ '\'' :: '\'' :: more := by
    intro more
    cases cs with
    | nil => simp
    | cons c cs =>
        obtain ⟨hfirst, -⟩ := not_or.mp (mt List.mem_cons.mpr hmark)
        simp [Ne.symm hfirst]
  simp only [List.cons_append, List.append_assoc, List.nil_append]
  rw [string?_literal hne, literalRest?_append htext hmark]

/-- The line feed that may be put in front is taken away, and nothing else. -/
theorem dropNewline_leadingNewline {written : List Char}
    (h : '\n' ∉ cs → ∀ more, written ≠ '\n' :: more ∧ written ≠ '\r' :: '\n' :: more) :
    dropNewline (leadingNewline (Traits.of cs) ++ written) = written := by
  unfold leadingNewline
  split
  · rfl
  next hnone =>
    have hne := h (not_mem_newline (Bool.eq_false_iff.mpr hnone))
    rw [List.nil_append, dropNewline]
    · exact fun rest hrest => (hne rest).1 hrest
    · exact fun rest hrest => (hne rest).2 hrest

theorem string?_basicLines_quoted (cs rest : List Char) :
    string? ("\"\"\"".toList ++ leadingNewline (Traits.of cs) ++ basicLinesChars 0 cs ++
      "\"\"\"".toList ++ '\n' :: rest) = some (cs, '\n' :: rest) := by
  have hdrop := dropNewline_leadingNewline fun hnone : '\n' ∉ cs =>
    basicLinesChars_ne hnone ('\n' :: rest)
  simp only [List.append_assoc]
  exact (congrArg (basicLinesRest? .text) hdrop).trans
    (basicLinesRest?_basicLinesChars cs rest (Nat.zero_le 2))

theorem string?_literalLines_quoted (hcontrol : ∀ c ∈ cs, isControl c = false)
    (hmarks : longestRun '\'' 0 cs ≤ 2) (rest : List Char) :
    string? ("\x27\x27\x27".toList ++ leadingNewline (Traits.of cs) ++ cs ++
      "\x27\x27\x27".toList ++ '\n' :: rest) = some (cs, '\n' :: rest) := by
  have hdrop := dropNewline_leadingNewline fun hnone =>
    literalLines_ne hcontrol hnone ('\n' :: rest)
  simp only [List.append_assoc]
  exact (congrArg literalLinesRest? hdrop).trans (literalLinesRest?_append rest hcontrol hmarks)

end Quoted

/-- A written string reads back, up to the end of its line. -/
theorem string?_stringChars (cs rest : List Char) :
    string? (stringChars cs ++ '\n' :: rest) = some (cs, '\n' :: rest) := by
  unfold stringChars
  cases hquoting : (Traits.of cs).quoting with
  | basic =>
      simp only [hquoting]
      exact string?_basic_quoted cs rest
  | literal =>
      obtain ⟨hcontrol, hmarks, hnewline⟩ := literal_of_quoting hquoting
      simp only [hquoting]
      exact string?_literal_quoted (isControl_eq_false hcontrol) (not_mem_newline hnewline)
        (not_mem_of_longestRun_eq_zero hmarks) rest
  | basicLines =>
      simp only [hquoting]
      exact string?_basicLines_quoted cs rest
  | literalLines =>
      obtain ⟨hcontrol, hmarks⟩ := literalLines_of_quoting hquoting
      simp only [hquoting]
      exact string?_literalLines_quoted (isControl_eq_false hcontrol) hmarks rest

end EventBus.Toml
