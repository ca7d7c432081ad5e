import EventBus.Net.Address
import EventBus.Proofs.Json.NumberReading

/-!
Written socket addresses read back. A group of hexadecimal digits is not taken for a decimal byte,
because no dot comes after it, and where a run of zero groups was left out it is known again by
how many groups are missing. What is read from a text is always within the bounds of an address.
-/

namespace EventBus.Address

/-- Bytes, groups, zone and port within their bounds, and eight groups where there are groups. -/
def Valid : Address → Prop
  | .v4 a b c d port => (a < 256 ∧ b < 256 ∧ c < 256 ∧ d < 256) ∧ port < 65536
  | .v6 groups zone port =>
      (groups.length = 8 ∧ ∀ g ∈ groups, g < 65536) ∧ zone < Nat.pow 2 32 ∧ port < 65536

section Bounds

variable {cs rest : List Char} {n : Nat}

/-- A number that is read is below the bound, and what is left follows its digits. -/
theorem bound_and_rest_of_number? {base maxDigits bound : Nat} {zeros : Bool}
    (h : number? base maxDigits bound zeros cs = some (n, rest)) :
    n < bound ∧ rest = cs.dropWhile (isDigitIn base) := by
  simp only [number?] at h
  repeat' split at h
  next => cases h
  next => cases h
  next hlt =>
    cases h
    exact ⟨hlt, rfl⟩
  next => cases h

theorem lt_of_number? {base maxDigits bound : Nat} {zeros : Bool}
    (h : number? base maxDigits bound zeros cs = some (n, rest)) : n < bound :=
  (bound_and_rest_of_number? h).1

theorem lt_of_bytes? {a b c d : Nat} (h : bytes? cs = some ((a, b, c, d), rest)) :
    a < 256 ∧ b < 256 ∧ c < 256 ∧ d < 256 := by
  obtain ⟨⟨a', after⟩, ha, h⟩ := Option.bind_eq_some_iff.mp h
  obtain ⟨next, -, h⟩ := Option.bind_eq_some_iff.mp h
  obtain ⟨⟨b', after⟩, hb, h⟩ := Option.bind_eq_some_iff.mp h
  obtain ⟨next, -, h⟩ := Option.bind_eq_some_iff.mp h
  obtain ⟨⟨c', after⟩, hc, h⟩ := Option.bind_eq_some_iff.mp h
  obtain ⟨next, -, h⟩ := Option.bind_eq_some_iff.mp h
  obtain ⟨⟨d', after⟩, hd, h⟩ := Option.bind_eq_some_iff.mp h
  cases h
  exact ⟨lt_of_number? ha, lt_of_number? hb, lt_of_number? hc, lt_of_number? hd⟩

/-- No more groups than there is room for, each of four digits at most. -/
theorem groups_bounds (first : Bool) (room : Nat) (cs : List Char) :
    (groups first room cs).1.length ≤ room ∧ ∀ g ∈ (groups first room cs).1, g < 65536 := by
  induction room generalizing first cs with
  | zero => simp [groups]
  | succ room ih =>
      rw [groups]
      split
      next a b c d rest hbytes =>
        split at hbytes
        next => cases hbytes
        next hroom =>
          obtain ⟨after, -, hbytes⟩ := Option.bind_eq_some_iff.mp hbytes
          have hlt := lt_of_bytes? hbytes
          refine ⟨by simp; omega, ?_⟩
          simp only [List.forall_mem_cons, List.not_mem_nil, false_implies, implies_true, and_true]
          omega
      next =>
        split
        next group rest hgroup =>
          obtain ⟨after, -, hgroup⟩ := Option.bind_eq_some_iff.mp hgroup
          obtain ⟨hlength, hmore⟩ := ih false rest
          exact ⟨by simpa using hlength, List.forall_mem_cons.mpr ⟨lt_of_number? hgroup, hmore⟩⟩
        next => simp

theorem eightGroups?_bounds {found : List Nat} (h : eightGroups? cs = some (found, rest)) :
    found.length = 8 ∧ ∀ g ∈ found, g < 65536 := by
  obtain ⟨hlength, hhead⟩ := groups_bounds true 8 cs
  simp only [eightGroups?] at h
  repeat' split at h
  next height =>
    cases h
    exact ⟨height, hhead⟩
  next => cases h
  next hne _ _ after _ =>
    obtain ⟨htailLength, htail⟩ := groups_bounds true (7 - (groups true 8 cs).1.length) after
    cases h
    refine ⟨by simp; omega, ?_⟩
    simp only [List.mem_append, List.mem_replicate]
    rintro g ((hg | ⟨-, rfl⟩) | hg)
    · exact hhead g hg
    · decide
    · exact htail g hg
  next => cases h

theorem zone_lt (cs : List Char) : (zone cs).1 < Nat.pow 2 32 := by
  unfold zone
  split
  next found h =>
    obtain ⟨after, -, h⟩ := Option.bind_eq_some_iff.mp h
    exact lt_of_number? h
  next => exact Nat.two_pow_pos 32

theorem lt_of_port? (h : port? cs = some (n, rest)) : n < 65536 := by
  obtain ⟨after, -, h⟩ := Option.bind_eq_some_iff.mp h
  exact lt_of_number? h

/-- Whatever is read is within the bounds. -/
theorem valid_of_read? {s : String} {address : Address} (h : read? s = some address) :
    address.Valid := by
  have hv4 {rest : List Char} (hread : readV4? s.toList = some (address, rest)) :
      address.Valid := by
    obtain ⟨⟨⟨a, b, c, d⟩, after⟩, hbytes, hread⟩ := Option.bind_eq_some_iff.mp hread
    obtain ⟨⟨port, after⟩, hport, hread⟩ := Option.bind_eq_some_iff.mp hread
    cases hread
    exact ⟨lt_of_bytes? hbytes, lt_of_port? hport⟩
  have hv6 {rest : List Char} (hread : readV6? s.toList = some (address, rest)) :
      address.Valid := by
    obtain ⟨inner, -, hread⟩ := Option.bind_eq_some_iff.mp hread
    obtain ⟨⟨found, after⟩, hgroups, hread⟩ := Option.bind_eq_some_iff.mp hread
    obtain ⟨close, -, hread⟩ := Option.bind_eq_some_iff.mp hread
    obtain ⟨⟨port, after⟩, hport, hread⟩ := Option.bind_eq_some_iff.mp hread
    cases hread
    exact ⟨eightGroups?_bounds hgroups, zone_lt _, lt_of_port? hport⟩
  unfold read? at h
  split at h
  next found hfound =>
    cases h
    rcases Option.or_eq_some_iff.mp hfound with hread | ⟨-, hread⟩
    · exact hv4 hread
    · exact hv6 hread
  next => cases h

end Bounds

section Numbers

/-- A text that no number in front of it goes on into. -/
def Stops (base : Nat) : List Char → Prop
  | [] => True
  | c :: _ => isDigitIn base c = false

variable {base n : Nat} {rest : List Char}

theorem digit?_digitChar (hbase : base ≤ 16) (h : n < base) :
    digit? base (Nat.digitChar n) = some n := by
  have hall : ∀ base ≤ 16, ∀ n < base, digit? base (Nat.digitChar n) = some n := by decide
  exact hall base hbase n h

/-- The digits of a number are digits, and stand for it. -/
theorem toDigits_spec (hsmall : 1 < base) (hbase : base ≤ 16) (n : Nat) :
    (∀ c ∈ Nat.toDigits base n, isDigitIn base c = true) ∧
      valueOf base (Nat.toDigits base n) = n := by
  induction n using Nat.strongRecOn with
  | ind n ih =>
      rcases Nat.lt_or_ge n base with hlt | hge
      · have hdigit := digit?_digitChar hbase hlt
        simp [Nat.toDigits_of_lt_base hlt, isDigitIn, valueOf, hdigit]
      · have hdigit := digit?_digitChar hbase (Nat.mod_lt n (Nat.lt_of_succ_lt hsmall))
        obtain ⟨hdigits, hvalue⟩ := ih (n / base) (Nat.div_lt_self (by omega) hsmall)
        rw [Nat.toDigits_of_base_le hsmall hge]
        rw [valueOf] at hvalue ⊢
        refine ⟨?_, ?_⟩
        · simp only [List.mem_append, List.mem_singleton]
          rintro c (hc | rfl)
          · exact hdigits c hc
          · rw [isDigitIn, hdigit, Option.isSome_some]
        · rw [List.foldl_append, hvalue, List.foldl_cons, List.foldl_nil, hdigit,
            Option.getD_some, Nat.div_add_mod' n base]

theorem Stops.takeWhile_eq (h : Stops base rest) : rest.takeWhile (isDigitIn base) = [] := by
  cases rest with
  | nil => rfl
  | cons c rest => exact List.takeWhile_cons_of_neg (Bool.eq_false_iff.mp h)

theorem Stops.dropWhile_eq (h : Stops base rest) : rest.dropWhile (isDigitIn base) = rest := by
  cases rest with
  | nil => rfl
  | cons c rest => exact List.dropWhile_cons_of_neg (Bool.eq_false_iff.mp h)

theorem number?_of_stops {maxDigits bound : Nat} {zeros : Bool} (h : Stops base rest) :
    number? base maxDigits bound zeros rest = none := by
  simp [number?, h.takeWhile_eq]

/-- A written number reads back where it ends. In front of a decimal one there is no zero, unless
it is zero alone. -/
theorem number?_toDigits (hbase : base = 10 ∨ base = 16) {maxDigits bound : Nat} {zeros : Bool}
    (hlength : (Nat.toDigits base n).length ≤ maxDigits) (hzeros : zeros = true ∨ base = 10)
    (hbound : n < bound) (hrest : Stops base rest) :
    number? base maxDigits bound zeros (Nat.toDigits base n ++ rest) = some (n, rest) := by
  obtain ⟨hdigits, hvalue⟩ := toDigits_spec (n := n) (show 1 < base by omega) (by omega)
  have htake : (Nat.toDigits base n ++ rest).takeWhile (isDigitIn base) = Nat.toDigits base n := by
    rw [List.takeWhile_append_of_pos hdigits, hrest.takeWhile_eq, List.append_nil]
  have hdrop : (Nat.toDigits base n ++ rest).dropWhile (isDigitIn base) = rest := by
    rw [List.dropWhile_append_of_pos hdigits, hrest.dropWhile_eq]
  have hzero : ¬(!zeros && decide (1 < (Nat.toDigits base n).length) &&
      (Nat.toDigits base n).head? == some '0') = true := by
    rcases hzeros with rfl | rfl
    · simp
    · rcases Nat.eq_zero_or_pos n with rfl | hpos
      · simp
      · simp [Json.head?_toDigits_ne_zero hpos]
  have hsome : ¬((Nat.toDigits base n).isEmpty ||
      decide (maxDigits < (Nat.toDigits base n).length)) = true := by
    simp [Nat.toDigits_ne_nil, hlength]
  simp only [number?, htake, hdrop, hvalue]
  rw [if_neg hsome, if_neg hzero, if_pos hbound]

end Numbers

section Bytes

variable {n : Nat} {rest : List Char}

theorem byte?_toDigits (h : n < 256) (hrest : Stops 10 rest) :
    byte? (Nat.toDigits 10 n ++ rest) = some (n, rest) := by
  have hlength : (Nat.toDigits 10 n).length ≤ 3 :=
    (Nat.length_toDigits_le_iff (by decide) (by decide)).mpr (Nat.lt_trans h (by decide))
  exact number?_toDigits (Or.inl rfl) hlength (Or.inr rfl) h hrest

theorem counter?_toDigits {bound : Nat} (h : n < bound) (hrest : Stops 10 rest) :
    counter? bound (Nat.toDigits 10 n ++ rest) = some (n, rest) :=
  number?_toDigits (Or.inl rfl) (by simp) (Or.inl rfl) h hrest

theorem toList_bytesText (a b c d : Nat) :
    (bytesText a b c d).toList = Nat.toDigits 10 a ++ '.' :: (Nat.toDigits 10 b ++
      '.' :: (Nat.toDigits 10 c ++ '.' :: Nat.toDigits 10 d)) := by
  simp [bytesText]

theorem bytes?_bytesText {a b c d : Nat} (h : a < 256 ∧ b < 256 ∧ c < 256 ∧ d < 256)
    (hrest : Stops 10 rest) :
    bytes? ((bytesText a b c d).toList ++ rest) = some ((a, b, c, d), rest) := by
  obtain ⟨ha, hb, hc, hd⟩ := h
  have hdot (more : List Char) : Stops 10 ('.' :: more) := rfl
  simp [toList_bytesText, bytes?, byte?_toDigits ha (hdot _), byte?_toDigits hb (hdot _),
    byte?_toDigits hc (hdot _), byte?_toDigits hd hrest, after?]

theorem port?_toDigits (h : n < 65536) :
    port? (':' :: Nat.toDigits 10 n) = some (n, []) := by
  have hport : counter? 65536 (Nat.toDigits 10 n ++ []) = some (n, []) :=
    counter?_toDigits h trivial
  rw [List.append_nil] at hport
  simp [port?, after?, hport]

end Bytes

section Groups

variable {rest : List Char}

/-- What stands after a group: no digit that it would go on with, and no dot. -/
def EndsGroup (rest : List Char) : Prop :=
  ∃ c more, rest = c :: more ∧ isDigitIn 16 c = false ∧ c ≠ '.'

theorem EndsGroup.stops (h : EndsGroup rest) : Stops 16 rest := by
  obtain ⟨c, more, rfl, hdigit, -⟩ := h
  exact hdigit

theorem isDigitIn_ten {c : Char} (h : isDigitIn 16 c = false) : isDigitIn 10 c = false := by
  simp only [isDigitIn, digit?, Option.isSome_eq_false_iff, Option.isNone_iff_eq_none,
    Option.filter_eq_none_iff, decide_eq_true_eq] at h ⊢
  exact fun n hn hlt => h n hn (by omega)

theorem Stops.ten (h : Stops 16 rest) : Stops 10 rest := by
  cases rest with
  | nil => trivial
  | cons c rest => exact isDigitIn_ten h

theorem bytes?_of_stops (h : Stops 10 rest) : bytes? rest = none := by
  simp [bytes?, byte?, number?_of_stops h]

/-- A group is not taken for a byte: where its decimal digits end no dot stands. -/
theorem bytes?_group {digits : List Char} (hdigits : ∀ c ∈ digits, isDigitIn 16 c = true)
    (hrest : EndsGroup rest) : bytes? (digits ++ rest) = none := by
  have hafter : after? '.' ((digits ++ rest).dropWhile (isDigitIn 10)) = none := by
    induction digits with
    | nil =>
        obtain ⟨c, more, rfl, hdigit, hdot⟩ := hrest
        simp [isDigitIn_ten hdigit, after?, hdot]
    | cons c digits ih =>
        obtain ⟨hfirst, hlater⟩ := List.forall_mem_cons.mp hdigits
        have hdot : c ≠ '.' := by
          rintro rfl
          exact absurd hfirst (by decide)
        by_cases hdecimal : isDigitIn 10 c = true
        · rw [List.cons_append, List.dropWhile_cons_of_pos hdecimal]
          exact ih hlater
        · rw [List.cons_append, List.dropWhile_cons_of_neg hdecimal, after?, if_neg hdot]
  cases hbyte : byte? (digits ++ rest) with
  | none => simp [bytes?, hbyte]
  | some found =>
      obtain ⟨n, after⟩ := found
      obtain ⟨-, rfl⟩ := bound_and_rest_of_number? hbyte
      simp [bytes?, hbyte, hafter]

/-- Nothing that follows can be read as one more group. -/
def Closed (first : Bool) (rest : List Char) : Prop :=
  ∀ after, separated? first rest = some after → Stops 16 after

theorem groups_of_closed {first : Bool} (h : Closed first rest) (room : Nat) :
    groups first room rest = ([], false, rest) := by
  have hnone : (separated? first rest).bind bytes? = none ∧
      (separated? first rest).bind (number? 16 4 65536 true) = none := by
    cases hsep : separated? first rest with
    | none => exact ⟨rfl, rfl⟩
    | some after =>
        have hstops := h after hsep
        exact ⟨bytes?_of_stops hstops.ten, number?_of_stops hstops⟩
  cases room with
  | zero => rfl
  | succ room => simp [groups, hnone.1, hnone.2]

theorem groups_cons {first : Bool} {cs more : List Char} {g : Nat}
    (hsep : separated? first cs = some (Nat.toDigits 16 g ++ more)) (hg : g < 65536)
    (hmore : EndsGroup more) (room : Nat) :
    groups first (room + 1) cs =
      (g :: (groups false room more).1, (groups false room more).2) := by
  have hbytes : bytes? (Nat.toDigits 16 g ++ more) = none :=
    bytes?_group (toDigits_spec (by decide) (by decide) g).1 hmore
  have hlength : (Nat.toDigits 16 g).length ≤ 4 :=
    (Nat.length_toDigits_le_iff (by decide) (by decide)).mpr hg
  have hgroup : number? 16 4 65536 true (Nat.toDigits 16 g ++ more) = some (g, more) :=
    number?_toDigits (Or.inr rfl) hlength (Or.inl rfl) hg hmore.stops
  simp [groups, hsep, hbytes, hgroup]

/-- The text of groups after the first. -/
def furtherGroups (gs : List Nat) : List Char := gs.flatMap fun g => ':' :: Nat.toDigits 16 g

theorem endsGroup_furtherGroups (gs : List Nat) (hrest : EndsGroup rest) :
    EndsGroup (furtherGroups gs ++ rest) := by
  cases gs with
  | nil => exact hrest
  | cons g gs => exact ⟨':', _, rfl, by decide, by decide⟩

theorem groups_furtherGroups {gs : List Nat} (hgs : ∀ g ∈ gs, g < 65536) (hrest : EndsGroup rest)
    (hclosed : Closed false rest) (spare : Nat) :
    groups false (gs.length + spare) (furtherGroups gs ++ rest) = (gs, false, rest) := by
  induction gs with
  | nil => exact groups_of_closed hclosed _
  | cons g gs ih =>
      obtain ⟨hg, hlater⟩ := List.forall_mem_cons.mp hgs
      have hsep : separated? false (furtherGroups (g :: gs) ++ rest) =
          some (Nat.toDigits 16 g ++ (furtherGroups gs ++ rest)) := by
        simp [separated?, furtherGroups, after?]
      rw [List.length_cons, Nat.add_right_comm,
        groups_cons hsep hg (endsGroup_furtherGroups gs hrest), ih hlater]

theorem toList_groupsText_cons (g : Nat) (gs : List Nat) :
    (groupsText (g :: gs)).toList = Nat.toDigits 16 g ++ furtherGroups gs := by
  induction gs generalizing g with
  | nil => simp [groupsText, groupText, furtherGroups]
  | cons next gs ih =>
      have hsplit : (groupsText (g :: next :: gs)).toList =
          Nat.toDigits 16 g ++ ':' :: (groupsText (next :: gs)).toList := by
        simp [groupsText, groupText, String.toList_intercalate]
      rw [hsplit, ih next]
      simp [furtherGroups]

/-- Groups with colons between them read back where no further group follows. -/
theorem groups_groupsText {gs : List Nat} (hgs : ∀ g ∈ gs, g < 65536) (hrest : EndsGroup rest)
    (hclosed : Closed false rest) (hempty : gs = [] → Closed true rest) (spare : Nat) :
    groups true (gs.length + spare) ((groupsText gs).toList ++ rest) = (gs, false, rest) := by
  cases gs with
  | nil => exact groups_of_closed (hempty rfl) _
  | cons g gs =>
      obtain ⟨hg, hlater⟩ := List.forall_mem_cons.mp hgs
      have hsep : separated? true ((groupsText (g :: gs)).toList ++ rest) =
          some (Nat.toDigits 16 g ++ (furtherGroups gs ++ rest)) := by
        simp [separated?, toList_groupsText_cons]
      rw [List.length_cons, Nat.add_right_comm,
        groups_cons hsep hg (endsGroup_furtherGroups gs hrest),
        groups_furtherGroups hlater hrest hclosed]

end Groups

section Hosts

variable {rest : List Char}

/-- The run that is left out is one of zeros. -/
theorem longestRun_le (gs : List Nat) :
    (longestRun gs).2 ≤ zeroRun (gs.drop (longestRun gs).1) := by
  have hfold : ∀ (starts : List Nat) (best : Nat × Nat), best.2 ≤ zeroRun (gs.drop best.1) →
      let found := starts.foldl
        (fun best start =>
          let run := zeroRun (gs.drop start)
          if best.2 < run then (start, run) else best) best
      found.2 ≤ zeroRun (gs.drop found.1) := by
    intro starts
    induction starts with
    | nil => exact fun best h => h
    | cons start starts ih =>
        intro best h
        rw [List.foldl_cons]
        refine ih _ ?_
        simp only
        split
        · exact Nat.le_refl _
        · exact h
  exact hfold _ (0, 0) (Nat.zero_le _)

theorem take_eq_replicate_of_le_zeroRun {gs : List Nat} {run : Nat} (h : run ≤ zeroRun gs) :
    gs.take run = List.replicate run 0 := by
  induction gs generalizing run with
  | nil =>
      obtain rfl : run = 0 := Nat.eq_zero_of_le_zero h
      rfl
  | cons g gs ih =>
      cases run with
      | zero => rfl
      | succ run =>
          by_cases hzero : g = 0
          · have hrun : run ≤ zeroRun gs := by simpa [zeroRun, hzero] using h
            rw [List.take_succ_cons, List.replicate_succ, hzero, ih hrun]
          · simp [zeroRun, hzero] at h

/-- The groups are those before the run, zeros, and those after it. -/
theorem split_at_longestRun (gs : List Nat) :
    gs.take (longestRun gs).1 ++ (List.replicate (longestRun gs).2 0 ++
      gs.drop ((longestRun gs).1 + (longestRun gs).2)) = gs := by
  rw [← take_eq_replicate_of_le_zeroRun (longestRun_le gs), ← List.drop_drop,
    List.take_append_drop, List.take_append_drop]

/-- The text of groups ends with a bracket, or with the mark in front of a zone. -/
def EndsHost (rest : List Char) : Prop := ∃ more, rest = ']' :: more ∨ rest = '%' :: more

theorem EndsHost.endsGroup (h : EndsHost rest) : EndsGroup rest := by
  obtain ⟨more, rfl | rfl⟩ := h
  · exact ⟨']', more, rfl, by decide, by decide⟩
  · exact ⟨'%', more, rfl, by decide, by decide⟩

theorem EndsHost.closed (h : EndsHost rest) (first : Bool) : Closed first rest := by
  obtain ⟨c, more, rfl, hdigit, hcolon⟩ : ∃ c more, rest = c :: more ∧
      isDigitIn 16 c = false ∧ c ≠ ':' := by
    obtain ⟨more, rfl | rfl⟩ := h
    · exact ⟨']', more, rfl, by decide, by decide⟩
    · exact ⟨'%', more, rfl, by decide, by decide⟩
  intro after hafter
  cases first with
  | true =>
      cases hafter
      exact hdigit
  | false => simp [separated?, after?, hcolon] at hafter

theorem closed_gap (first : Bool) (more : List Char) : Closed first (':' :: ':' :: more) := by
  intro after hafter
  cases first <;> (cases hafter; rfl)

theorem endsGroup_gap (more : List Char) : EndsGroup (':' :: ':' :: more) :=
  ⟨':', _, rfl, by decide, by decide⟩

theorem eightGroups?_whole {gs : List Nat} (hlength : gs.length = 8) (hgs : ∀ g ∈ gs, g < 65536)
    (hrest : EndsHost rest) : eightGroups? ((groupsText gs).toList ++ rest) = some (gs, rest) := by
  have hread := groups_groupsText hgs hrest.endsGroup (hrest.closed false)
    (fun _ => hrest.closed true) 0
  rw [hlength] at hread
  simp [eightGroups?, hread, hlength]

theorem eightGroups?_gap (head tail : List Nat) (hlength : head.length + tail.length ≤ 7)
    (hhead : ∀ g ∈ head, g < 65536) (htail : ∀ g ∈ tail, g < 65536) (hrest : EndsHost rest) :
    eightGroups? ((groupsText head).toList ++ ':' :: ':' :: ((groupsText tail).toList ++ rest)) =
      some (head ++ List.replicate (8 - head.length - tail.length) 0 ++ tail, rest) := by
  have hfirst := groups_groupsText hhead (endsGroup_gap ((groupsText tail).toList ++ rest))
    (closed_gap false _) (fun _ => closed_gap true _) (8 - head.length)
  have hsecond := groups_groupsText htail hrest.endsGroup (hrest.closed false)
    (fun _ => hrest.closed true) (7 - head.length - tail.length)
  have hroom : head.length + (8 - head.length) = 8 := by omega
  have hspare : tail.length + (7 - head.length - tail.length) = 7 - head.length := by omega
  have hne : head.length ≠ 8 := by omega
  rw [hroom] at hfirst
  rw [hspare] at hsecond
  simp [eightGroups?, hfirst, hne, hsecond]

/-- Two groups of an address that holds four bytes are written as those. -/
theorem eightGroups?_mapped {g h : Nat} (hg : g < 65536) (hh : h < 65536) (hrest : EndsHost rest) :
    eightGroups? (("::ffff:" ++ bytesText (g / 256) (g % 256) (h / 256) (h % 256)).toList ++ rest) =
      some ([0, 0, 0, 0, 0, 0xFFFF, g, h], rest) := by
  let bytes := (bytesText (g / 256) (g % 256) (h / 256) (h % 256)).toList
  have htext : ("::ffff:" ++ bytesText (g / 256) (g % 256) (h / 256) (h % 256)).toList ++ rest =
      ':' :: ':' :: (Nat.toDigits 16 0xFFFF ++ ':' :: (bytes ++ rest)) := by
    simp [bytes]
    rfl
  have hbytes : bytes? (bytes ++ rest) =
      some ((g / 256, g % 256, h / 256, h % 256), rest) :=
    bytes?_bytesText (by omega) hrest.endsGroup.stops.ten
  have hlast : groups false 6 (':' :: (bytes ++ rest)) = ([g, h], true, rest) := by
    simp [groups, separated?, after?, hbytes, Nat.div_add_mod']
  have hsecond : groups true 7 (Nat.toDigits 16 0xFFFF ++ ':' :: (bytes ++ rest)) =
      ([0xFFFF, g, h], true, rest) := by
    rw [groups_cons rfl (by decide) ⟨':', _, rfl, by decide, by decide⟩, hlast]
  rw [htext, eightGroups?, groups_of_closed (closed_gap true _)]
  simp [hsecond]

/-- Written groups read back. -/
theorem eightGroups?_hostText {gs : List Nat} (hlength : gs.length = 8)
    (hgs : ∀ g ∈ gs, g < 65536) (hrest : EndsHost rest) :
    eightGroups? ((hostText gs).toList ++ rest) = some (gs, rest) := by
  unfold hostText
  split
  next g h =>
    exact eightGroups?_mapped (hgs g (by simp)) (hgs h (by simp)) hrest
  next =>
    have hsplit := split_at_longestRun gs
    generalize longestRun gs = run at hsplit ⊢
    obtain ⟨start, run⟩ := run
    simp only at hsplit ⊢
    split
    next hrun =>
      have hcount := congrArg List.length hsplit
      rw [List.length_append, List.length_append, List.length_replicate, hlength] at hcount
      have hread := eightGroups?_gap (gs.take start) (gs.drop (start + run)) (by omega)
        (fun g hg => hgs g (List.mem_of_mem_take hg))
        (fun g hg => hgs g (List.mem_of_mem_drop hg)) hrest
      have hgap : 8 - (gs.take start).length - (gs.drop (start + run)).length = run := by omega
      rw [hgap, List.append_assoc, hsplit] at hread
      simpa using hread
    next => exact eightGroups?_whole hlength hgs hrest

end Hosts

theorem zone_written {zone : Nat} (h : zone < Nat.pow 2 32) (more : List Char) :
    Address.zone ((if zone = 0 then "" else "%" ++ toString zone).toList ++ ']' :: more) =
      (zone, ']' :: more) := by
  by_cases hzero : zone = 0
  · simp [hzero, Address.zone, after?]
  · have hread : counter? (Nat.pow 2 32) (Nat.toDigits 10 zone ++ ']' :: more) =
        some (zone, ']' :: more) := counter?_toDigits h rfl
    simp [hzero, Address.zone, after?, hread]

/-- A written address reads back. -/
theorem read?_text {address : Address} (valid : address.Valid) :
    read? address.text = some address := by
  cases address with
  | v4 a b c d port =>
      obtain ⟨hbytes, hport⟩ := valid
      have htext : (text (.v4 a b c d port)).toList =
          (bytesText a b c d).toList ++ ':' :: Nat.toDigits 10 port := by
        simp [text]
      have hstops : Stops 10 (':' :: Nat.toDigits 10 port) := rfl
      have hread : readV4? (text (.v4 a b c d port)).toList = some (.v4 a b c d port, []) := by
        rw [htext, readV4?, bytes?_bytesText hbytes hstops]
        simp [port?_toDigits hport]
      rw [read?, hread]
      rfl
  | v6 groups zone port =>
      obtain ⟨⟨hlength, hgroups⟩, hzone, hport⟩ := valid
      let zoneText := if zone = 0 then "" else "%" ++ toString zone
      let close := ']' :: ':' :: Nat.toDigits 10 port
      have htext : (text (.v6 groups zone port)).toList =
          '[' :: ((hostText groups).toList ++ (zoneText.toList ++ close)) := by
        simp [text, zoneText, close]
      have hends : EndsHost (zoneText.toList ++ close) := by
        by_cases hzero : zone = 0
        · exact ⟨':' :: Nat.toDigits 10 port, Or.inl (by simp [zoneText, hzero, close])⟩
        · exact ⟨Nat.toDigits 10 zone ++ close, Or.inr (by simp [zoneText, hzero])⟩
      have hnone : readV4? (text (.v6 groups zone port)).toList = none := by
        have hstops : Stops 10 ('[' :: ((hostText groups).toList ++ (zoneText.toList ++ close))) :=
          rfl
        rw [htext, readV4?, bytes?_of_stops hstops]
        rfl
      have hread : readV6? (text (.v6 groups zone port)).toList =
          some (.v6 groups zone port, []) := by
        have hhost := eightGroups?_hostText hlength hgroups hends
        have hclose : Address.zone (zoneText.toList ++ close) = (zone, close) :=
          zone_written hzone _
        simp [htext, readV6?, after?, hhost, hclose, close, port?_toDigits hport]
      rw [read?, hnone, hread]
      rfl

end EventBus.Address
