import EventBus.Pattern.Index
import Mathlib.Data.List.Infix
import Mathlib.Tactic.Common

/-!
Paths as text. Keys without a slash can be read back from their joined text, because each
key ends where the text ends or at the next slash. So comparing joined paths compares keys:
equal texts are equal paths, and a text at or below another continues its keys. Both need a
key to start with, since no key and one empty key have the same text.
-/

namespace EventBus.Index

/-- A key that joined text can be cut at again. -/
def SlashFree (key : String) : Prop := '/' ∉ key.toList

instance (key : String) : Decidable (SlashFree key) := by
  unfold SlashFree
  infer_instance

/-- What follows a key in a joined text: nothing, or a slash first. -/
def AtSlash (cs : List Char) : Prop := cs = [] ∨ ∃ rest, cs = '/' :: rest

/-- The text that further keys add. -/
def furtherText (keys : List String) : List Char := keys.flatMap fun key => '/' :: key.toList

theorem furtherText_atSlash (keys : List String) : AtSlash (furtherText keys) := by
  cases keys with
  | nil => exact Or.inl rfl
  | cons key keys => exact Or.inr ⟨key.toList ++ furtherText keys, rfl⟩

theorem toList_joinPath_cons (key : String) (keys : List String) :
    (joinPath (key :: keys)).toList = key.toList ++ furtherText keys := by
  induction keys generalizing key with
  | nil => simp [joinPath, furtherText]
  | cons next keys ih =>
      rw [joinPath, String.toList_append, String.toList_append, ih next]
      simp [furtherText]

/-- A key without a slash is what stands before the first slash. -/
private theorem takeWhile_append_atSlash {key rest : List Char} (hkey : '/' ∉ key)
    (hrest : AtSlash rest) : (key ++ rest).takeWhile (· != '/') = key := by
  have hall : ∀ c ∈ key, (c != '/') = true := by
    intro c hc
    simp only [bne_iff_ne, ne_eq]
    rintro rfl
    exact hkey hc
  rw [List.takeWhile_append_of_pos hall]
  rcases hrest with rfl | ⟨rest, rfl⟩ <;> simp

/-- Two texts that start with a key each have the same key and the same rest. -/
theorem append_atSlash_inj {a b u v : List Char} (ha : '/' ∉ a) (hb : '/' ∉ b)
    (hu : AtSlash u) (hv : AtSlash v) (h : a ++ u = b ++ v) : a = b ∧ u = v := by
  have hkeys : a = b := by
    rw [← takeWhile_append_atSlash ha hu, h, takeWhile_append_atSlash hb hv]
  subst hkeys
  exact ⟨rfl, List.append_cancel_left h⟩

/-- Text that continues the text of further keys continues the keys. -/
theorem prefix_of_furtherText {path row : List String} (hpath : ∀ key ∈ path, SlashFree key)
    (hrow : ∀ key ∈ row, SlashFree key) {rest : List Char} (hrest : AtSlash rest)
    (h : furtherText row = furtherText path ++ rest) : path <+: row := by
  induction path generalizing row with
  | nil => exact List.nil_prefix
  | cons key path ih =>
      cases row with
      | nil => simp [furtherText] at h
      | cons first row =>
          have hcut : first.toList ++ furtherText row =
              key.toList ++ (furtherText path ++ rest) := by
            simpa [furtherText] using h
          have hafter : AtSlash (furtherText path ++ rest) := by
            rcases furtherText_atSlash path with hnone | ⟨more, hmore⟩
            · rwa [hnone, List.nil_append]
            · exact Or.inr ⟨more ++ rest, by rw [hmore, List.cons_append]⟩
          obtain ⟨hkeys, htexts⟩ := append_atSlash_inj (hrow first (by simp))
            (hpath key (by simp)) (furtherText_atSlash row) hafter hcut
          have hfirst : key = first := String.toList_inj.mp hkeys.symm
          have htail := ih (fun k hk => hpath k (by simp [hk]))
            (fun k hk => hrow k (by simp [hk])) htexts
          rw [hfirst]
          exact List.cons_prefix_cons.mpr ⟨rfl, htail⟩

theorem dropLeading?_eq_some_iff {start cs rest : List Char} :
    dropLeading? start cs = some rest ↔ cs = start ++ rest := by
  induction start generalizing cs with
  | nil => simp [dropLeading?]
  | cons p ps ih =>
      cases cs with
      | nil => simp [dropLeading?]
      | cons c cs =>
          by_cases hpc : p = c
          · simp [dropLeading?, hpc, ih]
          · simp [dropLeading?, hpc, Ne.symm hpc]

theorem isAtOrBelow_iff {path row : String} :
    isAtOrBelow path row = true ↔ ∃ rest, AtSlash rest ∧ row.toList = path.toList ++ rest := by
  unfold isAtOrBelow
  cases hdrop : dropLeading? path.toList row.toList with
  | none =>
      simp only [Bool.false_eq_true, false_iff]
      rintro ⟨rest, -, hrow⟩
      rw [dropLeading?_eq_some_iff.mpr hrow] at hdrop
      cases hdrop
  | some rest =>
      have hrow := dropLeading?_eq_some_iff.mp hdrop
      have hsame (other : List Char) (hother : row.toList = path.toList ++ other) :
          other = rest := List.append_cancel_left (hother.symm.trans hrow)
      cases rest with
      | nil => simpa using ⟨[], Or.inl rfl, hrow⟩
      | cons c rest =>
          simp only [beq_iff_eq]
          constructor
          · rintro rfl
            exact ⟨'/' :: rest, Or.inr ⟨rest, rfl⟩, hrow⟩
          · rintro ⟨other, hslash, hother⟩
            rcases hslash with rfl | ⟨more, rfl⟩
            · cases hsame [] hother
            · exact (List.cons.inj (hsame _ hother)).1.symm

/-- A row stands at or below a path exactly when its keys continue the keys of the path. -/
theorem isAtOrBelow_joinPath_iff {path row : List String} (hpath : path ≠ []) (hrow : row ≠ [])
    (hpathKeys : ∀ key ∈ path, SlashFree key) (hrowKeys : ∀ key ∈ row, SlashFree key) :
    isAtOrBelow (joinPath path) (joinPath row) = true ↔ path <+: row := by
  obtain ⟨key, path, rfl⟩ := List.exists_cons_of_ne_nil hpath
  obtain ⟨first, row, rfl⟩ := List.exists_cons_of_ne_nil hrow
  rw [isAtOrBelow_iff]
  constructor
  · rintro ⟨rest, hrest, htext⟩
    -- A slash before both first keys makes them further keys.
    refine prefix_of_furtherText hpathKeys hrowKeys hrest ?_
    rw [toList_joinPath_cons, toList_joinPath_cons] at htext
    simpa [furtherText] using htext
  · rintro ⟨more, hmore⟩
    obtain ⟨rfl, rfl⟩ := List.cons.inj hmore
    refine ⟨furtherText more, furtherText_atSlash more, ?_⟩
    simp [toList_joinPath_cons, furtherText]

/-- Equal texts are equal paths. -/
theorem joinPath_inj {path row : List String} (hpath : path ≠ []) (hrow : row ≠ [])
    (hpathKeys : ∀ key ∈ path, SlashFree key) (hrowKeys : ∀ key ∈ row, SlashFree key) :
    joinPath row = joinPath path ↔ row = path := by
  constructor
  · intro h
    have hself (text : String) : isAtOrBelow text text = true :=
      isAtOrBelow_iff.mpr ⟨[], Or.inl rfl, by simp⟩
    have hdown : path <+: row := by
      rw [← isAtOrBelow_joinPath_iff hpath hrow hpathKeys hrowKeys, h]
      exact hself _
    have hup : row <+: path := by
      rw [← isAtOrBelow_joinPath_iff hrow hpath hrowKeys hpathKeys, h]
      exact hself _
    exact hup.eq_of_length_le hdown.length_le
  · rintro rfl
    rfl

end EventBus.Index
