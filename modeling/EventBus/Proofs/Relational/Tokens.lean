import EventBus.Json.Reader
import EventBus.Pattern.Predicate

/-!
The text of a statement as tokens, with its parameters in place. Words are names, keywords or
numbers and are the same in any case of their letters; a text stands in quotes, where two quotes
stand for one; and each question mark takes the next parameter. Two texts next to each other
have the tokens of both when a space or a sign keeps them apart.
-/

namespace EventBus.Relational

inductive Keyword where
  | select | distinct | from | as | join | on | where | and | or | not | exists | is | null
  | like | escape | in | create | table | text | primary | key | insert | into | values
  deriving DecidableEq, Repr

namespace Keyword

def word : Keyword → String
  | .select => "select" | .distinct => "distinct" | .from => "from" | .as => "as"
  | .join => "join" | .on => "on" | .where => "where" | .and => "and" | .or => "or"
  | .not => "not" | .exists => "exists" | .is => "is" | .null => "null" | .like => "like"
  | .escape => "escape" | .in => "in" | .create => "create" | .table => "table"
  | .text => "text" | .primary => "primary" | .key => "key" | .insert => "insert"
  | .into => "into" | .values => "values"

def all : List Keyword :=
  [.select, .distinct, .from, .as, .join, .on, .where, .and, .or, .not, .exists, .is, .null,
    .like, .escape, .in, .create, .table, .text, .primary, .key, .insert, .into, .values]

def ofWord? (word : String) : Option Keyword := all.find? fun keyword => keyword.word == word

end Keyword

inductive Token where
  | keyword (keyword : Keyword)
  | name (name : String)
  | number (n : Nat)
  | text (cs : List Char)
  | relation (relation : Relation)
  /-- A place for a parameter. -/
  | mark
  /-- A parameter in its place. -/
  | value (value : Json)
  | openParen
  | closeParen
  | comma
  | dot
  /-- A character that starts nothing. -/
  | other (c : Char)
  deriving Repr

def isWordChar (c : Char) : Bool := c.isAlphanum || c == '_' || c == '$' || 128 ≤ c.toNat

/-- The token of a word in lower case. -/
def wordToken : List Char → Token
  | [] => .name ""
  | c :: cs =>
      if c.isDigit then
        if cs.all Char.isDigit then .number (Json.digitsValue (c :: cs)) else .other c
      else
        match Keyword.ofWord? (String.ofList (c :: cs)) with
        | some keyword => .keyword keyword
        | none => .name (String.ofList (c :: cs))

/-- Where the reading of characters stands. -/
inductive Mode where
  | between
  /-- In a word, of which characters have been read. -/
  | word (cs : List Char)
  /-- After a sign that an equals sign may continue. -/
  | sign (relation : Relation)
  | quoted (cs : List Char)
  /-- After a quote that ends a text, unless another one follows. -/
  | unquoted (cs : List Char)

namespace Mode

/-- The token that is complete when a reading ends, or when something else starts. -/
def close : Mode → List Token
  | .between => []
  | .word cs => [wordToken cs]
  | .sign relation => [.relation relation]
  | .quoted _ => [.other '\'']
  | .unquoted cs => [.text cs]

def isQuoted : Mode → Bool
  | .quoted _ => true
  | _ => false

end Mode

def symbolToken (c : Char) : Token :=
  match c with
  | '=' => .relation .equal
  | '?' => .mark
  | '(' => .openParen
  | ')' => .closeParen
  | ',' => .comma
  | '.' => .dot
  | c => .other c

/-- A character that continues nothing. -/
def start (c : Char) : List Token × Mode :=
  if c.isWhitespace then ([], .between)
  else if isWordChar c then ([], .word [c.toLower])
  else if c = '<' then ([], .sign .less)
  else if c = '>' then ([], .sign .greater)
  else if c = '\'' then ([], .quoted [])
  else ([symbolToken c], .between)

def orEqual : Relation → Relation
  | .less => .atMost
  | .greater => .atLeast
  | relation => relation

def step (mode : Mode) (c : Char) : List Token × Mode :=
  match mode with
  | .between => start c
  | .word cs =>
      if isWordChar c then ([], .word (cs ++ [c.toLower]))
      else ((Mode.word cs).close ++ (start c).1, (start c).2)
  | .sign relation =>
      if c = '=' then ([.relation (orEqual relation)], .between)
      else ((Mode.sign relation).close ++ (start c).1, (start c).2)
  | .quoted cs => if c = '\'' then ([], .unquoted cs) else ([], .quoted (cs ++ [c]))
  | .unquoted cs =>
      if c = '\'' then ([], .quoted (cs ++ [c]))
      else ((Mode.unquoted cs).close ++ (start c).1, (start c).2)

def scan (mode : Mode) : List Char → List Token × Mode
  | [] => ([], mode)
  | c :: cs => ((step mode c).1 ++ (scan (step mode c).2 cs).1, (scan (step mode c).2 cs).2)

/-- The tokens of a text, before its parameters are put in. -/
def lex (text : String) : List Token :=
  (scan .between text.toList).1 ++ (scan .between text.toList).2.close

/-- Put parameters into their places; there must be as many as places. -/
def bind? : List Token → List Json → Option (List Token)
  | [], [] => some []
  | [], _ :: _ => none
  | .mark :: _, [] => none
  | .mark :: ts, param :: params => (bind? ts params).map (.value param :: ·)
  | token :: ts, params => (bind? ts params).map (token :: ·)

theorem scan_append (mode : Mode) (cs ds : List Char) :
    scan mode (cs ++ ds) =
      ((scan mode cs).1 ++ (scan (scan mode cs).2 ds).1, (scan (scan mode cs).2 ds).2) := by
  induction cs generalizing mode with
  | nil => rfl
  | cons c cs ih => simp only [List.cons_append, scan, ih, List.append_assoc]

theorem bind?_append {ts us : List Token} {params later : List Json} {bound more : List Token}
    (hts : bind? ts params = some bound) (hus : bind? us later = some more) :
    bind? (ts ++ us) (params ++ later) = some (bound ++ more) := by
  induction ts generalizing params bound with
  | nil =>
      cases params with
      | nil =>
          obtain rfl : [] = bound := by simpa [bind?] using hts
          exact hus
      | cons param params => simp [bind?] at hts
  | cons token ts ih =>
      have hcons (params : List Json) (first : Token)
          (h : (bind? ts params).map (first :: ·) = some bound) :
          (bind? (ts ++ us) (params ++ later)).map (first :: ·) = some (bound ++ more) := by
        obtain ⟨rest, hrest, rfl⟩ := Option.map_eq_some_iff.mp h
        rw [ih hrest]
        rfl
      cases token with
      | mark =>
          cases params with
          | nil => simp [bind?] at hts
          | cons param params => exact hcons params (.value param) hts
      | _ => exact hcons params _ (by simpa only [bind?] using hts)

/-- A text with its parameters reads as tokens, and does not end within quotes. -/
def Reads (text : String) (params : List Json) (ts : List Token) : Prop :=
  ∃ us mode, scan .between text.toList = (us, mode) ∧ mode.isQuoted = false ∧
    bind? (us ++ mode.close) params = some ts

theorem Reads.bind?_lex {text : String} {params : List Json} {ts : List Token}
    (h : Reads text params ts) : bind? (lex text) params = some ts := by
  obtain ⟨us, mode, hscan, -, hbind⟩ := h
  rw [lex, hscan]
  exact hbind

/-- A character that no word, sign or text goes on with. -/
def separates (c : Char) : Bool := !isWordChar c && c != '=' && c != '\''

theorem step_of_separates {c : Char} (hc : separates c = true) {mode : Mode}
    (hmode : mode.isQuoted = false) :
    step mode c = (mode.close ++ (start c).1, (start c).2) := by
  simp only [separates, Bool.and_eq_true, Bool.not_eq_true', bne_iff_ne] at hc
  cases mode <;> simp_all [step, Mode.close, Mode.isQuoted]

/-- The text starts with a character that keeps it apart from what stands before. -/
def StartsApart (text : String) : Prop := text.toList.head?.any separates = true

theorem StartsApart.append {a : String} (h : StartsApart a) (b : String) :
    StartsApart (a ++ b) := by
  unfold StartsApart at *
  rw [String.toList_append]
  cases ha : a.toList with
  | nil => simp [ha] at h
  | cons c cs => simpa [ha] using h

/-- A text with its parameters reads as tokens, of which the last is complete. -/
def Closed (text : String) (params : List Json) (ts : List Token) : Prop :=
  ∃ us, scan .between text.toList = (us, .between) ∧ bind? us params = some ts

/-- A text that may stand between any two. -/
structure Joint (text : String) (params : List Json) (ts : List Token) : Prop where
  apart : StartsApart text
  closed : Closed text params ts

namespace Reads

variable {a b : String} {params later : List Json} {ts us : List Token}

theorem of_eq (h : Reads a params ts) (htext : a = b) (hparams : params = later)
    (hts : ts = us) : Reads b later us := htext ▸ hparams ▸ hts ▸ h

theorem append (ha : Reads a params ts) (hb : Reads b later us) (hapart : StartsApart b) :
    Reads (a ++ b) (params ++ later) (ts ++ us) := by
  obtain ⟨before, mode, hscan, hquoted, hbind⟩ := ha
  obtain ⟨after, final, hafter, hfinal, hbindafter⟩ := hb
  unfold StartsApart at hapart
  cases hcs : b.toList with
  | nil => simp [hcs] at hapart
  | cons c cs =>
      have hc : separates c = true := by simpa [hcs] using hapart
      rw [hcs, scan, step] at hafter
      obtain ⟨rfl, rfl⟩ := Prod.mk.inj hafter
      refine ⟨_, _, by rw [String.toList_append, scan_append, hscan, hcs, scan], ?_, ?_⟩
      · rw [step_of_separates hc hquoted]
        exact hfinal
      · rw [step_of_separates hc hquoted]
        have hjoined := bind?_append hbind hbindafter
        simpa only [List.append_assoc] using hjoined

/-- After a text that ends between tokens anything may follow. -/
theorem append_closed (ha : Closed a params ts) (hb : Reads b later us) :
    Reads (a ++ b) (params ++ later) (ts ++ us) := by
  obtain ⟨closed, hclosed, hparams⟩ := ha
  obtain ⟨after, final, hafter, hfinal, hbind⟩ := hb
  refine ⟨closed ++ after, final, ?_, hfinal, ?_⟩
  · rw [String.toList_append, scan_append, hclosed, hafter]
  · rw [List.append_assoc]
    exact bind?_append hparams hbind

/-- Two texts and a joint between them. -/
theorem joined {joint : String} {inner : List Json} {between : List Token}
    (ha : Reads a params ts) (hjoint : Joint joint inner between) (hb : Reads b later us) :
    Reads (a ++ (joint ++ b)) (params ++ (inner ++ later)) (ts ++ (between ++ us)) :=
  ha.append (.append_closed hjoint.closed hb) (hjoint.apart.append b)

end Reads

theorem scan_word {cs : List Char} (read : List Char) (h : ∀ c ∈ cs, isWordChar c = true) :
    scan (.word read) cs = ([], .word (read ++ cs.map Char.toLower)) := by
  induction cs generalizing read with
  | nil => simp [scan]
  | cons c cs ih =>
      have hc := h c List.mem_cons_self
      simp only [scan, step, hc, if_true, ih _ fun d hd => h d (List.mem_cons_of_mem _ hd)]
      simp

/-- A text of nothing but characters of words is one word. -/
theorem Reads.word {c : Char} {cs : List Char} (hc : c.isWhitespace = false)
    (h : ∀ d ∈ c :: cs, isWordChar d = true) :
    Reads (String.ofList (c :: cs)) [] [wordToken ((c :: cs).map Char.toLower)] := by
  have hfirst : start c = ([], .word [c.toLower]) := by
    simp [start, hc, h c List.mem_cons_self]
  refine ⟨[], .word ((c :: cs).map Char.toLower), ?_, rfl, ?_⟩
  · rw [String.toList_ofList, scan, step, hfirst,
      scan_word _ fun d hd => h d (List.mem_cons_of_mem _ hd)]
    simp
  · have hmark : ∀ token : Token, token ≠ .mark → bind? [token] [] = some [token] := by
      intro token htoken
      cases token <;> first | rfl | exact absurd rfl htoken
    refine hmark _ ?_
    rw [List.map_cons, wordToken]
    split
    · split <;> simp
    · split <;> simp

example : lex "x.a <= ? and Not 'it''s'" =
    [.name "x", .dot, .name "a", .relation .atMost, .mark, .keyword .and, .keyword .not,
      .text ['i', 't', '\'', 's']] := by rfl

end EventBus.Relational
