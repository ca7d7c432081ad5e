import EventBus.Proofs.Relational.Syntax

/-!
Reading statements. A reader takes the tokens of its part from the front and leaves the rest. The
reader of conditions calls itself after at least one token, so as many calls are enough as there
are tokens. What is written by a tree is read back as that tree.
-/

namespace EventBus.Relational

def operand? : List Token → Option (Operand × List Token)
  | .value param :: ts => some (.value param, ts)
  | .number n :: ts => some (.number n, ts)
  | .name source :: .dot :: .name column :: ts => some (.column source column, ts)
  | _ => none

def values? : List Token → Option (List Json × List Token)
  | .value param :: .comma :: ts => do
      let (params, ts) ← values? ts
      return (param :: params, ts)
  | .value param :: ts => some ([param], ts)
  | _ => none

def close? : List Token → Option (List Token)
  | .closeParen :: ts => some ts
  | _ => none

/-- What is asked of an operand that has been read. -/
def test? (left : Operand) : List Token → Option (Atom × List Token)
  | .relation relation :: ts => do
      let (right, ts) ← operand? ts
      return (.test left (.compare relation right), ts)
  | .keyword .is :: .keyword .null :: ts => some (.test left .isNull, ts)
  | .keyword .is :: .keyword .not :: .keyword .null :: ts => some (.test left .isNotNull, ts)
  | .keyword .like :: ts =>
      match operand? ts with
      | some (pattern, .keyword .escape :: .text [c] :: ts) =>
          some (.test left (.like pattern c), ts)
      | _ => none
  | .keyword .in :: .openParen :: ts =>
      match values? ts with
      | some (first :: rest, .closeParen :: ts) => some (.isIn left first rest, ts)
      | _ => none
  | _ => none

/-- One test of a condition, by a reader of the conditions within it. -/
def atom? (condition? : List Token → Option (Condition × List Token)) :
    List Token → Option (Atom × List Token)
  | .openParen :: ts => do
      let (condition, ts) ← condition? ts
      return (.group condition, ← close? ts)
  | .keyword .not :: .keyword .exists :: .openParen :: .keyword .select :: .number 1
      :: .keyword .from :: .name table :: .keyword .as :: .name label :: .keyword .where :: ts => do
      let (condition, ts) ← condition? ts
      return (.notExists table label condition, ← close? ts)
  | ts => do
      let (left, ts) ← operand? ts
      test? left ts

/-- What goes on after a test of a condition. -/
def more? (condition? : List Token → Option (Condition × List Token)) (atom : Atom) :
    List Token → Option (Condition × List Token)
  | .keyword .and :: ts => do
      let (rest, ts) ← condition? ts
      return (.and atom rest, ts)
  | .keyword .or :: ts => do
      let (rest, ts) ← condition? ts
      return (.or atom rest, ts)
  | ts => some (.last atom, ts)

def condition? : Nat → List Token → Option (Condition × List Token)
  | 0, _ => none
  | calls + 1, ts => do
      let (atom, ts) ← atom? (condition? calls) ts
      more? (condition? calls) atom ts

def source? : List Token → Option (Source × List Token)
  | .name table :: .keyword .as :: .name label :: ts => some (⟨table, some label⟩, ts)
  | .name table :: ts => some (⟨table, none⟩, ts)
  | _ => none

def joins? (calls : Nat) : Nat → List Token → Option (List Join × List Token)
  | 0, _ => none
  | more + 1, .keyword .join :: ts => do
      let (source, ts) ← source? ts
      match ts with
      | .keyword .on :: ts => do
          let (condition, ts) ← condition? calls ts
          let (joins, ts) ← joins? calls more ts
          return (⟨source, condition⟩ :: joins, ts)
      | _ => none
  | _, ts => some ([], ts)

def columns? : List Token → Option (List Column × List Token)
  | .name source :: .dot :: .name name :: .keyword .as :: .name label :: .comma :: ts => do
      let (columns, ts) ← columns? ts
      return (⟨source, name, label⟩ :: columns, ts)
  | .name source :: .dot :: .name name :: .keyword .as :: .name label :: ts =>
      some ([⟨source, name, label⟩], ts)
  | _ => none

def query? (ts : List Token) : Option Query :=
  match ts with
  | .keyword .select :: .keyword .distinct :: ts => do
      let (columns, ts) ← columns? ts
      match ts with
      | .keyword .from :: ts => do
          let (first, ts) ← source? ts
          let (joins, ts) ← joins? (ts.length + 1) (ts.length + 1) ts
          match ts with
          | .keyword .where :: ts => do
              match ← condition? (ts.length + 1) ts with
              | (filter, []) => some ⟨columns, first, joins, filter⟩
              | _ => none
          | _ => none
      | _ => none
  | _ => none

mutual

/-- The columns of a new table, up to the parenthesis that ends them. -/
def columnKinds? : List Token → Option (List ColumnKind)
  | .name name :: .keyword .text :: .keyword .primary :: .keyword .key :: ts =>
      (moreColumnKinds? ts).map (⟨name, true, true⟩ :: ·)
  | .name name :: .keyword .primary :: .keyword .key :: ts =>
      (moreColumnKinds? ts).map (⟨name, false, true⟩ :: ·)
  | .name name :: .keyword .text :: ts => (moreColumnKinds? ts).map (⟨name, true, false⟩ :: ·)
  | .name name :: ts => (moreColumnKinds? ts).map (⟨name, false, false⟩ :: ·)
  | _ => none

def moreColumnKinds? : List Token → Option (List ColumnKind)
  | [.closeParen] => some []
  | .comma :: ts => columnKinds? ts
  | _ => none

end

def names? : List Token → Option (List String × List Token)
  | .name name :: .comma :: ts => do
      let (names, ts) ← names? ts
      return (name :: names, ts)
  | .name name :: ts => some ([name], ts)
  | _ => none

mutual

/-- Rows of values, each in parentheses. -/
def rows? : List Token → Option (List (List Json))
  | .openParen :: ts => rowsFrom? ts
  | _ => none

/-- The rest of a row, and the rows after it. -/
def rowsFrom? : List Token → Option (List (List Json))
  | .value param :: .comma :: ts =>
      match rowsFrom? ts with
      | some (row :: rows) => some ((param :: row) :: rows)
      | _ => none
  | [.value param, .closeParen] => some [[param]]
  | .value param :: .closeParen :: .comma :: ts => (rows? ts).map ([param] :: ·)
  | _ => none

end

def command? (ts : List Token) : Option Command :=
  match ts with
  | .keyword .create :: .keyword .table :: .name table :: .openParen :: ts =>
      (columnKinds? ts).map (.create table)
  | .keyword .insert :: .keyword .into :: .name table :: .openParen :: ts => do
      match ← names? ts with
      | (columns, .closeParen :: .keyword .values :: ts) => (rows? ts).map (.insert table columns)
      | _ => none
  | _ => none

/-- The query that a statement is. -/
def Query.read? (statement : Sql.Statement) : Option Query :=
  (bind? (lex statement.sql) statement.params).bind query?

/-- The condition that a text with its parameters is on its own. -/
def Condition.read? (text : String) (params : List Json) : Option Condition :=
  match (bind? (lex text) params).bind fun ts => condition? (ts.length + 1) ts with
  | some (condition, []) => some condition
  | _ => none

/-- The command that a statement is. -/
def Command.read? (statement : Sql.Statement) : Option Command :=
  (bind? (lex statement.sql) statement.params).bind command?

section ReadBack

theorem operand?_tokens (operand : Operand) (rest : List Token) :
    operand? (operand.tokens ++ rest) = some (operand, rest) := by
  cases operand <;> rfl

theorem values?_tokens (first : Json) (params : List Json) (rest : List Token) :
    values? (valuesTokens (first :: params) ++ .closeParen :: rest) =
      some (first :: params, .closeParen :: rest) := by
  induction params generalizing first with
  | nil => rfl
  | cons next params ih =>
      have hsplit : valuesTokens (first :: next :: params) =
          .value first :: .comma :: valuesTokens (next :: params) := rfl
      rw [hsplit, List.cons_append, List.cons_append, values?, ih]
      rfl

theorem test?_check (left : Operand) (check : Check Operand) (rest : List Token) :
    test? left (check.tokens ++ rest) = some (.test left check, rest) := by
  cases check with
  | compare relation right =>
      rw [Check.tokens, List.cons_append, test?, operand?_tokens]
      rfl
  | isNull => rfl
  | isNotNull => rfl
  | like pattern escape =>
      simp only [Check.tokens, List.cons_append, List.append_assoc, test?, operand?_tokens,
        List.nil_append]

theorem test?_isIn (left : Operand) (first : Json) (params : List Json) (rest : List Token) :
    test? left (.keyword .in :: inParens (valuesTokens (first :: params)) ++ rest) =
      some (.isIn left first params, rest) := by
  rw [List.cons_append, inParens, List.append_assoc, List.cons_append, test?,
    List.singleton_append, values?_tokens]

theorem atom?_tokens {inner : List Token → Option (Condition × List Token)} {length : Nat}
    (hinner : ∀ (condition : Condition) (rest : List Token), condition.tokens.length < length →
      inner (condition.tokens ++ .closeParen :: rest) = some (condition, .closeParen :: rest))
    (atom : Atom) (hlength : atom.tokens.length ≤ length) (rest : List Token) :
    atom? inner (atom.tokens ++ rest) = some (atom, rest) := by
  cases atom with
  | test left check =>
      rw [Atom.tokens, List.append_assoc]
      cases left <;> exact test?_check _ check rest
  | isIn left first params =>
      rw [Atom.tokens, List.append_assoc]
      cases left <;> exact test?_isIn _ first params rest
  | group condition =>
      have hless : condition.tokens.length < length := by
        simp only [Atom.tokens, inParens, List.length_append, List.length_cons] at hlength
        omega
      have hread := hinner condition rest hless
      rw [Atom.tokens, inParens, List.append_assoc, List.cons_append, atom?,
        List.singleton_append, hread]
      rfl
  | notExists table label condition =>
      have hless : condition.tokens.length < length := by
        simp only [Atom.tokens, inParens, List.length_append, List.length_cons] at hlength
        omega
      have hread := hinner condition rest hless
      simp only [Atom.tokens, inParens, List.cons_append, List.nil_append, List.append_assoc, atom?,
        hread]
      rfl

/-- No test of the same condition follows. -/
def Ends : List Token → Prop
  | .keyword .and :: _ => False
  | .keyword .or :: _ => False
  | _ => True

theorem more?_of_ends {rest : List Token} (h : Ends rest)
    (condition? : List Token → Option (Condition × List Token)) (atom : Atom) :
    more? condition? atom rest = some (.last atom, rest) := by
  unfold more?
  split
  · exact h.elim
  · exact h.elim
  · rfl

theorem condition?_tokens {calls : Nat} (condition : Condition)
    (hcalls : condition.tokens.length < calls) {rest : List Token} (hrest : Ends rest) :
    condition? calls (condition.tokens ++ rest) = some (condition, rest) := by
  -- Not on the condition: a group inside a test is read by the same reader with one call less.
  induction calls generalizing condition rest with
  | zero => exact absurd hcalls (Nat.not_lt_zero _)
  | succ calls ih =>
      have hatom (atom : Atom) (hlength : atom.tokens.length ≤ calls) (rest : List Token) :
          atom? (condition? calls) (atom.tokens ++ rest) = some (atom, rest) :=
        atom?_tokens (fun inner rest hinner => ih inner hinner trivial) atom hlength rest
      cases condition with
      | last atom =>
          rw [Condition.tokens] at hcalls ⊢
          rw [condition?, hatom atom (by omega)]
          exact more?_of_ends hrest _ atom
      | and atom more =>
          simp only [Condition.tokens, List.length_append, List.length_cons] at hcalls
          rw [Condition.tokens, List.append_assoc, condition?, hatom atom (by omega)]
          simp only [List.cons_append, Option.bind_eq_bind, Option.bind_some, more?,
            ih more (by omega) hrest]
          rfl
      | or atom more =>
          simp only [Condition.tokens, List.length_append, List.length_cons] at hcalls
          rw [Condition.tokens, List.append_assoc, condition?, hatom atom (by omega)]
          simp only [List.cons_append, Option.bind_eq_bind, Option.bind_some, more?,
            ih more (by omega) hrest]
          rfl

theorem source?_tokens (source : Source) {rest : List Token}
    (hrest : ∀ ts, rest ≠ .keyword .as :: ts) :
    source? (source.tokens ++ rest) = some (source, rest) := by
  obtain ⟨table, label?⟩ := source
  cases label? with
  | some label => rfl
  | none =>
      rw [Source.tokens, List.singleton_append]
      unfold source?
      split
      · next htokens =>
          obtain ⟨-, rfl⟩ := List.cons.inj htokens
          exact absurd rfl (hrest _)
      · next htokens =>
          cases htokens
          rfl
      · next hnone => exact absurd rfl (hnone table rest)

theorem ends_joins (joins : List Join) (rest : List Token) :
    Ends (joins.flatMap Join.tokens ++ .keyword .where :: rest) := by
  cases joins <;> trivial

theorem joins?_tokens (joins : List Join) {calls more : Nat} (rest : List Token)
    (hcalls : (joins.flatMap Join.tokens).length < calls)
    (hmore : (joins.flatMap Join.tokens).length < more) :
    joins? calls more (joins.flatMap Join.tokens ++ .keyword .where :: rest) =
      some (joins, .keyword .where :: rest) := by
  induction joins generalizing more with
  | nil =>
      obtain ⟨more, rfl⟩ := Nat.exists_eq_add_of_lt hmore
      rfl
  | cons join joins ih =>
      obtain ⟨more, rfl⟩ : ∃ less, more = less + 1 := ⟨more - 1, by omega⟩
      simp only [List.flatMap_cons, Join.tokens, List.length_append, List.length_cons]
        at hcalls hmore
      have hsource : ∀ ts, source? (join.source.tokens ++ .keyword .on :: ts) =
          some (join.source, .keyword .on :: ts) := fun ts => source?_tokens join.source (by simp)
      have hcondition : join.condition.tokens.length < calls := by omega
      have hjoins : joins? calls more (joins.flatMap Join.tokens ++ .keyword .where :: rest) =
          some (joins, .keyword .where :: rest) := ih (by omega) (by omega)
      simp only [List.flatMap_cons, Join.tokens, List.cons_append, List.append_assoc, joins?,
        hsource, Option.bind_eq_bind, Option.bind_some,
        condition?_tokens join.condition hcondition (ends_joins joins rest), hjoins]
      rfl

theorem columns?_tokens (first : Column) (columns : List Column) (rest : List Token) :
    columns? (separated [.comma] ((first :: columns).map Column.tokens) ++ .keyword .from :: rest) =
      some (first :: columns, .keyword .from :: rest) := by
  induction columns generalizing first with
  | nil => rfl
  | cons next columns ih =>
      have hnext := ih next
      simp only [List.map_cons, separated, Column.tokens, List.cons_append, List.nil_append,
        columns?] at hnext ⊢
      rw [hnext]
      rfl

theorem query?_tokens (query : Query) (hcolumns : query.columns ≠ []) :
    query? query.tokens = some query := by
  obtain ⟨columns, first, joins, filter⟩ := query
  obtain ⟨column, columns, rfl⟩ := List.exists_cons_of_ne_nil hcolumns
  have hsource : source? (first.tokens ++
      (joins.flatMap Join.tokens ++ .keyword .where :: filter.tokens)) =
        some (first, joins.flatMap Join.tokens ++ .keyword .where :: filter.tokens) :=
    source?_tokens first (by cases joins <;> simp [Join.tokens])
  have hlength : (joins.flatMap Join.tokens).length <
      (joins.flatMap Join.tokens ++ .keyword .where :: filter.tokens).length + 1 := by
    rw [List.length_append]
    omega
  have hjoins := joins?_tokens joins filter.tokens hlength hlength
  have hends : Ends [] := trivial
  have hfilter := condition?_tokens filter (Nat.lt_succ_self _) hends
  rw [List.append_nil] at hfilter
  have htokens : Query.tokens ⟨column :: columns, first, joins, filter⟩ =
      .keyword .select :: .keyword .distinct ::
        (separated [.comma] ((column :: columns).map Column.tokens) ++ .keyword .from ::
          (first.tokens ++ (joins.flatMap Join.tokens ++ .keyword .where :: filter.tokens))) := by
    simp [Query.tokens]
  simp only [htokens, query?, columns?_tokens, Option.bind_eq_bind, Option.bind_some, hsource,
    hjoins, hfilter]

theorem names?_tokens (first : String) (names : List String) (rest : List Token) :
    names? (separated [.comma] ((first :: names).map fun name => [.name name]) ++
      .closeParen :: rest) = some (first :: names, .closeParen :: rest) := by
  induction names generalizing first with
  | nil => rfl
  | cons next names ih =>
      have hnext := ih next
      simp only [List.map_cons, separated, List.cons_append, List.nil_append, names?] at hnext ⊢
      rw [hnext]
      rfl

theorem columnKinds?_cons (column : ColumnKind) {ts : List Token}
    (hts : ∀ keyword us, ts ≠ .keyword keyword :: us) :
    columnKinds? (column.tokens ++ ts) = (moreColumnKinds? ts).map (column :: ·) := by
  obtain ⟨name, isText, isKey⟩ := column
  cases isText <;> cases isKey <;>
    simp [ColumnKind.tokens, columnKinds?, hts]

theorem columnKinds?_tokens (first : ColumnKind) (columns : List ColumnKind) :
    columnKinds? (separated [.comma] ((first :: columns).map ColumnKind.tokens) ++ [.closeParen]) =
      some (first :: columns) := by
  induction columns generalizing first with
  | nil =>
      rw [List.map_singleton, separated, columnKinds?_cons first (by simp)]
      rfl
  | cons next columns ih =>
      rw [separated_map_cons, List.append_assoc, List.append_assoc,
        columnKinds?_cons first (by simp), List.singleton_append, moreColumnKinds?, ih]
      rfl

/-- A row that has been opened, and what follows it. -/
theorem rowsFrom?_last (first : Json) (row : List Json) :
    rowsFrom? (valuesTokens (first :: row) ++ [.closeParen]) = some [first :: row] := by
  induction row generalizing first with
  | nil => rfl
  | cons next row ih =>
      have hsplit : valuesTokens (first :: next :: row) =
          .value first :: .comma :: valuesTokens (next :: row) := rfl
      rw [hsplit, List.cons_append, List.cons_append, rowsFrom?, ih]

theorem rowsFrom?_cons (first : Json) (row : List Json) {ts : List Token}
    {rows : List (List Json)} (hrows : rows? ts = some rows) :
    rowsFrom? (valuesTokens (first :: row) ++ .closeParen :: .comma :: ts) =
      some ((first :: row) :: rows) := by
  induction row generalizing first with
  | nil =>
      have hsplit : valuesTokens [first] = [.value first] := rfl
      rw [hsplit, List.singleton_append, rowsFrom?, hrows]
      rfl
  | cons next row ih =>
      have hsplit : valuesTokens (first :: next :: row) =
          .value first :: .comma :: valuesTokens (next :: row) := rfl
      rw [hsplit, List.cons_append, List.cons_append, rowsFrom?, ih]

theorem rows?_tokens (first : List Json) (rows : List (List Json))
    (hrows : ∀ row ∈ first :: rows, row ≠ []) :
    rows? (separated [.comma] ((first :: rows).map fun row => inParens (valuesTokens row))) =
      some (first :: rows) := by
  induction rows generalizing first with
  | nil =>
      obtain ⟨param, params, rfl⟩ := List.exists_cons_of_ne_nil (hrows first List.mem_cons_self)
      exact rowsFrom?_last param params
  | cons next rows ih =>
      obtain ⟨param, params, rfl⟩ := List.exists_cons_of_ne_nil (hrows first List.mem_cons_self)
      have hmore := ih next fun row hrow => hrows row (List.mem_cons_of_mem _ hrow)
      rw [separated_map_cons, inParens, List.append_assoc, List.cons_append, List.cons_append,
        List.nil_append, rows?]
      exact rowsFrom?_cons param params hmore

theorem command?_create (table : String) {columns : List ColumnKind} (hcolumns : columns ≠ []) :
    command? (Command.create table columns).tokens = some (.create table columns) := by
  obtain ⟨first, columns, rfl⟩ := List.exists_cons_of_ne_nil hcolumns
  simp only [Command.tokens, inParens, List.cons_append, List.nil_append, command?,
    columnKinds?_tokens]
  rfl

theorem command?_insert (table : String) {columns : List String} {rows : List (List Json)}
    (hcolumns : columns ≠ []) (hrows : rows ≠ []) (hvalues : ∀ row ∈ rows, row ≠ []) :
    command? (Command.insert table columns rows).tokens = some (.insert table columns rows) := by
  obtain ⟨column, columns, rfl⟩ := List.exists_cons_of_ne_nil hcolumns
  obtain ⟨row, rows, rfl⟩ := List.exists_cons_of_ne_nil hrows
  simp only [Command.tokens, inParens, List.cons_append, List.nil_append, List.append_assoc,
    command?, names?_tokens, Option.bind_eq_bind, Option.bind_some]
  exact congrArg (Option.map _) (rows?_tokens row rows hvalues)

theorem Query.read?_of_reads {statement : Sql.Statement} {query : Query}
    (h : Reads statement.sql statement.params query.tokens) (hcolumns : query.columns ≠ []) :
    Query.read? statement = some query := by
  rw [Query.read?, h.bind?_lex, Option.bind_some, query?_tokens query hcolumns]

theorem Condition.read?_of_reads {text : String} {params : List Json} {condition : Condition}
    (h : Reads text params condition.tokens) : Condition.read? text params = some condition := by
  have hread := condition?_tokens condition (Nat.lt_succ_self _) (show Ends [] from trivial)
  rw [List.append_nil] at hread
  rw [Condition.read?, h.bind?_lex, Option.bind_some, hread]

theorem Command.read?_create {statement : Sql.Statement} {table : String}
    {columns : List ColumnKind}
    (h : Reads statement.sql statement.params (Command.create table columns).tokens)
    (hcolumns : columns ≠ []) : Command.read? statement = some (.create table columns) := by
  rw [Command.read?, h.bind?_lex, Option.bind_some, command?_create table hcolumns]

theorem Command.read?_insert {statement : Sql.Statement} {table : String} {columns : List String}
    {rows : List (List Json)}
    (h : Reads statement.sql statement.params (Command.insert table columns rows).tokens)
    (hcolumns : columns ≠ []) (hrows : rows ≠ []) (hvalues : ∀ row ∈ rows, row ≠ []) :
    Command.read? statement = some (.insert table columns rows) := by
  rw [Command.read?, h.bind?_lex, Option.bind_some, command?_insert table hcolumns hrows hvalues]

end ReadBack

end EventBus.Relational
