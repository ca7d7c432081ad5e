import EventBus.Json.Basic

/-!
SQL text whose values are parameters: each question mark of the text takes one value, in
order.
-/

namespace EventBus.Sql

structure Statement where
  sql : String
  params : List Json
  deriving Repr

structure Fragment where
  sql : String
  params : List Json
  deriving Repr

def joinWith (separator : String) : List String → String
  | [] => ""
  | [part] => part
  | part :: next :: parts => part ++ separator ++ joinWith separator (next :: parts)

def placeholders (n : Nat) : String := joinWith "," (List.replicate n "?")

end EventBus.Sql
