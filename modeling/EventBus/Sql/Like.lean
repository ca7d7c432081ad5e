/-!
Text patterns of SQL with a backslash as the escape character: a percent sign stands for
any run of characters, an underscore for one character, and an escaped character for
itself. Escaping a text makes a pattern of it that stands for that text only.
-/

namespace EventBus.Like

def escape : List Char → List Char
  | [] => []
  | c :: cs =>
      if c = '%' ∨ c = '_' ∨ c = '\\' then '\\' :: c :: escape cs else c :: escape cs

def startingWith (s : String) : String := String.ofList (escape s.toList ++ ['%'])

def below (path : String) : String := String.ofList (escape path.toList ++ ['/', '%'])

end EventBus.Like
