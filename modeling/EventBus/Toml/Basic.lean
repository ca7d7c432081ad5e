/-!
TOML values. Fractional numbers and dates are kept as written, because nothing here needs
more of them than that they are there.
-/

namespace EventBus.Toml

inductive Value where
  | string (value : String)
  | integer (value : Int)
  | boolean (value : Bool)
  | fraction (written : String)
  | date (written : String)
  | array (items : List Value)
  | table (entries : List (String × Value))
  deriving Repr, Inhabited

def lookup (key : String) : List (String × Value) → Option Value
  | [] => none
  | (k, v) :: rest => if k = key then some v else lookup key rest

end EventBus.Toml
