/-!
# Values of configuration files

Configuration files are written in TOML. A value is a scalar, an array or a table; of floats and
dates, which no setting uses, only the spelling is kept.
-/

namespace CellHost.Toml

/-- A value. The entries of a table are in the order in which they were made. -/
inductive Value where
  | text (value : String)
  | integer (value : Int)
  | float (spelling : String)
  | boolean (value : Bool)
  | datetime (spelling : String)
  | array (items : List Value)
  | table (entries : List (String × Value))
  deriving Repr, Inhabited

namespace Value

/-- The value of a key of a table. -/
def get? (v : Value) (key : String) : Option Value :=
  match v with
  | table entries => entries.lookup key
  | _ => none

/-- Whether a value is an array or a table of nothing. -/
def isEmpty : Value → Bool
  | array [] | table [] => true
  | _ => false

end Value

end CellHost.Toml
