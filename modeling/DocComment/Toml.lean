import DocComment.Decimal

/-!
# Values of TOML documents

Dates are kept as they are written.
-/

namespace DocComment

inductive Toml where
  | bool (value : Bool)
  | int (value : Int)
  | float (value : FloatValue)
  | string (value : String)
  | date (text : String)
  | array (items : List Toml)
  | table (entries : List (String × Toml))
  deriving Repr, Inhabited

end DocComment
