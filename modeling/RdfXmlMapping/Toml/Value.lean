import RdfXmlMapping.Decimal.Shortest

/-! Values of TOML documents. -/

namespace RdfXmlMapping.Toml

/-- A number with a fraction or an exponent, or one of the words for what is no finite number. -/
inductive Real where
  | finite (negative : Bool) (magnitude : Decimal.Binary)
  | infinite (negative : Bool)
  | notANumber
  deriving DecidableEq, Repr

/-- Reals are always positional. -/
def realLayout : Decimal.Layout := ⟨-400, 400, 1⟩

def Real.text : Real → String
  | finite negative magnitude =>
    (if negative then "-" else "") ++ magnitude.shortest.layOut realLayout
  | infinite false => "inf"
  | infinite true => "-inf"
  | notANumber => "NaN"

/-- How a table came into being: written in braces, under a header of its own, on the way to a table
with a header, or on the way to a dotted key. -/
inductive Origin where
  | braces
  | header
  | implied
  | dotted
  deriving DecidableEq, Repr

/-- A value. Dates and times are kept as such, without their content; `tables` holds the tables that
share one header. -/
inductive Value where
  | string (s : String)
  | integer (n : Int)
  | real (r : Real)
  | boolean (b : Bool)
  | moment
  | array (items : List Value)
  | table (origin : Origin) (entries : List (String × Value))
  | tables (rows : List (List (String × Value)))
  deriving Repr

/-- The content of a table; keys keep the order in which they come into being. -/
abbrev Entries := List (String × Value)

end RdfXmlMapping.Toml
