import PcmConversion.Numeric.Number

/-!
# TOML values

What a TOML document holds once it is read.  Tables keep their entries in the order of the document.
-/

namespace PcmConversion.Toml

/-- A value of a document. -/
inductive Value where
  | string (s : String)
  | integer (v : Int)
  | float (v : Number)
  | boolean (b : Bool)
  /-- A date, a time or both, as written. -/
  | dateTime (written : String)
  | array (items : List Value)
  | table (entries : List (String × Value))

/-- The entries of a table, by key. -/
abbrev Entries := List (String × Value)

/-- The value under a key. -/
def Entries.get? (entries : Entries) (key : String) : Option Value :=
  entries.lookup key

end PcmConversion.Toml
