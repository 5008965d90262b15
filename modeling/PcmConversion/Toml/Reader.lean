import PcmConversion.Toml.Document
import PcmConversion.Toml.Record

/-!
# The standard reader

Documents of TOML 1.1, and records whose fields are read one by one.  Entries that are no field are
ignored; a field that is there and cannot be read makes the whole record unreadable.
-/

namespace PcmConversion.Toml

/-- A truth value. -/
def boolean? : Value → Option Bool
  | .boolean b => some b
  | _ => none

/-- A text. -/
def text? : Value → Option String
  | .string s => some s
  | _ => none

/-- A natural number of so many bits. -/
def word? (bits : Nat) : Value → Option (BitVec bits)
  | .integer v =>
    if 0 ≤ v ∧ v < (1 <<< bits : Nat) then some (BitVec.ofNat bits v.toNat) else none
  | _ => none

/-- One of some names: the name, or a table with the name as its only key and nothing in it. -/
def choice? (names : List String) : Value → Option (Fin names.length)
  | .string name => names.finIdxOf? name
  | .table [(name, .table [])] | .table [(name, .array [])] => names.finIdxOf? name
  | _ => none

/-- What a value stands for as one of a kind. -/
def meaning? : (kind : Kind) → Value → Option kind.Meaning
  | .boolean => boolean?
  | .text => text?
  | .unsigned bits => word? bits
  | .choice names => choice? names

/-- The value of a field: its standard value where the table does not mention it. -/
def field? (R : RecordType) (entries : Entries) (f : R.Field) : Option (R.Carrier f) :=
  match entries.get? (R.name f) with
  | none => some (R.standard f)
  | some v => (meaning? (R.form f).kind v).bind (R.form f).value?

/-- The record in a table. -/
def record? (R : RecordType) (entries : Entries) : Option R.Record :=
  if R.fields.all fun f => (field? R entries f).isSome then
    some fun f => (field? R entries f).getD (R.standard f)
  else none

/-- The standard way to read documents. -/
def reader : DocumentReader where
  table? := parse?
  meaning? := meaning?
  record? := record?

end PcmConversion.Toml
