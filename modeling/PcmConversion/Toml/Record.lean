import PcmConversion.Toml.Value

/-!
# Records in documents

A record is written as a table with an entry for each field under the name of the field.  A `RecordType`
says what the fields are, how the value of each is written and what it is where the table does not
mention it.

How a text becomes a table and a table becomes a record is not said here: that is what a
`DocumentReader` does.  It is a record of functions, so what is read can be reasoned about for all
readers at once.
-/

namespace PcmConversion.Toml

/-- The kinds of value that a field is written as. -/
inductive Kind where
  | boolean
  | text
  /-- A natural number of so many bits. -/
  | unsigned (bits : Nat)
  /-- One of some names. -/
  | choice (names : List String)

/-- What a value of a kind stands for. -/
def Kind.Meaning : Kind → Type
  | boolean => Bool
  | text => String
  | unsigned bits => BitVec bits
  | choice names => Fin names.length

/-- How the values of a type are written: as values of a kind, where not each has to stand for one. -/
structure Form (α : Type) where
  kind : Kind
  value? : kind.Meaning → Option α

namespace Form

/-- Truth values. -/
def boolean : Form Bool where
  kind := .boolean
  value? b := some b

/-- Values that are written by name. -/
def choice {α : Type} (all : List α) (name : α → String) : Form α where
  kind := .choice (all.map name)
  value? i := all[i.val]?

/-- Words of 32 bits. -/
def word32 : Form UInt32 where
  kind := .unsigned 32
  value? n := some ⟨n⟩

/-- Words of 64 bits. -/
def word64 : Form UInt64 where
  kind := .unsigned 64
  value? n := some ⟨n⟩

end Form

/-- A type of records. -/
structure RecordType where
  Field : Type
  fields : List Field
  mem_fields : ∀ f, f ∈ fields
  name : Field → String
  /-- The type of a field's values. -/
  Carrier : Field → Type
  form : (f : Field) → Form (Carrier f)
  /-- The value of a field that is not mentioned. -/
  standard : (f : Field) → Carrier f

/-- A record: a value for each field. -/
def RecordType.Record (R : RecordType) : Type :=
  (f : R.Field) → R.Carrier f

/-- A way to read documents. -/
structure DocumentReader where
  /-- The top table of a document. -/
  table? : String → Option Entries
  /-- What a value stands for as one of a kind. -/
  meaning? : (kind : Kind) → Value → Option kind.Meaning
  /-- The record in a table. -/
  record? : (R : RecordType) → Entries → Option R.Record

namespace DocumentReader

/-- What a value stands for in a form. -/
def value? {α : Type} (D : DocumentReader) (form : Form α) (v : Value) : Option α :=
  (D.meaning? form.kind v).bind form.value?

/-- The record in a document. -/
def read? (D : DocumentReader) (R : RecordType) (document : String) : Option R.Record :=
  (D.table? document).bind (D.record? R)

end DocumentReader

end PcmConversion.Toml
