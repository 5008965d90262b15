import PcmConversion.Toml.Scalar
import PcmConversion.Toml.Table

/-!
# Reading TOML documents

Values, lines and whole documents of TOML 1.1.  Between brackets and between braces a line may end, and a
comment may stand, wherever a blank may, but not inside a dotted key.
-/

namespace PcmConversion.Toml

mutual

/-- A value at the start of the text.  Every call takes a character or hands on to a call that does, so
twice the length of the text is fuel enough. -/
def readValue (depth : Nat) : (fuel : Nat) → List Char → Option (Value × List Char)
  | 0, _ => none
  | fuel + 1, s =>
    match s with
    | '"' :: '"' :: '"' :: rest => (readLongBasic false (dropLineEnd rest)).map quoted
    | '"' :: rest => (readBasic rest).map quoted
    | '\'' :: '\'' :: '\'' :: rest => (readLongLiteral (dropLineEnd rest)).map quoted
    | '\'' :: rest => (readLiteral rest).map quoted
    | '[' :: rest =>
      if depth = 0 then none
      else (readItems (depth - 1) fuel rest).map fun (items, rest) => (.array items, rest)
    | '{' :: rest =>
      if depth = 0 then none
      else (readPairs (depth - 1) fuel rest).bind fun (pairs, rest) =>
        (Entries.ofPairs? pairs).map fun entries => (.table entries, rest)
    | s => readScalar s
where
  /-- A string as a value. -/
  quoted (read : List Char × List Char) : Value × List Char :=
    (.string (String.ofList read.1), read.2)

/-- The items of an array, after the opening bracket. -/
def readItems (depth : Nat) : (fuel : Nat) → List Char → Option (List Value × List Char)
  | 0, _ => none
  | fuel + 1, s => do
    let s ← skipTrivia false s
    match s with
    | ']' :: rest => some ([], rest)
    | s =>
      let (item, rest) ← readValue depth fuel s
      match ← skipTrivia false rest with
      | ',' :: rest =>
        let (items, rest) ← readItems depth fuel rest
        some (item :: items, rest)
      | ']' :: rest => some ([item], rest)
      | _ => none

/-- The pairs of a table in braces, after the opening one. -/
def readPairs (depth : Nat) :
    (fuel : Nat) → List Char → Option (List ((List String × String) × Value) × List Char)
  | 0, _ => none
  | fuel + 1, s => do
    let s ← skipTrivia false s
    match s with
    | '}' :: rest => some ([], rest)
    | s =>
      let (key, rest) ← readKey s
      let rest ← expect? '=' (← skipTrivia false rest)
      let (value, rest) ← readValue depth fuel (← skipTrivia false rest)
      match ← skipTrivia false rest with
      | ',' :: rest =>
        let (pairs, rest) ← readPairs depth fuel rest
        some ((key, value) :: pairs, rest)
      | '}' :: rest => some ([(key, value)], rest)
      | _ => none

end

/-- The key of a header, up to its closing bracket. -/
def readHeader (s : List Char) : Option ((List String × String) × List Char) := do
  let (key, rest) ← readKey s
  some (key, ← expect? ']' rest)

/-- A header or a pair at the start of the text. -/
def readStatement (s : List Char) : Option (Statement × List Char) := do
  match s with
  | '[' :: '[' :: rest =>
    let ((path, key), rest) ← readHeader rest
    some (.repeated path key, ← expect? ']' rest)
  | '[' :: rest =>
    let ((path, key), rest) ← readHeader rest
    some (.table path key, rest)
  | s =>
    let ((path, key), rest) ← readKey s
    let rest := (← expect? '=' rest).dropWhile isBlank
    let (value, rest) ← readValue maxDepth (2 * rest.length + 2) rest
    some (.pair path key value, rest)

/-- The lines of a document.  Each takes a character, so its length is fuel enough. -/
def readStatements : (fuel : Nat) → List Char → Option (List Statement)
  | 0, _ => none
  | fuel + 1, s => do
    match ← skipTrivia false s with
    | [] => some []
    | s =>
      let (statement, rest) ← readStatement s
      let statements ← readStatements fuel (← skipComment false rest)
      some (statement :: statements)

/-- Leave out a byte-order mark at the start. -/
def dropMark : List Char → List Char
  | '\uFEFF' :: rest => rest
  | s => s

/-- The top table of a document. -/
def parse? (text : String) : Option Entries := do
  let s := dropMark text.toList
  Entries.ofStatements? (← readStatements (s.length + 1) s)

end PcmConversion.Toml
