/-!
# Characters, strings and keys of TOML

Readers take the characters that are left and give what they read with the characters that follow it, or
nothing where the text breaks the grammar.
-/

namespace PcmConversion.Toml

/-- A space or a tab. -/
def isBlank (c : Char) : Bool :=
  c = ' ' || c = '\t'

/-- A character that may stand in a comment or a string as itself: no control but the tab. -/
def isPlain (c : Char) : Bool :=
  c = '\t' || (0x20 ≤ c.toNat && c.toNat != 0x7f)

/-- A character of an unquoted key. -/
def isKeyChar (c : Char) : Bool :=
  c.isAlphanum || c = '_' || c = '-'

/-- The value of a digit in bases up to sixteen. -/
def digitValue? (c : Char) : Option Nat :=
  if '0' ≤ c ∧ c ≤ '9' then some (c.toNat - 48)
  else if 'a' ≤ c ∧ c ≤ 'f' then some (c.toNat - 87)
  else if 'A' ≤ c ∧ c ≤ 'F' then some (c.toNat - 55)
  else none

/-- The number written by digits in a base; digits beyond the base are refused. -/
def ofDigits? (base : Nat) (digits : List Char) : Option Nat :=
  digits.foldlM (fun acc c => do
    let d ← digitValue? c
    if d < base then some (acc * base + d) else none) 0

/-- The character with the code point written in hexadecimal. -/
def ofCodePoint? (digits : List Char) : Option Char := do
  let n ← ofDigits? 16 digits
  if n.isValidChar then some (Char.ofNat n) else none

/-- The character for a one-letter escape. -/
def ofEscape? : Char → Option Char
  | 'b' => some '\x08'
  | 't' => some '\t'
  | 'n' => some '\n'
  | 'f' => some '\x0c'
  | 'r' => some '\r'
  | 'e' => some '\x1b'
  | '"' => some '"'
  | '\\' => some '\\'
  | _ => none

/-- Text read so far, put before what is read next. -/
def consRead (c : Char) : Option (List Char × List Char) → Option (List Char × List Char) :=
  Option.map fun (text, rest) => (c :: text, rest)

/-- The same for a character that need not exist. -/
def consRead? (c : Option Char) (r : Option (List Char × List Char)) :
    Option (List Char × List Char) :=
  c.bind fun c => consRead c r

/-- A string between double quotes, after the opening one. -/
def readBasic : List Char → Option (List Char × List Char)
  | '"' :: rest => some ([], rest)
  | '\\' :: 'x' :: a :: b :: rest => consRead? (ofCodePoint? [a, b]) (readBasic rest)
  | '\\' :: 'u' :: a :: b :: c :: d :: rest =>
    consRead? (ofCodePoint? [a, b, c, d]) (readBasic rest)
  | '\\' :: 'U' :: a :: b :: c :: d :: e :: f :: g :: h :: rest =>
    consRead? (ofCodePoint? [a, b, c, d, e, f, g, h]) (readBasic rest)
  | '\\' :: c :: rest => consRead? (ofEscape? c) (readBasic rest)
  | c :: rest => if isPlain c && c != '\\' then consRead c (readBasic rest) else none
  | [] => none

/-- A string between single quotes, after the opening one. -/
def readLiteral : List Char → Option (List Char × List Char)
  | '\'' :: rest => some ([], rest)
  | c :: rest => if isPlain c then consRead c (readLiteral rest) else none
  | [] => none

/-- Whether only blanks are left on the line. -/
def lineIsBlank (s : List Char) : Bool :=
  match s.dropWhile isBlank with
  | '\n' :: _ | '\r' :: '\n' :: _ => true
  | _ => false

/-- A string between triple double quotes, after the opening ones.  While `trimming`, after a backslash
at the end of a line, blanks and line ends are left out. -/
def readLongBasic (trimming : Bool) : List Char → Option (List Char × List Char)
  | '"' :: '"' :: '"' :: '"' :: '"' :: rest => some (['"', '"'], rest)
  | '"' :: '"' :: '"' :: '"' :: rest => some (['"'], rest)
  | '"' :: '"' :: '"' :: rest => some ([], rest)
  | '\\' :: 'x' :: a :: b :: rest => consRead? (ofCodePoint? [a, b]) (readLongBasic false rest)
  | '\\' :: 'u' :: a :: b :: c :: d :: rest =>
    consRead? (ofCodePoint? [a, b, c, d]) (readLongBasic false rest)
  | '\\' :: 'U' :: a :: b :: c :: d :: e :: f :: g :: h :: rest =>
    consRead? (ofCodePoint? [a, b, c, d, e, f, g, h]) (readLongBasic false rest)
  | '\\' :: c :: rest =>
    match ofEscape? c with
    | some c => consRead c (readLongBasic false rest)
    | none => if lineIsBlank (c :: rest) then readLongBasic true (c :: rest) else none
  | '\r' :: '\n' :: rest =>
    if trimming then readLongBasic true rest else consRead '\n' (readLongBasic false rest)
  | c :: rest =>
    if trimming && (isBlank c || c = '\n') then readLongBasic true rest
    else if (isPlain c && c != '\\') || c = '\n' then consRead c (readLongBasic false rest)
    else none
  | [] => none

/-- A string between triple single quotes, after the opening ones. -/
def readLongLiteral : List Char → Option (List Char × List Char)
  | '\'' :: '\'' :: '\'' :: '\'' :: '\'' :: rest => some (['\'', '\''], rest)
  | '\'' :: '\'' :: '\'' :: '\'' :: rest => some (['\''], rest)
  | '\'' :: '\'' :: '\'' :: rest => some ([], rest)
  | '\r' :: '\n' :: rest => consRead '\n' (readLongLiteral rest)
  | c :: rest =>
    if isPlain c || c = '\n' then consRead c (readLongLiteral rest) else none
  | [] => none

/-- A line end right after the opening quotes of a long string is not part of it. -/
def dropLineEnd : List Char → List Char
  | '\n' :: rest => rest
  | '\r' :: '\n' :: rest => rest
  | s => s

/-- Skip blanks, line ends and comments; inside a comment, `comment` is set. -/
def skipTrivia (comment : Bool) : List Char → Option (List Char)
  | [] => some []
  | '\n' :: rest => skipTrivia false rest
  | '\r' :: '\n' :: rest => skipTrivia false rest
  | c :: rest =>
    if comment then (if isPlain c then skipTrivia true rest else none)
    else if c = '#' then skipTrivia true rest
    else if isBlank c then skipTrivia false rest
    else some (c :: rest)

/-- The rest of a line that holds at most a comment. -/
def skipComment (comment : Bool) : List Char → Option (List Char)
  | [] => some []
  | '\n' :: rest => some rest
  | '\r' :: '\n' :: rest => some rest
  | c :: rest =>
    if comment then (if isPlain c then skipComment true rest else none)
    else if c = '#' then skipComment true rest
    else if isBlank c then skipComment false rest
    else none

/-- One part of a key: unquoted, or a string on one line. -/
def readKeyPart : List Char → Option (String × List Char)
  | '"' :: rest => (readBasic rest).map fun (text, rest) => (String.ofList text, rest)
  | '\'' :: rest => (readLiteral rest).map fun (text, rest) => (String.ofList text, rest)
  | s =>
    let word := s.takeWhile isKeyChar
    if word.isEmpty then none else some (String.ofList word, s.dropWhile isKeyChar)

/-- A key of at most `parts` dotted parts: those before the last, and the last. -/
def readParts : (parts : Nat) → List Char → Option ((List String × String) × List Char)
  | 0, _ => none
  | parts + 1, s => do
    let (part, rest) ← readKeyPart (s.dropWhile isBlank)
    match rest.dropWhile isBlank with
    | '.' :: rest =>
      let ((path, key), rest) ← readParts parts rest
      some ((part :: path, key), rest)
    | rest => some (([], part), rest)

/-- How deep a document may go: the parts of one key, and arrays and tables in braces inside each other. -/
def maxDepth : Nat := 80

/-- A key, with the blanks around it. -/
def readKey (s : List Char) : Option ((List String × String) × List Char) :=
  readParts maxDepth s

end PcmConversion.Toml
