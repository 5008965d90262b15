import PcmConversion.Text.Unprintable

/-!
# Quoted text

A text as it is shown inside a message: between double quotes, with a backslash before quotes and
backslashes, and with everything that could not be seen written as an escape.
-/

namespace PcmConversion.Quoted

/-- A number in lowercase hexadecimal digits, without leading zeros. -/
def hexDigits (n : Nat) : List Char :=
  Nat.toDigits 16 n

/-- How one character is shown. -/
def escape (c : Char) : List Char :=
  match c with
  | '"' => ['\\', '"']
  | '\\' => ['\\', '\\']
  | '\t' => ['\\', 't']
  | '\r' => ['\\', 'r']
  | '\n' => ['\\', 'n']
  | '\x00' => ['\\', '0']
  | c => if Unprintable.holds c then ['\\', 'u', '{'] ++ hexDigits c.toNat ++ ['}'] else [c]

/-- The text between quotes. -/
def encode (s : String) : String :=
  String.ofList ('"' :: s.toList.flatMap escape ++ ['"'])

end PcmConversion.Quoted
