import Mathlib.Data.List.Nodup
import PcmConversion.Toml.Record
import PcmConversion.Toml.Text

/-!
# Documents of pairs

The plainest documents: a pair `key = value` on each line, with keys that need no quotes and differ, and
with values that are truth values, texts without escapes or decimal numbers.

What is relied on of a reader is that it follows TOML 1.0 on these documents, with numbers up to 64 bits
at least, and reads no number with a loss (`DocumentReader.ReadsPairs`).
-/

namespace PcmConversion.Toml

/-! ## Lines -/

/-- What ends a line. -/
inductive LineEnd where
  | lf
  | crlf
deriving DecidableEq

/-- The characters of a line end. -/
def LineEnd.chars : LineEnd → List Char
  | lf => ['\n']
  | crlf => ['\r', '\n']

/-- Lines with their ends between them, and one after the last line where the text is `closed`. -/
def joinLines (lineEnd : LineEnd) (closed : Bool) : List (List Char) → List Char
  | [] => []
  | line :: lines =>
    line ++ if lines.isEmpty && !closed then [] else lineEnd.chars ++ joinLines lineEnd closed lines

/-! ## Values -/

/-- A value in its plainest form. -/
inductive Literal where
  | boolean (b : Bool)
  | text (s : String)
  | natural (n : Nat)

/-- A character that a text in quotes shows as itself. -/
def IsOrdinary (c : Char) : Prop :=
  isPlain c = true ∧ c ≠ '"' ∧ c ≠ '\\'

namespace Literal

/-- The value as it is written: a truth value, a text in quotes or a decimal number. -/
def written : Literal → List Char
  | boolean b => if b then ['t', 'r', 'u', 'e'] else ['f', 'a', 'l', 's', 'e']
  | text s => '"' :: (s.toList ++ ['"'])
  | natural n => Nat.toDigits 10 n

/-- The value that is meant. -/
def value : Literal → Value
  | boolean b => .boolean b
  | text s => .string s
  | natural n => .integer n

/-- The text needs no escapes. -/
def Ordinary : Literal → Prop
  | text s => ∀ c ∈ s.toList, IsOrdinary c
  | boolean _ | natural _ => True

/-- The number has no more than 64 bits. -/
def Fits : Literal → Prop
  | natural n => n < 1 <<< 64
  | boolean _ | text _ => True

end Literal

/-! ## Pairs -/

/-- A key with a value. -/
structure Pair where
  key : String
  literal : Literal

namespace Pair

/-- The line `key = value`. -/
def text (p : Pair) : List Char :=
  p.key.toList ++ ' ' :: '=' :: ' ' :: p.literal.written

/-- The entry that is meant. -/
def entry (p : Pair) : String × Value :=
  (p.key, p.literal.value)

/-- The key needs no quotes and the value no escapes. -/
structure Sound (p : Pair) : Prop where
  key_ne : p.key.toList ≠ []
  keyChars : ∀ c ∈ p.key.toList, isKeyChar c = true
  ordinary : p.literal.Ordinary

end Pair

/-- Pairs with different keys, each on one line, and how the lines end. -/
structure PairDocument where
  pairs : List Pair
  sound : ∀ p ∈ pairs, p.Sound
  distinct : (pairs.map Pair.key).Nodup
  lineEnd : LineEnd
  closed : Bool

namespace PairDocument

/-- The document. -/
def text (doc : PairDocument) : String :=
  String.ofList (joinLines doc.lineEnd doc.closed (doc.pairs.map Pair.text))

/-- The table that is meant. -/
def entries (doc : PairDocument) : Entries :=
  doc.pairs.map Pair.entry

end PairDocument

/-- A reader reads documents of pairs as TOML 1.0 has it, with numbers up to 64 bits.  The order of the
entries is left open. -/
structure DocumentReader.ReadsPairs (D : DocumentReader) : Prop where
  /-- A document whose numbers fit is accepted. -/
  accepts : ∀ doc : PairDocument, (∀ p ∈ doc.pairs, p.literal.Fits) →
    (D.table? doc.text).isSome = true
  /-- An accepted document has the entries that it shows: a number that cannot be represented without a
  loss is an error. -/
  lossless : ∀ (doc : PairDocument) (table : Entries), D.table? doc.text = some table →
    ∀ key, table.get? key = doc.entries.get? key

/-! ## Ordinary words -/

variable {c d : Char}

/-- Characters that a class tells apart differ. -/
theorem ne_of_class {p : Char → Bool} (hc : p c = true) (hd : p d = false) : c ≠ d := by
  rintro rfl
  rw [hd] at hc
  exact Bool.false_ne_true hc

theorem isKeyChar_of_isAlpha (hc : c.isAlpha = true) : isKeyChar c = true := by
  simp [isKeyChar, Char.isAlphanum, hc]

/-- In quotes the characters of keys stand for themselves. -/
theorem isOrdinary_of_isKeyChar (hc : isKeyChar c = true) : IsOrdinary c := by
  refine ⟨?_, ne_of_class hc rfl, ne_of_class hc rfl⟩
  by_contra hplain
  -- All characters that are not plain are among the first 128, and no key has one of them.
  have hfirst : c.toNat < 128 := by
    simp [isPlain] at hplain
    omega
  have hnone : ∀ n < 128, isKeyChar (.ofNat n) = true → isPlain (.ofNat n) = true := by
    decide +kernel
  rw [← Char.ofNat_toNat c] at hc hplain
  exact hplain (hnone c.toNat hfirst hc)

/-! ## Entries -/

variable {p : Pair} {pairs : List Pair}

theorem lookup_entry (hdistinct : (pairs.map Pair.key).Nodup) (hp : p ∈ pairs) :
    (pairs.map Pair.entry).lookup p.key = some p.literal.value := by
  induction pairs with
  | nil => cases hp
  | cons q pairs ih =>
      rw [List.map_cons, List.nodup_cons] at hdistinct
      rcases List.mem_cons.1 hp with rfl | hlater
      · simp [Pair.entry]
      · have hother : p.key ≠ q.key := fun h => hdistinct.1 (List.mem_map.2 ⟨p, hlater, h⟩)
        simpa [Pair.entry, List.lookup_cons, beq_false_of_ne hother] using ih hdistinct.2 hlater

theorem lookup_entry_eq_none {key : String} (hkey : key ∉ pairs.map Pair.key) :
    (pairs.map Pair.entry).lookup key = none := by
  refine List.lookup_eq_none_iff.2 fun entry hentry => bne_iff_ne.2 fun h => hkey ?_
  obtain ⟨p, hp, rfl⟩ := List.mem_map.1 hentry
  exact List.mem_map.2 ⟨p, hp, h.symm⟩

end PcmConversion.Toml
