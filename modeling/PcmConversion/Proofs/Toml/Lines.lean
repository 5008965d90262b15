import PcmConversion.Proofs.Toml.Scalar
import PcmConversion.Toml.Reader

/-!
# Reading documents of pairs

A document of pairs is read as the table of its pairs in the order of its lines, and is refused as soon
as one of its values is (`parse?_text`).  `ReadsAs` says that a text is read as a value, or refused,
wherever its line ends after it; every plain value is read so (`Literal.readsAs_written`), and the lines
are then read one after the other.  So the standard reader is one that reads documents of pairs
(`reader_readsPairs`).
-/

namespace PcmConversion.Toml

/-! ## Lines -/

/-- A line ends here. -/
inductive AtLineEnd : List Char → Prop
  | last : AtLineEnd []
  | lineEnd (e : LineEnd) (rest : List Char) : AtLineEnd (e.chars ++ rest)

variable {s rest : List Char} {c : Char}

theorem AtLineEnd.takeWhile_eq_nil {p : Char → Bool} (h : AtLineEnd rest) (hlf : p '\n' = false)
    (hcr : p '\r' = false) : rest.takeWhile p = [] := by
  cases h with
  | last => rfl
  | lineEnd e => cases e <;> simp [LineEnd.chars, hlf, hcr]

theorem AtLineEnd.dropWhile_eq_self {p : Char → Bool} (h : AtLineEnd rest) (hlf : p '\n' = false)
    (hcr : p '\r' = false) : rest.dropWhile p = rest := by
  cases h with
  | last => rfl
  | lineEnd e => cases e <;> simp [LineEnd.chars, hlf, hcr]

theorem AtLineEnd.ne_cons (h : AtLineEnd rest) (hlf : c ≠ '\n') (hcr : c ≠ '\r') : rest ≠ c :: s := by
  cases h with
  | last => exact (List.cons_ne_nil c s).symm
  | lineEnd e => cases e <;> simp [LineEnd.chars, hlf.symm, hcr.symm]

/-- A line that has ended leaves nothing to read of a comment. -/
theorem skipComment_lineEnd (e : LineEnd) (rest : List Char) :
    skipComment false (e.chars ++ rest) = some rest := by
  cases e <;> simp [LineEnd.chars, skipComment]

/-- The characters of a class that has no blank are not blank. -/
theorem isBlank_of_class {p : Char → Bool} (hc : p c = true) (hspace : p ' ' = false)
    (htab : p '\t' = false) : isBlank c = false := by
  simp [isBlank, ne_of_class hc hspace, ne_of_class hc htab]

/-! ## Values -/

/-- A text that is read as a value, or refused, where its line ends. -/
structure ReadsAs (text : List Char) (value : Option Value) : Prop where
  first : ∃ c tail, text = c :: tail ∧ isBlank c = false
  reads : ∀ depth fuel rest, AtLineEnd rest →
    readValue depth (fuel + 1) (text ++ rest) = value.map (·, rest)

theorem readScalar_append (hs : ∀ c ∈ s, isScalarChar c = true) (hdash : '-' ∉ s)
    (hrest : AtLineEnd rest) : readScalar (s ++ rest) = (scalar? s).map (·, rest) := by
  have hrun : (s ++ rest).takeWhile isScalarChar = s := by
    rw [List.takeWhile_append_of_pos hs, hrest.takeWhile_eq_nil rfl rfl,
      List.append_nil]
  have hend : (s ++ rest).dropWhile isScalarChar = rest := by
    rw [List.dropWhile_append_of_pos hs, hrest.dropWhile_eq_self rfl rfl]
  simp only [readScalar, hrun, hend, date?_eq_none hdash]

theorem readValue_scalar (hc : isScalarChar c = true) (depth fuel : Nat) :
    readValue depth (fuel + 1) (c :: s) = readScalar (c :: s) := by
  have hne : ∀ d : Char, isScalarChar d = false → c ≠ d := fun d => ne_of_class hc
  rw [readValue]
  · exact fun rest h => hne '"' rfl (List.cons.inj h).1
  · exact fun rest h => hne '"' rfl (List.cons.inj h).1
  · exact fun rest h => hne '\'' rfl (List.cons.inj h).1
  · exact fun rest h => hne '\'' rfl (List.cons.inj h).1
  · exact fun rest h => hne '[' rfl (List.cons.inj h).1
  · exact fun rest h => hne '\x7b' rfl (List.cons.inj h).1

/-- Scalars without a dash are no dates, and end where their line ends. -/
theorem readsAs_scalar (hne : s ≠ []) (hs : ∀ c ∈ s, isScalarChar c = true) (hdash : '-' ∉ s) :
    ReadsAs s (scalar? s) := by
  obtain ⟨c, tail, rfl⟩ := List.exists_cons_of_ne_nil hne
  have hc := hs c List.mem_cons_self
  refine ⟨⟨c, tail, rfl, isBlank_of_class hc rfl rfl⟩, fun depth fuel rest hrest => ?_⟩
  rw [← readScalar_append hs hdash hrest]
  exact readValue_scalar hc depth fuel

theorem readsAs_boolean (b : Bool) :
    ReadsAs (if b then ['t', 'r', 'u', 'e'] else ['f', 'a', 'l', 's', 'e']) (some (.boolean b)) := by
  cases b
  · exact readsAs_scalar (by decide) (List.all_eq_true.1 (by decide)) (by decide)
  · exact readsAs_scalar (by decide) (List.all_eq_true.1 (by decide)) (by decide)

theorem readsAs_toDigits (n : Nat) : ReadsAs (Nat.toDigits 10 n) (integerOf? n) := by
  have hdigits := isDigit_toDigits n
  rw [← scalar?_toDigits]
  exact readsAs_scalar Nat.toDigits_ne_nil (fun c hc => isScalarChar_of_isDigit (hdigits c hc))
    fun hdash => ne_of_class (hdigits '-' hdash) rfl rfl

theorem readBasic_cons (hplain : isPlain c = true) (hquote : c ≠ '"') (hescape : c ≠ '\\') :
    readBasic (c :: s) = consRead c (readBasic s) := by
  rw [readBasic]
  · simp [hplain, hescape]
  · exact hquote
  · exact fun _ _ _ h => absurd h hescape
  · exact fun _ _ _ _ _ h => absurd h hescape
  · exact fun _ _ _ _ _ _ _ _ _ h => absurd h hescape
  · exact fun _ _ h => absurd h hescape

theorem readBasic_append (hs : ∀ c ∈ s, IsOrdinary c) (rest : List Char) :
    readBasic (s ++ '"' :: rest) = some (s, rest) := by
  induction s with
  | nil => rw [List.nil_append, readBasic]
  | cons c s ih =>
      obtain ⟨hplain, hquote, hescape⟩ := hs c List.mem_cons_self
      rw [List.cons_append, readBasic_cons hplain hquote hescape,
        ih fun c hc => hs c (List.mem_cons_of_mem _ hc)]
      rfl

theorem readsAs_quoted (hs : ∀ c ∈ s, IsOrdinary c) :
    ReadsAs ('"' :: (s ++ ['"'])) (some (.string (String.ofList s))) := by
  refine ⟨⟨'"', _, rfl, rfl⟩, fun depth fuel rest hrest => ?_⟩
  rw [List.cons_append, List.append_assoc, List.singleton_append]
  -- Three quotes would open a long string: after an empty one the line ends instead.
  have hshort : ∀ r, s ++ '"' :: rest ≠ '"' :: '"' :: r := by
    intro r h
    cases s with
    | nil => exact hrest.ne_cons (by decide) (by decide) (List.cons.inj h).2
    | cons c s => exact (hs c List.mem_cons_self).2.1 (List.cons.inj h).1
  rw [readValue]
  · rw [readBasic_append hs]
    rfl
  · exact hshort

/-- What is read where a value is written in its plainest form: nothing where a number is too large. -/
def Literal.read? : Literal → Option Value
  | boolean b => some (.boolean b)
  | text s => some (.string s)
  | natural n => integerOf? n

theorem Literal.readsAs_written {l : Literal} (hl : l.Ordinary) : ReadsAs l.written l.read? := by
  cases l with
  | boolean b => exact readsAs_boolean b
  | text s =>
      have hquoted := readsAs_quoted hl
      rwa [String.ofList_toList] at hquoted
  | natural n => exact readsAs_toDigits n

/-- What is read is what is meant. -/
theorem Literal.eq_value_of_read? {l : Literal} {v : Value} (h : l.read? = some v) : v = l.value := by
  cases l with
  | boolean b => exact (Option.some.inj h).symm
  | text s => exact (Option.some.inj h).symm
  | natural n => exact integerOf?_eq_some h

theorem Literal.isSome_read? {l : Literal} (hl : l.Fits) : l.read?.isSome = true := by
  cases l with
  | boolean b => rfl
  | text s => rfl
  | natural n => exact isSome_integerOf? (Nat.lt_trans hl (by decide))

/-! ## Pairs -/

/-- The statement that the line makes, where its value can be read. -/
def Pair.statement? (p : Pair) : Option Statement :=
  p.literal.read?.map fun v => .pair [] p.key v

variable {p : Pair} {pairs : List Pair}

theorem dropWhile_isBlank (hc : isBlank c = false) : (c :: s).dropWhile isBlank = c :: s :=
  List.dropWhile_cons_of_neg (by simp [hc])

theorem readKeyPart_append (hne : s ≠ []) (hs : ∀ c ∈ s, isKeyChar c = true)
    (hc : isKeyChar c = false) :
    readKeyPart (s ++ c :: rest) = some (String.ofList s, c :: rest) := by
  obtain ⟨d, tail, rfl⟩ := List.exists_cons_of_ne_nil hne
  have hd := hs d List.mem_cons_self
  have hword : (d :: tail ++ c :: rest).takeWhile isKeyChar = d :: tail := by
    rw [List.takeWhile_append_of_pos hs, List.takeWhile_cons_of_neg (by simp [hc]), List.append_nil]
  have hend : (d :: tail ++ c :: rest).dropWhile isKeyChar = c :: rest := by
    rw [List.dropWhile_append_of_pos hs, List.dropWhile_cons_of_neg (by simp [hc])]
  rw [List.cons_append] at hword hend ⊢
  rw [readKeyPart]
  · simp only [hword, hend, List.isEmpty_cons, Bool.false_eq_true, if_false]
  · exact fun rest h => ne_of_class (d := '"') hd rfl (List.cons.inj h).1
  · exact fun rest h => ne_of_class (d := '\'') hd rfl (List.cons.inj h).1

/-- A key of one part, up to the sign after it. -/
theorem readKey_append (hne : s ≠ []) (hs : ∀ c ∈ s, isKeyChar c = true) (rest : List Char) :
    readKey (s ++ ' ' :: '=' :: rest) = some (([], String.ofList s), '=' :: rest) := by
  obtain ⟨c, tail, rfl⟩ := List.exists_cons_of_ne_nil hne
  have hblank := isBlank_of_class (hs c List.mem_cons_self) rfl rfl
  have hpart : readKeyPart (c :: tail ++ ' ' :: '=' :: rest) =
      some (String.ofList (c :: tail), ' ' :: '=' :: rest) :=
    readKeyPart_append hne hs (by decide)
  rw [List.cons_append] at hpart ⊢
  rw [readKey, maxDepth, readParts, dropWhile_isBlank hblank, hpart]
  rfl

theorem readStatement_append (hp : p.Sound) (hrest : AtLineEnd rest) :
    readStatement (p.text ++ rest) = p.statement?.map (·, rest) := by
  obtain ⟨c, tail, hkey⟩ := List.exists_cons_of_ne_nil hp.key_ne
  have hreads := Literal.readsAs_written hp.ordinary
  obtain ⟨d, written, hwritten, hblank⟩ := hreads.first
  have hc := hp.keyChars c (by simp [hkey])
  have hread := readKey_append hp.key_ne hp.keyChars (' ' :: (p.literal.written ++ rest))
  have hvalue := hreads.reads maxDepth (2 * (p.literal.written ++ rest).length + 1) rest hrest
  have htext : p.text ++ rest = p.key.toList ++ ' ' :: '=' :: ' ' :: (p.literal.written ++ rest) := by
    simp [Pair.text]
  have hskip : (' ' :: (p.literal.written ++ rest)).dropWhile isBlank = p.literal.written ++ rest := by
    rw [List.dropWhile_cons_of_pos (by decide), hwritten, List.cons_append, dropWhile_isBlank hblank]
  rw [String.ofList_toList] at hread
  rw [htext]
  rw [hkey, List.cons_append] at hread ⊢
  rw [readStatement, hread]
  · simp only [expect?, Option.bind_eq_bind, Option.bind_some, if_true, hskip, hvalue,
      Pair.statement?]
    cases p.literal.read? <;> rfl
  · exact fun rest h => ne_of_class (d := '[') hc rfl (List.cons.inj h).1
  · exact fun rest h => ne_of_class (d := '[') hc rfl (List.cons.inj h).1

/-! ## Documents -/

theorem skipTrivia_keyChar (hc : isKeyChar c = true) : skipTrivia false (c :: s) = some (c :: s) := by
  have hcomment := ne_of_class (d := '#') hc rfl
  have hblank := isBlank_of_class hc rfl rfl
  rw [skipTrivia]
  · simp [hcomment, hblank]
  · exact ne_of_class hc rfl
  · exact fun rest h => absurd h (ne_of_class hc rfl)

/-- What follows the first of several lines: its end, and the others. -/
theorem exists_joinLines_cons (e : LineEnd) (closed : Bool) (line : List Char)
    (lines : List (List Char)) :
    ∃ after, joinLines e closed (line :: lines) = line ++ after ∧ AtLineEnd after ∧
      skipComment false after = some (joinLines e closed lines) ∧
      (joinLines e closed lines).length ≤ after.length := by
  by_cases hlast : (lines.isEmpty && !closed) = true
  · have hnil : lines = [] := List.isEmpty_iff.1 (Bool.and_eq_true_iff.1 hlast).1
    refine ⟨[], by rw [joinLines, if_pos hlast], .last, ?_, ?_⟩
    · rw [hnil]
      rfl
    · rw [hnil]
      rfl
  · refine ⟨_, by rw [joinLines, if_neg hlast], .lineEnd e _, skipComment_lineEnd e _, ?_⟩
    rw [List.length_append]
    exact Nat.le_add_left _ _

/-- One line of a document: its statement, where its value can be read, and then the other lines. -/
theorem readStatements_line {after later : List Char} (hp : p.Sound) (hafter : AtLineEnd after)
    (hskip : skipComment false after = some later) (fuel : Nat) :
    readStatements (fuel + 1) (p.text ++ after) =
      p.statement?.bind fun statement => (readStatements fuel later).map (statement :: ·) := by
  obtain ⟨c, tail, hkey⟩ := List.exists_cons_of_ne_nil hp.key_ne
  have hkeyChar : isKeyChar c = true := hp.keyChars c (by simp [hkey])
  have hread := readStatement_append hp hafter
  have hstart : p.text = c :: (tail ++ ' ' :: '=' :: ' ' :: p.literal.written) := by
    simp [Pair.text, hkey]
  rw [hstart, List.cons_append] at hread ⊢
  rw [readStatements, skipTrivia_keyChar hkeyChar]
  simp only [Option.bind_eq_bind, Option.bind_some, hread]
  cases p.statement? with
  | none => rfl
  | some statement =>
      simp only [Option.map_some, Option.bind_some, hskip]
      cases readStatements fuel later <;> rfl

theorem length_text_pos (p : Pair) : 0 < p.text.length := by
  rw [Pair.text, List.length_append, List.length_cons]
  omega

/-- The lines of a document are their statements, unless some value cannot be read. -/
theorem readStatements_joinLines (hpairs : ∀ p ∈ pairs, p.Sound) (e : LineEnd) (closed : Bool)
    {fuel : Nat} (hfuel : (joinLines e closed (pairs.map Pair.text)).length < fuel) :
    readStatements fuel (joinLines e closed (pairs.map Pair.text)) =
      if pairs.all (·.literal.read?.isSome) then some (pairs.filterMap Pair.statement?) else none := by
  induction pairs generalizing fuel with
  | nil =>
      obtain ⟨fuel, rfl⟩ := Nat.exists_eq_succ_of_ne_zero (Nat.ne_zero_of_lt hfuel)
      rfl
  | cons p pairs ih =>
      obtain ⟨fuel, rfl⟩ := Nat.exists_eq_succ_of_ne_zero (Nat.ne_zero_of_lt hfuel)
      obtain ⟨after, htext, hafter, hskip, hshorter⟩ :=
        exists_joinLines_cons e closed p.text (pairs.map Pair.text)
      rw [List.map_cons, htext] at hfuel ⊢
      rw [readStatements_line (hpairs p List.mem_cons_self) hafter hskip fuel]
      -- A line takes a character at least, so the fuel does for the others.
      have hlater : (joinLines e closed (pairs.map Pair.text)).length < fuel := by
        have hline := length_text_pos p
        rw [List.length_append] at hfuel
        omega
      rw [ih (fun p hp => hpairs p (List.mem_cons_of_mem _ hp)) hlater]
      cases hvalue : p.literal.read? with
      | none => simp [Pair.statement?, hvalue]
      | some v =>
          by_cases hall : pairs.all (·.literal.read?.isSome) = true <;>
            simp [hall, hvalue, Pair.statement?]

/-! ## Tables -/

/-- Pairs whose keys are new are entries at the end of the table. -/
theorem foldlM_add {entries : List (String × Value)} (nodes : Nodes)
    (hnew : ∀ entry ∈ entries, nodes.lookup entry.1 = none)
    (hdistinct : (entries.map Prod.fst).Nodup) :
    (entries.map fun entry => Statement.pair [] entry.1 entry.2).foldlM Outline.add ⟨nodes, []⟩ =
      some ⟨nodes ++ entries.map fun entry => (entry.1, .leaf entry.2), []⟩ := by
  induction entries generalizing nodes with
  | nil => simp
  | cons entry entries ih =>
      obtain ⟨key, value⟩ := entry
      rw [List.map_cons, List.nodup_cons] at hdistinct
      have hadd : Outline.add ⟨nodes, []⟩ (.pair [] key value) =
          some ⟨nodes ++ [(key, .leaf value)], []⟩ := by
        simp [Outline.add, Nodes.within, Nodes.addValue, hnew (key, value) List.mem_cons_self]
      have hstillNew : ∀ entry ∈ entries,
          (nodes ++ [(key, Node.leaf value)]).lookup entry.1 = none := by
        intro entry hentry
        have hother : entry.1 ≠ key := fun h => hdistinct.1 (List.mem_map.2 ⟨entry, hentry, h⟩)
        rw [List.lookup_append, hnew entry (List.mem_cons_of_mem _ hentry), Option.none_or,
          List.lookup_cons, beq_false_of_ne hother]
        rfl
      rw [List.map_cons, List.foldlM_cons, hadd]
      simpa using ih _ hstillNew hdistinct.2

theorem entries_leaves (entries : List (String × Value)) :
    Nodes.entries (entries.map fun entry => (entry.1, .leaf entry.2)) = entries := by
  induction entries with
  | nil => rfl
  | cons entry entries ih =>
      rw [List.map_cons, Nodes.entries, ih]
      rfl

theorem ofStatements?_pairs {entries : List (String × Value)}
    (hdistinct : (entries.map Prod.fst).Nodup) :
    Entries.ofStatements? (entries.map fun entry => Statement.pair [] entry.1 entry.2) =
      some entries := by
  have hadd := foldlM_add [] (fun _ _ => rfl) hdistinct
  rw [Entries.ofStatements?, show ({} : Outline) = ⟨[], []⟩ from rfl, hadd]
  simp [entries_leaves]

theorem dropMark_joinLines (hpairs : ∀ p ∈ pairs, p.Sound) (e : LineEnd) (closed : Bool) :
    dropMark (joinLines e closed (pairs.map Pair.text)) =
      joinLines e closed (pairs.map Pair.text) := by
  cases pairs with
  | nil => rfl
  | cons p pairs =>
      have hp := hpairs p List.mem_cons_self
      obtain ⟨c, tail, hkey⟩ := List.exists_cons_of_ne_nil hp.key_ne
      have hc : isKeyChar c = true := hp.keyChars c (by simp [hkey])
      rw [List.map_cons, joinLines, Pair.text, hkey, List.cons_append, List.cons_append, dropMark]
      exact fun rest h => ne_of_class hc rfl (List.cons.inj h).1

/-- Where every value can be read, the statements are the entries that are meant. -/
theorem filterMap_statement? (hall : ∀ p ∈ pairs, p.literal.read?.isSome = true) :
    pairs.filterMap Pair.statement? =
      (pairs.map Pair.entry).map fun entry => Statement.pair [] entry.1 entry.2 := by
  induction pairs with
  | nil => rfl
  | cons p pairs ih =>
      obtain ⟨v, hv⟩ := Option.isSome_iff_exists.1 (hall p List.mem_cons_self)
      have hmeant := Literal.eq_value_of_read? hv
      have hstatement : p.statement? = some (.pair [] p.key p.literal.value) := by
        rw [Pair.statement?, hv, hmeant, Option.map_some]
      rw [List.filterMap_cons_some hstatement, ih fun p hp => hall p (List.mem_cons_of_mem _ hp)]
      rfl

/-- A document of pairs is read as the table of these pairs, where every value can be read. -/
theorem parse?_text (doc : PairDocument) :
    parse? doc.text =
      if doc.pairs.all (·.literal.read?.isSome) then some doc.entries else none := by
  have hread := readStatements_joinLines doc.sound doc.lineEnd doc.closed (Nat.lt_succ_self _)
  rw [PairDocument.text, parse?, String.toList_ofList]
  simp only [dropMark_joinLines doc.sound, hread]
  by_cases hall : doc.pairs.all (·.literal.read?.isSome) = true
  · have hkeys : ((doc.pairs.map Pair.entry).map Prod.fst).Nodup := by
      rw [List.map_map]
      exact doc.distinct
    rw [if_pos hall, if_pos hall, filterMap_statement? (List.all_eq_true.1 hall)]
    exact ofStatements?_pairs hkeys
  · rw [if_neg hall, if_neg hall]
    rfl

theorem reader_readsPairs : reader.ReadsPairs where
  accepts := by
    intro doc hfits
    have hall : doc.pairs.all (·.literal.read?.isSome) = true :=
      List.all_eq_true.2 fun p hp => Literal.isSome_read? (hfits p hp)
    change (parse? doc.text).isSome = true
    rw [parse?_text, if_pos hall]
    rfl
  lossless := by
    intro doc table htable key
    change parse? doc.text = some table at htable
    rw [parse?_text] at htable
    split_ifs at htable
    rw [Option.some.inj htable]

end PcmConversion.Toml
