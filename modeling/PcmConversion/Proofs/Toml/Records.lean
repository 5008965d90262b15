import Mathlib.Data.List.Nodup
import PcmConversion.Toml.Reader

/-!
# Records from tables

What is relied on of a reader is that it fills a record field by field from the table, with the standard
value where there is no entry (`DocumentReader.FillsRecords`).  Then values are read as each form has it
(`FillsRecords.value?_boolean` and its neighbours).  The standard reader is one that does
(`reader_fillsRecords`).
-/

namespace PcmConversion.Toml

/-- A reader fills records from tables by the names of their fields. -/
structure DocumentReader.FillsRecords (D : DocumentReader) : Prop where
  boolean : ∀ b : Bool, D.meaning? .boolean (.boolean b) = some b
  text : ∀ s : String, D.meaning? .text (.string s) = some s
  /-- A number that has so many bits is read as itself. -/
  unsigned : ∀ bits ≤ 64, ∀ n : BitVec bits,
    D.meaning? (.unsigned bits) (.integer n.toNat) = some n
  /-- A number with more bits is refused. -/
  unsigned_eq_none : ∀ bits ≤ 64, ∀ n : Nat, 1 <<< bits ≤ n →
    D.meaning? (.unsigned bits) (.integer n) = none
  /-- A choice is read by its name. -/
  choice : ∀ names : List String, names.Nodup → ∀ i : Fin names.length,
    D.meaning? (.choice names) (.string names[i]) = some i
  /-- A field has the value that its entry stands for, or its standard value where there is no entry;
  entries under other names are ignored. -/
  record : ∀ R : RecordType, R.name.Injective → ∀ (table : Entries) (r : R.Record),
    D.record? R table = some r ↔ ∀ f : R.Field,
      (∀ v, table.get? (R.name f) = some v → D.value? (R.form f) v = some (r f)) ∧
      (table.get? (R.name f) = none → r f = R.standard f)

/-! ## Forms -/

namespace DocumentReader.FillsRecords

variable {D : DocumentReader}

theorem value?_boolean (h : D.FillsRecords) (b : Bool) :
    D.value? Form.boolean (.boolean b) = some b :=
  congrArg (·.bind Form.boolean.value?) (h.boolean b)

theorem value?_text {α : Type} (h : D.FillsRecords) (ofText? : String → Option α) (s : String) :
    D.value? { kind := .text, value? := ofText? } (.string s) = ofText? s :=
  congrArg (·.bind ofText?) (h.text s)

/-- A value is read by its name where the names tell all values apart. -/
theorem value?_choice {α : Type} {all : List α} {name : α → String} (h : D.FillsRecords)
    (hdistinct : (all.map name).Nodup) {a : α} (ha : a ∈ all) :
    D.value? (Form.choice all name) (.string (name a)) = some a := by
  obtain ⟨i, hi, rfl⟩ := List.mem_iff_getElem.1 ha
  have hread := h.choice _ hdistinct ⟨i, by rwa [List.length_map]⟩
  rw [Fin.getElem_fin, List.getElem_map] at hread
  refine (congrArg (·.bind (Form.choice all name).value?) hread).trans ?_
  exact List.getElem?_eq_getElem hi

theorem meaning?_unsigned (h : D.FillsRecords) {bits : Nat} (hbits : bits ≤ 64) (n : Nat)
    (w : BitVec bits) : D.meaning? (.unsigned bits) (.integer n) = some w ↔ w.toNat = n := by
  constructor
  · intro hread
    rcases Nat.lt_or_ge n (1 <<< bits) with hsmall | hlarge
    · rw [Nat.one_shiftLeft] at hsmall
      have hsame := h.unsigned bits hbits (BitVec.ofNat bits n)
      rw [BitVec.toNat_ofNat, Nat.mod_eq_of_lt hsmall, hread] at hsame
      rw [Option.some.inj hsame, BitVec.toNat_ofNat, Nat.mod_eq_of_lt hsmall]
    · rw [h.unsigned_eq_none bits hbits n hlarge] at hread
      cases hread
  · rintro rfl
    exact h.unsigned bits hbits w

theorem value?_word32 (h : D.FillsRecords) (n : Nat) (a : UInt32) :
    D.value? Form.word32 (.integer n) = some a ↔ a.toNat = n := by
  rw [← UInt32.toNat_toBitVec, ← h.meaning?_unsigned (by decide), value?, Option.bind_eq_some_iff]
  exact ⟨fun ⟨w, hw, ha⟩ => Option.some.inj ha ▸ hw, fun hread => ⟨a.toBitVec, hread, rfl⟩⟩

theorem value?_word64 (h : D.FillsRecords) (n : Nat) (a : UInt64) :
    D.value? Form.word64 (.integer n) = some a ↔ a.toNat = n := by
  rw [← UInt64.toNat_toBitVec, ← h.meaning?_unsigned (by decide), value?, Option.bind_eq_some_iff]
  exact ⟨fun ⟨w, hw, ha⟩ => Option.some.inj ha ▸ hw, fun hread => ⟨a.toBitVec, hread, rfl⟩⟩

end DocumentReader.FillsRecords

/-! ## The standard reader -/

/-- A natural number is read as a word where it has no more bits. -/
theorem word?_natural (bits n : Nat) :
    word? bits (.integer n) = if n < 1 <<< bits then some (BitVec.ofNat bits n) else none := by
  simp only [word?, Int.natCast_nonneg, true_and, Int.ofNat_lt, Int.toNat_natCast]

theorem record?_eq_some_iff {R : RecordType} {table : Entries} {r : R.Record} :
    record? R table = some r ↔ ∀ f, field? R table f = some (r f) := by
  unfold record?
  constructor
  · intro h f
    split_ifs at h with hall
    obtain ⟨v, hv⟩ := Option.isSome_iff_exists.1 (List.all_eq_true.1 hall f (R.mem_fields f))
    obtain rfl := Option.some.inj h
    change field? R table f = some ((field? R table f).getD (R.standard f))
    rw [hv, Option.getD_some]
  · intro h
    have hall : R.fields.all (fun f => (field? R table f).isSome) = true :=
      List.all_eq_true.2 fun f _ => by rw [h f]; rfl
    rw [if_pos hall]
    exact congrArg some (funext fun f => by rw [h f, Option.getD_some])

theorem field?_eq_some_iff {R : RecordType} {table : Entries} {f : R.Field} {a : R.Carrier f} :
    field? R table f = some a ↔
      (∀ v, table.get? (R.name f) = some v →
        reader.value? (R.form f) v = some a) ∧
      (table.get? (R.name f) = none → a = R.standard f) := by
  unfold field?
  cases table.get? (R.name f) with
  | none => simp [eq_comm]
  | some v => simp [reader, DocumentReader.value?]

theorem reader_fillsRecords : reader.FillsRecords where
  boolean _ := rfl
  text _ := rfl
  unsigned := by
    intro bits _ n
    have hfits : n.toNat < 1 <<< bits := by
      rw [Nat.one_shiftLeft]
      exact n.isLt
    change word? bits (.integer n.toNat) = some n
    rw [word?_natural, if_pos hfits, BitVec.ofNat_toNat, BitVec.setWidth_eq]
  unsigned_eq_none := by
    intro bits _ n hlarge
    change word? bits (.integer n) = none
    rw [word?_natural, if_neg (Nat.not_lt.2 hlarge)]
  choice := by
    intro names hdistinct i
    change names.finIdxOf? names[i] = some i
    refine List.finIdxOf?_eq_some_iff.2 ⟨rfl, fun j hj hsame => ?_⟩
    have hindex := (List.Nodup.getElem_inj_iff hdistinct).1 hsame
    omega
  record R _ table r := record?_eq_some_iff.trans (forall_congr' fun _ => field?_eq_some_iff)

end PcmConversion.Toml
