import Mathlib.Data.List.TakeWhile
import PcmConversion.Proofs.Toml.Pairs
import PcmConversion.Toml.Scalar

/-!
# Reading decimal integers

The digits of a natural number are a scalar that stands for this number, as far as it fits 128 bits
(`scalar?_toDigits`).  Beyond that they are no value at all: a run of digits is neither a float, which
has a point or an exponent, nor a date or a time, which have a separator.
-/

namespace PcmConversion.Toml

variable {s : List Char} {c d : Char}

theorem isScalarChar_of_isDigit (hc : c.isDigit = true) : isScalarChar c = true := by
  simp [isScalarChar, Char.isAlphanum, hc]

/-! ## Digits -/

theorem digitValue?_of_isDigit (hc : c.isDigit = true) :
    ∃ v, v = c.toNat - '0'.toNat ∧ digitValue? c = some v ∧ v < 10 := by
  have hrange : '0' ≤ c ∧ c ≤ '9' := by
    rw [Char.isDigit, Bool.and_eq_true, decide_eq_true_eq, decide_eq_true_eq] at hc
    exact hc
  have hvalue : c.toNat ≤ 57 := hrange.2
  refine ⟨_, rfl, ?_, ?_⟩
  · rw [digitValue?, if_pos hrange]
    rfl
  · have hzero : '0'.toNat = 48 := rfl
    omega

/-- Reading digits one after the other is the fold that the library writes numbers for. -/
theorem foldlM_digits (hs : ∀ c ∈ s, c.isDigit = true) (n : Nat) :
    s.foldlM (fun acc c => do
      let d ← digitValue? c
      if d < 10 then some (acc * 10 + d) else none) n = some (Nat.ofDigitChars 10 s n) := by
  induction s generalizing n with
  | nil => rfl
  | cons c s ih =>
      obtain ⟨v, hv, hvalue, hlt⟩ := digitValue?_of_isDigit (hs c List.mem_cons_self)
      rw [List.foldlM_cons, hvalue, Nat.ofDigitChars_cons, ← hv, Nat.mul_comm]
      simp only [Option.bind_eq_bind, Option.bind_some, if_pos hlt]
      exact ih (fun c hc => hs c (List.mem_cons_of_mem _ hc)) _

theorem ofDigits?_eq (hs : ∀ c ∈ s, c.isDigit = true) :
    ofDigits? 10 s = some (Nat.ofDigitChars 10 s 0) :=
  foldlM_digits hs 0

theorem ungroup?_eq (hs : ∀ c ∈ s, c.isDigit = true) (hne : s ≠ []) :
    ungroup? Char.isDigit s = some s := by
  induction s with
  | nil => exact absurd rfl hne
  | cons c s ih =>
      have hc := hs c List.mem_cons_self
      cases s with
      | nil => rw [ungroup?, if_pos hc]
      | cons d s =>
          have hd := hs d (by simp)
          have hlater := ih (fun c hc => hs c (List.mem_cons_of_mem _ hc)) (List.cons_ne_nil d s)
          rw [ungroup?, if_pos hc, hlater]
          · rfl
          · exact List.cons_ne_nil d s
          · intro rest hrest
            exact ne_of_class (d := '_') hd rfl (List.cons.inj hrest).1

/-! ## The digits of a number -/

theorem isDigit_toDigits (n : Nat) : ∀ c ∈ Nat.toDigits 10 n, c.isDigit = true :=
  fun _ hc => Nat.isDigit_of_mem_toDigits (by omega) le_rfl hc

/-- Only zero is written with a zero in front. -/
theorem eq_zero_of_toDigits {n : Nat} (h : Nat.toDigits 10 n = '0' :: s) : n = 0 := by
  induction n using Nat.strongRecOn generalizing s with
  | ind n ih =>
      rcases Nat.lt_or_ge n 10 with hsmall | hlarge
      · have hvalue := congrArg (Nat.ofDigitChars 10 · 0) h
        rw [Nat.toDigits_of_lt_base hsmall, List.cons.injEq] at h
        rwa [h.2.symm, Nat.ofDigitChars_ten_toDigits] at hvalue
      · -- The digits before the last are those of a smaller number, which is not zero.
        rw [Nat.toDigits_of_base_le (by omega) hlarge] at h
        obtain ⟨c, front, hfront⟩ := List.exists_cons_of_ne_nil (Nat.toDigits_ne_nil (b := 10) (n := n / 10))
        rw [hfront, List.cons_append, List.cons.injEq] at h
        have hzero := ih (n / 10) (by omega) (h.1 ▸ hfront)
        omega

theorem decimalDigits?_toDigits (n : Nat) :
    decimalDigits? (Nat.toDigits 10 n) = some (Nat.toDigits 10 n) := by
  have hgroup := ungroup?_eq (isDigit_toDigits n) Nat.toDigits_ne_nil
  rw [decimalDigits?, hgroup]
  simp only [Option.bind_eq_bind, Option.bind_some]
  split
  next hzero =>
    rw [eq_zero_of_toDigits hzero] at hzero
    simp at hzero
  next => rfl

theorem splitSign_eq (hs : ∀ c ∈ s, c.isDigit = true) : splitSign s = (false, s) := by
  unfold splitSign
  split
  · exact absurd (hs '+' List.mem_cons_self) (by decide)
  · exact absurd (hs '-' List.mem_cons_self) (by decide)
  · rfl

theorem unboundedInteger?_toDigits (n : Nat) :
    unboundedInteger? (Nat.toDigits 10 n) = some (n : Int) := by
  have hdigits := isDigit_toDigits n
  unfold unboundedInteger?
  split
  next h => exact absurd (hdigits 'x' (by simp [h])) (by decide)
  next h => exact absurd (hdigits 'o' (by simp [h])) (by decide)
  next h => exact absurd (hdigits 'b' (by simp [h])) (by decide)
  next =>
    simp only [splitSign_eq hdigits, decimalDigits?_toDigits, Option.bind_eq_bind, Option.bind_some,
      ofDigits?_eq hdigits, Nat.ofDigitChars_ten_toDigits]
    rfl

/-- The integer that a natural number stands for where numbers have 128 bits. -/
def integerOf? (n : Nat) : Option Value :=
  if n < 1 <<< 128 then some (.integer n) else none

theorem integerOf?_eq_some {n : Nat} {v : Value} (h : integerOf? n = some v) : v = .integer n := by
  unfold integerOf? at h
  split_ifs at h
  exact (Option.some.inj h).symm

theorem isSome_integerOf? {n : Nat} (h : n < 1 <<< 128) : (integerOf? n).isSome = true := by
  rw [integerOf?, if_pos h]
  rfl

theorem integer?_eq {v : Int} (hs : unboundedInteger? s = some v) :
    integer? s = if -((1 <<< 127 : Nat) : Int) ≤ v ∧ v < (1 <<< 128 : Nat) then some v else none := by
  rw [integer?, hs]
  rfl

theorem integer?_toDigits (n : Nat) :
    integer? (Nat.toDigits 10 n) = if n < 1 <<< 128 then some (n : Int) else none := by
  have hbelow : -((1 <<< 127 : Nat) : Int) ≤ n :=
    Int.le_trans (Int.neg_nonpos_of_nonneg (Int.natCast_nonneg _)) (Int.natCast_nonneg n)
  rw [integer?_eq (unboundedInteger?_toDigits n)]
  by_cases hlt : n < 1 <<< 128
  · rw [if_pos hlt, if_pos ⟨hbelow, Int.ofNat_lt.2 hlt⟩]
  · rw [if_neg hlt, if_neg fun h => hlt (Int.ofNat_lt.1 h.2)]

/-! ## What a run of digits is not -/

theorem mem_of_expect? {rest : List Char} (h : expect? c s = some rest) : c ∈ s := by
  cases s with
  | nil => cases h
  | cons d s =>
      rw [expect?] at h
      split_ifs at h with hd
      exact hd ▸ List.mem_cons_self

theorem mem_of_twoDigits? {v : Nat} {rest : List Char} (h : twoDigits? s = some (v, rest))
    (hc : c ∈ rest) : c ∈ s := by
  match s, h with
  | a :: b :: rest', h =>
      rw [twoDigits?] at h
      split_ifs at h with hdigits
      obtain ⟨_, _, hpair⟩ := Option.map_eq_some_iff.1 h
      obtain ⟨-, rfl⟩ := Prod.mk.inj hpair
      simp [hc]

/-- A date has a dash. -/
theorem date?_eq_none (hs : '-' ∉ s) : date? s = none := by
  cases hdate : date? s with
  | none => rfl
  | some rest =>
      simp only [date?, Option.bind_eq_bind, Option.bind_eq_some_iff] at hdate
      obtain ⟨⟨_, _⟩, hcentury, ⟨_, _⟩, hyear, _, hdash, -⟩ := hdate
      exact absurd (mem_of_twoDigits? hcentury (mem_of_twoDigits? hyear (mem_of_expect? hdash))) hs

/-- A time has a colon. -/
theorem time?_eq_none (hs : ':' ∉ s) : time? s = none := by
  cases htime : time? s with
  | none => rfl
  | some rest =>
      simp only [time?, Option.bind_eq_bind, Option.bind_eq_some_iff] at htime
      obtain ⟨⟨_, _⟩, hhour, _, hcolon, -⟩ := htime
      exact absurd (mem_of_twoDigits? hhour (mem_of_expect? hcolon)) hs

theorem isDateTime_eq_false (hdash : '-' ∉ s) (hcolon : ':' ∉ s) : isDateTime s = false := by
  simp [isDateTime, date?_eq_none hdash, time?_eq_none hcolon]

theorem decimalFloat?_eq_none (hs : ∀ c ∈ s, c.isDigit = true) (negative : Bool) :
    decimalFloat? negative s = none := by
  have hrun : ∀ c ∈ s, (c.isDigit || c = '_') = true := fun c hc => by simp [hs c hc]
  have hend : s.dropWhile (fun c => c.isDigit || c = '_') = [] := List.dropWhile_eq_nil_iff.2 hrun
  simp only [decimalFloat?, hend]
  cases decimalDigits? _ <;> rfl

theorem float?_eq_none (hs : ∀ c ∈ s, c.isDigit = true) : float? s = none := by
  have hinf : s ≠ ['i', 'n', 'f'] := by
    rintro rfl
    exact absurd (hs 'i' (by simp)) (by decide)
  have hnan : s ≠ ['n', 'a', 'n'] := by
    rintro rfl
    exact absurd (hs 'n' (by simp)) (by decide)
  simp [float?, splitSign_eq hs, hinf, hnan, decimalFloat?_eq_none hs]

theorem scalar?_toDigits (n : Nat) : scalar? (Nat.toDigits 10 n) = integerOf? n := by
  have hdigits := isDigit_toDigits n
  have hnot : ∀ c : Char, c.isDigit = false → c ∉ Nat.toDigits 10 n :=
    fun c hc hmem => ne_of_class (hdigits c hmem) hc rfl
  have htrue : Nat.toDigits 10 n ≠ ['t', 'r', 'u', 'e'] := fun h => hnot 't' (by decide) (by simp [h])
  have hfalse : Nat.toDigits 10 n ≠ ['f', 'a', 'l', 's', 'e'] :=
    fun h => hnot 'f' (by decide) (by simp [h])
  rw [scalar?, if_neg htrue, if_neg hfalse, integer?_toDigits, integerOf?]
  by_cases hlt : n < 1 <<< 128
  · simp only [if_pos hlt]
  · simp only [if_neg hlt, float?_eq_none hdigits,
      isDateTime_eq_false (hnot '-' (by decide)) (hnot ':' (by decide)), Bool.false_eq_true, if_false]

end PcmConversion.Toml
