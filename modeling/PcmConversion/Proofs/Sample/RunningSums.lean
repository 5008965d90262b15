import PcmConversion.Proofs.Sample.Precision
import PcmConversion.Sample.Remap

/-!
# Weighted sums of a 5.1 frame

An output sample of the fold is a sum of weighted terms, each of which is rounded on the way.  A term is
within two units of the exact one, a unit being `2^-25` of full scale (`near_term`), and an addition
loses at most one unit, for integers also what is cut off (`adds_integers`, `adds_floats`).  Over a row
these add up (`Adds.run`); as the weights with the gain sum to `0.99995`, a whole row stays within the
range (`Adds.fold_row`).
-/

namespace PcmConversion

open BinaryFormat (single)

/-! ## Units -/

/-- `2^-25` of full scale: half of what the last bit of a float near full scale is worth. -/
def SampleType.unit (t : SampleType) : ℚ :=
  2 ^ (((t.bits - 1 : Nat) : Int) - 25)

theorem SampleType.unit_pos (t : SampleType) : 0 < t.unit := by
  rw [unit]
  positivity

theorem SampleType.two_pow_bits_le (t : SampleType) :
    (2 : ℚ) ^ ((t.bits - 1 : Nat) : Int) ≤ 2 ^ 127 := by
  have hbits : t.bits - 1 ≤ 127 := by cases t <;> decide
  exact_mod_cast Nat.pow_le_pow_right two_pos hbits

/-- Up to full scale a rounding is off by at most a unit. -/
theorem SampleType.abs_round_sub_le_unit (t : SampleType) {v : ℚ}
    (hv : |v| ≤ 2 ^ ((t.bits - 1 : Nat) : Int)) : |single.round v - v| ≤ t.unit :=
  BinaryFormat.abs_round_single_sub_le (by omega) hv

theorem Binary32.round_of_at {x : Binary32} {v : ℚ} (hx : x.number.At v) : single.round v = v := by
  obtain ⟨m, e, hm, he, rfl⟩ := exists_multiple hx
  exact BinaryFormat.round_of_multiple hm he

/-! ## Products -/

theorem abs_mul_sub_mul_le {p q s t a b c d : ℚ} (hp : |p - s| ≤ a) (hq : |q - t| ≤ b)
    (hqc : |q| ≤ c) (hsd : |s| ≤ d) : |p * q - s * t| ≤ a * c + d * b := by
  have hsplit : p * q - s * t = (p - s) * q + s * (q - t) := by ring
  rw [hsplit]
  refine (abs_add_le _ _).trans (add_le_add ?_ ?_)
  · rw [abs_mul]
    exact mul_le_mul hp hqc (abs_nonneg q) ((abs_nonneg _).trans hp)
  · rw [abs_mul]
    exact mul_le_mul hsd hq (abs_nonneg _) ((abs_nonneg s).trans hsd)

/-- A product of approximate factors that stays within `2^k`. -/
theorem Binary32.near_mul {x y : Binary32} {p q s t a b c d : ℚ} {k : Int} (hlow : -100 ≤ k)
    (hhigh : k ≤ 100) (hx : x.number.At p) (hy : y.number.At q) (hp : |p - s| ≤ a)
    (hq : |q - t| ≤ b) (hqc : |q| ≤ c) (hsd : |s| ≤ d) (hpq : |p * q| ≤ 2 ^ k) :
    (x * y).number.At (single.round (p * q)) ∧ |single.round (p * q)| ≤ 2 ^ k ∧
      |single.round (p * q) - s * t| ≤ 2 ^ (k - 25) + (a * c + d * b) := by
  have hrange : |p * q| ≤ 2 ^ 127 := by
    refine hpq.trans ?_
    exact_mod_cast zpow_le_zpow_right₀ (one_le_two : (1 : ℚ) ≤ 2) (show k ≤ 127 by omega)
  have hrounded := BinaryFormat.abs_round_single_sub_le (by omega) hpq
  have hfactors := abs_mul_sub_mul_le hp hq hqc hsd
  exact ⟨at_mul hx hy hrange, BinaryFormat.abs_round_single_le (by omega) hpq,
    (abs_sub_le _ (p * q) _).trans (add_le_add hrounded hfactors)⟩

namespace Downmix

/-! ## Terms -/

/-- A decimal within `1` is stored as it is rounded. -/
theorem decimal_at {w : Int} (hw : |w| ≤ 10000) :
    (decimal w).number.At (single.round (w / 10000)) := by
  have hmagnitude : (w.natAbs : ℚ) ≤ 10000 := by
    rw [Nat.cast_natAbs]
    exact_mod_cast hw
  have hle : (w.natAbs : ℚ) / (10000 : Nat) * 2 ^ (0 : Int) ≤ 2 ^ 127 := by
    rw [zpow_zero, mul_one]
    push_cast
    linarith
  have hstored := Binary32.at_quotient_of_le (decide (w < 0)) w.natAbs (by decide) hle
  rwa [zpow_zero, mul_one, div_eq_mul_inv, signed_natAbs, ← div_eq_mul_inv] at hstored

theorem abs_weight_le {w : Int} (hw : |w| ≤ 10000) : |(w : ℚ) / 10000| ≤ 1 := by
  rw [abs_div, abs_of_pos (show (0 : ℚ) < 10000 by norm_num), div_le_one (by norm_num)]
  exact_mod_cast hw

/-- What a term would be without rounding. -/
def exactTerm (w : Int) (s : ℚ) : ℚ :=
  w / 10000 * s * (gain / 10000)

/-- Whether a term counts. -/
def live (w : Int) : ℚ :=
  if w = 0 then 0 else 1

theorem live_nonneg (w : Int) : 0 ≤ live w := by
  rw [live]
  split_ifs <;> norm_num

theorem near_gain : (decimal gain).number.At (single.round (gain / 10000)) ∧
    |single.round (gain / 10000) - gain / 10000| ≤ 2 ^ (-26 : Int) ∧
    |single.round (gain / 10000)| ≤ 27 / 100 := by
  have hsmall : |(gain : ℚ) / 10000| ≤ 2 ^ (-1 : Int) := by norm_num [gain]
  have hnear := BinaryFormat.abs_round_single_sub_le (by decide) hsmall
  refine ⟨decimal_at (by decide), hnear, ?_⟩
  obtain ⟨hlow, hhigh⟩ := abs_le.1 hnear
  norm_num [gain] at hlow hhigh ⊢
  rw [abs_le]
  constructor <;> linarith

/-- A weighted sample is within three units. -/
theorem near_weighted {w : Int} {x : Binary32} {p s : ℚ} {k : Int} (hlow : -99 ≤ k) (hhigh : k ≤ 100)
    (hw : |w| ≤ 10000) (hx : x.number.At p) (hp : |p| ≤ 2 ^ k) (hs : |p - s| ≤ 2 ^ (k - 25)) :
    ∃ r, (decimal w * x).number.At r ∧ |r| ≤ 2 ^ k ∧ |r - w / 10000 * s| ≤ 3 * 2 ^ (k - 25) ∧
      (w = 0 → r = 0) := by
  have hweight : |(w : ℚ) / 10000| ≤ 2 ^ (0 : Int) := by
    rw [zpow_zero]
    exact abs_weight_le hw
  have hnear := BinaryFormat.abs_round_single_sub_le (by decide) hweight
  have hsmall := BinaryFormat.abs_round_single_le (by decide) hweight
  rw [zero_sub] at hnear
  rw [zpow_zero] at hweight hsmall
  have hproduct : |single.round (w / 10000) * p| ≤ 2 ^ k := by
    rw [abs_mul]
    exact (mul_le_mul hsmall hp (abs_nonneg p) zero_le_one).trans_eq (one_mul _)
  obtain ⟨hat, hbound, herror⟩ := Binary32.near_mul (by omega) hhigh (decimal_at hw) hx hnear hs hp
    hweight hproduct
  have hunit : (2 : ℚ) ^ (-25 : Int) * 2 ^ k = 2 ^ (k - 25) := by
    rw [← zpow_add₀ two_ne_zero, neg_add_eq_sub]
  rw [hunit] at herror
  refine ⟨_, hat, hbound, herror.trans_eq (by ring), ?_⟩
  rintro rfl
  rw [Int.cast_zero, zero_div, BinaryFormat.round_zero, zero_mul, BinaryFormat.round_zero]

/-- A term is within two units of the exact one, and nothing for the weight zero. -/
theorem near_term {w : Int} {x : Binary32} {p s : ℚ} {k : Int} (hlow : -99 ≤ k) (hhigh : k ≤ 100)
    (hw : |w| ≤ 10000) (hx : x.number.At p) (hp : |p| ≤ 2 ^ k) (hs : |s| ≤ 2 ^ k)
    (hps : |p - s| ≤ 2 ^ (k - 25)) :
    ∃ r, (term (decimal w) x).number.At r ∧
      |r - exactTerm w s| ≤ 2 * 2 ^ (k - 25) * live w ∧ (w = 0 → r = 0) := by
  obtain ⟨a, hweighted, hbound, hnear, hsilent⟩ := near_weighted hlow hhigh hw hx hp hps
  obtain ⟨hgain, hgainNear, hgainSmall⟩ := near_gain
  have hhalf : (2 : ℚ) ^ (k - 1) = 2 ^ k / 2 := by rw [zpow_sub_one₀ two_ne_zero, div_eq_mul_inv]
  have hpos : (0 : ℚ) < 2 ^ k := by positivity
  have hexact : |w / 10000 * s| ≤ 2 ^ k := by
    rw [abs_mul]
    exact (mul_le_mul (abs_weight_le hw) hs (abs_nonneg s) zero_le_one).trans_eq (one_mul _)
  have hproduct : |a * single.round (gain / 10000)| ≤ 2 ^ (k - 1) := by
    rw [abs_mul, hhalf]
    have hboth := mul_le_mul hbound hgainSmall (abs_nonneg _) hpos.le
    linarith
  obtain ⟨hat, -, herror⟩ := Binary32.near_mul (k := k - 1) (by omega) (by omega) hweighted hgain
    hnear hgainNear hgainSmall hexact hproduct
  refine ⟨_, hat, ?_, fun hw => ?_⟩
  · by_cases hw : w = 0
    · rw [hsilent hw, zero_mul, BinaryFormat.round_zero, exactTerm, live, if_pos hw, hw]
      norm_num
    · have hlast : (2 : ℚ) ^ (k - 1 - 25) = 2 ^ (k - 25) / 2 := by
        rw [show k - 1 - 25 = k - 25 - 1 by omega, zpow_sub_one₀ two_ne_zero, div_eq_mul_inv]
      have hunit : (2 : ℚ) ^ k * 2 ^ (-26 : Int) = 2 ^ (k - 25) / 2 := by
        rw [← hlast, ← zpow_add₀ two_ne_zero]
        congr 1
        omega
      have hunitPos : (0 : ℚ) < 2 ^ (k - 25) := by positivity
      rw [hlast, hunit] at herror
      rw [exactTerm, live, if_neg hw]
      linarith
  · rw [hsilent hw, zero_mul, BinaryFormat.round_zero]

/-! ## Running sums -/

/-- Additions to a sum that is held in some form.  While sums are within the range, the result of an
addition is off by no more than a unit and a loss, and a silent term changes nothing. -/
structure Adds {α : Type} (add : α → Binary32 → α) (held : α → ℚ → Prop) (range unit loss : ℚ) :
    Prop where
  step : ∀ (a : α) (x : Binary32) (v p : ℚ), held a v → x.number.At p → |v| ≤ range →
    |v + p| ≤ range → ∃ v', held (add a x) v' ∧ |v'| ≤ |v + p| + unit ∧ |v' - (v + p)| ≤ unit + loss
  silent : ∀ (a : α) (x : Binary32) (v : ℚ), held a v → x.number.At 0 → |v| ≤ range →
    held (add a x) v

section Runs

variable {α σ : Type} {add : α → Binary32 → α} {held : α → ℚ → Prop} {range unit loss : ℚ}
  {float : σ → Binary32} {exact : σ → ℚ} {l : List (Int × σ)}

/-- The term for a weight and a sample. -/
def termOf (float : σ → Binary32) (e : Int × σ) : Binary32 :=
  term (decimal e.1) (float e.2)

def exactOf (exact : σ → ℚ) (e : Int × σ) : ℚ :=
  exactTerm e.1 (exact e.2)

/-- How much a term can add to the magnitude of a sum. -/
def cost (unit : ℚ) (exact : σ → ℚ) (e : Int × σ) : ℚ :=
  |exactOf exact e| + 3 * unit * live e.1

/-- The term is within two units of the exact one. -/
def Near (unit : ℚ) (float : σ → Binary32) (exact : σ → ℚ) (e : Int × σ) : Prop :=
  ∃ p, (termOf float e).number.At p ∧ |p - exactOf exact e| ≤ 2 * unit * live e.1 ∧
    (e.1 = 0 → p = 0)

theorem cost_nonneg (hunit : 0 ≤ unit) (exact : σ → ℚ) (e : Int × σ) : 0 ≤ cost unit exact e := by
  have hlive := live_nonneg e.1
  rw [cost]
  positivity

theorem sum_cost_nonneg (hunit : 0 ≤ unit) (exact : σ → ℚ) (l : List (Int × σ)) :
    0 ≤ (l.map (cost unit exact)).sum := by
  refine List.sum_nonneg fun c hc => ?_
  obtain ⟨e, -, rfl⟩ := List.mem_map.1 hc
  exact cost_nonneg hunit exact e

/-- The exact result of an addition is within what the term can add. -/
theorem abs_add_le_cost {e : Int × σ} {v p : ℚ}
    (hp : |p - exactOf exact e| ≤ 2 * unit * live e.1) :
    |v + p| + unit * live e.1 ≤ |v| + cost unit exact e := by
  have hsum := abs_add_le v p
  have hterm := abs_sub_abs_le_abs_sub p (exactOf exact e)
  rw [cost]
  linarith

theorem Adds.step_near (h : Adds add held range unit loss) (hunit : 0 ≤ unit) {e : Int × σ}
    (hnear : Near unit float exact e) {a : α} {v : ℚ} (ha : held a v)
    (hfits : |v| + cost unit exact e ≤ range) :
    ∃ v', held (add a (termOf float e)) v' ∧ |v'| ≤ |v| + cost unit exact e ∧
      |v' - (v + exactOf exact e)| ≤ (3 * unit + loss) * live e.1 := by
  obtain ⟨p, hp, hclose, hsilent⟩ := hnear
  have hcost := cost_nonneg hunit exact e
  have hroom : |v| ≤ range := by linarith
  by_cases hw : e.1 = 0
  · rw [live, if_pos hw, mul_zero] at hclose
    obtain rfl := hsilent hw
    rw [zero_sub, abs_neg] at hclose
    have hexact : exactOf exact e = 0 := abs_nonpos_iff.1 hclose
    refine ⟨v, h.silent a _ v ha hp hroom, by linarith, ?_⟩
    rw [hexact, add_zero, sub_self, abs_zero, live, if_pos hw, mul_zero]
  · have hbound := abs_add_le_cost (v := v) hclose
    rw [live, if_neg hw, mul_one] at hclose hbound
    rw [live, if_neg hw, mul_one]
    obtain ⟨v', ha', hsize, herror⟩ := h.step a _ v p ha hp hroom (by linarith)
    refine ⟨v', ha', hsize.trans hbound, ?_⟩
    have hsplit : v' - (v + exactOf exact e) = v' - (v + p) + (p - exactOf exact e) := by ring
    have htriangle := abs_add_le (v' - (v + p)) (p - exactOf exact e)
    rw [hsplit]
    linarith

/-- The fold over a row, from any sum that leaves enough room. -/
theorem Adds.run (h : Adds add held range unit loss) (hunit : 0 ≤ unit)
    (hnear : ∀ e ∈ l, Near unit float exact e) {a : α} {v : ℚ} (ha : held a v)
    (hfits : |v| + (l.map (cost unit exact)).sum ≤ range) :
    ∃ v', held (l.foldl (fun b e => add b (termOf float e)) a) v' ∧
      |v'| ≤ |v| + (l.map (cost unit exact)).sum ∧
      |v' - (v + (l.map (exactOf exact)).sum)| ≤
        (3 * unit + loss) * (l.map fun e => live e.1).sum := by
  induction l generalizing a v with
  | nil => exact ⟨v, ha, by simp, by simp⟩
  | cons e l ih =>
      rw [List.map_cons, List.sum_cons] at hfits
      have hlater := sum_cost_nonneg hunit exact l
      obtain ⟨w, hw, hsize, herror⟩ := h.step_near hunit (hnear e List.mem_cons_self) ha
        (by linarith)
      obtain ⟨v', hv', hsize', herror'⟩ := ih (fun d hd => hnear d (List.mem_cons_of_mem e hd)) hw
        (by linarith)
      refine ⟨v', hv', ?_, ?_⟩
      · rw [List.map_cons, List.sum_cons]
        linarith
      · simp only [List.map_cons, List.sum_cons]
        have hsplit : v' - (v + (exactOf exact e + (l.map (exactOf exact)).sum)) =
            v' - (w + (l.map (exactOf exact)).sum) + (w - (v + exactOf exact e)) := by ring
        have htriangle :=
          abs_add_le (v' - (w + (l.map (exactOf exact)).sum)) (w - (v + exactOf exact e))
        rw [hsplit, mul_add]
        linarith

end Runs

/-! ## Rows -/

section Rows

variable {α σ : Type} {add : α → Binary32 → α} {held : α → ℚ → Prop} {range unit loss full : ℚ}
  {silence : α} {float : σ → Binary32} {exact : σ → ℚ} {ws : List Int} {ss : List σ}

/-- The terms of an output sample. -/
def terms (ws : List Int) (xs : List Binary32) : List Binary32 :=
  (ws.map decimal).zipWith term xs

/-- What an output sample would be without rounding. -/
def exactSum (ws : List Int) (samples : List ℚ) : ℚ :=
  (ws.zipWith exactTerm samples).sum

theorem terms_map (ws : List Int) (ss : List σ) :
    terms ws (ss.map float) = (ws.zip ss).map (termOf float) := by
  rw [terms, List.zipWith_map, List.zip, List.map_zipWith]
  rfl

theorem exactSum_map (ws : List Int) (ss : List σ) :
    exactSum ws (ss.map exact) = ((ws.zip ss).map (exactOf exact)).sum := by
  rw [exactSum, List.zipWith_map_right, List.zip, List.map_zipWith]
  rfl

theorem abs_le_of_mem_weights {w : Int} (hws : ws ∈ weights) (hw : w ∈ ws) : |w| ≤ 10000 := by
  revert w
  revert ws
  decide

theorem sum_live (hws : ws ∈ weights) : (ws.map live).sum = 5 := by
  simp only [weights, List.mem_cons, List.not_mem_nil, or_false] at hws
  rcases hws with rfl | rfl <;> norm_num [live]

theorem sum_weights (hws : ws ∈ weights) (c d : ℚ) :
    (ws.map fun w : Int => |(w : ℚ)| * c + d * live w).sum = 38079 * c + 5 * d := by
  simp only [weights, List.mem_cons, List.not_mem_nil, or_false] at hws
  rcases hws with rfl | rfl <;> norm_num [live] <;> ring

theorem length_of_mem_weights (hws : ws ∈ weights) : ws.length = 6 := by
  revert ws
  decide

/-- A frame has a sample for every weight. -/
theorem sum_zip (hws : ws ∈ weights) (hlength : ss.length = 6) (f : Int → ℚ) :
    ((ws.zip ss).map fun e => f e.1).sum = (ws.map f).sum := by
  have hfirst : (ws.zip ss).map Prod.fst = ws :=
    List.map_fst_zip (by rw [length_of_mem_weights hws, hlength])
  conv_rhs => rw [← hfirst, List.map_map]
  rfl

/-- The most that a row adds up to. -/
theorem sum_cost_le (hws : ws ∈ weights) (hlength : ss.length = 6)
    (hs : ∀ s ∈ ss, |exact s| ≤ full) :
    ((ws.zip ss).map (cost unit exact)).sum ≤ 38079 * (gain * full / 10 ^ 8) + 15 * unit := by
  have hterm : ∀ e ∈ ws.zip ss,
      cost unit exact e ≤ |(e.1 : ℚ)| * (gain * full / 10 ^ 8) + 3 * unit * live e.1 := by
    intro e he
    have hmagnitude := mul_le_mul_of_nonneg_left (hs e.2 (List.of_mem_zip he).2) (abs_nonneg (e.1 : ℚ))
    have hexact : |exactOf exact e| = |(e.1 : ℚ)| * |exact e.2| * (gain / 10 ^ 8) := by
      rw [exactOf, exactTerm, abs_mul, abs_mul, abs_div,
        abs_of_pos (show (0 : ℚ) < 10000 by norm_num),
        abs_of_pos (show (0 : ℚ) < gain / 10000 by norm_num [gain])]
      ring
    have hgain : (0 : ℚ) ≤ gain / 10 ^ 8 := by norm_num [gain]
    have hscaled := mul_le_mul_of_nonneg_right hmagnitude hgain
    rw [cost, hexact]
    linarith
  calc ((ws.zip ss).map (cost unit exact)).sum
      ≤ ((ws.zip ss).map fun e =>
          |(e.1 : ℚ)| * (gain * full / 10 ^ 8) + 3 * unit * live e.1).sum := List.sum_le_sum hterm
    _ = (ws.map fun w : Int => |(w : ℚ)| * (gain * full / 10 ^ 8) + 3 * unit * live w).sum := by
        rw [sum_zip hws hlength fun w => |(w : ℚ)| * (gain * full / 10 ^ 8) + 3 * unit * live w]
    _ = 38079 * (gain * full / 10 ^ 8) + 15 * unit := by
        rw [sum_weights hws]
        ring

/-- Every sum and every addition of a row is within the range, and the output is near the exact sum. -/
theorem Adds.fold_row (h : Adds add held range unit loss) (hunit : 0 ≤ unit)
    (hsilence : held silence 0) (hws : ws ∈ weights) (hlength : ss.length = 6)
    (hnear : ∀ w ∈ ws, ∀ s ∈ ss, Near unit float exact (w, s)) (hs : ∀ s ∈ ss, |exact s| ≤ full)
    (hfits : 38079 * (gain * full / 10 ^ 8) + 15 * unit ≤ range) :
    (∀ before x after, terms ws (ss.map float) = before ++ x :: after →
      ∃ v p, held (before.foldl add silence) v ∧ x.number.At p ∧ |v| ≤ range ∧ |v + p| ≤ range) ∧
    ∃ v, held (foldRow add silence (ws.map decimal) (ss.map float)) v ∧
      |v| ≤ 38079 * (gain * full / 10 ^ 8) + 15 * unit ∧
      |v - exactSum ws (ss.map exact)| ≤ (3 * unit + loss) * 5 := by
  have hcost : ((ws.zip ss).map (cost unit exact)).sum ≤ range :=
    (sum_cost_le hws hlength hs).trans hfits
  have hterms : ∀ e ∈ ws.zip ss, Near unit float exact e := fun e he =>
    hnear e.1 (List.of_mem_zip he).1 e.2 (List.of_mem_zip he).2
  constructor
  · intro before x after hsplit
    rw [terms_map] at hsplit
    obtain ⟨earlier, rest, hzip, rfl, hrest⟩ := List.map_eq_append_iff.1 hsplit
    obtain ⟨e, later, rfl, rfl, -⟩ := List.map_eq_cons_iff.1 hrest
    rw [hzip] at hterms hcost
    rw [List.map_append, List.sum_append, List.map_cons, List.sum_cons] at hcost
    have hlater := sum_cost_nonneg hunit exact later
    have hthis := cost_nonneg hunit exact e
    obtain ⟨v, hv, hsize, -⟩ := h.run hunit (fun d hd => hterms d (List.mem_append_left _ hd))
      hsilence (by rw [abs_zero]; linarith)
    obtain ⟨p, hp, hclose, -⟩ := hterms e (by simp)
    have hlive := mul_nonneg hunit (live_nonneg e.1)
    have hsum := abs_add_le_cost (v := v) hclose
    rw [abs_zero] at hsize
    exact ⟨v, p, by rwa [List.foldl_map], hp, by linarith, by linarith⟩
  · obtain ⟨v, hv, hsize, herror⟩ := h.run hunit hterms hsilence (by rw [abs_zero]; linarith)
    rw [sum_zip hws hlength live, sum_live hws, zero_add, ← exactSum_map] at herror
    rw [abs_zero, zero_add] at hsize
    refine ⟨v, ?_, hsize.trans (sum_cost_le hws hlength hs), herror⟩
    show held ((terms ws (ss.map float)).foldl add silence) v
    rwa [terms_map, List.foldl_map]

end Rows

/-! ## Integers -/

section Integers

variable {t : SampleType} {a : Int} {x : Binary32} {v p : ℚ}

/-- An integer sum stands for itself, and is a float too. -/
def HeldInteger (sum : Int) (v : ℚ) : Prop :=
  v = sum ∧ single.round v = v

theorem highest_eq (t : SampleType) : (t.highest : ℚ) = 2 ^ ((t.bits - 1 : Nat) : Int) - 1 := by
  rw [SampleType.highest, SampleType.half_eq, zpow_natCast]
  push_cast
  rfl

/-- What the cast of an addition gets. -/
theorem addition_at (ha : HeldInteger a v) (hx : x.number.At p) (hv : |v| ≤ t.highest - t.unit)
    (hsum : |v + p| ≤ t.highest - t.unit) :
    (Binary32.ofScaled a 0 + x).number.At (single.round (v + p)) ∧
      |single.round (v + p) - (v + p)| ≤ t.unit ∧ |single.round (v + p)| ≤ t.highest := by
  have hunit := t.unit_pos
  rw [highest_eq] at hv hsum ⊢
  have hscale : |v + p| ≤ 2 ^ ((t.bits - 1 : Nat) : Int) := by linarith
  have hlarge := t.two_pow_bits_le
  have herror := t.abs_round_sub_le_unit hscale
  have hstart : (Binary32.ofScaled a 0).number.At v := by
    have hstored := Binary32.at_ofScaled (v := a) (e := 0) (by
      rw [zpow_zero, mul_one, ← ha.1]
      linarith)
    rwa [zpow_zero, mul_one, ← ha.1, ha.2] at hstored
  have htriangle := abs_sub_abs_le_abs_sub (single.round (v + p)) (v + p)
  exact ⟨Binary32.at_add hstart hx (hscale.trans hlarge), herror, by linarith⟩

/-- Nothing saturates: the sum is only cut. -/
theorem addInteger_eq (ha : HeldInteger a v) (hx : x.number.At p) (hv : |v| ≤ t.highest - t.unit)
    (hsum : |v + p| ≤ t.highest - t.unit) :
    addInteger t a x = towardZero (single.round (v + p)) := by
  obtain ⟨hat, -, hsize⟩ := addition_at ha hx hv hsum
  have hcut := (abs_towardZero_le _).trans hsize
  obtain ⟨hlow, hhigh⟩ := abs_le.1 hcut
  have hlow : -t.highest ≤ towardZero (single.round (v + p)) := by exact_mod_cast hlow
  have hhigh : towardZero (single.round (v + p)) ≤ t.highest := by exact_mod_cast hhigh
  rw [addInteger, hat.clamp_divFloor]
  rw [SampleType.highest] at hlow hhigh ⊢
  rw [SampleType.lowest]
  omega

theorem adds_integers (t : SampleType) :
    Adds (addInteger t) HeldInteger (t.highest - t.unit) t.unit 1 where
  step a x v p ha hx hv hsum := by
    obtain ⟨hat, herror, -⟩ := addition_at ha hx hv hsum
    obtain ⟨m, e, hm, -, hvalue⟩ := Binary32.exists_multiple hat
    have hcut := abs_towardZero_sub_le (single.round (v + p))
    have hsmaller := abs_towardZero_le (single.round (v + p))
    have hkept : single.round (towardZero (single.round (v + p))) =
        towardZero (single.round (v + p)) := by
      rw [hvalue]
      exact BinaryFormat.round_towardZero (by decide) hm
    rw [addInteger_eq ha hx hv hsum]
    generalize single.round (v + p) = q at *
    refine ⟨_, ⟨rfl, hkept⟩, ?_, ?_⟩
    · have htriangle := abs_sub_abs_le_abs_sub q (v + p)
      linarith
    · have htriangle := abs_sub_le (towardZero q : ℚ) q (v + p)
      linarith
  silent a x v ha hx hv := by
    have hsum : |v + 0| ≤ t.highest - t.unit := by rwa [add_zero]
    rw [addInteger_eq ha hx hv hsum, add_zero, ha.2, ha.1, towardZero_intCast]
    exact ⟨rfl, by rw [← ha.1, ha.2]⟩

end Integers

/-! ## Floats -/

theorem adds_floats : Adds (· + ·) (fun x v => Number.At (Binary32.number x) v) 1
    (2 ^ (-25 : Int)) 0 where
  step x y v p hx hy _ hsum := by
    have hscale : |v + p| ≤ 2 ^ (0 : Int) := by rwa [zpow_zero]
    have herror := BinaryFormat.abs_round_single_sub_le (by decide) hscale
    rw [zero_sub] at herror
    have htriangle := abs_sub_abs_le_abs_sub (single.round (v + p)) (v + p)
    refine ⟨_, Binary32.at_add hx hy (hsum.trans (by norm_num)), ?_, ?_⟩ <;> linarith
  silent x y v hx hy hv := by
    have hsum := Binary32.at_add hx hy (by rw [add_zero]; exact hv.trans (by norm_num))
    rwa [add_zero, Binary32.round_of_at hx] at hsum

end Downmix

end PcmConversion
