import PcmConversion.Proofs.Rate.Conservation
import PcmConversion.Proofs.Numeric.Order
import PcmConversion.Proofs.Rate.Standard

/-!
# Backends that work in blocks

A block backend turns each `blockIn` frames into `blockOut` and saves what does not fill a block
(`RateBackend.InBlocks`).  It keeps pace with the ratio of the two lengths, however long a batch is
(`InBlocks.keepsPace`), so a stream that ends without a fault has its frames at the other rate,
rounded (`length_of_inBlocks`).
-/

namespace PcmConversion

variable {σ : Type}

namespace RateBackend

variable {B : RateBackend σ} {saved : σ → Nat} {n blockIn blockOut source target : Nat} {b b' : σ}
  {calls : List (BackendCall σ)}

/-- From the state `b` on, every call wants and uses `n` frames and converts the whole blocks that
these make with what was `saved` before, unless it breaks off with a fault. -/
structure InBlocks (B : RateBackend σ) (saved : σ → Nat) (n blockIn blockOut : Nat) (b : σ) :
    Prop where
  empty : saved b = 0
  wants : ∀ b', B.Reaches b b' → B.inputFramesNext b' = n
  makes : ∀ b', B.Reaches b b' → B.outputFramesMax b' = (blockIn - 1 + n) / blockIn * blockOut
  process : ∀ b' batch, B.Reaches b b' →
    (∃ fault, (B.process b' batch).1 = .error (.fault fault)) ∨
      (∃ written, (B.process b' batch).1 =
        .ok ⟨n, (saved b' + n) / blockIn * blockOut, written⟩) ∧
      saved (B.process b' batch).2 = (saved b' + n) % blockIn

theorem Linked.of_append {first later : List (BackendCall σ)}
    (h : B.Linked b (first ++ later) b') : ∃ b'', B.Linked b first b'' ∧ B.Linked b'' later b' := by
  induction first generalizing b with
  | nil => exact ⟨b, .nil b, h⟩
  | cons call first ih =>
      cases h with
      | cons hrest =>
          obtain ⟨b'', hfirst, hlater⟩ := ih hrest
          exact ⟨b'', .cons hfirst, hlater⟩

/-- The frames of calls without faults are in the blocks that were converted, but for less than one
block. -/
theorem InBlocks.exists_blocks (h : B.InBlocks saved n blockIn blockOut b) (hblockIn : 1 ≤ blockIn)
    (hlinked : B.Linked b calls b')
    (hcalls : ∀ call ∈ calls, ∀ fault, B.answer call ≠ .error (.fault fault)) :
    ∃ blocks, B.generated calls = blocks * blockOut ∧
      blocks * blockIn + saved b' = calls.length * n ∧ saved b' < blockIn := by
  -- On the calls, from any state that was reached: each saves what it does not convert.
  have hrun : ∀ {b₁ calls b'}, B.Linked b₁ calls b' → B.Reaches b b₁ → saved b₁ < blockIn →
      (∀ call ∈ calls, ∀ fault, B.answer call ≠ .error (.fault fault)) →
      ∃ blocks, B.generated calls = blocks * blockOut ∧
        blocks * blockIn + saved b' = saved b₁ + calls.length * n ∧ saved b' < blockIn := by
    intro b₁ calls b' hlinked
    induction hlinked with
    | nil => exact fun _ hsaved _ => ⟨0, by simp, by simp, hsaved⟩
    | @cons b₁ b' batch calls _ ih =>
        intro hreaches _ hcalls
        rcases h.process b₁ batch hreaches with ⟨fault, hfault⟩ | ⟨⟨written, hanswer⟩, hsaved⟩
        · exact absurd hfault (hcalls _ List.mem_cons_self fault)
        obtain ⟨blocks, hgenerated, hcount, hlast⟩ := ih (hreaches.process batch)
          (hsaved ▸ Nat.mod_lt _ hblockIn)
          fun call hcall => hcalls call (List.mem_cons_of_mem _ hcall)
        refine ⟨(saved b₁ + n) / blockIn + blocks, ?_, ?_, hlast⟩
        · rw [generated, answer, hanswer, hgenerated, Nat.add_mul]
        · have hdivided := Nat.div_add_mod' (saved b₁ + n) blockIn
          rw [hsaved] at hcount
          rw [List.length_cons, Nat.add_mul, Nat.succ_mul]
          omega
  obtain ⟨blocks, hgenerated, hcount, hlast⟩ := hrun hlinked .refl (by rw [h.empty]; omega) hcalls
  exact ⟨blocks, hgenerated, by rw [hcount, h.empty, Nat.zero_add], hlast⟩

/-- A call without a fault takes its frames and makes no more than a full batch could. -/
theorem InBlocks.complies (h : B.InBlocks saved n blockIn blockOut b) (hn : 1 ≤ n)
    (hblockIn : 1 ≤ blockIn) (hlinked : B.Linked b calls b')
    (hcalls : ∀ call ∈ calls, ∀ fault, B.answer call ≠ .error (.fault fault)) :
    ∀ call ∈ calls, B.Complies (B.outputFramesMax b) call := by
  intro call hcall
  obtain ⟨first, later, rfl⟩ := List.append_of_mem hcall
  obtain ⟨b'', hfirst, hlater⟩ := hlinked.of_append
  obtain ⟨-, -, -, hsaved⟩ := h.exists_blocks hblockIn hfirst
    fun call hcall => hcalls call (List.mem_append_left _ hcall)
  cases hlater with
  | @cons _ _ batch _ _ =>
      have hreaches := hfirst.reaches .refl
      rcases h.process b'' batch hreaches with ⟨fault, hfault⟩ | ⟨⟨written, hanswer⟩, -⟩
      · exact absurd hfault (hcalls _ hcall fault)
      refine ⟨_, hanswer, ?_, fun _ => ⟨(h.wants b'' hreaches).symm, hn⟩⟩
      rw [h.makes b .refl]
      exact Nat.mul_le_mul_right _ (Nat.div_le_div_right (by omega))

/-- Blocks in the ratio of the rates keep pace with it. -/
theorem InBlocks.keepsPace (h : B.InBlocks saved n blockIn blockOut b) (hn : 1 ≤ n)
    (hblockIn : 1 ≤ blockIn) (hratio : blockIn * target = blockOut * source)
    (hlinked : B.Linked b calls b')
    (hcalls : ∀ call ∈ calls, ∀ fault, B.answer call ≠ .error (.fault fault)) :
    B.KeepsPace source target n b calls := by
  have hprefix : ∀ first, first <+: calls → ∃ blocks rest,
      B.generated first = blocks * blockOut ∧ blocks * blockIn + rest = first.length * n ∧
        rest < blockIn := by
    rintro first ⟨later, rfl⟩
    obtain ⟨b'', hfirst, -⟩ := hlinked.of_append
    obtain ⟨blocks, hblocks⟩ := h.exists_blocks hblockIn hfirst
      fun call hcall => hcalls call (List.mem_append_left _ hcall)
    exact ⟨blocks, _, hblocks⟩
  -- One call may give a block more than its frames make, so any rest is worth less.
  have hroom : blockIn ≤ (blockIn - 1 + n) / blockIn * blockIn := by
    have hone : 1 ≤ (blockIn - 1 + n) / blockIn := (Nat.le_div_iff_mul_le hblockIn).2 (by omega)
    exact Nat.le_mul_of_pos_left _ hone
  refine ⟨fun first b' hb' => h.wants b' (hb'.reaches .refl), fun first b' hb' => ?_,
    h.complies hn hblockIn hlinked hcalls, fun first hfirst => ?_, fun first hfirst => ?_⟩
  · rw [h.makes b' (hb'.reaches .refl), h.makes b .refl]
  · obtain ⟨blocks, rest, hgenerated, hcount, -⟩ := hprefix first hfirst
    calc B.generated first * source = blocks * (blockOut * source) := by
          rw [hgenerated, Nat.mul_assoc]
      _ = target * (blocks * blockIn) := by rw [← hratio]; ring
      _ ≤ target * (first.length * n) := Nat.mul_le_mul_left _ (by omega)
  · obtain ⟨blocks, rest, hgenerated, hcount, hrest⟩ := hprefix first hfirst
    calc target * (first.length * n)
        ≤ target * (blocks * blockIn + (blockIn - 1 + n) / blockIn * blockIn) :=
          Nat.mul_le_mul_left _ (by omega)
      _ = (blocks + (blockIn - 1 + n) / blockIn) * (blockIn * target) := by ring
      _ = (B.generated first + B.outputFramesMax b) * source := by
          rw [hratio, hgenerated, h.makes b .refl]
          ring

end RateBackend

/-- Whatever is built for low latency works in batches of eight frames for each unit of quality, and
in blocks that are in the ratio of the rates. -/
def RateProvider.WorksInBlocks (P : RateProvider σ) : Prop :=
  ∀ (settings : Settings) (source target : UInt32) (channels : UInt16) (b : σ),
    settings.backend = .lowLatency → P.build settings source target channels = .ok b →
    ∃ saved blockIn blockOut, 1 ≤ blockIn ∧ 1 ≤ blockOut ∧
      blockIn * target.toNat = blockOut * source.toNat ∧
      P.backend.InBlocks saved (8 * settings.effectiveQuality) blockIn blockOut b

theorem one_le_toNat {rate : UInt32} (h : rate ≠ 0) : 1 ≤ rate.toNat :=
  Nat.pos_of_ne_zero fun hzero => h (UInt32.toNat_inj.1 hzero)

/-- A batch is not empty. -/
theorem Settings.one_le_batch (settings : Settings) : 1 ≤ 8 * settings.effectiveQuality := by
  rw [effectiveQuality]
  omega

namespace Resampler

variable {R : Resampler σ} {s : State σ} {saved : σ → Nat} {n blockIn blockOut source target : Nat}
  {b : σ}

/-- A new resampler over a block backend, paced in whole numbers, is fed the `inputs` and drained.
If no fault ends the run, the frames returned are those of the input at the other rate, rounded. -/
theorem length_of_inBlocks (hpacing : R.pacing = .exact source target) (hsource : 1 ≤ source)
    (htarget : 1 ≤ target) (hn : 1 ≤ n) (hblockIn : 1 ≤ blockIn)
    (hratio : blockIn * target = blockOut * source) (hstart : R.start b = .ok s)
    (hblocks : R.backend.InBlocks saved n blockIn blockOut b) (inputs : List (List Binary32))
    (hreturns : ∀ fault, (feedThen R.process R.drain s inputs).1 ≠ .error (.fault fault)) :
    ∃ out s', feedThen R.process R.drain s inputs = (.ok out, s') ∧
      out.length =
        divHalfUp (inputs.flatten.length / R.channels * target) source * R.channels := by
  obtain ⟨hbackend, -, hsize, -⟩ := start_fields hstart
  have hparts := fun fault => followedBy_ne_error (hreturns fault)
  have hfeedLinked := (R.feed_spec s inputs).1
  have hfeedCalls : ∀ call ∈ R.feedCalls s inputs, ∀ fault,
      R.backend.answer call ≠ .error (.fault fault) :=
    fun call hcall fault hanswer => (hparts fault).1 (error_of_feedCalls call hcall _ hanswer)
  rw [hbackend] at hfeedLinked
  obtain ⟨outs, mid, hfeed, hfed⟩ := feed_fed hsize
    (hblocks.complies hn hblockIn hfeedLinked hfeedCalls) (hparts _).1
  have hdrain : ∀ fault, (R.drain mid).1 ≠ .error (.fault fault) :=
    fun fault => (hparts fault).2 outs mid hfeed
  rw [hfeed] at hfeedLinked
  obtain ⟨b', hdrainLinked⟩ := R.drain_linked mid
  have hpace := hblocks.keepsPace hn hblockIn hratio (hfeedLinked.append hdrainLinked)
    fun call hcall fault hanswer => (List.mem_append.1 hcall).elim
      (fun hcall => hfeedCalls call hcall fault hanswer)
      fun hcall => hdrain fault (error_of_drainCalls call hcall _ hanswer)
  obtain ⟨tail, s', padded, hended⟩ := exists_ended (hfed.emits.size_scratch.trans hsize)
    (fun call hcall => (hpace.complies call (List.mem_append_right _ hcall)).delivers)
    fun fault _ => hdrain fault
  refine ⟨outs ++ tail, R.restart s', ?_, ?_⟩
  · rw [feedThen, hfeed, followedBy_ok, hended.returns, prepend_ok]
  · exact length_of_keepsPace hpacing hsource htarget hn hstart hpace hfeed hfed hended

end Resampler

/-! ## The low-latency backend -/

/-- Rates and batches are not so far apart that a batch would span no block. -/
theorem size_div_pos {chunk rate : Nat} (hchunk : 1 ≤ chunk) (hrate : 1 ≤ rate)
    (hbound : rate < 2 ^ 32) :
    0 < (BinaryFormat.single.div (BinaryFormat.single.ofNat chunk)
      (BinaryFormat.single.ofNat rate)).size := by
  have hone : (BinaryFormat.single.ofNat 1).size = (1 : ℚ) := by
    rw [show BinaryFormat.single.ofNat 1 = .finite false 8388608 (-23) by decide +kernel]
    norm_num
  have hlarge : (BinaryFormat.single.ofNat (2 ^ 32)).size = ((2 ^ 32 : ℚ) : WithTop ℚ) := by
    rw [show BinaryFormat.single.ofNat (2 ^ 32) = .finite false 8388608 9 by decide +kernel]
    norm_num
  have hdigits : 0 < BinaryFormat.single.digits := by decide
  have hv : (1 : ℚ) ≤ (BinaryFormat.single.ofNat chunk).size :=
    hone ▸ BinaryFormat.size_ofNat_mono hdigits hchunk
  have hwlow : (1 : ℚ) ≤ (BinaryFormat.single.ofNat rate).size :=
    hone ▸ BinaryFormat.size_ofNat_mono hdigits hrate
  have hwhigh : (BinaryFormat.single.ofNat rate).size ≤ ((2 ^ 32 : ℚ) : WithTop ℚ) :=
    hlarge ▸ BinaryFormat.size_ofNat_mono hdigits hbound.le
  have hzero : (0 : WithTop ℚ) < (1 : ℚ) := WithTop.coe_lt_coe.2 one_pos
  rcases Number.cases_of_size_pos (hzero.trans_le hwlow) with ⟨n, f, hw⟩ | hw
  case inr =>
    rw [hw] at hwhigh
    exact absurd hwhigh (not_le.2 (WithTop.coe_lt_top _))
  rw [hw] at hwlow hwhigh ⊢
  replace hwlow : (1 : ℚ) ≤ n * 2 ^ f := WithTop.coe_le_coe.1 hwlow
  replace hwhigh : (n : ℚ) * 2 ^ f ≤ 2 ^ 32 := WithTop.coe_le_coe.1 hwhigh
  have hn : 0 < n := by
    refine Nat.pos_of_ne_zero ?_
    rintro rfl
    norm_num at hwlow
  rcases Number.cases_of_size_pos (hzero.trans_le hv) with ⟨m, e, hv'⟩ | hv'
  case inr =>
    rw [hv']
    exact WithTop.coe_lt_top _
  rw [hv'] at hv ⊢
  replace hv : (1 : ℚ) ≤ m * 2 ^ e := WithTop.coe_le_coe.1 hv
  have hm : 0 < m := by
    refine Nat.pos_of_ne_zero ?_
    rintro rfl
    norm_num at hv
  simp only [BinaryFormat.div, if_neg hn.ne', bne_self_eq_false]
  refine BinaryFormat.size_nearest_pos hdigits hm hn ?_
  have hquotient : (2 : ℚ) ^ (-32 : Int) ≤ m / n * 2 ^ (e - f) := by
    rw [show (m : ℚ) / n * 2 ^ (e - f) = m * 2 ^ e / (n * 2 ^ f) by
      rw [zpow_sub₀ two_ne_zero]
      field_simp, le_div_iff₀ (by positivity)]
    calc (2 : ℚ) ^ (-32 : Int) * (n * 2 ^ f) ≤ 2 ^ (-32 : Int) * 2 ^ 32 := by gcongr
      _ = 1 := by norm_num
      _ ≤ m * 2 ^ e := hv
  have hlog := (Int.zpow_le_iff_le_log one_lt_two (by positivity)).1 hquotient
  unfold BinaryFormat.ulp
  refine lt_of_lt_of_le ?_ (le_max_left _ _)
  show (-149 : Int) < _
  simp only [BinaryFormat.single]
  omega

theorem one_le_blockLengths {source target chunk : Nat} (hsource : 1 ≤ source)
    (htarget : 1 ≤ target) (hchunk : 1 ≤ chunk) (hbound : source < 2 ^ 32) :
    1 ≤ (blockLengths source target chunk).1 ∧ 1 ≤ (blockLengths source target chunk).2 := by
  have hgcd : 0 < Nat.gcd source target := Nat.gcd_pos_of_pos_left _ hsource
  have hreduced : 1 ≤ source / Nat.gcd source target :=
    Nat.div_pos (Nat.le_of_dvd hsource (Nat.gcd_dvd_left ..)) hgcd
  have hreduced' : 1 ≤ target / Nat.gcd source target :=
    Nat.div_pos (Nat.le_of_dvd htarget (Nat.gcd_dvd_right ..)) hgcd
  have hblocks := Number.one_le_clamp
    (size_div_pos hchunk hreduced ((Nat.div_le_self ..).trans_lt hbound))
    (show (1 : Int) ≤ 0xffffffffffffffff by norm_num)
  unfold blockLengths
  simp only
  exact ⟨Nat.mul_pos (by omega) hreduced, Nat.mul_pos (by omega) hreduced'⟩

theorem blockLengths_ratio (source target chunk : Nat) :
    (blockLengths source target chunk).1 * target =
      (blockLengths source target chunk).2 * source := by
  unfold blockLengths
  simp only [Nat.mul_assoc]
  rw [Nat.div_mul_right_comm (Nat.gcd_dvd_left source target),
    Nat.div_mul_right_comm (Nat.gcd_dvd_right source target), Nat.mul_comm source]

namespace StandardBackend

/-- Frames that a low-latency backend has saved. -/
def savedFrames : StandardBackend → Nat
  | general _ => 0
  | lowLatency s => s.saved.length / s.channels

/-- A low-latency backend with these lengths, which has saved whole frames. -/
structure InShape (chunk blockIn blockOut : Nat) (s : BlockTransform) : Prop where
  chunk : s.chunk = chunk
  blockIn : s.blockIn = blockIn
  blockOut : s.blockOut = blockOut
  saved : s.channels ∣ s.saved.length

variable {chunk blockIn blockOut : Nat} {s : BlockTransform}

/-- A call converts the whole blocks that are there and keeps the shape. -/
theorem InShape.process (h : InShape chunk blockIn blockOut s) (batch : Batch) :
    InShape chunk blockIn blockOut (s.process batch).2 ∧
      ((∃ fault, (s.process batch).1 = .error (.fault fault)) ∨
        (∃ written, (s.process batch).1 =
          .ok ⟨chunk, ((lowLatency s).savedFrames + chunk) / blockIn * blockOut, written⟩) ∧
        (lowLatency (s.process batch).2).savedFrames =
          ((lowLatency s).savedFrames + chunk) % blockIn) := by
  rcases s.process_cases batch with ⟨fault, -, heq⟩ |
    ⟨hchannels, written, saved, overlap, heq, -, hsaved⟩
  · rw [heq]
    exact ⟨h, .inl ⟨fault, rfl⟩⟩
  obtain ⟨frames, hframes⟩ := h.saved
  rw [heq]
  have hpending : s.pendingSamples = (frames + chunk) * s.channels := by
    rw [BlockTransform.pendingSamples, hframes, h.chunk]
    ring
  have hblocks : s.blocks = (frames + chunk) / blockIn := by
    rw [BlockTransform.blocks, hpending, Nat.mul_div_cancel _ hchannels, h.blockIn]
  have hrest : saved.length = (frames + chunk) % blockIn * s.channels := by
    rw [hsaved, hpending, hblocks, h.blockIn, ← Nat.sub_mul, Nat.mod_eq_sub_div_mul]
  have hframes' : (lowLatency s).savedFrames = frames := by
    rw [savedFrames, hframes, Nat.mul_div_cancel_left _ hchannels]
  refine ⟨⟨h.chunk, h.blockIn, h.blockOut, ?_⟩, .inr ⟨⟨written, ?_⟩, ?_⟩⟩
  · exact hrest ▸ Nat.dvd_mul_left ..
  · rw [hframes', hblocks, h.chunk, h.blockOut]
  · rw [hframes', savedFrames]
    exact hrest ▸ Nat.mul_div_cancel _ hchannels

theorem InShape.reaches (h : InShape chunk blockIn blockOut s) {b : StandardBackend}
    (hb : backend.Reaches (lowLatency s) b) :
    ∃ s', b = lowLatency s' ∧ InShape chunk blockIn blockOut s' := by
  induction hb with
  | refl => exact ⟨s, rfl, h⟩
  | process batch _ ih =>
      obtain ⟨s', rfl, hs'⟩ := ih
      exact ⟨_, rfl, (hs'.process batch).1⟩
  | reset _ ih =>
      obtain ⟨s', rfl, hs'⟩ := ih
      exact ⟨_, rfl, hs'.chunk, hs'.blockIn, hs'.blockOut, Nat.dvd_zero _⟩

theorem InShape.inBlocks (h : InShape chunk blockIn blockOut s) (hempty : s.saved = []) :
    backend.InBlocks savedFrames chunk blockIn blockOut (lowLatency s) where
  empty := by simp [savedFrames, hempty]
  wants b' hb' := by
    obtain ⟨s', rfl, hs'⟩ := h.reaches hb'
    exact hs'.chunk
  makes b' hb' := by
    obtain ⟨s', rfl, hs'⟩ := h.reaches hb'
    rw [← hs'.chunk, ← hs'.blockIn, ← hs'.blockOut]
    rfl
  process b' batch hb' := by
    obtain ⟨s', rfl, hs'⟩ := h.reaches hb'
    exact (hs'.process batch).2

/-- The low-latency backend works in blocks of the lengths that it computes from the rates. -/
theorem worksInBlocks : RateProvider.standard.WorksInBlocks := by
  intro settings source target channels b hbackend hbuild
  simp only [RateProvider.standard, build, hbackend, BlockTransform.build, bind, Except.bind, pure,
    Except.pure, throw, throwThe, MonadExceptOf.throw, Functor.map, Except.map] at hbuild
  split_ifs at hbuild with hrates
  obtain rfl := Except.ok.inj hbuild
  obtain ⟨hsource, htarget⟩ := not_or.1 hrates
  obtain ⟨hin, hout⟩ := one_le_blockLengths (one_le_toNat hsource) (one_le_toNat htarget)
    settings.one_le_batch source.toNat_lt
  exact ⟨savedFrames, _, _, hin, hout, blockLengths_ratio ..,
    InShape.inBlocks ⟨rfl, rfl, rfl, Nat.dvd_zero _⟩ rfl⟩

end StandardBackend

end PcmConversion
