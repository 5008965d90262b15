import PcmConversion.Proofs.Conversion.Chunks
import PcmConversion.Proofs.Rate.Blocks

/-!
# The length of a whole stream

With the low-latency backend, and frame counts in whole numbers, a stream of `N` source frames comes
out as `N` frames at the other rate, rounded, whatever the block lengths, formats and channels
(`length_of_lowLatency`).
-/

namespace PcmConversion

variable {σ : Type}

theorem Resampler.feed_dvd_length {R : Resampler σ} {s s' : State σ} {inputs : List (List Binary32)}
    {out : List Binary32} (h : feed R.process s inputs = (.ok out, s')) :
    R.channels ∣ out.length := by
  induction inputs generalizing s s' out with
  | nil =>
      rw [feed_nil] at h
      obtain rfl := Except.ok.inj (congrArg Prod.fst h)
      exact Nat.dvd_zero _
  | cons input inputs ih =>
      rw [feed_cons] at h
      rcases hprocess : R.process s input with ⟨failure | first, mid⟩
      · rw [hprocess] at h
        cases h
      · rcases hfeed : feed R.process mid inputs with ⟨failure | rest, last⟩
        · rw [hprocess, followedBy_ok, hfeed] at h
          cases h
        · rw [hprocess, followedBy_ok, hfeed, prepend_ok] at h
          obtain rfl := Except.ok.inj (congrArg Prod.fst h)
          rw [List.length_append]
          exact Nat.dvd_add (process_dvd_length hprocess) (ih hfeed)

namespace Conversion

variable {c : Conversion σ} {r : RunningResampler σ} {g : List UInt8 → List Binary32}
  {f : List Binary32 → List UInt8}

/-- A whole stream through a conversion is one through its resampler, between two framewise
stages. -/
theorem feedThen_of_some {k : Nat} (hf : Framewise r.machine.channels k f)
    (hload : ∀ x, c.load x = .ok (.floats (g x)))
    (hfinish : ∀ xs, c.finish (.floats xs) = .ok (f xs))
    (s : Resampler.State σ) (chunks : List (List UInt8)) :
    feedThen convert flush (c.withState r s) chunks =
      resumed c r f (feedThen r.machine.process r.machine.drain s (chunks.map g)) := by
  rw [feedThen, feedThen, feed_of_some hf hload hfinish]
  rcases hfeed : feed r.machine.process s (chunks.map g) with ⟨failure | outs, mid⟩
  · rfl
  have hflush : (c.withState r mid).flush = resumed c r f (r.machine.drain mid) :=
    flush_of_some (c := c.withState r mid) rfl hfinish hf.nil
  -- Whole frames come out of the chunks, so what is made of the tail follows.
  have hwhole := Resampler.feed_dvd_length hfeed
  simp only [resumed, Except.map, followedBy_ok]
  rw [hflush, resumed]
  rcases r.machine.drain mid with ⟨failure | tail, last⟩
  · rfl
  · simp [Except.map, hf.append outs tail hwhole]

/-- **The length of a low-latency stream.**  Let frame counts be taken in whole numbers, and let the
low-latency backend work in blocks.  A new conversion between different rates is fed chunks of whole
frames and ended.  If no fault ends the run, it returns as many target frames as all source frames
together are at the other rate, rounded. -/
theorem length_of_lowLatency {P : RateProvider σ} (hpacing : P.pacing = Pacing.exact)
    (hblocks : P.WorksInBlocks) {settings : Settings} (hbackend : settings.backend = .lowLatency)
    {source target : StreamParams} (hrates : source.rate ≠ target.rate)
    (hcreate : create P settings source target = .ok c) (chunks : List (List UInt8))
    (hframes : ∀ x ∈ chunks, source.frameBytes ∣ x.length)
    (hreturns : ∀ fault, (feedThen convert flush c chunks).1 ≠ .error (.fault fault)) :
    ∃ out c', feedThen convert flush c chunks = (.ok out, c') ∧
      out.length = target.frameBytes *
        divHalfUp (chunks.flatten.length / source.frameBytes * target.rate.toNat)
          source.rate.toNat := by
  have hc := accepted_of_create hcreate
  obtain ⟨hsource, htarget⟩ := streams_of_create hcreate
  obtain ⟨hsourceValid, htargetValid⟩ := isValid_of_create hcreate
  simp only [StreamParams.isValid, Bool.and_eq_true, bne_iff_ne, ne_eq] at hsourceValid htargetValid
  rcases resampler_of_create hcreate with ⟨heq, -⟩ | ⟨-, r, b, hsome, hnew⟩
  case inl => exact absurd heq hrates
  obtain ⟨g, f, hg, hf, hload, hfinish⟩ := exists_stages hc (by rw [hsome]; rfl)
  rw [hsource] at hg hf
  rw [htarget, ← hnew.channels] at hf
  rw [← hnew.channels] at hg
  have hstream := feedThen_of_some (c := c) (r := r) hf hload hfinish r.state chunks
  rw [withState_self hsome] at hstream
  obtain ⟨saved, blockIn, blockOut, hblockIn, -, hratio, hinblocks⟩ :=
    hblocks settings _ _ _ b hbackend hnew.built
  rw [hstream] at hreturns ⊢
  obtain ⟨out, s', hfeed, hlength⟩ := Resampler.length_of_inBlocks
    (by rw [hnew.pacing, hpacing]) (one_le_toNat hsourceValid.1) (one_le_toNat htargetValid.1)
    settings.one_le_batch hblockIn hratio
    hnew.start (hnew.backend ▸ hinblocks) (chunks.map g) fun fault hfault =>
      hreturns fault (by rw [resumed, hfault]; rfl)
  rw [hfeed]
  refine ⟨f out, _, rfl, ?_⟩
  have hwhole := dvd_length_flatten hframes
  have hsamples : (chunks.map g).flatten.length =
      chunks.flatten.length / source.frameBytes * r.machine.channels := by
    rw [← hg.flatten hframes, hg.length _ hwhole]
  rw [hsamples, Nat.mul_div_cancel _ r.machine.channels_pos] at hlength
  rw [hf.length out (hlength ▸ Nat.dvd_mul_left ..), hlength,
    Nat.mul_div_cancel _ r.machine.channels_pos]
  exact Nat.mul_comm ..

/-- A low-latency backend on silence, which it turns into silence: only the frames are counted. -/
structure SilentBlocks where
  channels : Nat
  batch : Nat
  blockIn : Nat
  blockOut : Nat
  saved : Nat

namespace SilentBlocks

def backend : RateBackend SilentBlocks where
  name _ := "low-latency"
  inputFramesNext s := s.batch
  outputFramesMax s := (s.blockIn - 1 + s.batch) / s.blockIn * s.blockOut
  outputDelay s := s.blockOut / 2
  process s _ :=
    let frames := (s.saved + s.batch) / s.blockIn * s.blockOut
    (.ok ⟨s.batch, frames, List.replicate (frames * s.channels) Binary32.zero⟩,
      { s with saved := (s.saved + s.batch) % s.blockIn })
  reset s := { s with saved := 0 }

/-- Such backends, with the block lengths of the low-latency backend and exact frame counts. -/
def provider : RateProvider SilentBlocks where
  backend := backend
  build settings source target channels :=
    if source = 0 ∨ target = 0 then
      .error (.error (.backendInit "low-latency" channels "no rate"))
    else
      let batch := 8 * settings.effectiveQuality
      let (blockIn, blockOut) := blockLengths source.toNat target.toNat batch
      .ok { channels := channels.toNat, batch, blockIn, blockOut, saved := 0 }
  pacing := Pacing.exact

theorem reaches {s s' : SilentBlocks} (h : backend.Reaches s s') :
    s' = { s with saved := s'.saved } := by
  induction h with
  | refl => rfl
  | process batch _ ih =>
      rw [ih]
      rfl
  | reset _ ih =>
      rw [ih]
      rfl

theorem worksInBlocks : provider.WorksInBlocks := by
  intro settings source target channels s hbackend hbuild
  simp only [provider] at hbuild
  split_ifs at hbuild with hrates
  obtain rfl := Except.ok.inj hbuild
  obtain ⟨hsource, htarget⟩ := not_or.1 hrates
  obtain ⟨hin, hout⟩ := one_le_blockLengths (one_le_toNat hsource) (one_le_toNat htarget)
    settings.one_le_batch source.toNat_lt
  refine ⟨saved, _, _, hin, hout, blockLengths_ratio .., rfl, fun s' hs' => ?_, fun s' hs' => ?_,
    fun s' batch hs' => .inr ?_⟩
  all_goals rw [reaches hs']
  · rfl
  · rfl
  · exact ⟨⟨_, rfl⟩, rfl⟩

end SilentBlocks

/-- Fifty silent frames of six channels, in chunks of twenty, none and thirty,
folded into stereo at 48 kHz. -/
theorem length_of_lowLatency_silence :
    ∃ (c : Conversion SilentBlocks) (chunks : List (List UInt8)),
      create SilentBlocks.provider { backend := .lowLatency } ⟨44100, 6, ⟨.s16, .big⟩⟩
        ⟨48000, 2, ⟨.u24, .little⟩⟩ = .ok c ∧
      chunks = [List.replicate 240 0, [], List.replicate 360 0] ∧
      ∃ out c', feedThen convert flush c chunks = (.ok out, c') ∧ out.length = 8 * 54 := by
  have hcreate : create SilentBlocks.provider { backend := .lowLatency } ⟨44100, 6, ⟨.s16, .big⟩⟩
      ⟨48000, 2, ⟨.u24, .little⟩⟩ = .ok _ := rfl
  refine ⟨_, _, hcreate, rfl, ?_⟩
  obtain ⟨out, c', hfeed, hlength⟩ := length_of_lowLatency (P := SilentBlocks.provider) rfl
    SilentBlocks.worksInBlocks rfl (by decide) hcreate
    [List.replicate 240 0, [], List.replicate 360 0] (by decide +kernel) fun fault hfault => by
      have hnone := congrArg (fun result => result.toOption.isNone) hfault
      exact absurd (show _ = true from hnone) (by decide +kernel)
  exact ⟨out, c', hfeed, hlength.trans (by decide +kernel)⟩

end Conversion

end PcmConversion
