import PcmConversion.Proofs.Conversion.Stages
import PcmConversion.Proofs.Rate.Renewal

/-!
# Requests to a conversion

The owner of a conversion sends chunks and ends streams.  Without a resampler every request is
answered on its own (`convert_of_none`); with one, a request to the conversion is a request to its
resampler between two framewise stages (`perform_of_some`), so a session with the conversion is a
session with the resampler (`stateAfter_of_some`, `results_of_some`).  Two conversions whose stages
correspond, and which share a resampler, correspond over whole sessions (`Follows.results`).
-/

namespace PcmConversion.Conversion

variable {σ : Type} {c : Conversion σ}

/-- What the owner of a conversion can ask for. -/
inductive Request where
  | chunk (input : List UInt8)
  | flush

/-- Answer a request. -/
def perform (c : Conversion σ) : Request → Except Failure (List UInt8) × Conversion σ
  | .chunk input => c.convert input
  | .flush => c.flush

/-- No request changes anything but the state of the resampler. -/
theorem exists_perform_snd (c : Conversion σ) (request : Request) :
    ∃ resampler, resampler.isSome = c.resampler.isSome ∧
      (c.perform request).2 = { c with resampler } := by
  cases request with
  | chunk input =>
      show ∃ resampler, _ ∧ (c.convert input).2 = { c with resampler }
      unfold convert
      cases c.load input with
      | error fault => exact ⟨c.resampler, rfl, rfl⟩
      | ok s => cases s <;> cases hresampler : c.resampler <;> exact ⟨_, by simp [hresampler], rfl⟩
  | flush =>
      show ∃ resampler, _ ∧ c.flush.2 = { c with resampler }
      unfold flush
      cases hresampler : c.resampler <;> exact ⟨_, by simp [hresampler], rfl⟩

/-! ### What is handed to the last stages -/

/-- The samples come from the resampler, or were read of one of the chunks. -/
def Handed (c : Conversion σ) (requests : List Request) (s : Samples) : Prop :=
  (c.resampler.isSome ∧ ∃ xs, s = .floats xs) ∨
    ∃ input, .chunk input ∈ requests ∧ c.load input = .ok s

theorem liftFault_eq_ok {α : Type} {x : Except Fault α} {a : α} (h : liftFault x = .ok a) :
    x = .ok a := by
  cases x with
  | error fault => cases h
  | ok a' => exact congrArg Except.ok (Except.ok.inj h)

theorem finish_of_convert {input out : List UInt8} (h : (c.convert input).1 = .ok out) :
    ∃ s, c.Handed [.chunk input] s ∧ c.finish s = .ok out := by
  unfold convert at h
  cases hload : c.load input with
  | error fault => simp [hload] at h
  | ok s =>
      have hread : c.Handed [.chunk input] s := .inr ⟨input, List.mem_singleton_self _, hload⟩
      rw [hload] at h
      cases s with
      | integers b => exact ⟨_, hread, liftFault_eq_ok h⟩
      | floats xs =>
          cases hresampler : c.resampler with
          | none =>
              rw [hresampler] at h
              exact ⟨_, hread, liftFault_eq_ok h⟩
          | some r =>
              rw [hresampler] at h
              obtain ⟨ys, -, hfinish⟩ := bind_eq_ok h
              exact ⟨.floats ys, .inl ⟨by rw [hresampler]; rfl, ys, rfl⟩, liftFault_eq_ok hfinish⟩

theorem finish_of_flush {out : List UInt8} (h : c.flush.1 = .ok out) :
    out = [] ∨ ∃ s, c.Handed [.flush] s ∧ c.finish s = .ok out := by
  unfold flush at h
  cases hresampler : c.resampler with
  | none =>
      rw [hresampler] at h
      exact .inl (Except.ok.inj h).symm
  | some r =>
      rw [hresampler] at h
      obtain ⟨tail, -, hfinish⟩ := bind_eq_ok h
      by_cases hempty : tail.isEmpty = true
      · rw [if_pos hempty] at hfinish
        exact .inl (Except.ok.inj hfinish).symm
      · rw [if_neg hempty] at hfinish
        exact .inr ⟨.floats tail, .inl ⟨by rw [hresampler]; rfl, tail, rfl⟩,
          liftFault_eq_ok hfinish⟩

/-- Every answer with bytes is made by the last stages. -/
theorem finish_of_mem_results {requests : List Request} {out : List UInt8}
    (h : .ok out ∈ results perform c requests) :
    out = [] ∨ ∃ s, c.Handed requests s ∧ c.finish s = .ok out := by
  induction requests generalizing c with
  | nil => cases h
  | cons request requests ih =>
      rcases List.mem_cons.1 h with hfirst | hlater
      · have hone : out = [] ∨ ∃ s, c.Handed [request] s ∧ c.finish s = .ok out := by
          cases request with
          | chunk input => exact .inr (finish_of_convert hfirst.symm)
          | flush => exact finish_of_flush hfirst.symm
        refine hone.imp_right ?_
        rintro ⟨s, hhanded, hfinish⟩
        refine ⟨s, hhanded.imp_right ?_, hfinish⟩
        rintro ⟨input, hinput, hload⟩
        exact ⟨input, List.mem_cons.2 (.inl (List.mem_singleton.1 hinput)), hload⟩
      · obtain ⟨resampler, hsome, hnext⟩ := exists_perform_snd c request
        rw [hnext] at hlater
        refine (ih hlater).imp_right ?_
        rintro ⟨s, hhanded, hfinish⟩
        refine ⟨s, ?_, hfinish⟩
        rcases hhanded with ⟨hresampled, hfloats⟩ | ⟨input, hinput, hload⟩
        · exact .inl ⟨hsome ▸ hresampled, hfloats⟩
        · exact .inr ⟨input, List.mem_cons_of_mem _ hinput, hload⟩

/-! ## Without a resampler -/

theorem convert_of_none (hresampler : c.resampler = none) (x : List UInt8) :
    c.convert x = (liftFault (c.load x >>= c.finish), c) := by
  unfold convert
  rw [hresampler]
  cases c.load x with
  | error fault => rfl
  | ok s => cases s <;> rfl

theorem flush_of_none (hresampler : c.resampler = none) : c.flush = (.ok [], c) := by
  unfold flush
  rw [hresampler]

theorem load_finish_streams (hc : c.Accepted) :
    Streams c.source.frameBytes c.target.frameBytes id (fun x => c.load x >>= c.finish) id := by
  rw [StreamParams.frameBytes]
  rcases load_streams hc with hfloats | ⟨F, hinteger, htarget, hfold, -, hintegers⟩
  · have hfinish := finish_floats_streams hc
    rw [← Nat.one_mul c.source.channels.toNat] at hfinish
    exact (hfloats.scale hc.channels_pos).bind hfinish (Nat.mul_pos one_pos hc.channels_pos)
  · exact (hintegers.scale hc.channels_pos).bind
      (finish_integers_streams hc hinteger htarget hfold)
      (Nat.mul_pos F.type.bytes_pos hc.channels_pos)

/-- Each chunk is answered on its own. -/
theorem exists_convert_of_none (hc : c.Accepted) (hresampler : c.resampler = none) :
    ∃ f, Framewise c.source.frameBytes c.target.frameBytes f ∧
      ∀ x, c.convert x = (.ok (f x), c) := by
  obtain ⟨f, hf, hconvert⟩ := load_finish_streams hc
  refine ⟨f, hf, fun x => ?_⟩
  rw [convert_of_none hresampler]
  exact Prod.ext (congrArg liftFault (hconvert x)) rfl

theorem stateAfter_of_none (hresampler : c.resampler = none) (requests : List Request) :
    stateAfter perform c requests = c := by
  refine stateAfter_invariant (P := (· = c)) ?_ rfl requests
  rintro _ request rfl
  cases request with
  | chunk x => exact congrArg Prod.snd (convert_of_none hresampler x)
  | flush => exact congrArg Prod.snd (flush_of_none hresampler)

/-! ## With a resampler -/

/-- The same conversion with its resampler in the state `s`. -/
def withState (c : Conversion σ) (r : RunningResampler σ) (s : Resampler.State σ) : Conversion σ :=
  { c with resampler := some { r with state := s } }

/-- What a conversion answers when its resampler has answered `o`. -/
def resumed (c : Conversion σ) (r : RunningResampler σ) (f : List Binary32 → List UInt8)
    (o : Resampler.Outcome σ (List Binary32)) : Except Failure (List UInt8) × Conversion σ :=
  (o.1.map f, c.withState r o.2)

/-- What a request to a conversion asks of its resampler, if chunks are read by `g`. -/
def Request.forResampler (g : List UInt8 → List Binary32) : Request → Resampler.Request
  | .chunk input => .chunk (g input)
  | .flush => .drain

variable {r : RunningResampler σ} {g : List UInt8 → List Binary32} {f : List Binary32 → List UInt8}

theorem withState_self (hresampler : c.resampler = some r) : c.withState r r.state = c := by
  rw [withState, ← hresampler]

theorem convert_of_some (hresampler : c.resampler = some r)
    (hload : ∀ x, c.load x = .ok (.floats (g x)))
    (hfinish : ∀ xs, c.finish (.floats xs) = .ok (f xs))
    (x : List UInt8) :
    c.convert x = resumed c r f (r.machine.process r.state (g x)) := by
  unfold convert
  rw [hload, hresampler]
  simp only [RunningResampler.process, resumed]
  refine Prod.ext ?_ rfl
  cases (r.machine.process r.state (g x)).1 with
  | error failure => rfl
  | ok xs => simp [bind, Except.bind, hfinish, liftFault, Except.map]

/-- The end of a stream without a tail is not encoded, but that would give nothing either. -/
theorem flush_of_some (hresampler : c.resampler = some r)
    (hfinish : ∀ xs, c.finish (.floats xs) = .ok (f xs)) (hf : f [] = []) :
    c.flush = resumed c r f (r.machine.drain r.state) := by
  unfold flush
  rw [hresampler]
  simp only [RunningResampler.drain, resumed]
  refine Prod.ext ?_ rfl
  cases (r.machine.drain r.state).1 with
  | error failure => rfl
  | ok tail =>
      cases tail with
      | nil => simp [bind, Except.bind, pure, Except.pure, Except.map, hf]
      | cons x tail => simp [bind, Except.bind, hfinish, liftFault, Except.map]

/-- The stages before and after the resampler. -/
theorem exists_stages (hc : c.Accepted) (hresampler : c.resampler.isSome) :
    ∃ g f, Framewise c.source.frameBytes c.source.channels.toNat g ∧
      Framewise c.source.channels.toNat c.target.frameBytes f ∧
      (∀ x, c.load x = .ok (.floats (g x))) ∧ ∀ xs, c.finish (.floats xs) = .ok (f xs) := by
  -- Samples that stay integers belong to streams of one rate.
  rcases load_streams hc with hloads | ⟨-, -, -, -, hrates, -⟩
  case inr => exact absurd hrates (hc.rates hresampler)
  obtain ⟨g, hg, hload⟩ := hloads.scale hc.channels_pos
  obtain ⟨f, hf, hfinish⟩ := finish_floats_streams hc
  rw [Nat.one_mul] at hg
  exact ⟨g, f, hg, hf, hload, hfinish⟩

section Session

variable (hload : ∀ x, c.load x = .ok (.floats (g x)))
  (hfinish : ∀ xs, c.finish (.floats xs) = .ok (f xs)) (hf : f [] = [])

include hload hfinish hf

theorem perform_of_some (s : Resampler.State σ) (request : Request) :
    (c.withState r s).perform request =
      resumed c r f (r.machine.serve s (request.forResampler g)) := by
  cases request with
  | chunk x => exact convert_of_some (c := c.withState r s) rfl hload hfinish x
  | flush => exact flush_of_some (c := c.withState r s) rfl hfinish hf

theorem stateAfter_of_some (s : Resampler.State σ) (requests : List Request) :
    stateAfter perform (c.withState r s) requests =
      c.withState r (stateAfter r.machine.serve s (requests.map (Request.forResampler g))) :=
  stateAfter_map (perform_of_some hload hfinish hf) s requests

theorem results_of_some (s : Resampler.State σ) (requests : List Request) :
    results perform (c.withState r s) requests =
      (results r.machine.serve s (requests.map (Request.forResampler g))).map (Except.map f) :=
  results_map (perform_of_some hload hfinish hf) s requests

end Session

/-! ## One conversion after another -/

/-- The same request, with what `f` makes of its chunk. -/
def Request.map (f : List UInt8 → List UInt8) : Request → Request
  | .chunk input => .chunk (f input)
  | .flush => .flush

theorem Request.map_id (requests : List Request) : requests.map (Request.map id) = requests := by
  have hsame : Request.map id = id := by
    funext request
    cases request <;> rfl
  rw [hsame, List.map_id]

/-- What a conversion without a resampler answers. -/
def answer (c : Conversion σ) : Request → Except Failure (List UInt8)
  | .chunk input => liftFault (c.load input >>= c.finish)
  | .flush => .ok []

theorem results_of_none (hresampler : c.resampler = none) (requests : List Request) :
    results perform c requests = requests.map c.answer := by
  induction requests with
  | nil => rfl
  | cons request requests ih =>
      have hperform : c.perform request = (c.answer request, c) := by
        cases request with
        | chunk input => exact convert_of_none hresampler input
        | flush => exact flush_of_none hresampler
      rw [results, hperform, ih, List.map_cons]

/-- The conversion `c'` follows `c`: where `c` is given a chunk and `c'` what `ρ` makes of it, both
read related samples, and of related samples `c'` makes what `φ` makes of the bytes of `c`. -/
structure Follows (c c' : Conversion σ) (ρ φ : List UInt8 → List UInt8)
    (Related : Samples → Samples → Prop) : Prop where
  resampler : c'.resampler = c.resampler
  load : ∀ input, ∃ s s', c.load input = .ok s ∧ c'.load (ρ input) = .ok s' ∧ Related s s'
  finish : ∀ s s', Related s s' → c'.finish s' = (c.finish s).map φ
  floats : ∀ xs s', Related (.floats xs) s' ↔ s' = .floats xs
  nil : φ [] = []

section Follows

variable {c' : Conversion σ} {ρ φ : List UInt8 → List UInt8} {Related : Samples → Samples → Prop}

theorem Follows.answer (h : c.Follows c' ρ φ Related) (request : Request) :
    c'.answer (request.map ρ) = (c.answer request).map φ := by
  cases request with
  | chunk input =>
      obtain ⟨s, s', hload, hload', hrelated⟩ := h.load input
      have hfinish := h.finish s s' hrelated
      simp only [Conversion.answer, Request.map, hload, hload', bind, Except.bind, hfinish]
      cases c.finish s <;> rfl
  | flush => exact congrArg Except.ok h.nil.symm

/-- A conversion that follows another gives its answers, turned by `φ`. -/
theorem Follows.results (h : c.Follows c' ρ φ Related) (hc : c.Accepted) (hc' : c'.Accepted)
    (requests : List Request) :
    results perform c' (requests.map (Request.map ρ)) =
      (results perform c requests).map (Except.map φ) := by
  cases hresampler : c.resampler with
  | none =>
      rw [results_of_none hresampler, results_of_none (h.resampler.trans hresampler), List.map_map,
        List.map_map]
      exact List.map_congr_left fun request _ => h.answer request
  | some r =>
      have hresampler' : c'.resampler = some r := h.resampler.trans hresampler
      obtain ⟨g, f, -, hf, hload, hfinish⟩ := exists_stages hc (by rw [hresampler]; rfl)
      obtain ⟨g', f', -, hf', hload', hfinish'⟩ := exists_stages hc' (by rw [hresampler']; rfl)
      -- Both resamplers are fed the same floats, and both conversions write what they return.
      have hfed : g' ∘ ρ = g := by
        funext input
        obtain ⟨s, s', hread, hread', hrelated⟩ := h.load input
        obtain rfl := Except.ok.inj ((hload input).symm.trans hread)
        obtain rfl := (h.floats _ _).1 hrelated
        exact Samples.floats.inj (Except.ok.inj ((hload' (ρ input)).symm.trans hread'))
      have hwritten : f' = φ ∘ f := by
        funext xs
        have hfollows := h.finish _ _ ((h.floats xs _).2 rfl)
        rw [hfinish, hfinish'] at hfollows
        exact Except.ok.inj hfollows
      have hrequests : (requests.map (Request.map ρ)).map (Request.forResampler g') =
          requests.map (Request.forResampler g) := by
        rw [List.map_map, ← hfed]
        refine List.map_congr_left fun request _ => ?_
        cases request <;> rfl
      have hfirst := results_of_some (r := r) hload hfinish hf.nil r.state requests
      have hsecond := results_of_some (r := r) hload' hfinish' hf'.nil r.state
        (requests.map (Request.map ρ))
      rw [withState_self hresampler] at hfirst
      rw [withState_self hresampler', hrequests] at hsecond
      rw [hfirst, hsecond, List.map_map, hwritten]
      refine List.map_congr_left fun outcome _ => ?_
      cases outcome <;> rfl

/-- A conversion follows another if both read the same, and only make different bytes of it. -/
theorem Follows.of_same_read {Read : Samples → Prop} (hresampler : c'.resampler = c.resampler)
    (hload : ∀ input, ∃ s, c.load input = .ok s ∧ c'.load input = .ok s ∧ Read s)
    (hfinish : ∀ s, Read s → c'.finish s = (c.finish s).map φ)
    (hfloats : ∀ xs, Read (.floats xs)) (hnil : φ [] = []) :
    c.Follows c' id φ fun s s' => s' = s ∧ Read s where
  resampler := hresampler
  load input := by
    obtain ⟨s, hread, hread', hs⟩ := hload input
    exact ⟨s, s, hread, hread', rfl, hs⟩
  finish s s' h := by
    obtain ⟨rfl, hs⟩ := h
    exact hfinish s' hs
  floats xs s' := by
    constructor
    · rintro ⟨hsame, -⟩
      exact hsame
    · rintro rfl
      exact ⟨rfl, hfloats xs⟩
  nil := hnil

theorem results_of_follows (h : c.Follows c' id φ Related) (hc : c.Accepted) (hc' : c'.Accepted)
    (requests : List Request) :
    results perform c' requests = (results perform c requests).map (Except.map φ) := by
  have hresults := h.results hc hc' requests
  rwa [Request.map_id] at hresults

end Follows

end PcmConversion.Conversion
