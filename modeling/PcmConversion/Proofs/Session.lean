/-!
# Sessions

The owner of a resampler or of a conversion makes one request after the other.  `results` are the
answers of such a session and `stateAfter` is the state that it leaves.  An invariant of the step is
one of the session (`stateAfter_invariant`), and two sessions with the same requests answer alike if
their states stay related in a way that determines each answer (`results_eq`).  Where each step of
one machine is a step of another, so is each session (`stateAfter_map`, `results_map`).
-/

namespace PcmConversion

variable {S X Y T Z W : Type}

/-- The answers to requests made one after the other. -/
def results (step : S → X → Y × S) : S → List X → List Y
  | _, [] => []
  | s, x :: xs => (step s x).1 :: results step (step s x).2 xs

/-- The state that requests made one after the other leave. -/
def stateAfter (step : S → X → Y × S) : S → List X → S
  | s, [] => s
  | s, x :: xs => stateAfter step (step s x).2 xs

variable {step : S → X → Y × S}

theorem stateAfter_append (s : S) (xs ys : List X) :
    stateAfter step s (xs ++ ys) = stateAfter step (stateAfter step s xs) ys := by
  induction xs generalizing s with
  | nil => rfl
  | cons x xs ih => exact ih (step s x).2

theorem stateAfter_invariant {P : S → Prop} (hstep : ∀ s x, P s → P (step s x).2) {s : S} (hs : P s)
    (xs : List X) : P (stateAfter step s xs) := by
  induction xs generalizing s with
  | nil => exact hs
  | cons x xs ih => exact ih (hstep s x hs)

theorem results_eq (Related : S → S → Prop)
    (hstep : ∀ s t x, Related s t →
      (step s x).1 = (step t x).1 ∧ Related (step s x).2 (step t x).2)
    {s t : S} (h : Related s t) (xs : List X) : results step s xs = results step t xs := by
  induction xs generalizing s t with
  | nil => rfl
  | cons x xs ih =>
      obtain ⟨hanswer, hnext⟩ := hstep s t x h
      rw [results, results, hanswer, ih hnext]

section Simulation

variable {inner : T → Z → W × T} {state : T → S} {request : X → Z} {answer : W → Y}

theorem stateAfter_map
    (hstep : ∀ t x, step (state t) x = (inner t (request x)).map answer state) (t : T)
    (xs : List X) :
    stateAfter step (state t) xs = state (stateAfter inner t (xs.map request)) := by
  induction xs generalizing t with
  | nil => rfl
  | cons x xs ih =>
      rw [stateAfter, hstep]
      exact ih (inner t (request x)).2

theorem results_map
    (hstep : ∀ t x, step (state t) x = (inner t (request x)).map answer state) (t : T)
    (xs : List X) :
    results step (state t) xs = (results inner t (xs.map request)).map answer := by
  induction xs generalizing t with
  | nil => rfl
  | cons x xs ih =>
      rw [results, hstep]
      exact congrArg _ (ih (inner t (request x)).2)

end Simulation

end PcmConversion
