import PcmConversion.Failure

/-!
# Feeding a stream piece by piece

Resamplers and conversions are fed in the same way: one piece after the other, each answered by a
part of the output or by a failure, and at the end of the stream one last part.  `feed` runs the
pieces up to the first failure and joins the parts; `feedThen` adds the end of the stream.
-/

namespace PcmConversion

variable {S X Y ε : Type}

/-- Put `out` in front of a later part of the output. -/
def prepend (out : List Y) (later : Except ε (List Y) × S) : Except ε (List Y) × S :=
  (later.1.map (out ++ ·), later.2)

/-- Go on after a part of the output, or stop at its failure. -/
def followedBy (first : Except ε (List Y) × S) (later : S → Except ε (List Y) × S) :
    Except ε (List Y) × S :=
  match first with
  | (.error e, s) => (.error e, s)
  | (.ok out, s) => prepend out (later s)

/-- Feed pieces one after the other. -/
def feed (step : S → X → Except ε (List Y) × S) : S → List X → Except ε (List Y) × S
  | s, [] => (.ok [], s)
  | s, x :: xs => followedBy (step s x) fun s => feed step s xs

/-- Feed pieces one after the other and end the stream. -/
def feedThen (step : S → X → Except ε (List Y) × S) (finish : S → Except ε (List Y) × S) (s : S)
    (xs : List X) : Except ε (List Y) × S :=
  followedBy (feed step s xs) finish

@[simp] theorem followedBy_ok (out : List Y) (s : S) (later : S → Except ε (List Y) × S) :
    followedBy (.ok out, s) later = prepend out (later s) := rfl

@[simp] theorem followedBy_error (e : ε) (s : S) (later : S → Except ε (List Y) × S) :
    followedBy (.error e, s) later = (.error e, s) := rfl

@[simp] theorem prepend_nil (later : Except ε (List Y) × S) : prepend [] later = later := by
  obtain ⟨result, s⟩ := later
  cases result <;> rfl

@[simp] theorem prepend_ok (out rest : List Y) (s : S) :
    prepend (ε := ε) out (.ok rest, s) = (.ok (out ++ rest), s) := rfl

@[simp] theorem prepend_error (out : List Y) (e : ε) (s : S) :
    prepend out (.error e, s) = (.error e, s) := rfl

theorem prepend_append (out rest : List Y) (later : Except ε (List Y) × S) :
    prepend (out ++ rest) later = prepend out (prepend rest later) := by
  obtain ⟨result, s⟩ := later
  cases result with
  | error e => rfl
  | ok xs => simp

@[simp] theorem feed_nil (step : S → X → Except ε (List Y) × S) (s : S) :
    feed step s [] = (.ok [], s) := rfl

theorem feed_cons (step : S → X → Except ε (List Y) × S) (s : S) (x : X) (xs : List X) :
    feed step s (x :: xs) = followedBy (step s x) fun s => feed step s xs := rfl

theorem feed_singleton (step : S → X → Except ε (List Y) × S) (s : S) (x : X) :
    feed step s [x] = step s x := by
  rw [feed_cons]
  obtain ⟨result, s'⟩ := step s x
  cases result with
  | error e => rfl
  | ok out => simp

/-- A run that does not fail with `e` does so in neither of its parts. -/
theorem followedBy_ne_error {first : Except ε (List Y) × S} {later : S → Except ε (List Y) × S}
    {e : ε} (h : (followedBy first later).1 ≠ .error e) :
    first.1 ≠ .error e ∧ ∀ out s, first = (.ok out, s) → (later s).1 ≠ .error e := by
  obtain ⟨result, s⟩ := first
  constructor
  · rintro rfl
    exact h rfl
  · rintro out s' hfirst hlater
    refine h ?_
    rw [hfirst, followedBy_ok, prepend, hlater]
    rfl

end PcmConversion
