/-!
# Whole groups of a list

Interleaved audio is a list read in groups: bytes into samples, samples into frames.  `wholeGroups n xs`
are the groups of exactly `n` elements that `xs` holds and `leftover n xs` is what follows them.  The
main statements: nothing is lost (`flatten_wholeGroups_append_leftover`), every group has its length
(`length_of_mem_wholeGroups`), and a list that ends with a whole group may be grouped piece by piece
(`wholeGroups_append`).
-/

namespace PcmConversion

variable {α : Type}

/-- The first `count` groups of `n` elements. -/
def cutGroups (n : Nat) : Nat → List α → List (List α)
  | 0, _ => []
  | count + 1, xs => xs.take n :: cutGroups n count (xs.drop n)

/-- The groups of exactly `n` elements that the list holds, from its start. -/
def wholeGroups (n : Nat) (xs : List α) : List (List α) :=
  cutGroups n (xs.length / n) xs

/-- The elements that follow the last whole group. -/
def leftover (n : Nat) (xs : List α) : List α :=
  xs.drop (xs.length / n * n)

@[simp] theorem length_cutGroups (n count : Nat) (xs : List α) :
    (cutGroups n count xs).length = count := by
  induction count generalizing xs with
  | zero => rfl
  | succ count ih => simp [cutGroups, ih]

theorem flatten_cutGroups (n count : Nat) (xs : List α) :
    (cutGroups n count xs).flatten = xs.take (count * n) := by
  induction count generalizing xs with
  | zero => simp [cutGroups]
  | succ count ih =>
    rw [cutGroups, List.flatten_cons, ih, Nat.succ_mul, Nat.add_comm, List.take_add]

@[simp] theorem length_wholeGroups (n : Nat) (xs : List α) :
    (wholeGroups n xs).length = xs.length / n :=
  length_cutGroups ..

/-- Grouping keeps every element in its place. -/
theorem flatten_wholeGroups_append_leftover (n : Nat) (xs : List α) :
    (wholeGroups n xs).flatten ++ leftover n xs = xs := by
  rw [wholeGroups, leftover, flatten_cutGroups, List.take_append_drop]

theorem length_of_mem_cutGroups {n count : Nat} {xs g : List α} (h : count * n ≤ xs.length)
    (hg : g ∈ cutGroups n count xs) : g.length = n := by
  induction count generalizing xs with
  | zero => simp [cutGroups] at hg
  | succ count ih =>
    rw [Nat.succ_mul] at h
    rcases List.mem_cons.1 hg with rfl | hg
    · rw [List.length_take]; omega
    · exact ih (by rw [List.length_drop]; omega) hg

theorem length_of_mem_wholeGroups {n : Nat} {xs g : List α} (hg : g ∈ wholeGroups n xs) :
    g.length = n :=
  length_of_mem_cutGroups (Nat.div_mul_le_self ..) hg

theorem cutGroups_append {n a b : Nat} {xs : List α} (ys : List α) (h : xs.length = a * n) :
    cutGroups n (a + b) (xs ++ ys) = cutGroups n a xs ++ cutGroups n b ys := by
  induction a generalizing xs with
  | zero =>
    have : xs = [] := List.eq_nil_of_length_eq_zero (by simpa using h)
    simp [cutGroups, this]
  | succ a ih =>
    rw [Nat.succ_mul] at h
    rw [Nat.add_right_comm, cutGroups, cutGroups, List.take_append_of_le_length (by omega),
      List.drop_append_of_le_length (by omega), List.cons_append,
      ih (by rw [List.length_drop]; omega)]

/-- A list that ends with a whole group may be cut there. -/
theorem wholeGroups_append {n : Nat} {xs : List α} (ys : List α) (hn : 0 < n)
    (h : n ∣ xs.length) : wholeGroups n (xs ++ ys) = wholeGroups n xs ++ wholeGroups n ys := by
  obtain ⟨k, hk⟩ := h
  rw [wholeGroups, wholeGroups, wholeGroups, ← cutGroups_append ys (by
    rw [hk, Nat.mul_div_cancel_left _ hn, Nat.mul_comm])]
  rw [List.length_append, hk, Nat.mul_add_div hn, Nat.mul_div_cancel_left _ hn]

/-- Replace every whole group and keep what follows the last one. -/
def mapGroups (n : Nat) (f : List α → List α) (xs : List α) : List α :=
  (wholeGroups n xs).flatMap f ++ leftover n xs

end PcmConversion
