import PcmConversion.Bytes.Grouping
import Mathlib.Data.List.Basic
import Mathlib.Tactic.Ring

/-!
# Framewise functions

A function on lists is framewise if a list may be cut between its frames: what it makes of
`xs ++ ys` is what it makes of `xs`, followed by what it makes of `ys`, whenever `xs` is a number of
whole frames, and each frame of `n` elements becomes one of `m`.  `Streams` says the same of a stage
of a pipeline, which may take its list wrapped up and may fail: a framewise stage never does.
-/

namespace PcmConversion

variable {α β γ : Type}

/-- Frames of `n` elements become frames of `m`, each on its own. -/
structure Framewise (n m : Nat) (f : List α → List β) : Prop where
  append : ∀ xs ys, n ∣ xs.length → f (xs ++ ys) = f xs ++ f ys
  length : ∀ xs, n ∣ xs.length → (f xs).length = xs.length / n * m

theorem Framewise.dvd_length {n m : Nat} {f : List α → List β} (h : Framewise n m f)
    {xs : List α} (hxs : n ∣ xs.length) : m ∣ (f xs).length := by
  rw [h.length xs hxs]
  exact Nat.dvd_mul_left _ _

theorem Framewise.nil {n m : Nat} {f : List α → List β} (h : Framewise n m f) : f [] = [] := by
  refine List.eq_nil_of_length_eq_zero ?_
  rw [h.length [] (Nat.dvd_zero n), List.length_nil, Nat.zero_div, Nat.zero_mul]

theorem dvd_length_flatten {n : Nat} {pieces : List (List α)}
    (hpieces : ∀ xs ∈ pieces, n ∣ xs.length) : n ∣ pieces.flatten.length := by
  induction pieces with
  | nil => exact Nat.dvd_zero n
  | cons xs pieces ih =>
      rw [List.flatten_cons, List.length_append]
      exact Nat.dvd_add (hpieces xs List.mem_cons_self)
        (ih fun ys hys => hpieces ys (List.mem_cons_of_mem _ hys))

/-- A list of whole pieces may be cut between them. -/
theorem Framewise.flatten {n m : Nat} {f : List α → List β} (h : Framewise n m f)
    {pieces : List (List α)} (hpieces : ∀ xs ∈ pieces, n ∣ xs.length) :
    f pieces.flatten = (pieces.map f).flatten := by
  induction pieces with
  | nil => exact h.nil
  | cons xs pieces ih =>
      have hlater := ih fun ys hys => hpieces ys (List.mem_cons_of_mem _ hys)
      rw [List.flatten_cons, h.append _ _ (hpieces xs List.mem_cons_self), hlater, List.map_cons,
        List.flatten_cons]

theorem Framewise.id {n : Nat} : Framewise n n (id : List α → List α) where
  append _ _ _ := rfl
  length _ hxs := (Nat.div_mul_cancel hxs).symm

theorem Framewise.comp {n m k : Nat} {f : List α → List β} {g : List β → List γ}
    (hg : Framewise m k g) (hf : Framewise n m f) (hm : 0 < m) :
    Framewise n k fun xs => g (f xs) where
  append xs ys hxs := by rw [hf.append xs ys hxs, hg.append _ _ (hf.dvd_length hxs)]
  length xs hxs := by
    rw [hg.length _ (hf.dvd_length hxs), hf.length xs hxs, Nat.mul_div_cancel _ hm]

/-- Frames may be taken together. -/
theorem Framewise.scale {n m : Nat} {f : List α → List β} (h : Framewise n m f) {c : Nat}
    (hc : 0 < c) : Framewise (n * c) (m * c) f where
  append xs ys hxs := h.append xs ys (dvd_of_mul_right_dvd hxs)
  length xs hxs := by
    rw [h.length xs (dvd_of_mul_right_dvd hxs)]
    obtain ⟨k, hk⟩ := hxs
    -- Frames of no elements come out as none.
    rcases Nat.eq_zero_or_pos n with rfl | hn
    · simp
    · rw [hk, Nat.mul_assoc n c k, Nat.mul_div_cancel_left _ hn, ← Nat.mul_assoc n c k,
        Nat.mul_div_cancel_left _ (Nat.mul_pos hn hc)]
      ring

theorem length_flatMap_of_length {f : α → List β} {m : Nat} {xs : List α}
    (hf : ∀ x ∈ xs, (f x).length = m) : (xs.flatMap f).length = xs.length * m := by
  induction xs with
  | nil => simp
  | cons x xs ih =>
      have hlater := ih fun y hy => hf y (List.mem_cons_of_mem _ hy)
      rw [List.flatMap_cons, List.length_append, hf x List.mem_cons_self, hlater, List.length_cons,
        Nat.add_mul, Nat.one_mul, Nat.add_comm]

theorem framewise_flatMap {f : α → List β} {m : Nat} (hf : ∀ x, (f x).length = m) :
    Framewise 1 m fun xs => xs.flatMap f where
  append _ _ _ := List.flatMap_append
  length xs _ := by rw [length_flatMap_of_length fun x _ => hf x, Nat.div_one]

/-- To replace every whole group is framewise. -/
theorem framewise_groups {n m : Nat} (hn : 0 < n) {f : List α → List β}
    (hf : ∀ g : List α, g.length = n → (f g).length = m) :
    Framewise n m fun xs => (wholeGroups n xs).flatMap f where
  append xs ys hxs := by rw [wholeGroups_append ys hn hxs, List.flatMap_append]
  length xs _ := by
    rw [length_flatMap_of_length fun g hg => hf g (length_of_mem_wholeGroups hg),
      length_wholeGroups]

theorem framewise_map_groups {n : Nat} (hn : 0 < n) (f : List α → β) :
    Framewise n 1 fun xs => (wholeGroups n xs).map f where
  append xs ys hxs := by rw [wholeGroups_append ys hn hxs, List.map_append]
  length xs _ := by rw [List.length_map, length_wholeGroups, Nat.mul_one]

theorem leftover_append {n : Nat} {xs : List α} (ys : List α) (hn : 0 < n) (hxs : n ∣ xs.length) :
    leftover n (xs ++ ys) = leftover n ys := by
  obtain ⟨k, hk⟩ := hxs
  have hcount : (xs ++ ys).length / n * n = xs.length + ys.length / n * n := by
    rw [List.length_append, hk, Nat.mul_add_div hn]
    ring
  rw [leftover, leftover, hcount, List.drop_length_add_append]

theorem leftover_eq_nil {n : Nat} {xs : List α} (hxs : n ∣ xs.length) : leftover n xs = [] := by
  rw [leftover, Nat.div_mul_cancel hxs, List.drop_length]

theorem framewise_mapGroups {n : Nat} (hn : 0 < n) {f : List α → List α}
    (hf : ∀ g : List α, g.length = n → (f g).length = n) : Framewise n n (mapGroups n f) where
  append xs ys hxs := by
    have hgroups := (framewise_groups hn hf).append xs ys hxs
    simp only [mapGroups, hgroups, leftover_append ys hn hxs, leftover_eq_nil hxs, List.append_nil,
      List.append_assoc]
  length xs hxs := by
    have hgroups := (framewise_groups hn hf).length xs hxs
    rw [mapGroups, leftover_eq_nil hxs, List.append_nil, hgroups]

/-! ## Groups after groups -/

/-- Groups are found again where they were laid one after the other. -/
theorem wholeGroups_flatten_append {n : Nat} {groups : List (List α)} {rest : List α} (hn : 0 < n)
    (hgroups : ∀ g ∈ groups, g.length = n) (hrest : rest.length < n) :
    wholeGroups n (groups.flatten ++ rest) = groups := by
  induction groups with
  | nil => rw [List.flatten_nil, List.nil_append, wholeGroups, Nat.div_eq_of_lt hrest, cutGroups]
  | cons g groups ih =>
      have hlater := ih fun h hh => hgroups h (List.mem_cons_of_mem _ hh)
      have hfirst : g.length = n := hgroups g List.mem_cons_self
      have hone : wholeGroups n g = [g] := by
        rw [wholeGroups, hfirst, Nat.div_self hn, cutGroups, cutGroups, ← hfirst, List.take_length]
      rw [List.flatten_cons, List.append_assoc, wholeGroups_append _ hn (dvd_of_eq hfirst.symm),
        hlater, hone, List.singleton_append]

theorem length_leftover_lt {n : Nat} (hn : 0 < n) (xs : List α) : (leftover n xs).length < n := by
  have := Nat.div_add_mod xs.length n
  have := Nat.mod_lt xs.length hn
  rw [leftover, List.length_drop, Nat.mul_comm]
  omega

theorem wholeGroups_flatMap {f : α → List β} {m : Nat} (hm : 0 < m) {xs : List α}
    (hf : ∀ x ∈ xs, (f x).length = m) : wholeGroups m (xs.flatMap f) = xs.map f := by
  have hgroups : ∀ g ∈ xs.map f, g.length = m := by
    intro g hg
    obtain ⟨x, hx, rfl⟩ := List.mem_map.1 hg
    exact hf x hx
  rw [List.flatMap, ← List.append_nil (xs.map f).flatten]
  exact wholeGroups_flatten_append hm hgroups hm

theorem mem_of_mem_wholeGroups {n : Nat} {xs g : List α} (hg : g ∈ wholeGroups n xs) {x : α}
    (hx : x ∈ g) : x ∈ xs := by
  rw [← flatten_wholeGroups_append_leftover n xs]
  exact List.mem_append_left _ (List.mem_flatten.2 ⟨g, hg, hx⟩)

theorem cutGroups_map (f : α → β) (n count : Nat) (xs : List α) :
    cutGroups n count (xs.map f) = (cutGroups n count xs).map (List.map f) := by
  induction count generalizing xs with
  | zero => rfl
  | succ count ih => rw [cutGroups, cutGroups, ← List.map_take, ← List.map_drop, ih, List.map_cons]

theorem wholeGroups_map (f : α → β) (n : Nat) (xs : List α) :
    wholeGroups n (xs.map f) = (wholeGroups n xs).map (List.map f) := by
  rw [wholeGroups, wholeGroups, List.length_map, cutGroups_map]

/-- Groups of groups are the groups of larger ones. -/
theorem wholeGroups_wholeGroups {m n : Nat} (hm : 0 < m) (hn : 0 < n) (xs : List α) :
    wholeGroups m (wholeGroups n xs) = (wholeGroups (m * n) xs).map (wholeGroups n) := by
  have hlarge : ∀ g ∈ wholeGroups (m * n) xs, g.length = m * n := fun _ => length_of_mem_wholeGroups
  have hgroups : Framewise n 1 (wholeGroups n : List α → List (List α)) := by
    simpa using framewise_map_groups hn (id : List α → List α)
  have hcut : wholeGroups n xs = ((wholeGroups (m * n) xs).map (wholeGroups n)).flatten ++
      wholeGroups n (leftover (m * n) xs) := by
    have hdvd : ∀ g ∈ wholeGroups (m * n) xs, n ∣ g.length := fun g hg => by
      rw [hlarge g hg]
      exact Nat.dvd_mul_left n m
    conv_lhs => rw [← flatten_wholeGroups_append_leftover (m * n) xs]
    rw [hgroups.append _ _ (dvd_length_flatten hdvd), hgroups.flatten hdvd]
  rw [hcut]
  refine wholeGroups_flatten_append hm (fun g hg => ?_) ?_
  · obtain ⟨h, hh, rfl⟩ := List.mem_map.1 hg
    rw [length_wholeGroups, hlarge h hh, Nat.mul_div_cancel m hn]
  · rw [length_wholeGroups, Nat.div_lt_iff_lt_mul hn]
    exact length_leftover_lt (Nat.mul_pos hm hn) xs

theorem wholeGroups_mapGroups {n : Nat} (hn : 0 < n) {f : List α → List α}
    (hf : ∀ g : List α, g.length = n → (f g).length = n) (xs : List α) :
    wholeGroups n (mapGroups n f xs) = (wholeGroups n xs).map f := by
  refine wholeGroups_flatten_append hn (fun g hg => ?_) (length_leftover_lt hn xs)
  obtain ⟨h, hh, rfl⟩ := List.mem_map.1 hg
  exact hf h (length_of_mem_wholeGroups hh)

theorem leftover_mapGroups {n : Nat} (hn : 0 < n) {f : List α → List α}
    (hf : ∀ g : List α, g.length = n → (f g).length = n) (xs : List α) :
    leftover n (mapGroups n f xs) = leftover n xs := by
  have hgroups : n ∣ ((wholeGroups n xs).flatMap f).length := by
    rw [length_flatMap_of_length fun g hg => hf g (length_of_mem_wholeGroups hg)]
    exact Nat.dvd_mul_left _ _
  have hrest : (leftover n xs).length / n = 0 := Nat.div_eq_of_lt (length_leftover_lt hn xs)
  rw [mapGroups, leftover_append _ hn hgroups, leftover.eq_1 n (leftover n xs), hrest, Nat.zero_mul,
    List.drop_zero]

theorem mapGroups_mapGroups {n : Nat} (hn : 0 < n) {f g : List α → List α}
    (hg : ∀ x : List α, x.length = n → (g x).length = n) (xs : List α) :
    mapGroups n f (mapGroups n g xs) = mapGroups n (f ∘ g) xs := by
  rw [mapGroups, wholeGroups_mapGroups hn hg, leftover_mapGroups hn hg, List.flatMap_map]
  rfl

/-- What is laid out group by group may be replaced group by group. -/
theorem mapGroups_flatMap {n : Nat} (hn : 0 < n) {f : List β → List β} {g : α → List β}
    (hg : ∀ x, (g x).length = n) (xs : List α) :
    mapGroups n f (xs.flatMap g) = xs.flatMap fun x => f (g x) := by
  have hwhole : n ∣ (xs.flatMap g).length := by
    rw [length_flatMap_of_length fun x _ => hg x]
    exact Nat.dvd_mul_left _ _
  rw [mapGroups, wholeGroups_flatMap hn fun x _ => hg x, leftover_eq_nil hwhole, List.append_nil,
    List.flatMap_map]

theorem mapGroups_congr {n : Nat} {f g : List α → List α}
    (h : ∀ x : List α, x.length = n → f x = g x) (xs : List α) :
    mapGroups n f xs = mapGroups n g xs := by
  have hgroups : (wholeGroups n xs).flatMap f = (wholeGroups n xs).flatMap g :=
    List.flatMap_congr fun x hx => h x (length_of_mem_wholeGroups hx)
  rw [mapGroups, mapGroups, hgroups]

theorem length_mapGroups {n : Nat} {f : List α → List α}
    (hf : ∀ x : List α, x.length = n → (f x).length = n) (xs : List α) :
    (mapGroups n f xs).length = xs.length := by
  have hgroups : ((wholeGroups n xs).flatMap f).length = xs.length / n * n := by
    rw [length_flatMap_of_length fun x hx => hf x (length_of_mem_wholeGroups hx),
      length_wholeGroups]
  have hle : xs.length / n * n ≤ xs.length := Nat.div_mul_le_self ..
  rw [mapGroups, List.length_append, hgroups, leftover, List.length_drop]
  omega

theorem mapGroups_id (n : Nat) (xs : List α) : mapGroups n id xs = xs := by
  rw [mapGroups, List.flatMap_id]
  exact flatten_wholeGroups_append_leftover n xs

/-! ## Stages -/

variable {A B C ε : Type}

theorem bind_eq_ok {x : Except ε A} {f : A → Except ε B} {b : B} (h : x >>= f = .ok b) :
    ∃ a, x = .ok a ∧ f a = .ok b := by
  cases x with
  | error e => cases h
  | ok a => exact ⟨a, rfl, h⟩

theorem exists_eq_ok {x : Except ε A} (h : x.toOption.isSome = true) : ∃ a, x = .ok a := by
  cases x with
  | error e => cases h
  | ok a => exact ⟨a, rfl⟩

/-- A framewise stage: from lists wrapped by `source` to lists wrapped by `target`. -/
def Streams (n m : Nat) (source : List α → A) (stage : A → Except ε B) (target : List β → B) :
    Prop :=
  ∃ f, Framewise n m f ∧ ∀ xs, stage (source xs) = .ok (target (f xs))

theorem Streams.of_eq {n m : Nat} {source : List α → A} {stage : A → Except ε B}
    {target : List β → B} {f : List α → List β} (hf : Framewise n m f)
    (h : ∀ xs, stage (source xs) = .ok (target (f xs))) : Streams n m source stage target :=
  ⟨f, hf, h⟩

theorem Streams.bind {n m k : Nat} {source : List α → A} {first : A → Except ε B}
    {middle : List β → B} {later : B → Except ε C} {target : List γ → C}
    (hfirst : Streams n m source first middle) (hlater : Streams m k middle later target)
    (hm : 0 < m) : Streams n k source (fun a => first a >>= later) target := by
  obtain ⟨f, hf, hfeq⟩ := hfirst
  obtain ⟨g, hg, hgeq⟩ := hlater
  refine ⟨fun xs => g (f xs), hg.comp hf hm, fun xs => ?_⟩
  show first (source xs) >>= later = _
  rw [hfeq]
  exact hgeq (f xs)

theorem Streams.scale {n m c : Nat} {source : List α → A} {stage : A → Except ε B}
    {target : List β → B} (h : Streams n m source stage target) (hc : 0 < c) :
    Streams (n * c) (m * c) source stage target := by
  obtain ⟨f, hf, heq⟩ := h
  exact ⟨f, hf.scale hc, heq⟩

end PcmConversion
