import Mathlib.Data.List.Induction
import Mathlib.Data.Nat.Find
import Mathlib.Order.Bounds.Basic
import Mathlib.Tactic.Common

/-!
# Matching by a stack

Some elements of a sequence open something and others close it. A closing element belongs to the
opening one that was met last and is still open. One pass with a stack finds all pairs
(`Brackets.scan`).

Which element closes an opening one can also be said without a stack: it is the first one up to
which, behind the opening element, more is closed than opened (`Brackets.Mates`). The two agree for
every sequence, also where elements close what was never opened or are never closed
(`Brackets.mem_pairs_scan`). The invariant of the pass says of every open element how many elements
are open above it (`Brackets.Waits`), and all of it is counted with one *height*, the number of
opening elements less that of closing ones.

What lies between the two elements of a pair is matched there (`Brackets.Mates.nested`), so pairs do
not cross and no element belongs to two of them.
-/

namespace StepTrace

/-- Which elements of a sequence open something and which close it. -/
structure Brackets (α : Type) where
  opens : α → Bool
  closes : α → Bool
  apart : ∀ a, opens a = true → closes a = false

namespace Brackets

variable {α : Type} (b : Brackets α)

/-! ## Pairs, by counting -/

/-- The elements behind `p`, up to `k` and with it, close more than they open. -/
def Exceeds (xs : List α) (p k : Nat) : Prop :=
  p < k ∧ k < xs.length ∧
    (xs.extract (p + 1) (k + 1)).countP b.opens < (xs.extract (p + 1) (k + 1)).countP b.closes

instance (xs : List α) (p k : Nat) : Decidable (b.Exceeds xs p k) :=
  inferInstanceAs (Decidable (_ ∧ _))

/-- The element at `q` closes the one at `p`: it is the first one with which more is closed than
opened behind `p`. -/
structure Mates (xs : List α) (p q : Nat) : Prop where
  opens : xs[p]?.any b.opens = true
  closes : xs[q]?.any b.closes = true
  least : IsLeast {k | b.Exceeds xs p k} q

/-! ## Heights -/

/-- What an element adds to the height. -/
def change (a : α) : Int := (if b.opens a then 1 else 0) - (if b.closes a then 1 else 0)

theorem change_of_opens {a : α} (h : b.opens a = true) : b.change a = 1 := by
  simp [change, h, b.apart a h]

theorem change_of_closes {a : α} (h : b.closes a = true) : b.change a = -1 := by
  have hopens : b.opens a = false := by
    by_contra hopens
    rw [b.apart a (by simpa using hopens)] at h
    cases h
  simp [change, h, hopens]

theorem change_of_neither {a : α} (hopens : ¬b.opens a = true) (hcloses : ¬b.closes a = true) :
    b.change a = 0 := by
  simp [change, hopens, hcloses]

/-- How many of the first `k` elements open, less how many close. -/
def height (xs : List α) (k : Nat) : Int :=
  (xs.take k).countP b.opens - (xs.take k).countP b.closes

variable {b} {xs : List α} {a : α} {p q k : Nat}

theorem height_append (h : k ≤ xs.length) (ys : List α) :
    b.height (xs ++ ys) k = b.height xs k := by
  rw [height, height, List.take_append_of_le_length h]

theorem height_succ (h : xs[k]? = some a) : b.height xs (k + 1) = b.height xs k + b.change a := by
  rw [height, height, change, List.take_add_one, h, Option.toList_some, List.countP_append,
    List.countP_append, List.countP_singleton, List.countP_singleton]
  split_ifs <;> omega

theorem exceeds_iff :
    b.Exceeds xs p k ↔ p < k ∧ k < xs.length ∧ b.height xs (k + 1) < b.height xs (p + 1) := by
  refine and_congr_right fun hpk => and_congr_right fun _ => ?_
  have htake : xs.take (k + 1) = xs.take (p + 1) ++ xs.extract (p + 1) (k + 1) := by
    rw [List.extract_eq_take_drop, ← List.take_add]
    congr 1
    omega
  rw [height, height, htake, List.countP_append, List.countP_append]
  omega

/-- An element is matched where the height first falls below the one it has made. -/
theorem mates_iff : b.Mates xs p q ↔ xs[p]?.any b.opens = true ∧ p < q ∧ q < xs.length ∧
    b.height xs (q + 1) < b.height xs (p + 1) ∧
    ∀ k, p ≤ k → k < q → b.height xs (p + 1) ≤ b.height xs (k + 1) := by
  constructor
  · rintro ⟨hopens, -, hq, hleast⟩
    obtain ⟨hpq, hlt, hbelow⟩ := exceeds_iff.1 hq
    refine ⟨hopens, hpq, hlt, hbelow, fun k hpk hkq => ?_⟩
    rcases Nat.eq_or_lt_of_le hpk with rfl | hpk
    · exact le_refl _
    · by_contra habove
      have hle : q ≤ k := hleast (exceeds_iff.2 ⟨hpk, by omega, by omega⟩)
      omega
  · rintro ⟨hopens, hpq, hlt, hbelow, habove⟩
    refine ⟨hopens, ?_, exceeds_iff.2 ⟨hpq, hlt, hbelow⟩, fun k hk => ?_⟩
    · -- One element before `q` the height is not lower yet, so the element there closes.
      obtain ⟨m, rfl⟩ := Nat.exists_eq_add_one_of_ne_zero (by omega : q ≠ 0)
      have hbefore := habove m (by omega) (by omega)
      have hq : xs[m + 1]? = some xs[m + 1] := List.getElem?_eq_getElem hlt
      rw [height_succ hq] at hbelow
      rw [hq, Option.any_some]
      by_contra hcloses
      have hchange : 0 ≤ b.change xs[m + 1] := by
        unfold change
        split_ifs <;> simp
      omega
    · obtain ⟨hpk, -, hlow⟩ := exceeds_iff.1 hk
      by_contra hkq
      have := habove k (by omega) (by omega)
      omega

namespace Mates

variable {p' q' : Nat}

theorem lt (h : b.Mates xs p q) : p < q := h.least.1.1

theorem lt_length (h : b.Mates xs p q) : q < xs.length := h.least.1.2.1

theorem unique (h : b.Mates xs p q) (h' : b.Mates xs p q') : q = q' := h.least.unique h'.least

/-- With the closing element the height is what it was before the opening one. -/
theorem height_eq (h : b.Mates xs p q) : b.height xs (q + 1) = b.height xs (p + 1) - 1 := by
  obtain ⟨-, hpq, -, hbelow, habove⟩ := mates_iff.1 h
  obtain ⟨a, ha, hcloses⟩ := (Option.any_eq_true _ _).1 h.closes
  obtain ⟨m, rfl⟩ := Nat.exists_eq_add_one_of_ne_zero (by omega : q ≠ 0)
  have hbefore := habove m (by omega) (by omega)
  rw [height_succ ha, b.change_of_closes hcloses] at hbelow ⊢
  omega

end Mates

/-- An opening element behind which more is closed than opened at some point is matched, at the
latest there. -/
theorem exists_mates (hopens : xs[p]?.any b.opens = true) (h : b.Exceeds xs p k) :
    ∃ q ≤ k, b.Mates xs p q := by
  have hexists : ∃ k, b.Exceeds xs p k := ⟨k, h⟩
  obtain ⟨hpq, hlt, hbelow⟩ := exceeds_iff.1 (Nat.find_spec hexists)
  refine ⟨Nat.find hexists, Nat.find_min' hexists h,
    mates_iff.2 ⟨hopens, hpq, hlt, hbelow, fun k hpk hkq => ?_⟩⟩
  rcases Nat.eq_or_lt_of_le hpk with rfl | hpk
  · exact le_refl _
  · by_contra hlow
    exact Nat.find_min hexists hkq (exceeds_iff.2 ⟨hpk, by omega, by omega⟩)

namespace Mates

variable {p' q' : Nat}

/-- What is opened between the two elements of a pair is closed between them. -/
theorem nested (h : b.Mates xs p q) (hp : p < p') (hq : p' < q)
    (hopens : xs[p']?.any b.opens = true) : ∃ q' < q, b.Mates xs p' q' := by
  obtain ⟨-, -, hlt, hbelow, habove⟩ := mates_iff.1 h
  have hheight : b.height xs (p + 1) < b.height xs (p' + 1) := by
    obtain ⟨a, ha, hopen⟩ := (Option.any_eq_true _ _).1 hopens
    obtain ⟨m, rfl⟩ := Nat.exists_eq_add_one_of_ne_zero (by omega : p' ≠ 0)
    have hbefore := habove m (by omega) (by omega)
    rw [height_succ ha, b.change_of_opens hopen]
    omega
  obtain ⟨q', hle, h'⟩ := exists_mates hopens (exceeds_iff.2 ⟨hq, hlt, by omega⟩)
  refine ⟨q', Nat.lt_of_le_of_ne hle ?_, h'⟩
  rintro rfl
  -- One element cannot bring the height down to both levels.
  have := h.height_eq
  have := h'.height_eq
  omega

/-- No element closes two. -/
theorem unique_left (h : b.Mates xs p q) (h' : b.Mates xs p' q) : p = p' := by
  rcases Nat.lt_trichotomy p p' with hlt | heq | hlt
  · obtain ⟨q', hq', hmates⟩ := h.nested hlt h'.lt h'.opens
    exact absurd (hmates.unique h') (Nat.ne_of_lt hq')
  · exact heq
  · obtain ⟨q', hq', hmates⟩ := h'.nested hlt h.lt h.opens
    exact absurd (hmates.unique h) (Nat.ne_of_lt hq')

end Mates

/-! ## Pairs, by a stack -/

/-- The open elements, the last first, and the pairs so far, the latest first. -/
structure Matching where
  opened : List Nat
  pairs : List (Nat × Nat)

variable (b) in
/-- The pass after an element. One that closes with nothing open is passed over. -/
def step (s : Matching) (x : α × Nat) : Matching :=
  if b.opens x.1 then { s with opened := x.2 :: s.opened }
  else if b.closes x.1 then
    match s.opened with
    | p :: opened => ⟨opened, (p, x.2) :: s.pairs⟩
    | [] => s
  else s

variable (b) in
/-- The pass over a sequence. -/
def scan (xs : List α) : Matching := xs.zipIdx.foldl b.step ⟨[], []⟩

theorem scan_concat (xs : List α) (a : α) :
    b.scan (xs ++ [a]) = b.step (b.scan xs) (a, xs.length) := by
  rw [scan, List.zipIdx_append, List.foldl_append, Nat.zero_add]
  rfl

variable (b) in
/-- The element at `p` is still open, with `r` open elements above it. -/
structure Waits (xs : List α) (p r : Nat) : Prop where
  opens : xs[p]?.any b.opens = true
  above : ∀ k, p ≤ k → k < xs.length → b.height xs (p + 1) ≤ b.height xs (k + 1)
  total : b.height xs xs.length = b.height xs (p + 1) + r

theorem lt_length_of_any {f : α → Bool} (h : xs[p]?.any f = true) : p < xs.length := by
  obtain ⟨a, ha, -⟩ := (Option.any_eq_true _ _).1 h
  exact (List.getElem?_eq_some_iff.1 ha).1

theorem height_concat (xs : List α) (a : α) :
    b.height (xs ++ [a]) (xs.length + 1) = b.height xs xs.length + b.change a := by
  rw [height_succ List.getElem?_concat_length, height_append (le_refl _)]

theorem any_concat {f : α → Bool} (h : p < xs.length) :
    (xs ++ [a])[p]?.any f = xs[p]?.any f := by
  rw [List.getElem?_append_left h]

/-- The last element makes a pair with the open element that has none above it, if it closes. -/
theorem mates_concat : b.Mates (xs ++ [a]) p q ↔
    b.Mates xs p q ∨ q = xs.length ∧ b.closes a = true ∧ b.Waits xs p 0 := by
  have hheight : ∀ {k}, k < xs.length → b.height (xs ++ [a]) (k + 1) = b.height xs (k + 1) :=
    fun hk => height_append hk _
  constructor
  · intro h
    obtain ⟨hopens, hpq, hlt, hbelow, habove⟩ := mates_iff.1 h
    rw [List.length_append, List.length_singleton] at hlt
    rw [any_concat (by omega)] at hopens
    have habove' : ∀ k, p ≤ k → k < q → b.height xs (p + 1) ≤ b.height xs (k + 1) := by
      intro k hpk hkq
      rw [← hheight (by omega), ← hheight (by omega)]
      exact habove k hpk hkq
    rcases Nat.eq_or_lt_of_le (Nat.le_of_lt_succ hlt) with rfl | hlt
    · have hcloses := h.closes
      rw [List.getElem?_concat_length, Option.any_some] at hcloses
      have htotal := h.height_eq
      rw [height_concat, hheight hpq, b.change_of_closes hcloses] at htotal
      exact Or.inr ⟨rfl, hcloses, hopens, habove', by omega⟩
    · rw [hheight hlt, hheight (by omega)] at hbelow
      exact Or.inl (mates_iff.2 ⟨hopens, hpq, hlt, hbelow, habove'⟩)
  · rintro (h | ⟨rfl, hcloses, hwaits⟩)
    · obtain ⟨hopens, hpq, hlt, hbelow, habove⟩ := mates_iff.1 h
      refine mates_iff.2 ⟨?_, hpq, ?_, ?_, fun k hpk hkq => ?_⟩
      · rwa [any_concat (by omega)]
      · rw [List.length_append]
        omega
      · rwa [hheight hlt, hheight (by omega)]
      · rw [hheight (by omega), hheight (by omega)]
        exact habove k hpk hkq
    · have hp := lt_length_of_any hwaits.opens
      have htotal := hwaits.total
      refine mates_iff.2 ⟨?_, hp, ?_, ?_, fun k hpk hk => ?_⟩
      · rw [any_concat hp]
        exact hwaits.opens
      · rw [List.length_append, List.length_singleton]
        omega
      · rw [height_concat, hheight hp, b.change_of_closes hcloses]
        omega
      · rw [hheight hp, hheight hk]
        exact hwaits.above k hpk hk

/-- An element that opens waits with none above it, and the elements that waited before have one
more or one less above them. -/
theorem waits_concat {r : Nat} : b.Waits (xs ++ [a]) p r ↔
    p = xs.length ∧ r = 0 ∧ b.opens a = true ∨
      ∃ r' : Nat, b.Waits xs p r' ∧ (r : Int) = r' + b.change a := by
  have hheight : ∀ {k}, k < xs.length → b.height (xs ++ [a]) (k + 1) = b.height xs (k + 1) :=
    fun hk => height_append hk _
  have hlength : (xs ++ [a]).length = xs.length + 1 := by simp
  constructor
  · rintro ⟨hopens, habove, htotal⟩
    have hp := lt_length_of_any hopens
    rw [hlength] at habove htotal hp
    rcases Nat.eq_or_lt_of_le (Nat.le_of_lt_succ hp) with rfl | hp
    · rw [List.getElem?_concat_length, Option.any_some] at hopens
      exact Or.inl ⟨rfl, by omega, hopens⟩
    · rw [any_concat hp] at hopens
      rw [height_concat, hheight hp] at htotal
      have habove' : ∀ k, p ≤ k → k < xs.length → b.height xs (p + 1) ≤ b.height xs (k + 1) := by
        intro k hpk hk
        rw [← hheight hp, ← hheight hk]
        exact habove k hpk (by omega)
      obtain ⟨m, hm⟩ := Nat.exists_eq_add_one_of_ne_zero (by omega : xs.length ≠ 0)
      have hlast := habove' m (by omega) (by omega)
      rw [← hm] at hlast
      obtain ⟨r', hr'⟩ := Int.le.dest hlast
      exact Or.inr ⟨r', ⟨hopens, habove', hr'.symm⟩, by omega⟩
  · rintro (⟨rfl, rfl, hopens⟩ | ⟨r', ⟨hopens, habove, htotal⟩, hr⟩)
    · refine ⟨?_, fun k hle hk => ?_, ?_⟩
      · rwa [List.getElem?_concat_length, Option.any_some]
      · obtain rfl : k = xs.length := by omega
        exact le_refl _
      · rw [hlength]
        omega
    · have hp := lt_length_of_any hopens
      have htotal' : b.height (xs ++ [a]) (xs.length + 1) = b.height xs (p + 1) + r := by
        rw [height_concat]
        omega
      refine ⟨by rwa [any_concat hp], fun k hpk hk => ?_, ?_⟩
      · rw [hheight hp]
        rcases Nat.eq_or_lt_of_le (Nat.le_of_lt_succ (hlength ▸ hk)) with rfl | hk
        · omega
        · rw [hheight hk]
          exact habove k hpk hk
      · rw [hlength, hheight hp, htotal']

variable (b) in
/-- The pass knows the open elements with their number, and all pairs in order. -/
structure Knows (xs : List α) (s : Matching) : Prop where
  opened : ∀ r p, s.opened[r]? = some p ↔ b.Waits xs p r
  pairs : ∀ p q, (p, q) ∈ s.pairs ↔ b.Mates xs p q
  sorted : s.pairs.Pairwise fun x y => y.2 < x.2

namespace Knows

variable {s : Matching}

theorem step_opens (h : b.Knows xs s) (ha : b.opens a = true) :
    b.Knows (xs ++ [a]) ⟨xs.length :: s.opened, s.pairs⟩ where
  opened r p := by
    rw [waits_concat, b.change_of_opens ha]
    cases r with
    | zero =>
      rw [List.getElem?_cons_zero, Option.some_inj]
      constructor
      · rintro rfl
        exact Or.inl ⟨rfl, rfl, ha⟩
      · rintro (⟨hp, -, -⟩ | ⟨r', -, hr'⟩)
        · exact hp.symm
        · omega
    | succ r =>
      rw [List.getElem?_cons_succ, h.opened]
      constructor
      · exact fun hwaits => Or.inr ⟨r, hwaits, rfl⟩
      · rintro (⟨-, hr, -⟩ | ⟨r', hwaits, hr'⟩)
        · omega
        · obtain rfl : r = r' := by omega
          exact hwaits
  pairs p q := by
    rw [mates_concat, b.apart a ha, h.pairs]
    simp
  sorted := h.sorted

theorem step_neither (h : b.Knows xs s) (hopens : ¬b.opens a = true)
    (hcloses : ¬b.closes a = true) : b.Knows (xs ++ [a]) s where
  opened r p := by
    rw [waits_concat, b.change_of_neither hopens hcloses, h.opened]
    constructor
    · exact fun hwaits => Or.inr ⟨r, hwaits, by omega⟩
    · rintro (⟨-, -, hopens'⟩ | ⟨r', hwaits, hr'⟩)
      · exact absurd hopens' hopens
      · obtain rfl : r = r' := by omega
        exact hwaits
  pairs p q := by
    rw [mates_concat, h.pairs]
    simp [hcloses]
  sorted := h.sorted

/-- A closing element leaves one element less above those that wait. -/
theorem waits_concat_closes (ha : b.closes a = true) {r : Nat} :
    b.Waits (xs ++ [a]) p r ↔ b.Waits xs p (r + 1) := by
  rw [waits_concat, b.change_of_closes ha]
  constructor
  · rintro (⟨-, -, hopens⟩ | ⟨r', hwaits, hr'⟩)
    · rw [b.apart a hopens] at ha
      cases ha
    · obtain rfl : r' = r + 1 := by omega
      exact hwaits
  · exact fun hwaits => Or.inr ⟨r + 1, hwaits, by omega⟩

theorem step_closes {first : Nat} {opened : List Nat} (h : b.Knows xs s)
    (hs : s.opened = first :: opened) (ha : b.closes a = true) :
    b.Knows (xs ++ [a]) ⟨opened, (first, xs.length) :: s.pairs⟩ where
  opened r p := by
    rw [waits_concat_closes ha, ← h.opened, hs, List.getElem?_cons_succ]
  pairs p q := by
    have hfirst : b.Waits xs p 0 ↔ p = first := by
      rw [← h.opened, hs, List.getElem?_cons_zero, Option.some_inj, eq_comm]
    rw [mates_concat, List.mem_cons, Prod.mk.injEq, h.pairs, hfirst]
    tauto
  sorted := by
    refine List.pairwise_cons.2 ⟨fun pair hpair => ?_, h.sorted⟩
    exact ((h.pairs pair.1 pair.2).1 hpair).lt_length

/-- With nothing open, an element that closes makes no pair. -/
theorem step_closes_nil (h : b.Knows xs s) (hs : s.opened = []) (ha : b.closes a = true) :
    b.Knows (xs ++ [a]) s where
  opened r p := by
    rw [waits_concat_closes ha, ← h.opened, hs]
    simp
  pairs p q := by
    have hnone : ¬b.Waits xs p 0 := by
      rw [← h.opened, hs]
      simp
    rw [mates_concat, h.pairs]
    simp [hnone]
  sorted := h.sorted

theorem step (h : b.Knows xs s) (a : α) : b.Knows (xs ++ [a]) (b.step s (a, xs.length)) := by
  unfold Brackets.step
  split_ifs with hopens hcloses
  · exact h.step_opens hopens
  · cases hs : s.opened with
    | nil => exact h.step_closes_nil hs hcloses
    | cons first opened => exact h.step_closes hs hcloses
  · exact h.step_neither hopens hcloses

end Knows

theorem knows_scan (xs : List α) : b.Knows xs (b.scan xs) := by
  induction xs using List.reverseRecOn with
  | nil =>
    refine ⟨fun r p => ⟨fun h => (nomatch h), fun h => ?_⟩,
      fun p q => ⟨fun h => (nomatch h), fun h => ?_⟩, .nil⟩
    · exact absurd (lt_length_of_any h.opens) (Nat.not_lt_zero _)
    · exact absurd h.lt_length (Nat.not_lt_zero _)
  | append_singleton xs a ih =>
    rw [scan_concat]
    exact ih.step a

/-- The pass with a stack finds the pairs. -/
theorem mem_pairs_scan : (p, q) ∈ (b.scan xs).pairs ↔ b.Mates xs p q := (knows_scan xs).pairs p q

/-- The pairs are found in the order in which they are closed. -/
theorem sorted_pairs_scan (xs : List α) : (b.scan xs).pairs.Pairwise fun x y => y.2 < x.2 :=
  (knows_scan xs).sorted

theorem lookup_pairs_scan : (b.scan xs).pairs.lookup p = some q ↔ b.Mates xs p q := by
  have hmates : ∀ r, (b.scan xs).pairs.lookup p = some r → b.Mates xs p r := by
    intro r hr
    obtain ⟨front, back, hpairs, -⟩ := List.lookup_eq_some_iff.1 hr
    exact mem_pairs_scan.1 (by simp [hpairs])
  refine ⟨hmates q, fun h => ?_⟩
  have hsome : ((b.scan xs).pairs.lookup p).isSome :=
    List.lookup_isSome_iff.2 ⟨(p, q), mem_pairs_scan.2 h, beq_self_eq_true p⟩
  obtain ⟨r, hr⟩ := Option.isSome_iff_exists.1 hsome
  rw [hr, (hmates r hr).unique h]

theorem find?_pairs_scan :
    ((b.scan xs).pairs.find? (·.2 = q)).map Prod.fst = some p ↔ b.Mates xs p q := by
  have hmates : ∀ x, (b.scan xs).pairs.find? (·.2 = q) = some x → b.Mates xs x.1 q := by
    intro x hx
    have hq : x.2 = q := by simpa using List.find?_some hx
    exact hq ▸ mem_pairs_scan.1 (List.mem_of_find?_eq_some hx)
  constructor
  · intro h
    obtain ⟨x, hx, rfl⟩ := Option.map_eq_some_iff.1 h
    exact hmates x hx
  · intro h
    have hsome : ((b.scan xs).pairs.find? (·.2 = q)).isSome :=
      List.find?_isSome.2 ⟨(p, q), mem_pairs_scan.2 h, by simp⟩
    obtain ⟨x, hx⟩ := Option.isSome_iff_exists.1 hsome
    rw [hx, Option.map_some, (hmates x hx).unique_left h]

/-! ## Laminar maps -/

/-- A map from the first to the last place of ranges that share no last place and do not cross. -/
structure Laminar (f : Nat → Option Nat) : Prop where
  injective : ∀ {i i' j : Nat}, f i = some j → f i' = some j → i = i'
  nested : ∀ {i i' j j' : Nat}, f i = some j → f i' = some j' → i < i' → i' < j → j' < j

theorem laminar_of_mates {f : Nat → Option Nat} (h : ∀ p q, f p = some q ↔ b.Mates xs p q) :
    Laminar f where
  injective hi hi' := ((h _ _).1 hi).unique_left ((h _ _).1 hi')
  nested hi hi' hlt hlt' := by
    have hinner := (h _ _).1 hi'
    obtain ⟨q, hq, hmates⟩ := ((h _ _).1 hi).nested hlt hlt' hinner.opens
    rwa [hinner.unique hmates]

end Brackets

end StepTrace
