import Mathlib.Order.Lattice.Nat
import StepTrace.Proofs.Matching
import StepTrace.Proofs.Source.Brace

/-!
# The map of braces is bracket matching

The code of a snippet is read as one sequence of characters, each with its line (`lineMarks`). Its
braces are matched with each other as brackets are. The scan over the lines is the pass with a stack
over this sequence, seen line by line (`Brackets.Matching.onLines`). A line that opens several
braces keeps the one that is closed last, because matches are made in the order in which braces are
closed (`lookup_map_eq_some_iff`).

So the map has the lines with a matched brace, each with the line on which the last of its braces is
closed, and between the two lines of a block everything that is opened is closed
(`BraceMap.ofLines_matches`).
-/

namespace StepTrace

/-! ## Braces in a sequence -/

/-- The characters of code, line after line, each with the index of its line. -/
def lineMarks (ts : List Text) : List (Char × Nat) :=
  ts.zipIdx.flatMap fun line => line.1.code.map (·, line.2)

/-- The line of a character of code. -/
def lineAt (ts : List Text) (p : Nat) : Option Nat := (lineMarks ts)[p]?.map Prod.snd

/-- The braces among characters of code. -/
def braces : Brackets (Char × Nat) where
  opens mark := mark.1 == '\x7b'
  closes mark := mark.1 == '\x7d'
  apart mark h := by
    rw [beq_iff_eq] at h
    rw [h]
    rfl

/-- The braces that close one of a line, by their place in the sequence. -/
def lineClosers (ts : List Text) (line : Nat) : Set Nat :=
  {q | ∃ p, braces.Mates (lineMarks ts) p q ∧ lineAt ts p = some line}

theorem sorted_zipIdx {α : Type} : ∀ (l : List α) (index : Nat),
    (l.zipIdx index).Pairwise fun x y => x.2 < y.2
  | [], _ => .nil
  | _ :: l, index => List.pairwise_cons.2
    ⟨fun _ hx => List.le_snd_of_mem_zipIdx hx, sorted_zipIdx l (index + 1)⟩

/-- The lines of the characters come in order. -/
theorem sorted_lineMarks (ts : List Text) : (lineMarks ts).Pairwise fun x y => x.2 ≤ y.2 := by
  refine List.pairwise_flatMap.2 ⟨fun line _ => ?_, (sorted_zipIdx ts 0).imp ?_⟩
  · exact List.pairwise_map.2 (List.pairwise_of_forall fun _ _ => Nat.le_refl _)
  · intro line line' hlt x hx y hy
    obtain ⟨c, -, rfl⟩ := List.mem_map.1 hx
    obtain ⟨c', -, rfl⟩ := List.mem_map.1 hy
    exact hlt.le

theorem lineAt_mono {ts : List Text} {p q i j : Nat} (hpq : p ≤ q) (hp : lineAt ts p = some i)
    (hq : lineAt ts q = some j) : i ≤ j := by
  obtain ⟨x, hx, rfl⟩ := Option.map_eq_some_iff.1 hp
  obtain ⟨y, hy, rfl⟩ := Option.map_eq_some_iff.1 hq
  obtain ⟨hplt, rfl⟩ := List.getElem?_eq_some_iff.1 hx
  obtain ⟨hqlt, rfl⟩ := List.getElem?_eq_some_iff.1 hy
  rcases Nat.eq_or_lt_of_le hpq with rfl | hlt
  · exact Nat.le_refl _
  · exact List.pairwise_iff_getElem.1 (sorted_lineMarks ts) p q hplt hqlt hlt

theorem exists_lineAt {ts : List Text} {p : Nat} (h : p < (lineMarks ts).length) :
    ∃ i, lineAt ts p = some i := by
  rw [lineAt, List.getElem?_eq_getElem h]
  exact ⟨_, rfl⟩

/-! ## The scan, seen line by line -/

/-- The state of a pass with lines in place of places. -/
def Brackets.Matching.onLines (f : Nat → Nat) (s : Brackets.Matching) : BraceScan :=
  ⟨s.opened.map f, s.pairs.map (Prod.map f f)⟩

namespace BraceScan

theorem onLines_step {f : Nat → Nat} {x : (Char × Nat) × Nat} (h : f x.2 = x.1.2)
    (s : Brackets.Matching) : (s.onLines f).step x.1.2 x.1.1 = (braces.step s x).onLines f := by
  obtain ⟨⟨c, line⟩, p⟩ := x
  obtain ⟨opened, pairs⟩ := s
  have hopens : braces.opens (c, line) = true ↔ c = '\x7b' := beq_iff_eq
  have hcloses : braces.closes (c, line) = true ↔ c = '\x7d' := beq_iff_eq
  simp only [BraceScan.step, Brackets.step, hopens, hcloses]
  have hline : line = f p := h.symm
  split_ifs
  · rw [hline]
    rfl
  · cases opened with
    | nil => rfl
    | cons first opened =>
      rw [hline]
      rfl
  · rfl

theorem onLines_foldl {f : Nat → Nat} : ∀ (xs : List ((Char × Nat) × Nat)) (s : Brackets.Matching),
    (∀ x ∈ xs, f x.2 = x.1.2) →
    xs.foldl (fun s x => s.step x.1.2 x.1.1) (s.onLines f) = (xs.foldl braces.step s).onLines f
  | [], _, _ => rfl
  | x :: xs, s, h => by
    rw [List.foldl_cons, List.foldl_cons, onLines_step (h x (by simp)),
      onLines_foldl xs _ fun x hx => h x (by simp [hx])]

/-- A scan over lines goes through their characters of code. -/
theorem lines_eq_foldl : ∀ (ts : List Text) (s : BraceScan) (index : Nat), s.lines index ts =
    ((ts.zipIdx index).flatMap fun line => line.1.code.map (·, line.2)).foldl
      (fun s x => s.step x.2 x.1) s
  | [], _, _ => rfl
  | t :: ts, s, index => by
    rw [lines, lines_eq_foldl ts, List.zipIdx_cons, List.flatMap_cons, List.foldl_append,
      List.foldl_map]
    rfl

end BraceScan

theorem BraceMap.ofLines_eq (ts : List Text) : BraceMap.ofLines ts =
    (braces.scan (lineMarks ts)).pairs.map
      (Prod.map (fun p => (lineAt ts p).getD 0) fun p => (lineAt ts p).getD 0) := by
  have hline : ∀ x ∈ (lineMarks ts).zipIdx, (lineAt ts x.2).getD 0 = x.1.2 := by
    intro x hx
    rw [lineAt, List.mem_zipIdx_iff_getElem?.1 hx]
    rfl
  have hscan : BraceScan.lines ⟨[], []⟩ 0 ts =
      ((lineMarks ts).zipIdx.foldl braces.step ⟨[], []⟩).onLines fun p => (lineAt ts p).getD 0 := by
    rw [← BraceScan.onLines_foldl _ _ hline, BraceScan.lines_eq_foldl, ← lineMarks]
    conv_lhs => rw [← List.zipIdx_map_fst 0 (lineMarks ts), List.foldl_map]
    rfl
  rw [ofLines, hscan]
  rfl

/-! ## The last match of a line -/

/-- In pairs that are sorted by their second element, the latest first, look-up finds the pair with
the greatest one. -/
theorem lookup_map_eq_some_iff {f : Nat → Nat} {i j : Nat} : ∀ {pairs : List (Nat × Nat)},
    (pairs.Pairwise fun x y => y.2 < x.2) →
    ((pairs.map (Prod.map f f)).lookup i = some j ↔
      ∃ q, IsGreatest {q | ∃ p, (p, q) ∈ pairs ∧ f p = i} q ∧ f q = j)
  | [], _ => by simp [IsGreatest]
  | (p, q) :: pairs, h => by
    obtain ⟨hfirst, hrest⟩ := List.pairwise_cons.1 h
    rw [List.map_cons, Prod.map_apply, List.lookup_cons]
    by_cases hp : i = f p
    · -- The first pair is the one that counts.
      have hgreatest : IsGreatest {q' | ∃ p', (p', q') ∈ (p, q) :: pairs ∧ f p' = i} q := by
        refine ⟨⟨p, by simp, hp.symm⟩, ?_⟩
        rintro q' ⟨p', hmem, -⟩
        rcases List.mem_cons.1 hmem with heq | hmem
        · cases heq
          exact Nat.le_refl _
        · exact (hfirst _ hmem).le
      rw [hp, beq_self_eq_true]
      subst hp
      constructor
      · intro hq
        exact ⟨q, hgreatest, Option.some_inj.1 hq⟩
      · rintro ⟨q', hq', rfl⟩
        rw [hgreatest.unique hq']
    · have hset : {q' | ∃ p', (p', q') ∈ (p, q) :: pairs ∧ f p' = i} =
          {q' | ∃ p', (p', q') ∈ pairs ∧ f p' = i} := by
        ext q'
        refine exists_congr fun p' => and_congr_left fun hp' => ?_
        rw [List.mem_cons, or_iff_right]
        rintro heq
        cases heq
        exact hp hp'.symm
      rw [beq_false_of_ne hp, hset]
      exact lookup_map_eq_some_iff hrest

namespace BraceMap

variable {ts : List Text} {i j : Nat}

/-- A character of the sequence has a line. -/
theorem getD_lineAt_eq_iff {p : Nat} (h : p < (lineMarks ts).length) :
    (lineAt ts p).getD 0 = i ↔ lineAt ts p = some i := by
  obtain ⟨line, hline⟩ := exists_lineAt h
  rw [hline, Option.getD_some, Option.some_inj]

/-- A line is in the map with the line on which the last of its braces is closed. -/
theorem get?_ofLines_iff : (ofLines ts).get? i = some j ↔
    ∃ q, IsGreatest (lineClosers ts i) q ∧ lineAt ts q = some j := by
  have hset : {q | ∃ p, (p, q) ∈ (braces.scan (lineMarks ts)).pairs ∧ (lineAt ts p).getD 0 = i} =
      lineClosers ts i := by
    ext q
    refine exists_congr fun p => ?_
    rw [Brackets.mem_pairs_scan]
    exact and_congr_right fun h => getD_lineAt_eq_iff (h.lt.trans h.lt_length)
  rw [get?, ofLines_eq, lookup_map_eq_some_iff (Brackets.sorted_pairs_scan _), hset]
  refine exists_congr fun q => and_congr_right fun hq => ?_
  obtain ⟨p, hmates, -⟩ := hq.1
  exact getD_lineAt_eq_iff hmates.lt_length

theorem exists_isGreatest_lineClosers (h : (lineClosers ts i).Nonempty) :
    ∃ q, IsGreatest (lineClosers ts i) q := by
  have hbound : BddAbove (lineClosers ts i) := by
    refine ⟨(lineMarks ts).length, ?_⟩
    rintro q ⟨p, hmates, -⟩
    exact hmates.lt_length.le
  exact ⟨_, Nat.sSup_mem h hbound, fun q hq => le_csSup hbound hq⟩

theorem isSome_get?_ofLines : ((ofLines ts).get? i).isSome ↔ (lineClosers ts i).Nonempty := by
  constructor
  · intro h
    obtain ⟨j, hj⟩ := Option.isSome_iff_exists.1 h
    obtain ⟨q, hq, -⟩ := get?_ofLines_iff.1 hj
    exact ⟨q, hq.1⟩
  · intro h
    obtain ⟨q, hq⟩ := exists_isGreatest_lineClosers h
    obtain ⟨p, hmates, -⟩ := hq.1
    obtain ⟨j, hj⟩ := exists_lineAt hmates.lt_length
    exact Option.isSome_iff_exists.2 ⟨j, get?_ofLines_iff.2 ⟨q, hq, hj⟩⟩

/-- What is opened on a line between those of a block is closed inside of the block. -/
theorem exists_mates_of_between {k p : Nat} (h : (ofLines ts).get? i = some j) (hik : i < k)
    (hkj : k < j) (hp : (lineMarks ts)[p]? = some ('\x7b', k)) :
    ∃ q line, braces.Mates (lineMarks ts) p q ∧ lineAt ts q = some line ∧ line ≤ j := by
  obtain ⟨last, ⟨⟨first, hmates, hfirst⟩, -⟩, hlast⟩ := get?_ofLines_iff.1 h
  have hline : lineAt ts p = some k := by rw [lineAt, hp]; rfl
  -- The line lies strictly between the two lines of the block, so its characters do as well.
  have hfirstp : first < p := by
    by_contra hle
    have := lineAt_mono (Nat.le_of_not_lt hle) hline hfirst
    omega
  have hplast : p < last := by
    by_contra hle
    have := lineAt_mono (Nat.le_of_not_lt hle) hlast hline
    omega
  have hopens : (lineMarks ts)[p]?.any braces.opens = true := by rw [hp]; rfl
  obtain ⟨q, hq, hmates'⟩ := hmates.nested hfirstp hplast hopens
  obtain ⟨line, hline'⟩ := exists_lineAt hmates'.lt_length
  exact ⟨q, line, hmates', hline', lineAt_mono hq.le hline' hlast⟩

/-- The map of braces is bracket matching, by the pass with a stack as well as by counting. Its keys
are the lines on which a brace is opened that is closed, each with the line of the brace that closes
one of them last; and on a line inside of a block every brace that is opened is closed, at the
latest where the block is. -/
theorem ofLines_matches (ts : List Text) :
    (∀ p q, (p, q) ∈ (braces.scan (lineMarks ts)).pairs ↔ braces.Mates (lineMarks ts) p q) ∧
    (∀ i, ((ofLines ts).get? i).isSome ↔ (lineClosers ts i).Nonempty) ∧
    (∀ i j, (ofLines ts).get? i = some j ↔
      ∃ q, IsGreatest (lineClosers ts i) q ∧ lineAt ts q = some j) ∧
    (∀ i j, (ofLines ts).get? i = some j → i ≤ j ∧ j < ts.length) ∧
    ∀ i j k, (ofLines ts).get? i = some j → i < k → k < j →
      (∀ p, (lineMarks ts)[p]? = some ('\x7b', k) → ∃ q, braces.Mates (lineMarks ts) p q) ∧
      ∀ l, (ofLines ts).get? k = some l → l ≤ j := by
  refine ⟨fun _ _ => Brackets.mem_pairs_scan, fun _ => isSome_get?_ofLines,
    fun _ _ => get?_ofLines_iff, fun _ _ => get?_ofLines,
    fun i j k h hik hkj => ⟨fun p hp => ?_, fun l hl => ?_⟩⟩
  · obtain ⟨q, -, hmates, -⟩ := exists_mates_of_between h hik hkj hp
    exact ⟨q, hmates⟩
  · obtain ⟨q, ⟨⟨p, hmates, hp⟩, -⟩, hq⟩ := get?_ofLines_iff.1 hl
    obtain ⟨mark, hmark, hopens⟩ := (Option.any_eq_true _ _).1 hmates.opens
    have hbrace : (lineMarks ts)[p]? = some ('\x7b', k) := by
      rw [lineAt, hmark, Option.map_some, Option.some_inj] at hp
      rw [hmark, ← hp, ← beq_iff_eq.1 (show (mark.1 == '\x7b') = true from hopens)]
    obtain ⟨q', line, hmates', hline, hle⟩ := exists_mates_of_between h hik hkj hbrace
    rw [hmates.unique hmates', hline, Option.some_inj] at hq
    omega

/-- A block around a line with two braces inside of another one. In the first of them stands a
literal with a protected quote and a brace. -/
def nestedLines : List Text :=
  ["if (a) \x7b", "b = \x7b\x7b\"\\\"\x7d\"\x7d, \x7b2\x7d\x7d;", "\x7d"].map String.toList

theorem ofLines_matches_nested :
    nestedLines[1]?.map Text.code = some "b = \x7b\x7b\x7d, \x7b2\x7d\x7d;".toList ∧
    (ofLines nestedLines).get? 0 = some 2 ∧
    (∀ p, (lineMarks nestedLines)[p]? = some ('\x7b', 1) →
      ∃ q, braces.Mates (lineMarks nestedLines) p q) ∧
    (lineMarks nestedLines)[12]? = some ('\x7b', 1) ∧ (ofLines nestedLines).get? 1 = some 1 := by
  obtain ⟨-, -, -, -, hinner⟩ := ofLines_matches nestedLines
  exact ⟨by decide, by decide, (hinner 0 2 1 (by decide) (by decide) (by decide)).1, by decide,
    by decide⟩

end BraceMap

end StepTrace
