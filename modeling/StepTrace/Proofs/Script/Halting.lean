import Mathlib.Data.DFinsupp.WellFounded
import StepTrace.Proofs.Script.Jumps
import StepTrace.Proofs.Script.Simulation

/-!
# Scripts halt

The conditionals and loops of a script may cross, lack an end or a start, and be jumped into. The
counter of a loop may be left behind when a conditional jumps over its end, and an end may be
reached without its start. Still a run without a limit comes to an end if every loop that it enters
is given a whole number, however large (`halts`).

The argument is about single steps. The machine goes back only at the end of a loop, to the line
behind its start, and then the counter of that loop has become smaller. A counter becomes larger
only on the first line of its loop, where the machine goes on. So the lines are given levels
(`Machine.level`): a line that is still ahead has the level `⊤`, and one that is behind has the
rounds that are left of the loop starting there. Each step lowers the level of some line and raises
none before it (`Prepared.step?_lowers`), which can not go on for ever.
-/

namespace StepTrace.Script

/-! ## Jumps lead ahead -/

namespace Jumps

variable {lines : List Text} {line stop : Nat}

/-- Going on behind the end of something leads ahead, and so it does without an end. -/
theorem lt_getD_succ {stop? : Option Nat} (h : ∀ stop, stop? = some stop → line < stop) :
    line < stop?.getD line + 1 := by
  cases stop? with
  | none => exact Nat.lt_succ_self line
  | some stop => exact Nat.lt_succ_of_lt (h stop rfl)

theorem lt_ifEnd : line < ((ofLines lines).ifEnd? line).getD line + 1 :=
  lt_getD_succ fun _ hend => (ifEnd?_ofLines.1 hend).lt

theorem lt_loopEnd : line < ((ofLines lines).loopEnd? line).getD line + 1 :=
  lt_getD_succ fun _ hend => (loopEnd?_ofLines.1 hend).lt

theorem loopStart_lt (h : (ofLines lines).loopStart? stop = some line) : line < stop :=
  (loopStart?_ofLines.1 h).lt

end Jumps

/-! ## Counters -/

theorem lookup_filter_ne {cs : List (Nat × Number)} (line q : Nat) :
    (cs.filter (·.1 ≠ line)).lookup q = if q = line then none else cs.lookup q := by
  induction cs with
  | nil => simp
  | cons c cs ih =>
    obtain ⟨k, n⟩ := c
    by_cases hk : k = line
    · subst hk
      rw [List.filter_cons_of_neg (by simp), ih, List.lookup_cons]
      split_ifs with hq
      · rfl
      · rw [beq_false_of_ne hq]
    · rw [List.filter_cons_of_pos (by simpa using hk), List.lookup_cons, List.lookup_cons, ih]
      by_cases hq : q = k
      · subst hq
        simp [hk]
      · rw [beq_false_of_ne hq]

namespace Machine

/-- Every counter is a whole number. -/
def CountersWhole (m : Machine) : Prop :=
  ∀ line left, m.counters.lookup line = some left → ∃ n : Int, left = .int n

/-- The rounds that the counter of a line gives; without a counter there are none. -/
def left (m : Machine) (line : Nat) : Nat :=
  match m.counters.lookup line with
  | some (.int n) => n.toNat
  | _ => 0

variable {m : Machine} {line : Nat}

theorem lookup_dropCounter (m : Machine) (line q : Nat) :
    (m.dropCounter line).counters.lookup q = if q = line then none else m.counters.lookup q :=
  lookup_filter_ne line q

theorem lookup_setCounter (m : Machine) (line q : Nat) (n : Number) :
    (m.setCounter line n).counters.lookup q =
      if q = line then some n else m.counters.lookup q := by
  rw [setCounter, List.lookup_cons, lookup_dropCounter]
  split_ifs with hq
  · subst hq
    simp
  · rw [beq_false_of_ne hq]

theorem left_dropCounter (m : Machine) (line q : Nat) :
    (m.dropCounter line).left q = if q = line then 0 else m.left q := by
  rw [left, lookup_dropCounter]
  split_ifs
  · rfl
  · rfl

theorem left_setCounter (m : Machine) (line q : Nat) (n : Int) :
    (m.setCounter line (.int n)).left q = if q = line then n.toNat else m.left q := by
  rw [left, lookup_setCounter]
  split_ifs
  · rfl
  · rfl

theorem CountersWhole.dropCounter (h : m.CountersWhole) (line : Nat) :
    (m.dropCounter line).CountersWhole := by
  intro q left hleft
  rw [lookup_dropCounter] at hleft
  split_ifs at hleft
  exact h q left hleft

theorem CountersWhole.setCounter (h : m.CountersWhole) (line : Nat) (n : Int) :
    (m.setCounter line (.int n)).CountersWhole := by
  intro q left hleft
  rw [lookup_setCounter] at hleft
  split_ifs at hleft
  · exact ⟨n, (Option.some.inj hleft).symm⟩
  · exact h q left hleft

/-! ## What a step does to the levels -/

/-- The level of a line: anything may happen to one that is ahead, and one that is behind has the
rounds that are left of the loop starting there. -/
def level (m : Machine) (line : Nat) : WithTop ℕ :=
  if m.next ≤ line then ⊤ else WithTop.some (m.left line)

/-- The level of a line becomes lower and that of no line before it becomes higher. -/
structure Lowers (m m' : Machine) (line : Nat) : Prop where
  before : ∀ q < line, m'.level q ≤ m.level q
  lower : m'.level line < m.level line

/-- Going on behind the line that was run lowers its level, if no other counter becomes larger. -/
theorem lowers_of_lt {m' : Machine} (hline : m.next ≤ line) (hnext : line < m'.next)
    (hleft : ∀ q, q ≠ line → m'.left q ≤ m.left q) : m.Lowers m' line where
  before q hq := by
    rw [level, level, if_neg (by omega)]
    split_ifs
    · exact le_top
    · exact WithTop.coe_le_coe.2 (hleft q (by omega))
  lower := by
    rw [level, level, if_neg (by omega), if_pos hline]
    exact WithTop.coe_lt_top _

/-- Going back behind a line whose counter has become smaller lowers its level. -/
theorem lowers_of_left_lt {m' : Machine} (hnext : m'.next = line + 1)
    (hless : m'.left line < m.left line) (hleft : ∀ q, q ≠ line → m'.left q ≤ m.left q) :
    m.Lowers m' line where
  before q hq := by
    rw [level, level, if_neg (by omega)]
    split_ifs
    · exact le_top
    · exact WithTop.coe_le_coe.2 (hleft q (by omega))
  lower := by
    rw [level, level, if_neg (by omega)]
    split_ifs
    · exact WithTop.coe_lt_top _
    · exact WithTop.coe_lt_coe.2 hless

end Machine

/-- The count that an instruction gives to a loop is whole, if it enters one. -/
def Instruction.countIsWhole (s : Store) : Instruction → Bool
  | enterLoop count => match resolve s count with
    | .int _ => true
    | .float _ => false
  | _ => true

section Step

variable {lines : List Text} {m : Machine} {line : Nat}

theorem exists_int_of_countIsWhole {s : Store} {count : Text}
    (h : (Instruction.enterLoop count).countIsWhole s) : ∃ n, resolve s count = .int n := by
  simp only [Instruction.countIsWhole] at h
  cases hcount : resolve s count with
  | int n => exact ⟨n, rfl⟩
  | float x =>
    rw [hcount] at h
    cases h

/-- A step on a line lowers the level of a line that is not behind it, and leaves whole counters. -/
structure Moves (m m' : Machine) (line : Nat) : Prop where
  whole : m'.CountersWhole
  lowers : ∃ k ≤ line, m.Lowers m' k

theorem moves_goto {m' : Machine} {target : Nat} (hwhole : m'.CountersWhole)
    (hline : m.next ≤ line) (htarget : line < target)
    (hleft : ∀ q, q ≠ line → m'.left q ≤ m.left q) : Moves m (m'.goto target) line :=
  ⟨hwhole, line, Nat.le_refl _, Machine.lowers_of_lt hline htarget hleft⟩

theorem moves_enterLoop (hwhole : m.CountersWhole) (hline : m.next ≤ line) {count : Text} {n : Int}
    (hcount : resolve m.store count = .int n) :
    Moves m ((Instruction.enterLoop count).run (Jumps.ofLines lines) line m).2 line := by
  obtain ⟨left, hleft⟩ : ∃ left : Int,
      (m.counters.lookup line).getD (loopCount (resolve m.store count)) = .int left := by
    cases hlookup : m.counters.lookup line with
    | none => exact ⟨max n 0, by rw [Option.getD_none, hcount, loopCount_int]⟩
    | some x => exact hwhole line x hlookup
  have hrun : ((Instruction.enterLoop count).run (Jumps.ofLines lines) line m).2 =
      if isUsedUp (.int left) then
        (m.dropCounter line).goto (((Jumps.ofLines lines).loopEnd? line).getD line + 1)
      else (m.setCounter line (.int left)).goto (line + 1) := by
    rw [← hleft]
    exact apply_ite Prod.snd _ _ _
  rw [hrun]
  split_ifs
  · refine moves_goto (hwhole.dropCounter line) hline Jumps.lt_loopEnd fun q hq => ?_
    rw [Machine.left_dropCounter, if_neg hq]
  · refine moves_goto (hwhole.setCounter line left) hline (Nat.lt_succ_self _) fun q hq => ?_
    rw [Machine.left_setCounter, if_neg hq]

theorem moves_endLoop (hwhole : m.CountersWhole) (hline : m.next ≤ line) :
    Moves m (Instruction.endLoop.run (Jumps.ofLines lines) line m).2 line := by
  cases hstart : (Jumps.ofLines lines).loopStart? line with
  | none =>
    have hrun : Instruction.endLoop.run (Jumps.ofLines lines) line m =
        ("unmatched end".toList, m.goto (line + 1)) := by
      delta Instruction.run
      dsimp only
      rw [hstart]
    rw [hrun]
    exact moves_goto hwhole hline (Nat.lt_succ_self _) fun q _ => Nat.le_refl _
  | some start =>
    obtain ⟨left, hleft, hlookup⟩ : ∃ left : Int,
        (m.counters.lookup start).getD .zero = .int left ∧ left.toNat = m.left start := by
      rw [Machine.left]
      cases hlookup : m.counters.lookup start with
      | none => exact ⟨0, rfl, rfl⟩
      | some x =>
        obtain ⟨n, rfl⟩ := hwhole start x hlookup
        exact ⟨n, rfl, rfl⟩
    have hrun : (Instruction.endLoop.run (Jumps.ofLines lines) line m).2 =
        if isUsedUp (oneLess (.int left)) then (m.dropCounter start).goto (line + 1)
        else (m.setCounter start (oneLess (.int left))).goto (start + 1) := by
      delta Instruction.run
      dsimp only
      rw [hstart, ← hleft]
      exact apply_ite Prod.snd _ _ _
    rw [hrun, oneLess_int, isUsedUp_int]
    split_ifs with hused
    · refine moves_goto (hwhole.dropCounter start) hline (Nat.lt_succ_self _) fun q _ => ?_
      rw [Machine.left_dropCounter]
      split_ifs
      · exact Nat.zero_le _
      · exact Nat.le_refl _
    · have hpos : 0 < left - 1 := by simpa using hused
      refine ⟨hwhole.setCounter start (left - 1), start, (Jumps.loopStart_lt hstart).le,
        Machine.lowers_of_left_lt rfl ?_ fun q hq => ?_⟩
      · show (m.setCounter start (.int (left - 1))).left start < _
        rw [Machine.left_setCounter, if_pos rfl, ← hlookup]
        omega
      · show (m.setCounter start (.int (left - 1))).left q ≤ _
        rw [Machine.left_setCounter, if_neg hq]

/-- Every instruction on the next line lowers a level. -/
theorem Instruction.run_moves (hwhole : m.CountersWhole) (hline : m.next ≤ line) (i : Instruction)
    (hcount : i.countIsWhole m.store) :
    Moves m (i.run (Jumps.ofLines lines) line m).2 line := by
  have hstay : ∀ m' : Machine, m'.counters = m.counters →
      Moves m (m'.goto (line + 1)) line := fun m' hm' => by
    refine moves_goto (fun q left h => hwhole q left (hm' ▸ h)) hline (Nat.lt_succ_self _) ?_
    intro q _
    rw [Machine.left, Machine.left, hm']
  cases i with
  | set name value =>
    exact hstay { m with store := m.store.insert name (.num (resolve m.store value)) } rfl
  | combine command op name value =>
    let result := Number.apply op (m.store.number name) (resolve m.store value)
    exact hstay { m with store := m.store.insert name (.num result) } rfl
  | print value =>
    exact hstay { m with output := m.output.push (resolve m.store value).display } rfl
  | enterIf left sign right =>
    rw [Prepared.run_enterIf]
    split_ifs
    · exact hstay m rfl
    · exact moves_goto hwhole hline Jumps.lt_ifEnd fun q _ => Nat.le_refl _
  | endIf => exact hstay m rfl
  | enterLoop count =>
    obtain ⟨n, hn⟩ := exists_int_of_countIsWhole hcount
    exact moves_enterLoop hwhole hline hn
  | endLoop => exact moves_endLoop hwhole hline
  | unknown => exact hstay m rfl

end Step

/-! ## Levels of all lines -/

/-- Lower at some place and nowhere higher before it is lower in the lexicographic order. -/
theorem toLex_lt_of_le_of_lt {n : Nat} {a b : Fin n → WithTop ℕ} {k : Fin n}
    (hle : ∀ i < k, a i ≤ b i) (hlt : a k < b k) : toLex a < toLex b := by
  obtain ⟨i, hi, hmin⟩ := wellFounded_lt.has_min {i | a i ≠ b i} ⟨k, hlt.ne⟩
  refine ⟨i, fun j hj => not_not.1 fun hne => hmin j hne hj, ?_⟩
  rcases lt_trichotomy i k with hik | rfl | hki
  · exact lt_of_le_of_ne (hle i hik) hi
  · exact hlt
  · exact absurd hki (hmin k hlt.ne)

/-- The levels of the first lines, in order. -/
def Machine.levels (count : Nat) (m : Machine) : Lex (Fin count → WithTop ℕ) :=
  toLex fun i => m.level i

theorem Machine.Lowers.levels_lt {m m' : Machine} {line count : Nat} (h : m.Lowers m' line)
    (hline : line < count) : m'.levels count < m.levels count :=
  toLex_lt_of_le_of_lt (k := ⟨line, hline⟩) (fun i hi => h.before i hi) h.lower

namespace Prepared

/-- The script of some lines. -/
def ofLines (lines : List Text) : Prepared := ⟨lines, Jumps.ofLines lines⟩

/-- The machine after so many steps, or at its end if that comes first. -/
def after (p : Prepared) : Nat → Machine → Machine
  | 0, m => m
  | n + 1, m => match p.step? m with
    | none => m
    | some (_, _, m') => p.after n m'

/-- If the machine enters a loop next, the count is whole. -/
def countIsWhole (p : Prepared) (m : Machine) : Bool :=
  (p.fetch? m).all fun (_, line) => (Instruction.ofWords line.words).countIsWhole m.store

/-- Every loop that the run without a limit enters is given a whole number. -/
def CountsWhole (p : Prepared) : Prop := ∀ n, p.countIsWhole (p.after n .start)

variable {p : Prepared} {lines : List Text} {m m' : Machine}

theorem fetchFrom?_bounds {lines : List Text} {first index : Nat} {t : Text}
    (h : fetchFrom? first lines = some (index, t)) :
    first ≤ index ∧ index < first + lines.length := by
  induction lines generalizing first with
  | nil => cases h
  | cons line rest ih =>
    rw [fetchFrom?] at h
    rw [List.length_cons]
    split_ifs at h
    · have := ih h
      omega
    · cases h
      omega

theorem fetch?_bounds {index : Nat} {t : Text} (h : p.fetch? m = some (index, t)) :
    m.next ≤ index ∧ index < p.lines.length := by
  have hbounds := fetchFrom?_bounds h
  rw [List.length_drop] at hbounds
  omega

/-- What a step does: it lowers the levels and leaves whole counters. -/
theorem step?_lowers {line note : Text} (hwhole : m.CountersWhole)
    (hcount : (ofLines lines).countIsWhole m)
    (h : (ofLines lines).step? m = some (line, note, m')) :
    m'.CountersWhole ∧ m'.levels lines.length < m.levels lines.length := by
  obtain ⟨⟨index, t⟩, hfetch, hstep⟩ := Option.map_eq_some_iff.1 h
  obtain ⟨hle, hlt⟩ := fetch?_bounds hfetch
  rw [countIsWhole, hfetch, Option.all_some] at hcount
  obtain rfl : ((Instruction.ofWords t.words).run (Jumps.ofLines lines) index m).2 = m' :=
    congrArg (·.2.2) hstep
  obtain ⟨hwhole', k, hk, hlowers⟩ := Instruction.run_moves hwhole hle _ hcount
  exact ⟨hwhole', hlowers.levels_lt (Nat.lt_of_le_of_lt hk hlt)⟩

/-! ## Whole runs -/

theorem step?_eq_none : p.step? m = none ↔ p.fetch? m = none := Option.map_eq_none_iff

theorem after_succ_of_step? {line note : Text} (h : p.step? m = some (line, note, m')) (n : Nat) :
    p.after (n + 1) m = p.after n m' := by
  rw [after, h]

theorem after_of_step?_eq_none (h : p.step? m = none) : ∀ n, p.after n m = m
  | 0 => rfl
  | n + 1 => by rw [after, h]

theorem after_add (a b : Nat) (m : Machine) : p.after (a + b) m = p.after b (p.after a m) := by
  induction a generalizing m with
  | zero => rw [Nat.zero_add, after]
  | succ a ih =>
    rw [Nat.add_right_comm]
    cases h : p.step? m with
    | none => rw [after_of_step?_eq_none h, after_of_step?_eq_none h, after_of_step?_eq_none h]
    | some found =>
      obtain ⟨line, note, m'⟩ := found
      rw [after_succ_of_step? h, after_succ_of_step? h, ih]

/-- A run whose loops all have whole counts comes to its end. By induction on the levels. -/
theorem exists_after_step?_eq_none (m : Machine) (hwhole : m.CountersWhole)
    (hcounts : ∀ n, (ofLines lines).countIsWhole ((ofLines lines).after n m)) :
    ∃ n, (ofLines lines).step? ((ofLines lines).after n m) = none ∧
      ∀ number, ((ofLines lines).steps n number m).1.length = n := by
  induction hlevels : m.levels lines.length using WellFoundedLT.induction generalizing m with
  | ind levels ih =>
    subst hlevels
    cases hstep : (ofLines lines).step? m with
    | none => exact ⟨0, hstep, fun _ => rfl⟩
    | some found =>
      obtain ⟨line, note, m'⟩ := found
      obtain ⟨hwhole', hlt⟩ := step?_lowers hwhole (hcounts 0) hstep
      obtain ⟨n, hend, hlength⟩ := ih _ hlt m' hwhole'
        (fun n => after_succ_of_step? hstep n ▸ hcounts (n + 1)) rfl
      refine ⟨n + 1, by rw [after_succ_of_step? hstep, hend], fun number => ?_⟩
      rw [steps, hstep]
      exact congrArg Nat.succ (hlength (number + 1))

/-- Behind its end a run does nothing more. -/
theorem steps_of_le {n : Nat} (hend : p.step? (p.after n m) = none) {left : Nat} (hle : n ≤ left)
    (number : Nat) : p.steps left number m = ((p.steps n number m).1, p.after n m) := by
  induction left generalizing n m number with
  | zero =>
    obtain rfl : n = 0 := Nat.le_zero.1 hle
    rfl
  | succ left ih =>
    cases hstep : p.step? m with
    | none =>
      have hempty : ∀ k, p.steps k number m = ([], m) := by
        rintro (_ | k)
        · rfl
        · simp only [steps, hstep]
      rw [hempty, hempty, after_of_step?_eq_none hstep]
    | some found =>
      obtain ⟨line, note, m'⟩ := found
      cases n with
      | zero =>
        rw [after, hstep] at hend
        cases hend
      | succ n =>
        rw [after_succ_of_step? hstep] at hend ⊢
        simp only [steps, hstep, ih hend (Nat.le_of_succ_le_succ hle) (number + 1)]

/-- Where nothing can be run all further lines are passed over. -/
theorem isPassed_of_step?_eq_none (h : p.step? m = none) :
    ∀ line ∈ p.lines.drop m.next, isPassed line = true := by
  have hfetch : fetchFrom? m.next (p.lines.drop m.next) = none := step?_eq_none.1 h
  generalize p.lines.drop m.next = rest at hfetch
  generalize m.next = index at hfetch
  induction rest generalizing index with
  | nil => exact fun _ h => nomatch h
  | cons line rest ih =>
    rw [fetchFrom?] at hfetch
    split_ifs at hfetch with hpassed
    exact List.forall_mem_cons.2 ⟨hpassed, ih _ hfetch⟩

end Prepared

/-- If every loop that the unlimited run of a script enters is given a whole number, the run ends
after some number of steps, with nothing but lines that are passed over behind it. With a limit of
at least so many entries the script always records and prints the same. -/
theorem halts (lines : List Text) (hcounts : (Prepared.ofLines lines).CountsWhole) :
    ∃ (count : Nat) (last : Machine) (trace : List ScriptEntry),
      (Prepared.ofLines lines).after count .start = last ∧ trace.length = count ∧
      (∀ line ∈ lines.drop last.next, isPassed line = true) ∧
      ∀ (source : Text) (limits : Limits), source.feedLines = lines →
        (count : Int) ≤ limits.entries → run limits source = ⟨last.output.toList, trace⟩ := by
  obtain ⟨count, hend, hlength⟩ := Prepared.exists_after_step?_eq_none .start
    (by simp [Machine.CountersWhole, Machine.start]) hcounts
  refine ⟨count, _, _, rfl, hlength 1, Prepared.isPassed_of_step?_eq_none hend, ?_⟩
  rintro source limits rfl hle
  have hsteps := Prepared.steps_of_le hend (show count ≤ limits.entries.toNat by omega) 1
  have htext : Prepared.ofText source = Prepared.ofLines source.feedLines := rfl
  rw [run, htext, hsteps]

/-- A conditional that crosses the end of a loop, so that the counter of the loop is left behind, an
end without a start, and a conditional that leads into a loop past its start. -/
def crossedLines : List Text :=
  ["set n 3", "loop n", "if n > 1", "sub n 1", "end", "endif", "end", "loop 2", "if n > 9",
   "add n 1", "loop n", "endif", "print n", "end", "end"].map String.toList

theorem halts_crossed : (Prepared.ofLines crossedLines).CountsWhole ∧
    ∃ (count : Nat) (last : Machine) (trace : List ScriptEntry),
      (Prepared.ofLines crossedLines).after count .start = last ∧ trace.length = count ∧
      (∀ line ∈ crossedLines.drop last.next, isPassed line = true) ∧
      ∀ (source : Text) (limits : Limits), source.feedLines = crossedLines →
        (count : Int) ≤ limits.entries → run limits source = ⟨last.output.toList, trace⟩ := by
  have hend : ((Prepared.ofLines crossedLines).step?
      ((Prepared.ofLines crossedLines).after 19 .start)).isNone := by
    decide +kernel
  have hfirst : ∀ n < 19, (Prepared.ofLines crossedLines).countIsWhole
      ((Prepared.ofLines crossedLines).after n .start) := by
    decide +kernel
  have hcounts : (Prepared.ofLines crossedLines).CountsWhole := by
    intro n
    rcases Nat.lt_or_ge n 19 with hn | hn
    · exact hfirst n hn
    · obtain ⟨k, rfl⟩ := Nat.exists_eq_add_of_le hn
      have hstep := Option.isNone_iff_eq_none.1 hend
      rw [Prepared.after_add, Prepared.after_of_step?_eq_none hstep, Prepared.countIsWhole,
        Prepared.step?_eq_none.1 hstep]
      rfl
  exact ⟨hcounts, halts crossedLines hcounts⟩

end StepTrace.Script
