import Mathlib.Data.Int.Order.Basic
import StepTrace.Proofs.Script.Placed

/-!
# Structured scripts on the machine

The machine knows lines, jumps and counters only, a structured script none of them. The two are
compared place by place: a place is the index of a line, the variables, and the counters of the
loops under way. `Leads` says that from each machine at one place some events take the machine to
another place, and contracts of this kind are composed.

A structured script leads from the front of its lines to their end and does there what its tree
means (`Block.leads`). The induction needs that no loop on these lines has a counter yet. Then a
loop takes its count when it is reached, and since its counter is dropped at its end, the same holds
again in the next round of a loop around it.
-/

namespace StepTrace.Script

/-! ## Counters -/

section Counters

theorem isUsedUp_int (n : Int) : isUsedUp (.int n) = decide (n ≤ 0) := by
  rcases lt_trichotomy n 0 with h | rfl | h
  · simp [isUsedUp, Number.compares, Number.zero, Number.order?, Comparison.holds,
      compare_lt_iff_lt.2 h, h.le]
  · decide
  · simp [isUsedUp, Number.compares, Number.zero, Number.order?, Comparison.holds,
      compare_gt_iff_gt.2 h, h]

theorem loopCount_int (n : Int) : loopCount (.int n) = .int (max n 0) := by
  rcases lt_trichotomy n 0 with h | rfl | h
  · simp [loopCount, Number.compares, Number.zero, Number.order?, Comparison.holds,
      compare_lt_iff_lt.2 h]
    omega
  · decide
  · simp [loopCount, Number.compares, Number.zero, Number.order?, Comparison.holds,
      compare_gt_iff_gt.2 h]
    omega

theorem oneLess_int (n : Int) : oneLess (.int n) = .int (n - 1) := rfl

variable {counters : List (Nat × Number)} {k : Nat}

theorem filter_ne_of_lookup (h : counters.lookup k = none) :
    counters.filter (·.1 ≠ k) = counters := by
  refine List.filter_eq_self.2 fun entry hentry => ?_
  have hne := List.lookup_eq_none_iff.1 h entry hentry
  simpa using fun heq : entry.1 = k => by simp [heq] at hne

end Counters

/-! ## Places and what leads from one to another -/

/-- A place of the machine. -/
structure Place where
  index : Nat
  store : Store
  counters : List (Nat × Number)

/-- The machine is at a place, up to lines that are passed over. -/
structure Machine.IsAt (m : Machine) (lines : List Text) (a : Place) : Prop where
  next : Passes lines m.next a.index
  store : m.store = a.store
  counters : m.counters = a.counters

/-- One step of a machine is an event. -/
structure Prepared.Does (p : Prepared) (m : Machine) (e : Event) (m' : Machine) : Prop where
  step : p.step? m = some (e.line, e.note, m')
  store : m'.store = e.store
  output : m'.output.toList = m.output.toList ++ e.printed.toList

/-- Some steps of a machine, one event each. -/
inductive Prepared.DoesAll (p : Prepared) : Machine → List Event → Machine → Prop
  | nil (m : Machine) : p.DoesAll m [] m
  | cons {m m₁ m₂ : Machine} {e : Event} {es : List Event} :
    p.Does m e m₁ → p.DoesAll m₁ es m₂ → p.DoesAll m (e :: es) m₂

/-- From each machine at one place some events lead to another place. -/
def Prepared.Leads (p : Prepared) (a : Place) (es : List Event) (b : Place) : Prop :=
  ∀ m, m.IsAt p.lines a → ∃ m', p.DoesAll m es m' ∧ m'.IsAt p.lines b

namespace Prepared

variable {p : Prepared} {a b c : Place} {es fs : List Event}

theorem DoesAll.append {m₁ m₂ m₃ : Machine} (h : p.DoesAll m₁ es m₂) (h' : p.DoesAll m₂ fs m₃) :
    p.DoesAll m₁ (es ++ fs) m₃ := by
  induction h with
  | nil => exact h'
  | cons hstep _ ih => exact .cons hstep (ih h')

theorem Leads.trans (h : p.Leads a es b) (h' : p.Leads b fs c) : p.Leads a (es ++ fs) c := by
  intro m hm
  obtain ⟨m₁, hes, hm₁⟩ := h m hm
  obtain ⟨m₂, hfs, hm₂⟩ := h' m₁ hm₁
  exact ⟨m₂, hes.append hfs, hm₂⟩

theorem Leads.cons {e : Event} (h : p.Leads a [e] b) (h' : p.Leads b fs c) :
    p.Leads a (e :: fs) c :=
  h.trans h'

theorem Leads.pass {i j : Nat} {s : Store} {counters : List (Nat × Number)}
    (h : Passes p.lines i j) : p.Leads ⟨i, s, counters⟩ [] ⟨j, s, counters⟩ :=
  fun m hm => ⟨m, .nil m, hm.next.trans h, hm.store, hm.counters⟩

theorem Leads.after_passes {i j : Nat} {s : Store} {counters : List (Nat × Number)}
    (h : Passes p.lines i j) (h' : p.Leads ⟨j, s, counters⟩ es b) :
    p.Leads ⟨i, s, counters⟩ es b :=
  (Leads.pass h).trans h'

/-! ### Steps -/

theorem fetchFrom?_of_says {lines : List Text} {i k : Nat} {t : Text} (hpasses : Passes lines i k)
    (htext : Says lines k t) : fetchFrom? i (lines.drop i) = some (k, t) := by
  obtain ⟨d, rfl⟩ := Nat.exists_eq_add_of_le hpasses.le
  induction d generalizing i with
  | zero =>
    obtain ⟨line, hline, hspoken, rfl⟩ := htext
    rw [Nat.add_zero] at hline
    rw [List.drop_eq_getElem?_toList_append, hline]
    simp [fetchFrom?, hspoken]
  | succ d ih =>
    obtain ⟨line, hline, hpassed⟩ := hpasses.passed i (Nat.le_refl _) (by omega)
    have hrest := ih (i := i + 1)
    rw [show i + 1 + d = i + (d + 1) by omega] at hrest
    rw [List.drop_eq_getElem?_toList_append, hline]
    simpa [fetchFrom?, hpassed] using
      hrest ⟨by omega, fun l hl => hpasses.passed l (by omega)⟩ htext

/-- An instruction is an event and leads from one place to another. -/
structure Performs (jumps : Jumps) (a : Place) (i : Instruction) (e : Event) (b : Place) :
    Prop where
  store : b.store = e.store
  run : ∀ m : Machine, m.store = a.store → m.counters = a.counters →
    ∃ m', i.run jumps a.index m = (e.note, m') ∧ m'.next = b.index ∧ m'.store = b.store ∧
      m'.counters = b.counters ∧ m'.output.toList = m.output.toList ++ e.printed.toList

theorem Leads.step {e : Event} {i : Instruction} (htext : Says p.lines a.index e.line)
    (hi : Instruction.ofWords e.line.words = i) (h : Performs p.jumps a i e b) :
    p.Leads a [e] b := by
  intro m hm
  obtain ⟨m', hrun, hnext, hstore, hcounters, houtput⟩ := h.run m hm.store hm.counters
  have hfetch : p.fetch? m = some (a.index, e.line) := fetchFrom?_of_says hm.next htext
  refine ⟨m', .cons ⟨?_, hstore.trans h.store, houtput⟩ (.nil m'), ?_, hstore, hcounters⟩
  · rw [step?, hfetch, Option.map_some]
    simp only [hi, hrun]
  · rw [hnext]
    exact .refl _ _

section Instructions

variable {jumps : Jumps} {s : Store} {counters : List (Nat × Number)} {k e : Nat}

/-- A command is one of four instructions. -/
theorem ofWords_of_isCommand {ws : List Text} (h : isCommand ws) :
    (∃ name value, Instruction.ofWords ws = .set name value) ∨
    (∃ command op name value, Instruction.ofWords ws = .combine command op name value) ∨
    (∃ value, Instruction.ofWords ws = .print value) ∨ Instruction.ofWords ws = .unknown := by
  have hblock : ∀ w ∈ blockWords, word ws 0 ≠ w := by
    rintro w hw rfl
    simp [isCommand, hw] at h
  simp only [Instruction.ofWords, hblock "if".toList (by decide),
    hblock "endif".toList (by decide), hblock "loop".toList (by decide),
    hblock "end".toList (by decide), if_false]
  by_cases hset : word ws 0 = "set".toList
  · exact .inl ⟨_, _, if_pos hset⟩
  by_cases hprint : word ws 0 = "print".toList
  · exact .inr (.inr (.inl ⟨_, by rw [if_neg hset, if_pos hprint]⟩))
  rw [if_neg hset, if_neg hprint]
  cases commands.lookup (word ws 0) with
  | some op => exact .inr (.inl ⟨_, _, _, _, rfl⟩)
  | none => exact .inr (.inr (.inr rfl))

theorem performs_command {ws : List Text} (h : isCommand ws) :
    Performs jumps ⟨k, s, counters⟩ (.ofWords ws) (effect s ws)
      ⟨k + 1, (effect s ws).store, counters⟩ := by
  refine ⟨rfl, ?_⟩
  rintro m rfl rfl
  unfold effect
  rcases ofWords_of_isCommand h with
    ⟨name, value, hi⟩ | ⟨command, op, name, value, hi⟩ | ⟨value, hi⟩ | hi
  all_goals
    rw [hi]
    exact ⟨_, rfl, rfl, rfl, rfl, by simp [Machine.goto]⟩

theorem run_enterIf (m : Machine) (left sign right : Text) :
    (Instruction.enterIf left sign right).run jumps k m =
      if holds m.store left sign right then ("enter if".toList, m.goto (k + 1))
      else ("skip if".toList, m.goto ((jumps.ifEnd? k).getD k + 1)) := rfl

theorem run_enterLoop {m : Machine} {count : Text} {n : Int}
    (hcount : resolve m.store count = .int n)
    (hfresh : m.counters.lookup k = none) : (Instruction.enterLoop count).run jumps k m =
      if 0 < n then
        ("loop x".toList ++ (Number.int n).display, (m.setCounter k (.int n)).goto (k + 1))
      else ("skip loop".toList, (m.dropCounter k).goto ((jumps.loopEnd? k).getD k + 1)) := by
  have hrun : (Instruction.enterLoop count).run jumps k m =
      if isUsedUp (((m.counters.lookup k)).getD (loopCount (resolve m.store count))) then
        ("skip loop".toList, (m.dropCounter k).goto ((jumps.loopEnd? k).getD k + 1))
      else
        ("loop x".toList ++
          (((m.counters.lookup k)).getD (loopCount (resolve m.store count))).display,
          (m.setCounter k (((m.counters.lookup k)).getD (loopCount (resolve m.store count)))).goto
            (k + 1)) := rfl
  rw [hrun, hfresh, hcount, Option.getD_none, loopCount_int, isUsedUp_int]
  by_cases hn : 0 < n
  · rw [max_eq_left hn.le, if_neg (by simpa using hn), if_pos hn]
  · rw [max_eq_right (by omega), if_pos (by simp), if_neg hn]

theorem run_endLoop {m : Machine} {left : Nat} (hback : jumps.loopStart? e = some k)
    (hcounter : m.counters.lookup k = some (.int (left + 1))) :
    Instruction.endLoop.run jumps e m =
      (roundNote left, if left = 0 then (m.dropCounter k).goto (e + 1)
        else (m.setCounter k (.int left)).goto (k + 1)) := by
  delta Instruction.run
  dsimp only
  rw [hback]
  dsimp only
  rw [hcounter, Option.getD_some, oneLess_int, isUsedUp_int]
  cases left with
  | zero => rfl
  | succ left =>
    rw [if_neg (by simp), if_neg (by simp), Int.add_sub_cancel]
    rfl

theorem performs_enterIf {left sign right line : Text} (h : holds s left sign right = true) :
    Performs jumps ⟨k, s, counters⟩ (.enterIf left sign right) ⟨line, "enter if".toList, s, none⟩
      ⟨k + 1, s, counters⟩ := by
  refine ⟨rfl, ?_⟩
  rintro m rfl rfl
  refine ⟨m.goto (k + 1), ?_, rfl, rfl, rfl, by simp [Machine.goto]⟩
  rw [run_enterIf, if_pos h]

theorem performs_skipIf {left sign right line : Text} (h : holds s left sign right = false)
    (hjump : jumps.ifEnd? k = some e) :
    Performs jumps ⟨k, s, counters⟩ (.enterIf left sign right) ⟨line, "skip if".toList, s, none⟩
      ⟨e + 1, s, counters⟩ := by
  refine ⟨rfl, ?_⟩
  rintro m rfl rfl
  refine ⟨m.goto (e + 1), ?_, rfl, rfl, rfl, by simp [Machine.goto]⟩
  rw [run_enterIf, if_neg (by simp [h]), hjump, Option.getD_some]

theorem performs_endIf {line : Text} :
    Performs jumps ⟨k, s, counters⟩ .endIf ⟨line, "end if".toList, s, none⟩
      ⟨k + 1, s, counters⟩ := by
  refine ⟨rfl, ?_⟩
  rintro m rfl rfl
  exact ⟨m.goto (k + 1), rfl, rfl, rfl, rfl, by simp [Machine.goto]⟩

theorem performs_enterLoop {count line : Text} {n : Int} (hcount : resolve s count = .int n)
    (hn : 0 < n) (hfresh : counters.lookup k = none) :
    Performs jumps ⟨k, s, counters⟩ (.enterLoop count)
      ⟨line, "loop x".toList ++ (Number.int n).display, s, none⟩
      ⟨k + 1, s, (k, .int n) :: counters⟩ := by
  refine ⟨rfl, ?_⟩
  rintro m rfl rfl
  refine ⟨(m.setCounter k (.int n)).goto (k + 1), ?_, rfl, rfl, ?_, ?_⟩
  · rw [run_enterLoop hcount hfresh, if_pos hn]
  · simp only [Machine.goto, Machine.setCounter, Machine.dropCounter, filter_ne_of_lookup hfresh]
  · simp [Machine.goto, Machine.setCounter]

theorem performs_skipLoop {count line : Text} {n : Int} (hcount : resolve s count = .int n)
    (hn : ¬0 < n) (hfresh : counters.lookup k = none) (hjump : jumps.loopEnd? k = some e) :
    Performs jumps ⟨k, s, counters⟩ (.enterLoop count) ⟨line, "skip loop".toList, s, none⟩
      ⟨e + 1, s, counters⟩ := by
  refine ⟨rfl, ?_⟩
  rintro m rfl rfl
  refine ⟨(m.dropCounter k).goto (e + 1), ?_, rfl, rfl, ?_, ?_⟩
  · rw [run_enterLoop hcount hfresh, if_neg hn, hjump, Option.getD_some]
  · simp only [Machine.goto, Machine.dropCounter, filter_ne_of_lookup hfresh]
  · simp [Machine.goto, Machine.dropCounter]

/-- The end of a round counts down. It goes back behind the first line, or on if nothing is left. -/
theorem performs_endLoop {line : Text} (left : Nat) (hback : jumps.loopStart? e = some k)
    (hfresh : counters.lookup k = none) :
    Performs jumps ⟨e, s, (k, .int (left + 1)) :: counters⟩ .endLoop
      ⟨line, roundNote left, s, none⟩
      (if left = 0 then ⟨e + 1, s, counters⟩ else ⟨k + 1, s, (k, .int left) :: counters⟩) := by
  have hdrop : ((k, .int (left + 1)) :: counters).filter (·.1 ≠ k) = counters := by
    rw [List.filter_cons_of_neg (by simp), filter_ne_of_lookup hfresh]
  refine ⟨by split <;> rfl, ?_⟩
  rintro m rfl hcounters
  refine ⟨_, run_endLoop hback (by rw [hcounters, List.lookup_cons_self]), ?_⟩
  split
  · exact ⟨rfl, rfl, by simp only [Machine.goto, Machine.dropCounter, hcounters, hdrop],
      by simp [Machine.goto, Machine.dropCounter]⟩
  · exact ⟨rfl, rfl,
      by simp only [Machine.goto, Machine.setCounter, Machine.dropCounter, hcounters, hdrop],
      by simp [Machine.goto, Machine.setCounter]⟩

end Instructions

end Prepared

/-! ## Structured scripts -/

theorem effect_line (s : Store) (ws : List Text) : (effect s ws).line = lineOf ws := by
  unfold effect
  split <;> rfl

theorem words_lineOf {ws : List Text} (h : isCommand ws) : (lineOf ws).words = ws := by
  simp only [isCommand, Bool.and_eq_true] at h
  exact Text.words_joined (by simpa using h.1.1.2)

theorem ofWords_ifLine {left sign right : Text}
    (h : left.isWord ∧ sign.isWord ∧ right.isWord) :
    Instruction.ofWords (Block.ifLine left sign right).words = .enterIf left sign right := by
  have hwords : ∀ w ∈ ["if".toList, left, sign, right], Text.isWord w :=
    List.forall_mem_cons.2 ⟨by decide, by simpa using h⟩
  rw [Block.ifLine, lineOf, Text.words_joined hwords]
  rfl

theorem ofWords_loopLine {count : Text} (h : count.isWord) :
    Instruction.ofWords (Block.loopLine count).words = .enterLoop count := by
  have hwords : ∀ w ∈ ["loop".toList, count], Text.isWord w :=
    List.forall_mem_cons.2 ⟨by decide, by simpa using h⟩
  rw [Block.loopLine, lineOf, Text.words_joined hwords]
  rfl

theorem rounds_succ_eq_some {body : Meaning} {left : Nat} {s u : Store} {es : List Event}
    (h : rounds body (left + 1) s = some (es, u)) : ∃ fs gs t, body s = some (fs, t) ∧
      rounds body left t = some (gs, u) ∧
      es = fs ++ ⟨"end".toList, roundNote left, t, none⟩ :: gs := by
  simp only [rounds, Option.bind_eq_bind, Option.bind_eq_some_iff, Option.pure_def,
    Option.some.injEq, Prod.mk.injEq] at h
  obtain ⟨⟨fs, t⟩, hbody, ⟨gs, _⟩, hrest, rfl, rfl⟩ := h
  exact ⟨fs, gs, t, hbody, hrest, rfl⟩

/-- The rounds of a loop, each from behind its first line to its last one. -/
theorem Prepared.leads_rounds {p : Prepared} {body : Meaning} {k e : Nat}
    {counters : List (Nat × Number)} (hend : Says p.lines e "end".toList)
    (hback : p.jumps.loopStart? e = some k) (hfresh : counters.lookup k = none)
    (hbody : ∀ {s t : Store} {es : List Event} (left : Number), body s = some (es, t) →
      p.Leads ⟨k + 1, s, (k, left) :: counters⟩ es ⟨e, t, (k, left) :: counters⟩)
    {left : Nat} {s t : Store} {es : List Event} (h : rounds body (left + 1) s = some (es, t)) :
    p.Leads ⟨k + 1, s, (k, .int (left + 1)) :: counters⟩ es ⟨e + 1, t, counters⟩ := by
  induction left generalizing s es with
  | zero =>
    obtain ⟨fs, gs, u, hround, hrest, rfl⟩ := rounds_succ_eq_some h
    obtain ⟨rfl, rfl⟩ : [] = gs ∧ u = t := by simpa [rounds] using hrest
    exact (hbody _ hround).trans (.step hend rfl (performs_endLoop 0 hback hfresh))
  | succ left ih =>
    obtain ⟨fs, gs, u, hround, hrest, rfl⟩ := rounds_succ_eq_some h
    exact (hbody _ hround).trans
      (.cons (.step hend rfl (performs_endLoop (left + 1) hback hfresh)) (ih hrest))

/-- A structured script leads over its lines and does what its tree means. No loop on these lines
has a counter at the start, and none has one at the end. -/
theorem Block.leads {p : Prepared} {b : Block} {i j : Nat} {s t : Store} {es : List Event}
    {counters : List (Nat × Number)} (hproper : b.isProper) (hplaced : b.Placed p i j)
    (hrun : b.run? s = some (es, t))
    (hfresh : ∀ k, i ≤ k → k < j → counters.lookup k = none) :
    p.Leads ⟨i, s, counters⟩ es ⟨j, t, counters⟩ := by
  induction b generalizing i j s t es counters with
  | done =>
    obtain ⟨rfl, rfl⟩ : [] = es ∧ s = t := by simpa [run?] using hrun
    exact .pass hplaced
  | plain words rest ih =>
    simp only [isProper, Bool.and_eq_true] at hproper
    obtain ⟨k, hpass, htext, hrest⟩ := hplaced
    simp only [run?, Option.bind_eq_bind, Option.bind_eq_some_iff, Option.pure_def,
      Option.some.injEq, Prod.mk.injEq] at hrun
    obtain ⟨⟨fs, _⟩, hfs, rfl, rfl⟩ := hrun
    have hle := hpass.le
    have hline := effect_line s words
    have hwords : Instruction.ofWords (effect s words).line.words = .ofWords words := by
      rw [hline, words_lineOf hproper.1]
    refine .after_passes hpass
      (.cons (.step (hline ▸ htext) hwords (Prepared.performs_command hproper.1)) ?_)
    exact ih hproper.2 hrest hfs fun l hl => hfresh l (by omega)
  | branch left sign right body rest ihBody ih =>
    simp only [isProper, Bool.and_eq_true] at hproper
    obtain ⟨⟨⟨⟨hleft, hsign⟩, hright⟩, hbodyProper⟩, hrestProper⟩ := hproper
    obtain ⟨k, e, hpass, htext, hbody, hend, hjump, hrest⟩ := hplaced
    have hwords := ofWords_ifLine ⟨hleft, hsign, hright⟩
    have hle := hpass.le
    have hbodyLe := hbody.le
    have hrestLe := hrest.le
    simp only [run?] at hrun
    split at hrun
    case isTrue hholds =>
      simp only [Option.bind_eq_bind, Option.bind_eq_some_iff, Option.pure_def,
        Option.some.injEq, Prod.mk.injEq] at hrun
      obtain ⟨⟨fs, u⟩, hfs, ⟨gs, _⟩, hgs, rfl, rfl⟩ := hrun
      rw [List.cons_append]
      refine .after_passes hpass
        (.cons (.step htext hwords (Prepared.performs_enterIf hholds)) ?_)
      refine (ihBody hbodyProper hbody hfs fun l hl hl' => hfresh l (by omega) (by omega)).trans ?_
      refine .cons (.step hend rfl Prepared.performs_endIf) ?_
      exact ih hrestProper hrest hgs fun l hl => hfresh l (by omega)
    case isFalse hholds =>
      simp only [Option.bind_eq_bind, Option.bind_eq_some_iff, Option.pure_def,
        Option.some.injEq, Prod.mk.injEq] at hrun
      obtain ⟨⟨gs, _⟩, hgs, rfl, rfl⟩ := hrun
      refine .after_passes hpass
        (.cons (.step htext hwords (Prepared.performs_skipIf (by simpa using hholds) hjump)) ?_)
      exact ih hrestProper hrest hgs fun l hl => hfresh l (by omega)
  | loop count body rest ihBody ih =>
    simp only [isProper, Bool.and_eq_true] at hproper
    obtain ⟨⟨hcountWord, hbodyProper⟩, hrestProper⟩ := hproper
    obtain ⟨k, e, hpass, htext, hbody, hend, hjump, hback, hrest⟩ := hplaced
    have hwords := ofWords_loopLine hcountWord
    have hle := hpass.le
    have hbodyLe := hbody.le
    have hrestLe := hrest.le
    have hk : counters.lookup k = none := hfresh k (by omega) (by omega)
    simp only [run?] at hrun
    split at hrun
    case h_1 => cases hrun
    case h_2 n hcount =>
    split at hrun
    case isTrue hn =>
      simp only [Option.bind_eq_bind, Option.bind_eq_some_iff, Option.pure_def,
        Option.some.injEq, Prod.mk.injEq] at hrun
      obtain ⟨⟨fs, u⟩, hfs, ⟨gs, _⟩, hgs, rfl, rfl⟩ := hrun
      obtain ⟨m, rfl⟩ : ∃ m : Nat, n = m + 1 := ⟨n.toNat - 1, by omega⟩
      rw [List.cons_append]
      refine .after_passes hpass
        (.cons (.step htext hwords (Prepared.performs_enterLoop hcount hn hk)) ?_)
      refine Prepared.Leads.trans (Prepared.leads_rounds hend hback hk ?_ hfs) ?_
      · intro s t es left hes
        refine ihBody hbodyProper hbody hes fun l hl hl' => ?_
        rw [List.lookup_cons, beq_false_of_ne (by omega)]
        exact hfresh l (by omega) (by omega)
      · exact ih hrestProper hrest hgs fun l hl => hfresh l (by omega)
    case isFalse hn =>
      simp only [Option.bind_eq_bind, Option.bind_eq_some_iff, Option.pure_def,
        Option.some.injEq, Prod.mk.injEq] at hrun
      obtain ⟨⟨gs, _⟩, hgs, rfl, rfl⟩ := hrun
      refine .after_passes hpass
        (.cons (.step htext hwords (Prepared.performs_skipLoop hcount hn hk hjump)) ?_)
      exact ih hrestProper hrest hgs fun l hl => hfresh l (by omega)

/-! ## Whole runs -/

namespace Prepared

variable {p : Prepared}

theorem fetch?_eq_none {m : Machine} (h : Passes p.lines m.next p.lines.length) :
    p.fetch? m = none := by
  unfold fetch?
  generalize m.next = i at h
  obtain ⟨d, hd⟩ := Nat.exists_eq_add_of_le h.le
  induction d generalizing i with
  | zero => rw [List.drop_of_length_le (by omega), fetchFrom?]
  | succ d ih =>
    obtain ⟨line, hline, hpassed⟩ := h.passed i (Nat.le_refl _) (by omega)
    rw [List.drop_eq_getElem?_toList_append, hline]
    simpa [fetchFrom?, hpassed] using
      ih (i + 1) ⟨by omega, fun l hl => h.passed l (by omega)⟩ (by omega)

/-- What a run with a limited number of steps records and prints, if without a limit the machine
does some events and ends. -/
theorem steps_of_doesAll {m last : Machine} {es : List Event} (h : p.DoesAll m es last)
    (hlast : p.fetch? last = none) (left number : Nat) :
    (p.steps left number m).1 = entriesFrom number (es.take left) ∧
      (p.steps left number m).2.output.toList =
        m.output.toList ++ (es.take left).filterMap Event.printed := by
  induction h generalizing left number with
  | nil m =>
    cases left with
    | zero => simp [steps, entriesFrom]
    | succ left => simp [steps, step?, hlast, entriesFrom]
  | @cons m m₁ m₂ e es hstep _ ih =>
    cases left with
    | zero => simp [steps, entriesFrom]
    | succ left =>
      obtain ⟨htrace, houtput⟩ := ih hlast left (number + 1)
      simp only [steps, hstep.step, List.take_succ_cons, entriesFrom, hstep.store]
      refine ⟨by rw [htrace], ?_⟩
      rw [houtput, hstep.output, List.filterMap_cons]
      cases e.printed <;> simp

end Prepared

/-- A script whose lines are those of a structured script, up to blank lines, comments and white
space around a line, records and prints what the tree means, cut to the limit of entries. -/
theorem run_eq_of_block (limits : Limits) {source : Text} {b : Block} {events : List Event}
    {last : Store} (hproper : b.isProper) (hlines : spokenLines source.feedLines = b.lines)
    (hrun : b.run? .empty = some (events, last)) :
    run limits source =
      ⟨(events.take limits.entries.toNat).filterMap Event.printed,
        entriesFrom 1 (events.take limits.entries.toNat)⟩ := by
  have hleads : (Prepared.ofText source).Leads ⟨0, .empty, []⟩ events
      ⟨source.feedLines.length, last, []⟩ :=
    b.leads hproper (Prepared.placed_ofText hproper hlines) hrun fun _ _ _ => rfl
  obtain ⟨m, hdoes, hend⟩ := hleads .start ⟨.refl _ _, rfl, rfl⟩
  obtain ⟨htrace, houtput⟩ := Prepared.steps_of_doesAll hdoes
    (Prepared.fetch?_eq_none hend.next) limits.entries.toNat 1
  simp only [run, htrace, houtput]
  rfl

/-- Loops in loops, a count that changes between two rounds of the loop around it, and a conditional
with a loop that is never entered. -/
def nestedBlock : Block :=
  .plain ["set".toList, "n".toList, "2".toList] <|
  .loop "3".toList
    (.loop "n".toList (.plain ["add".toList, "s".toList, "n".toList] .done) <|
      .branch "s".toList ">".toList "4".toList
        (.loop "-1".toList (.plain ["print".toList, "n".toList] .done) <|
          .plain ["print".toList, "s".toList] .done) <|
      .plain ["sub".toList, "n".toList, "1".toList] .done) <|
  .plain ["halt".toList] .done

def nestedSource : Text :=
  ("set n 2\n\n# rounds\nloop 3\n  loop n\n    add s n\n  end\n  if s > 4\n    loop -1\n" ++
    "      print n\n    end\n    # sum\n    print s\n  endif\n\n  sub n 1\nend\nhalt\n").toList

theorem run_eq_of_block_nested :
    spokenLines nestedSource.feedLines = nestedBlock.lines ∧
      ∃ events last, nestedBlock.run? .empty = some (events, last) ∧ events.length = 27 ∧
        run ⟨15, 100, 20⟩ nestedSource =
          ⟨(events.take 20).filterMap Event.printed, entriesFrom 1 (events.take 20)⟩ := by
  have hlines : spokenLines nestedSource.feedLines = nestedBlock.lines := by decide +kernel
  have hlength : (nestedBlock.run? .empty).map (·.1.length) = some 27 := by decide +kernel
  obtain ⟨⟨events, last⟩, hrun, hevents⟩ := Option.map_eq_some_iff.1 hlength
  exact ⟨hlines, events, last, hrun, hevents,
    run_eq_of_block ⟨15, 100, 20⟩ (by decide +kernel) hlines hrun⟩

end StepTrace.Script
