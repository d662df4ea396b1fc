import StepTrace.Proofs.Run.Action

/-!
# Structured programs

A structured program is a tree of statements, conditionals and loops (`Block`). A conditional has
further clauses, each with a condition but possibly the last one (`Clauses`). How the first lines of
its parts are written depends on the layout only (`ifLine`, `furtherLine`, `elseLine`, `loopLine`).

The tree has a meaning of its own, without indices and stops (`Block.run`). Of the clauses of a
conditional the conditions are decided in turn until one holds, and only its body is run. A loop
over known values finds them when it is reached. Which of them are visited is left open here, so
that the loop that visits all of them can be compared with one that is cut.

A program as it is read from lines is a tree too, but its bodies are given by the index of their
first line and a stop. `Block.ReadAs` says that the program from one index up to another one is a
given structured program, and `Block.run_of_readAs` that it then does the same.
-/

namespace StepTrace

/-- All values that a loop over known values runs through. -/
def Sweep.values : Sweep → List Value
  | numbers start stop step _ =>
    (Progression.values start step (Progression.total start stop step)).map fun n => .num (.int n)
  | items values => values

/-- Run one part or the other, as a test comes out. -/
def Run.either (test : Run Bool) (yes no : Run Unit) : Run Unit := do if ← test then yes else no

/-- The outcome of a run from the start. The limit of entries ends a run and is no fault. -/
def Run.outcome (x : Run Unit) : Outcome :=
  match x.exec (.start .empty) with
  | (.ok _, r) => .trace r.trace.toList
  | (.error .limit, r) => .trace r.trace.toList
  | (.error (.fault f), _) => .fault f
  | (.error .stalled, _) => .stalled

namespace Structured

/-! ## Trees -/

mutual

/-- A structured program. -/
inductive Block where
  | done
  /-- A statement. -/
  | leaf (text : Text) (rest : Block)
  /-- A conditional with its first condition and body. -/
  | branch (cond : Text) (body : Block) (further : Clauses) (rest : Block)
  /-- A loop with its header and the head that is read from it. -/
  | loop (header : Text) (head : Loop) (body rest : Block)

/-- The further clauses of a conditional. -/
inductive Clauses where
  | none
  | clause (cond : Text) (body : Block) (next : Clauses)
  /-- The clause for when no condition held. -/
  | otherwise (body : Block)

end

/-- What is asked of the texts in a structured program. -/
structure Rules where
  leaf : Text → Bool
  cond : Text → Bool
  loop : Text → Loop → Bool

mutual

/-- All texts in a structured program are as they should be. -/
def Block.follows (rules : Rules) : Block → Bool
  | .done => true
  | .leaf text rest => rules.leaf text && rest.follows rules
  | .branch cond body further rest =>
    rules.cond cond && body.follows rules && further.follows rules && rest.follows rules
  | .loop header head body rest =>
    rules.loop header head && body.follows rules && rest.follows rules

/-- All texts in some clauses are as they should be. -/
def Clauses.follows (rules : Rules) : Clauses → Bool
  | .none => true
  | .clause cond body next => rules.cond cond && body.follows rules && next.follows rules
  | .otherwise body => body.follows rules

end

mutual

/-- Texts that are as two sets of rules say are as a third one says that follows from them. -/
theorem Block.follows_of_and {r₁ r₂ r : Rules} (hleaf : ∀ t, r₁.leaf t → r₂.leaf t → r.leaf t)
    (hcond : ∀ t, r₁.cond t → r₂.cond t → r.cond t)
    (hloop : ∀ t head, r₁.loop t head → r₂.loop t head → r.loop t head) :
    ∀ {b : Block}, b.follows r₁ → b.follows r₂ → b.follows r
  | .done, _, _ => rfl
  | .leaf text rest, h₁, h₂ => by
    simp only [Block.follows, Bool.and_eq_true] at h₁ h₂ ⊢
    exact ⟨hleaf text h₁.1 h₂.1, Block.follows_of_and hleaf hcond hloop h₁.2 h₂.2⟩
  | .branch cond body further rest, h₁, h₂ => by
    simp only [Block.follows, Bool.and_eq_true] at h₁ h₂ ⊢
    exact ⟨⟨⟨hcond cond h₁.1.1.1 h₂.1.1.1,
      Block.follows_of_and hleaf hcond hloop h₁.1.1.2 h₂.1.1.2⟩,
      Clauses.follows_of_and hleaf hcond hloop h₁.1.2 h₂.1.2⟩,
      Block.follows_of_and hleaf hcond hloop h₁.2 h₂.2⟩
  | .loop header head body rest, h₁, h₂ => by
    simp only [Block.follows, Bool.and_eq_true] at h₁ h₂ ⊢
    exact ⟨⟨hloop header head h₁.1.1 h₂.1.1, Block.follows_of_and hleaf hcond hloop h₁.1.2 h₂.1.2⟩,
      Block.follows_of_and hleaf hcond hloop h₁.2 h₂.2⟩

theorem Clauses.follows_of_and {r₁ r₂ r : Rules} (hleaf : ∀ t, r₁.leaf t → r₂.leaf t → r.leaf t)
    (hcond : ∀ t, r₁.cond t → r₂.cond t → r.cond t)
    (hloop : ∀ t head, r₁.loop t head → r₂.loop t head → r.loop t head) :
    ∀ {c : Clauses}, c.follows r₁ → c.follows r₂ → c.follows r
  | .none, _, _ => rfl
  | .clause cond body next, h₁, h₂ => by
    simp only [Clauses.follows, Bool.and_eq_true] at h₁ h₂ ⊢
    exact ⟨⟨hcond cond h₁.1.1 h₂.1.1, Block.follows_of_and hleaf hcond hloop h₁.1.2 h₂.1.2⟩,
      Clauses.follows_of_and hleaf hcond hloop h₁.2 h₂.2⟩
  | .otherwise body, h₁, h₂ => by
    simp only [Clauses.follows] at h₁ h₂ ⊢
    exact Block.follows_of_and hleaf hcond hloop h₁ h₂

end

/-- A loop with the head that is read from its header. -/
def Block.ofHeader (d : Dialect) (header : Text) (body rest : Block) : Block :=
  .loop header ((loop? d header.trimRight).getD (.guarded [] (.constant false) [] none)) body rest

/-! ## First lines -/

/-- A header as it is written before a body. -/
def opened : Layout → (header : Text) → Text
  | .indented, header => header ++ [':']
  | .braced, header => header ++ [' ', '\x7b']

/-- The word before the condition of a further clause. -/
def furtherWord : Layout → Text
  | .indented => "elif".toList
  | .braced => "else if".toList

/-- The line of the first condition of a conditional. -/
def ifLine (l : Layout) (cond : Text) : Text := opened l ("if ".toList ++ cond)

/-- The line of a further condition. -/
def furtherLine (l : Layout) (cond : Text) : Text := opened l (furtherWord l ++ ' ' :: cond)

/-- The line of the clause without a condition. -/
def elseLine (l : Layout) : Text := opened l "else".toList

/-- The line of a loop. -/
def loopLine (l : Layout) (header : Text) : Text := opened l header

/-! ## Meaning -/

section Meaning

variable (d : Dialect) (limits : Limits) (visit : Sweep → List Value)

/-- Run a loop. With a condition it goes on while that holds, at most as often as the limit of
rounds allows; without one it runs through the values found at its start. -/
def runLoop (line : Text) (body : Run Unit) : Loop → Run Unit
  | .guarded init cond update counter => do
    Statement.runSilently limits init
    Loop.repeatWhile limits line cond counter body (Statement.runSilently limits update)
      limits.rounds.toNat 1
  | head => do
    let w ← Run.lift (head.sweep (← Run.store))
    Loop.iterate limits line head.item w.total body 1 (visit w)

mutual

/-- Run a structured program. -/
def Block.run : Block → Run Unit
  | .done => pure ()
  | .leaf text rest => do
    (Statement.read d text).run limits text
    rest.run
  | .branch cond body further rest => do
    Run.either ((Condition.read cond).decide limits (ifLine d.layout cond)) body.run further.run
    rest.run
  | .loop header head body rest => do
    runLoop limits visit (loopLine d.layout header) body.run head
    rest.run

/-- Run the first of some clauses whose condition holds. -/
def Clauses.run : Clauses → Run Unit
  | .none => pure ()
  | .clause cond body next =>
    Run.either ((Condition.read cond).decide limits (furtherLine d.layout cond)) body.run next.run
  | .otherwise body => body.run

end

end Meaning

/-! ## Programs that are read from lines -/

section ReadAs

variable (d : Dialect) (program : Nat → Program)

mutual

/-- The program from one index up to another one is a structured program. -/
def Block.ReadAs : Block → (first stop : Nat) → Prop
  | .done, first, stop => first = stop
  | .leaf text rest, first, stop =>
    program first = .plain first text (Statement.read d text) (program (first + 1)) ∧
      rest.ReadAs (first + 1) stop
  | .branch cond body further rest, first, stop =>
    ∃ bodyStop next chain, first < next ∧
      program first = .branch first
        (.clause (ifLine d.layout cond) (Condition.read cond) (program (first + 1)) bodyStop chain)
        (program next) ∧
      body.ReadAs (first + 1) bodyStop ∧ further.ReadAs chain ∧ rest.ReadAs next stop
  | .loop header head body rest, first, stop =>
    ∃ bodyStop next, first < next ∧
      program first = .loop first (loopLine d.layout header) head (program (first + 1)) bodyStop
        (program next) ∧
      body.ReadAs (first + 1) bodyStop ∧ rest.ReadAs next stop

/-- A chain is made of some further clauses. -/
def Clauses.ReadAs : Clauses → Chain → Prop
  | .none, chain => chain = .finished
  | .clause cond body next, chain =>
    ∃ first stop tail, chain = .clause (furtherLine d.layout cond) (Condition.read cond)
        (program first) stop tail ∧
      body.ReadAs first stop ∧ next.ReadAs tail
  | .otherwise body, chain =>
    ∃ first stop, chain = .otherwise (program first) stop ∧ body.ReadAs first stop

end

variable {d program}

theorem Block.ReadAs.le : ∀ {b : Block} {first stop : Nat}, b.ReadAs d program first stop →
    first ≤ stop
  | .done, _, _, h => by
    rw [ReadAs] at h
    exact Nat.le_of_eq h
  | .leaf _ rest, _, _, h => by
    rw [ReadAs] at h
    exact Nat.le_of_lt (Block.ReadAs.le h.2)
  | .branch _ _ _ rest, _, _, h => by
    rw [ReadAs] at h
    obtain ⟨_, _, _, hlt, -, -, -, hrest⟩ := h
    exact Nat.le_trans (Nat.le_of_lt hlt) (Block.ReadAs.le hrest)
  | .loop _ _ _ rest, _, _, h => by
    rw [ReadAs] at h
    obtain ⟨_, _, hlt, -, -, hrest⟩ := h
    exact Nat.le_trans (Nat.le_of_lt hlt) (Block.ReadAs.le hrest)

/-- A loop as it is run by a program visits the first values only, as many as there may be
entries. -/
theorem runLoop_visited (limits : Limits) (line : Text) (body : Run Unit) (head : Loop) :
    runLoop limits (·.visited limits.entries) line body head = head.run limits line body := by
  cases head with
  | guarded init cond update counter => rfl
  | _ => exact (Loop.run_eq_iterate limits line body rfl).symm

/-- Clauses behind one that was taken do nothing. So a clause with a condition runs its body or the
clauses behind it. -/
theorem run_clause {limits : Limits} {line : Text} {cond : Condition} {p : Program} {stop : Nat}
    {tail : Chain} {body other : Run Unit} (hbody : p.run limits stop = body)
    (htail : ∀ taken, tail.run limits taken = if taken then pure () else other) (taken : Bool) :
    (Chain.clause line cond p stop tail).run limits taken =
      if taken then pure () else Run.either (cond.decide limits line) body other := by
  rw [Chain.run, htail true, htail false, hbody]
  cases taken with
  | true => rfl
  | false =>
    refine congrArg (cond.decide limits line >>= ·) (funext fun holds => ?_)
    cases holds with
    | true => exact bind_pure body
    | false => rfl

mutual

/-- A program that is read as a structured program does the same and goes on behind it. -/
theorem Block.run_of_readAs {limits : Limits}
    (hbeyond : ∀ i stop, stop ≤ i → (program i).run limits stop = pure ()) :
    ∀ {b : Block} {first stop last : Nat}, b.ReadAs d program first stop → stop ≤ last →
      (program first).run limits last = (do
        b.run d limits (·.visited limits.entries)
        (program stop).run limits last)
  | .done, first, stop, last, h, _ => by
    rw [Block.ReadAs] at h
    rw [Block.run, h, pure_bind]
  | .leaf text rest, first, stop, last, h, hlast => by
    rw [Block.ReadAs] at h
    have hlt : first < last := Nat.lt_of_lt_of_le h.2.le hlast
    rw [h.1, Program.run, if_pos hlt, Block.run, bind_assoc, Block.run_of_readAs hbeyond h.2 hlast]
  | .branch cond body further rest, first, stop, last, h, hlast => by
    rw [Block.ReadAs] at h
    obtain ⟨bodyStop, next, chain, hnext, hprogram, hbody, hfurther, hrest⟩ := h
    have hlt : first < last := Nat.lt_of_lt_of_le hnext (Nat.le_trans hrest.le hlast)
    rw [hprogram, Program.run, if_pos hlt, Block.run, bind_assoc,
      Block.run_of_readAs hbeyond hrest hlast,
      run_clause (Block.run_body_of_readAs hbeyond hbody)
        (Clauses.run_of_readAs hbeyond hfurther) false]
    rfl
  | .loop header head body rest, first, stop, last, h, hlast => by
    rw [Block.ReadAs] at h
    obtain ⟨bodyStop, next, hnext, hprogram, hbody, hrest⟩ := h
    have hlt : first < last := Nat.lt_of_lt_of_le hnext (Nat.le_trans hrest.le hlast)
    rw [hprogram, Program.run, if_pos hlt, Block.run, bind_assoc,
      Block.run_of_readAs hbeyond hrest hlast, ← runLoop_visited,
      Block.run_body_of_readAs hbeyond hbody]

/-- As a body, up to its own stop, such a program does nothing else. -/
theorem Block.run_body_of_readAs {limits : Limits}
    (hbeyond : ∀ i stop, stop ≤ i → (program i).run limits stop = pure ())
    {b : Block} {first stop : Nat} (h : b.ReadAs d program first stop) :
    (program first).run limits stop = b.run d limits (·.visited limits.entries) := by
  rw [Block.run_of_readAs hbeyond h (Nat.le_refl _), hbeyond stop stop (Nat.le_refl _), bind_pure]

/-- A chain that is read as some further clauses does the same, unless a clause was taken. -/
theorem Clauses.run_of_readAs {limits : Limits}
    (hbeyond : ∀ i stop, stop ≤ i → (program i).run limits stop = pure ()) :
    ∀ {c : Clauses} {chain : Chain}, c.ReadAs d program chain → ∀ taken,
      chain.run limits taken =
        if taken then pure () else c.run d limits (·.visited limits.entries)
  | .none, chain, h, taken => by
    rw [Clauses.ReadAs] at h
    rw [h, Chain.run, Clauses.run, ite_self]
  | .clause cond body next, chain, h, taken => by
    rw [Clauses.ReadAs] at h
    obtain ⟨first, stop, tail, rfl, hbody, hnext⟩ := h
    rw [Clauses.run]
    exact run_clause (Block.run_body_of_readAs hbeyond hbody)
      (Clauses.run_of_readAs hbeyond hnext) taken
  | .otherwise body, chain, h, taken => by
    rw [Clauses.ReadAs] at h
    obtain ⟨first, stop, rfl, hbody⟩ := h
    rw [Chain.run, Clauses.run, Block.run_body_of_readAs hbeyond hbody]

end

/-- The outcome of lines that are read as a structured program. -/
theorem Block.outcome_of_readAs {limits : Limits}
    (hbeyond : ∀ i stop, stop ≤ i → (program i).run limits stop = pure ())
    {b : Block} {count : Nat} (h : b.ReadAs d program 0 count) :
    (program 0).outcome limits count = (b.run d limits (·.visited limits.entries)).outcome := by
  rw [← Block.run_body_of_readAs hbeyond h]
  rfl

end ReadAs

end Structured

end StepTrace
