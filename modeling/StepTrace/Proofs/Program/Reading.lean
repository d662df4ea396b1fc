import StepTrace.Proofs.Run.Trail

/-!
# The branches of a conditional

A conditional is written as a header with a condition and further clauses behind it, each of which
stands behind the body of the clause before it. What belongs to a conditional is a matter of the
layout, and so is what the lines are read as. A reading of a snippet (`Reading`) holds both: the
clauses that are written in it and the programs from its lines on. It also names the lines at which
the two differ. A clause can be overlooked, and something else can be taken for a clause.

The branches of a conditional (`Reading.branches`) are its header and its clauses up to the first
such difference. To run a conditional is to look at their conditions in this order and to run the
body of the first branch whose condition holds, or of the last clause, which has none
(`Reading.watchFirst`). Whatever else is taken for a clause comes behind them and is skipped if a
branch was taken (`Reading.Sound.exists_watch`). This follows from how the chains of a reading are
built, one clause at a time (`Reading.Sound`).
-/

namespace StepTrace

/-- Watch one of two computations, as a test says. -/
def Watched.either (test : Run Bool) (yes no : Watched α) : Watched α := do
  if ← .lift test then yes else no

/-- Once a branch was taken, a chain visits no line. -/
theorem Chain.trail_watch_true (limits : Limits) : ∀ (c : Chain) (r : Recorder),
    (c.watch limits true).trail r = []
  | .finished, _ => by
    rw [Chain.watch]
    rfl
  | .clause line cond body stop next, r => by
    rw [Chain.watch, if_pos rfl]
    exact next.trail_watch_true limits r
  | .otherwise body stop, _ => by
    rw [Chain.watch]
    rfl
  | .malformed, _ => by
    rw [Chain.watch]
    rfl
  | .circular line cond, _ => by
    rw [Chain.watch]
    rfl

/-- A clause with a condition comes before the branches behind it, and all of them before whatever
else is found. -/
theorem Chain.watch_clause {limits : Limits} {line : Text} {cond : Condition} {body : Program}
    {stop : Nat} {next stray : Chain} {first : Watched Bool}
    (h : ∀ taken, next.watch limits taken =
      if taken then stray.watch limits true else first >>= stray.watch limits) (taken : Bool) :
    (Chain.clause line cond body stop next).watch limits taken =
      if taken then stray.watch limits true
      else Watched.either (cond.decide limits line) (do body.watch limits stop; pure true) first >>=
        stray.watch limits := by
  rw [Chain.watch, h true, h false]
  cases taken with
  | true => rfl
  | false =>
    rw [Watched.either, bind_assoc]
    refine congrArg (Watched.lift (cond.decide limits line) >>= ·) (funext fun holds => ?_)
    cases holds with
    | true => simp only [if_true, bind_assoc, pure_bind]
    | false => rfl

/-- A branch of a conditional: the line of its clause, and its condition unless it has none. -/
structure Branch where
  index : Nat
  cond : Option Text
deriving DecidableEq, Repr

/-- What is written in a snippet, as far as its conditionals go, and what it is read as. -/
structure Reading where
  /-- The number of lines. -/
  count : Nat
  line : Nat → Text
  /-- The bounds of the body of a line. -/
  bounds : Nat → Bounds
  /-- The program from a line on. -/
  program : Nat → Program
  /-- The condition of the conditional that begins on a line. -/
  header? : Nat → Option Text
  /-- The clause behind the body of a line, if it belongs to the conditional of that line. -/
  clause? : Nat → Option Branch
  /-- The clause on a line is not recognised as one. -/
  overlooked : Nat → Bool
  /-- Behind the body of a line something else is taken for a clause. -/
  misled : Nat → Bool
  /-- Nothing in the body of a line leads out of it. -/
  sealed : Nat → Bool

namespace Reading

variable (R : Reading) (limits : Limits)

/-- Watch the body of a branch, which is taken then. -/
def watchBody (index : Nat) : Watched Bool := do
  (R.program (index + 1)).watch limits (R.bounds index).stop
  pure true

/-- Watch the body of the first branch whose condition holds, and tell whether there was one. A
branch without a condition is taken if it is reached. -/
def watchFirst : List Branch → Watched Bool
  | [] => pure false
  | ⟨index, none⟩ :: _ => R.watchBody limits index
  | ⟨index, some cond⟩ :: rest =>
    .either ((Condition.read cond).decide limits (R.line index)) (R.watchBody limits index)
      (watchFirst rest)

/-- The clause behind the body of a line, if it is read as one. -/
def next? (index : Nat) : Option Branch :=
  if R.misled index then none else (R.clause? index).filter fun b => !R.overlooked b.index

/-- The clauses behind a branch that are read as such, at most `n` of them. -/
def clausesFrom : (n : Nat) → Branch → List Branch
  | 0, _ => []
  | n + 1, a =>
    match (if a.cond.isSome then R.next? a.index else none) with
    | some b => b :: clausesFrom n b
    | none => []

/-- The branches of the conditional that begins on a line. -/
def branches (index : Nat) (cond : Text) : List Branch :=
  ⟨index, some cond⟩ :: R.clausesFrom R.count ⟨index, some cond⟩

/-- The last branch of the conditional that begins on a line. -/
def lastBranch (index : Nat) (cond : Text) : Branch :=
  (R.clausesFrom R.count ⟨index, some cond⟩).getLastD ⟨index, some cond⟩

/-- The visited lines are those of one body at most. -/
def VisitsOneOf (bs : List Branch) (trail : List Nat) : Prop :=
  trail = [] ∨ ∃ b ∈ bs, ∀ k ∈ trail, b.index < k ∧ k < (R.bounds b.index).stop

/-- The program of a conditional and the chains behind its branches are built from the branches. -/
structure Sound (tail : Nat → Chain × Nat) : Prop where
  header_lt : ∀ {i cond}, R.header? i = some cond → i < R.count
  clause_lt : ∀ {i b}, R.clause? i = some b →
    i < b.index ∧ (R.bounds i).stop ≤ b.index ∧ b.index < R.count
  program : ∀ {i cond}, R.header? i = some cond → R.program i = .branch i
    (.clause (R.line i) (Condition.read cond) (R.program (i + 1)) (R.bounds i).stop (tail i).1)
    (R.program (tail i).2)
  further : ∀ {i j cond}, R.next? i = some ⟨j, some cond⟩ → tail i =
    (.clause (R.line j) (Condition.read cond) (R.program (j + 1)) (R.bounds j).stop (tail j).1,
      (tail j).2)
  last : ∀ {i j}, R.next? i = some ⟨j, none⟩ →
    tail i = (.otherwise (R.program (j + 1)) (R.bounds j).stop, (R.bounds j).next)
  finished : ∀ {i}, R.misled i = false → R.next? i = none → tail i = (.finished, (R.bounds i).next)
  keepsTo : ∀ {i}, R.sealed i → (R.program (i + 1)).KeepsTo
    (fun k => i < k ∧ k < (R.bounds i).stop) (R.bounds i).stop

section Clauses

variable {R} {index : Nat} {b : Branch}

theorem next?_eq_some : R.next? index = some b ↔
    R.misled index = false ∧ R.clause? index = some b ∧ R.overlooked b.index = false := by
  rw [next?]
  cases R.misled index with
  | true => simp
  | false => simp [Option.filter_eq_some_iff]

theorem next?_eq_none : R.next? index = none ↔
    R.misled index ∨ ∀ b, R.clause? index = some b → R.overlooked b.index := by
  rw [next?]
  cases R.misled index with
  | true => simp
  | false => simp [Option.filter_eq_none_iff]

theorem clausesFrom_last (n j : Nat) : R.clausesFrom n ⟨j, none⟩ = [] := by
  cases n <;> rfl

theorem clausesFrom_of_none {cond : Text} (h : R.next? index = none) (n : Nat) :
    R.clausesFrom n ⟨index, some cond⟩ = [] := by
  cases n with
  | zero => rfl
  | succ n =>
    rw [clausesFrom]
    simp only [Option.isSome_some, if_true, h]

theorem clausesFrom_of_some {cond : Text} (h : R.next? index = some b) (n : Nat) :
    R.clausesFrom (n + 1) ⟨index, some cond⟩ = b :: R.clausesFrom n b := by
  rw [clausesFrom]
  simp only [Option.isSome_some, if_true, h]

end Clauses

namespace Sound

variable {R limits} {tail : Nat → Chain × Nat}

theorem next_lt (h : R.Sound tail) {i : Nat} {b : Branch} (hnext : R.next? i = some b) :
    i < b.index ∧ (R.bounds i).stop ≤ b.index ∧ b.index < R.count :=
  h.clause_lt (next?_eq_some.1 hnext).2.1

/-- The clauses behind a branch stand behind its body. -/
theorem le_of_mem_clausesFrom (h : R.Sound tail) : ∀ (n : Nat) {a b : Branch},
    b ∈ R.clausesFrom n a → (R.bounds a.index).stop ≤ b.index ∧ a.index < b.index
  | 0, _, _, hb => nomatch hb
  | n + 1, ⟨i, none⟩, b, hb => by
    rw [clausesFrom_last] at hb
    cases hb
  | n + 1, ⟨i, some cond⟩, b, hb => by
    cases hnext : R.next? i with
    | none =>
      rw [clausesFrom_of_none hnext] at hb
      cases hb
    | some c =>
      obtain ⟨hlt, hle, -⟩ := h.next_lt hnext
      rw [clausesFrom_of_some hnext] at hb
      rcases List.mem_cons.1 hb with rfl | hb
      · exact ⟨hle, hlt⟩
      · have hlater := (h.le_of_mem_clausesFrom n hb).2
        dsimp only
        omega

/-- The bodies of the branches stand one behind the other. -/
theorem pairwise_clausesFrom (h : R.Sound tail) : ∀ (n : Nat) (a : Branch),
    (a :: R.clausesFrom n a).Pairwise fun b c => (R.bounds b.index).stop ≤ c.index
  | 0, a => List.pairwise_singleton _ a
  | n + 1, ⟨i, none⟩ => by
    rw [clausesFrom_last]
    exact List.pairwise_singleton _ _
  | n + 1, ⟨i, some cond⟩ => by
    refine List.pairwise_cons.2 ⟨fun b hb => (h.le_of_mem_clausesFrom (n + 1) hb).1, ?_⟩
    cases hnext : R.next? i with
    | none =>
      rw [clausesFrom_of_none hnext]
      exact List.Pairwise.nil
    | some c =>
      rw [clausesFrom_of_some hnext]
      exact h.pairwise_clausesFrom n c

/-- Behind a branch the chain watches the first of the clauses whose condition holds, unless a
branch was taken before, and then whatever else is taken for clauses behind the last one. By
induction on the number of lines from the branch to the end. -/
theorem exists_stray (h : R.Sound tail) : ∀ (n : Nat) {i : Nat} (cond : Text), i < R.count →
    R.count ≤ i + n → ∃ stray : Chain,
    (∀ limits taken, (tail i).1.watch limits taken =
      if taken then stray.watch limits true
      else R.watchFirst limits (R.clausesFrom n ⟨i, some cond⟩) >>= stray.watch limits) ∧
    let last := (R.clausesFrom n ⟨i, some cond⟩).getLastD ⟨i, some cond⟩
    (last.cond = none ∨ R.next? last.index = none) ∧
    (last.cond = none ∨ R.misled last.index = false →
      stray = .finished ∧ (tail i).2 = (R.bounds last.index).next)
  | 0, i, _, hlt, hcount => absurd hlt (by omega)
  | n + 1, i, cond, hlt, hcount => by
    cases hnext : R.next? i with
    | none =>
      rw [clausesFrom_of_none hnext]
      refine ⟨(tail i).1, fun limits taken => ?_, Or.inr hnext, fun hlast => ?_⟩
      · rw [watchFirst, pure_bind]
        cases taken <;> rfl
      · have hmisled : R.misled i = false := hlast.resolve_left fun hcond => nomatch hcond
        rw [h.finished hmisled hnext]
        exact ⟨rfl, rfl⟩
    | some b =>
      obtain ⟨j, cond'⟩ := b
      obtain ⟨hj, -, hcount'⟩ := h.next_lt hnext
      rw [clausesFrom_of_some hnext, List.getLastD_cons]
      cases cond' with
      | some cond' =>
        obtain ⟨stray, hwatch, hend, hfinished⟩ :=
          h.exists_stray n cond' hcount' (by dsimp only at hj ⊢; omega)
        rw [h.further hnext]
        exact ⟨stray, fun limits => Chain.watch_clause (hwatch limits), hend, hfinished⟩
      | none =>
        rw [h.last hnext, clausesFrom_last]
        refine ⟨.finished, fun limits taken => ?_, Or.inl rfl, fun _ => ⟨rfl, rfl⟩⟩
        rw [Chain.watch, Chain.watch, watchFirst, watchBody, bind_assoc]
        cases taken with
        | true => rfl
        | false => simp only [pure_bind, Chain.watch, bind_pure_unit, Bool.false_eq_true, if_false]

/-- A conditional watches the first of its branches whose condition holds, then whatever else is
taken for its clauses, and then the program behind. -/
theorem exists_watch (h : R.Sound tail) {index : Nat} {cond : Text}
    (hheader : R.header? index = some cond) : ∃ (stray : Chain) (after : Nat),
    (∀ limits stop, index < stop → (R.program index).watch limits stop = (do
      Watched.visit index
      let taken ← R.watchFirst limits (R.branches index cond)
      stray.watch limits taken
      (R.program after).watch limits stop)) ∧
    ((R.lastBranch index cond).cond = none ∨ R.next? (R.lastBranch index cond).index = none) ∧
    ((R.lastBranch index cond).cond = none ∨ R.misled (R.lastBranch index cond).index = false →
      stray = .finished ∧ after = (R.bounds (R.lastBranch index cond).index).next) := by
  obtain ⟨stray, hwatch, hend, hfinished⟩ :=
    h.exists_stray R.count cond (h.header_lt hheader) (Nat.le_add_left _ _)
  refine ⟨stray, (tail index).2, fun limits stop hlt => ?_, hend, hfinished⟩
  rw [h.program hheader, Program.watch, if_pos hlt, Chain.watch_clause (hwatch limits)]
  simp only [Bool.false_eq_true, if_false, bind_assoc]
  rfl

/-- In a body that is sealed only its own lines are visited. -/
theorem stays_watchBody (h : R.Sound tail) {index : Nat} (hsealed : R.sealed index) :
    (R.watchBody limits index).Stays fun k => index < k ∧ k < (R.bounds index).stop :=
  Watched.stays_bind (Program.stays_watch _ _ (h.keepsTo hsealed)) fun _ => Watched.stays_pure true

/-- The lines that are visited belong to the body of one branch at most. -/
theorem visitsOneOf (h : R.Sound tail) : ∀ {bs : List Branch}, (∀ b ∈ bs, R.sealed b.index) →
    ∀ r, R.VisitsOneOf bs ((R.watchFirst limits bs).trail r)
  | [], _, _ => Or.inl rfl
  | ⟨index, none⟩ :: bs, hsealed, r => by
    exact Or.inr ⟨_, List.mem_cons_self .., h.stays_watchBody (hsealed _ (List.mem_cons_self ..)) r⟩
  | ⟨index, some cond⟩ :: bs, hsealed, r => by
    rw [watchFirst, Watched.either, Watched.trail_bind, Watched.run_lift]
    rcases ((Condition.read cond).decide limits (R.line index)).exec r with ⟨_ | holds, r'⟩
    · exact Or.inl rfl
    · cases holds with
      | true =>
        exact Or.inr
          ⟨_, List.mem_cons_self .., h.stays_watchBody (hsealed _ (List.mem_cons_self ..)) r'⟩
      | false =>
        refine (h.visitsOneOf (fun b hb => hsealed b (List.mem_cons_of_mem _ hb)) r').imp id ?_
        exact fun ⟨b, hb, htrail⟩ => ⟨b, List.mem_cons_of_mem _ hb, htrail⟩

end Sound

end Reading

end StepTrace
