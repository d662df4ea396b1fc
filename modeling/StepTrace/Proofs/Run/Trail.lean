import StepTrace.Proofs.Program.Rows

/-!
# The trail of a run

The trail of a run is the row of the lines that it comes to: the line of every statement, of every
loop and of every conditional, in the order in which they are reached, and a line in the body of a
loop once for every round. A run does not keep its trail. So a watched computation (`Watched`) pairs
a run with the trail that it leaves from a given state, and `Program.watch` follows a program in the
same way as running it does. What it runs is the program and nothing else (`Program.run_watch`).

Two facts about a trail are used. A program that keeps to some lines, which can be told from its
tree (`Program.KeepsTo`), leaves a trail on these lines only (`Program.stays_watch`), however it
ends. And if a run finishes, its trail is the trails of its parts one after the other
(`Watched.Leaves`).
-/

namespace StepTrace

/-- A run and the lines that it visits from a state. -/
structure Watched (α : Type) where
  run : Run α
  trail : Recorder → List Nat

namespace Watched

/-- A run that visits no line. -/
def lift (x : Run α) : Watched α := ⟨x, fun _ => []⟩

/-- Visit a line. -/
def visit (index : Nat) : Watched Unit := ⟨pure (), fun _ => [index]⟩

/-- One run after the other. If the first one stops early, the second one visits nothing. -/
protected def bind (x : Watched α) (f : α → Watched β) : Watched β where
  run := x.run >>= fun a => (f a).run
  trail r := x.trail r ++ match x.run.exec r with
    | (.ok a, r') => (f a).trail r'
    | (.error _, _) => []

instance : Monad Watched where
  pure a := lift (pure a)
  bind := Watched.bind

@[simp] theorem run_lift (x : Run α) : (lift x).run = x := rfl

@[simp] theorem run_pure (a : α) : (pure a : Watched α).run = pure a := rfl

@[simp] theorem run_visit (index : Nat) : (visit index).run = pure () := rfl

@[simp] theorem run_bind (x : Watched α) (f : α → Watched β) :
    (x >>= f).run = x.run >>= fun a => (f a).run := rfl

theorem trail_bind (x : Watched α) (f : α → Watched β) (r : Recorder) :
    (x >>= f).trail r = x.trail r ++ match x.run.exec r with
      | (.ok a, r') => (f a).trail r'
      | (.error _, _) => [] := rfl

@[ext] protected theorem ext {x y : Watched α} (hrun : x.run = y.run)
    (htrail : ∀ r, x.trail r = y.trail r) : x = y := by
  obtain ⟨run, trail⟩ := x
  obtain rfl : run = y.run := hrun
  obtain rfl : trail = y.trail := funext htrail
  rfl

instance : LawfulMonad Watched := LawfulMonad.mk' Watched
  (fun x => by
    refine Watched.ext (id_map x.run) fun r => ?_
    show x.trail r ++ _ = _
    rcases x.run.exec r with ⟨_ | _, _⟩ <;> exact List.append_nil _)
  (fun a f => Watched.ext (pure_bind a fun a => (f a).run) fun _ => rfl)
  (fun x f g => by
    refine Watched.ext (bind_assoc x.run (fun a => (f a).run) fun b => (g b).run) fun r => ?_
    simp only [trail_bind, run_bind, Run.exec_bind]
    rcases x.run.exec r with ⟨_ | a, r'⟩
    · simp
    · simp [List.append_assoc])

/-! ## Staying on some lines -/

/-- From every state only lines with a property are visited. -/
def Stays (P : Nat → Prop) (x : Watched α) : Prop := ∀ r, ∀ index ∈ x.trail r, P index

section Stays

variable {P : Nat → Prop}

theorem stays_lift (x : Run α) : (lift x).Stays P := fun _ _ h => nomatch h

theorem stays_pure (a : α) : (pure a : Watched α).Stays P := stays_lift (pure a)

theorem stays_visit {index : Nat} (h : P index) : (visit index).Stays P := by
  intro r i hi
  rw [List.mem_singleton.1 hi]
  exact h

theorem stays_bind {x : Watched α} {f : α → Watched β} (hx : x.Stays P)
    (hf : ∀ a, (f a).Stays P) : (x >>= f).Stays P := by
  intro r index h
  rw [trail_bind] at h
  rcases List.mem_append.1 h with h | h
  · exact hx r index h
  · rcases hexec : x.run.exec r with ⟨e | a, r'⟩
    · rw [hexec] at h
      cases h
    · rw [hexec] at h
      exact hf a r' index h

end Stays

/-! ## Trails of runs that finish -/

/-- Whenever the run finishes, the lines that it visited among those with a property are the given
ones, in this order. -/
def Leaves (p : Nat → Bool) (x : Watched α) (lines : List Nat) : Prop :=
  ∀ r a r', x.run.exec r = (.ok a, r') → (x.trail r).filter p = lines

section Leaves

variable {p : Nat → Bool}

theorem leaves_of_stays {x : Watched α} (h : x.Stays fun index => p index = false) :
    x.Leaves p [] := by
  intro r a r' _
  rw [List.filter_eq_nil_iff]
  intro index hindex
  rw [h r index hindex]
  exact Bool.false_ne_true

theorem leaves_visit (index : Nat) : (visit index).Leaves p ([index].filter p) :=
  fun _ _ _ _ => rfl

theorem leaves_bind {x : Watched α} {f : α → Watched β} {first second : List Nat}
    (hx : x.Leaves p first) (hf : ∀ a, (f a).Leaves p second) :
    (x >>= f).Leaves p (first ++ second) := by
  intro r b r₂ hrun
  rw [run_bind, Run.exec_bind] at hrun
  rw [trail_bind]
  rcases hexec : x.run.exec r with ⟨e | a, r₁⟩
  · rw [hexec] at hrun
    cases hrun
  · rw [hexec] at hrun
    rw [List.filter_append, hx r a r₁ hexec, hf a r₁ b r₂ hrun]

end Leaves

end Watched

/-! ## Watching programs -/

namespace Loop

variable (limits : Limits) (line : Text)

/-- Watch the rounds of a loop over known values. -/
def watchIterate (item : Text) (total : Nat) (body : Watched Unit) :
    (position : Nat) → List Value → Watched Unit
  | _, [] => pure ()
  | position, value :: rest => do
    .lift ((Action.bind item value (.progress item value.display position total)).run limits line)
    body
    watchIterate item total body (position + 1) rest

/-- Watch the rounds of a loop with a condition. -/
def watchWhile (cond : Condition) (counter : Option Text) (body : Watched Unit)
    (update : Run Unit) : (left position : Nat) → Watched Unit
  | 0, _ => pure ()
  | left + 1, position => do
    if ← .lift cond.test then
      .lift (Run.attempt limits line fun s => .ok (.idle (roundNote s counter position)))
      body
      .lift update
      watchWhile cond counter body update left (position + 1)
    else pure ()

/-- Watch a loop with the given body. -/
def watch (body : Watched Unit) : Loop → Watched Unit
  | guarded init cond update counter => do
    .lift (Statement.runSilently limits init)
    watchWhile limits line cond counter body (Statement.runSilently limits update)
      limits.rounds.toNat 1
  | head => do
    let w ← .lift (do Run.lift (head.sweep (← Run.store)))
    watchIterate limits line head.item w.total body 1 (w.visited limits.entries)

theorem run_watchIterate (item : Text) (total : Nat) (body : Watched Unit) :
    ∀ (position : Nat) (values : List Value),
      (watchIterate limits line item total body position values).run =
        iterate limits line item total body.run position values
  | _, [] => rfl
  | position, value :: rest => by
    simp only [watchIterate, Watched.run_bind, Watched.run_lift, iterate_cons,
      run_watchIterate item total body (position + 1) rest]

theorem run_watchWhile (cond : Condition) (counter : Option Text) (body : Watched Unit)
    (update : Run Unit) : ∀ left position : Nat,
      (watchWhile limits line cond counter body update left position).run =
        repeatWhile limits line cond counter body.run update left position
  | 0, _ => rfl
  | left + 1, position => by
    rw [watchWhile, repeatWhile_succ, Watched.run_bind]
    congr 1
    funext holds
    cases holds with
    | false => rfl
    | true =>
      simp only [if_true, Watched.run_bind, Watched.run_lift,
        run_watchWhile cond counter body update left (position + 1)]

theorem run_watch (body : Watched Unit) (head : Loop) :
    (head.watch limits line body).run = head.run limits line body.run := by
  cases hguarded : head.isGuarded with
  | true =>
    cases head with
    | guarded init cond update counter =>
      rw [watch, Watched.run_bind, Watched.run_lift]
      simp only [run_watchWhile]
      rfl
    | _ => cases hguarded
  | false =>
    rw [run_eq_iterate limits line body.run hguarded]
    cases head with
    | guarded => cases hguarded
    | _ => simp only [watch, Watched.run_bind, Watched.run_lift, run_watchIterate, bind_assoc]

end Loop

mutual

/-- Watch the steps of a program on lines before `stop`. -/
def Program.watch (limits : Limits) : Program → (stop : Nat) → Watched Unit
  | .done, _ => pure ()
  | .plain index line statement rest, stop =>
    if index < stop then do
      .visit index
      .lift (statement.run limits line)
      rest.watch limits stop
    else pure ()
  | .branch index chain rest, stop =>
    if index < stop then do
      .visit index
      chain.watch limits false
      rest.watch limits stop
    else pure ()
  | .loop index line head body bodyStop rest, stop =>
    if index < stop then do
      .visit index
      head.watch limits line (body.watch limits bodyStop)
      rest.watch limits stop
    else pure ()

/-- Watch the clauses of a conditional, knowing whether one was taken. -/
def Chain.watch (limits : Limits) : Chain → (taken : Bool) → Watched Unit
  | .finished, _ => pure ()
  | .clause line cond body stop next, taken =>
    if taken then next.watch limits true
    else do
      if ← .lift (cond.decide limits line) then
        body.watch limits stop
        next.watch limits true
      else next.watch limits false
  | .otherwise body stop, taken => if taken then pure () else body.watch limits stop
  | .malformed, _ => .lift (throw (.fault .noCondition))
  | .circular line cond, taken =>
    .lift (if taken then throw .stalled else circle limits line cond (limits.entries.toNat + 1))

end

mutual

/-- Watching a program runs it. -/
theorem Program.run_watch (limits : Limits) : ∀ (p : Program) (stop : Nat),
    (p.watch limits stop).run = p.run limits stop
  | .done, _ => by rw [Program.watch, Program.run, Watched.run_pure]
  | .plain index line statement rest, stop => by
    rw [Program.watch, Program.run]
    split_ifs
    · simp only [Watched.run_bind, Watched.run_visit, Watched.run_lift, pure_bind,
        rest.run_watch limits stop]
    · rfl
  | .branch index chain rest, stop => by
    rw [Program.watch, Program.run]
    split_ifs
    · simp only [Watched.run_bind, Watched.run_visit, pure_bind, rest.run_watch limits stop,
        chain.run_watch limits false]
    · rfl
  | .loop index line head body bodyStop rest, stop => by
    rw [Program.watch, Program.run]
    split_ifs
    · simp only [Watched.run_bind, Watched.run_visit, pure_bind, Loop.run_watch,
        rest.run_watch limits stop, body.run_watch limits bodyStop]
    · rfl

/-- Watching a chain runs it. -/
theorem Chain.run_watch (limits : Limits) : ∀ (c : Chain) (taken : Bool),
    (c.watch limits taken).run = c.run limits taken
  | .finished, _ => by rw [Chain.watch, Chain.run, Watched.run_pure]
  | .clause line cond body stop next, taken => by
    rw [Chain.watch, Chain.run]
    split_ifs
    · exact next.run_watch limits true
    · rw [Watched.run_bind, Watched.run_lift]
      congr 1
      funext holds
      cases holds with
      | false => exact next.run_watch limits false
      | true =>
        simp only [if_true, Watched.run_bind, body.run_watch limits stop,
          next.run_watch limits true]
  | .otherwise body stop, taken => by
    rw [Chain.watch, Chain.run]
    split_ifs
    · rfl
    · exact body.run_watch limits stop
  | .malformed, _ => by rw [Chain.watch, Chain.run, Watched.run_lift]
  | .circular line cond, taken => by rw [Chain.watch, Chain.run, Watched.run_lift]

end

/-! ## Programs that keep to some lines -/

mutual

/-- Every step that can be reached before `stop` is on a line with a property. -/
def Program.KeepsTo (P : Nat → Prop) : Program → (stop : Nat) → Prop
  | .done, _ => True
  | .plain index _ _ rest, stop => index < stop → P index ∧ rest.KeepsTo P stop
  | .branch index chain rest, stop =>
    index < stop → P index ∧ chain.KeepsTo P ∧ rest.KeepsTo P stop
  | .loop index _ _ body bodyStop rest, stop =>
    index < stop → P index ∧ body.KeepsTo P bodyStop ∧ rest.KeepsTo P stop

/-- Every step in the bodies of a chain is on a line with a property. -/
def Chain.KeepsTo (P : Nat → Prop) : Chain → Prop
  | .finished => True
  | .clause _ _ body stop next => body.KeepsTo P stop ∧ next.KeepsTo P
  | .otherwise body stop => body.KeepsTo P stop
  | .malformed => True
  | .circular _ _ => True

end

section KeepsTo

variable {P : Nat → Prop} {limits : Limits}

theorem Program.keepsTo_done (stop : Nat) : Program.done.KeepsTo P stop := by
  rw [Program.KeepsTo]
  trivial

theorem Chain.keepsTo_finished : Chain.finished.KeepsTo P := by
  rw [Chain.KeepsTo]
  trivial

theorem Chain.keepsTo_malformed : Chain.malformed.KeepsTo P := by
  rw [Chain.KeepsTo]
  trivial

theorem Chain.keepsTo_circular (line : Text) (cond : Condition) :
    (Chain.circular line cond).KeepsTo P := by
  rw [Chain.KeepsTo]
  trivial

mutual

theorem Program.KeepsTo.imp {Q : Nat → Prop} (hPQ : ∀ k, P k → Q k) :
    ∀ {p : Program} {stop : Nat}, p.KeepsTo P stop → p.KeepsTo Q stop
  | .done, stop, _ => Program.keepsTo_done stop
  | .plain index line statement rest, stop, h => by
    rw [Program.KeepsTo] at h ⊢
    exact fun hlt => ⟨hPQ index (h hlt).1, (h hlt).2.imp hPQ⟩
  | .branch index chain rest, stop, h => by
    rw [Program.KeepsTo] at h ⊢
    exact fun hlt => ⟨hPQ index (h hlt).1, (h hlt).2.1.imp hPQ, (h hlt).2.2.imp hPQ⟩
  | .loop index line head body bodyStop rest, stop, h => by
    rw [Program.KeepsTo] at h ⊢
    exact fun hlt => ⟨hPQ index (h hlt).1, (h hlt).2.1.imp hPQ, (h hlt).2.2.imp hPQ⟩

theorem Chain.KeepsTo.imp {Q : Nat → Prop} (hPQ : ∀ k, P k → Q k) :
    ∀ {c : Chain}, c.KeepsTo P → c.KeepsTo Q
  | .finished, _ => Chain.keepsTo_finished
  | .clause line cond body stop next, h => by
    rw [Chain.KeepsTo] at h ⊢
    exact ⟨h.1.imp hPQ, h.2.imp hPQ⟩
  | .otherwise body stop, h => by
    rw [Chain.KeepsTo] at h ⊢
    exact h.imp hPQ
  | .malformed, _ => Chain.keepsTo_malformed
  | .circular line cond, _ => Chain.keepsTo_circular line cond

end

namespace Loop

theorem stays_watchIterate (line item : Text) (total : Nat) {body : Watched Unit}
    (h : body.Stays P) : ∀ (position : Nat) (values : List Value),
      (watchIterate limits line item total body position values).Stays P
  | _, [] => Watched.stays_pure ()
  | position, _ :: rest => by
    refine Watched.stays_bind (Watched.stays_lift _) fun _ => Watched.stays_bind h fun _ => ?_
    exact stays_watchIterate line item total h (position + 1) rest

theorem stays_watchWhile (line : Text) (cond : Condition) (counter : Option Text)
    {body : Watched Unit} (update : Run Unit) (h : body.Stays P) : ∀ left position : Nat,
      (watchWhile limits line cond counter body update left position).Stays P
  | 0, _ => Watched.stays_pure ()
  | left + 1, position => by
    refine Watched.stays_bind (Watched.stays_lift _) fun holds => ?_
    cases holds with
    | false => exact Watched.stays_pure ()
    | true =>
      refine Watched.stays_bind (Watched.stays_lift _) fun _ => Watched.stays_bind h fun _ => ?_
      refine Watched.stays_bind (Watched.stays_lift _) fun _ => ?_
      exact stays_watchWhile line cond counter update h left (position + 1)

/-- A loop visits the lines of its body only. -/
theorem stays_watch (line : Text) {body : Watched Unit} (h : body.Stays P) (head : Loop) :
    (head.watch limits line body).Stays P := by
  cases head with
  | guarded init cond update counter =>
    exact Watched.stays_bind (Watched.stays_lift _) fun _ =>
      stays_watchWhile line cond counter _ h _ 1
  | _ =>
    exact Watched.stays_bind (Watched.stays_lift _) fun w =>
      stays_watchIterate line _ _ h 1 _

end Loop

mutual

/-- The trail of a program that keeps to some lines is on these lines. -/
theorem Program.stays_watch : ∀ (p : Program) (stop : Nat), p.KeepsTo P stop →
    (p.watch limits stop).Stays P
  | .done, _, _ => by
    rw [Program.watch]
    exact Watched.stays_pure ()
  | .plain index line statement rest, stop, h => by
    rw [Program.KeepsTo] at h
    rw [Program.watch]
    split_ifs with hlt
    · obtain ⟨hindex, hrest⟩ := h hlt
      refine Watched.stays_bind (Watched.stays_visit hindex) fun _ => ?_
      exact Watched.stays_bind (Watched.stays_lift _) fun _ => rest.stays_watch stop hrest
    · exact Watched.stays_pure ()
  | .branch index chain rest, stop, h => by
    rw [Program.KeepsTo] at h
    rw [Program.watch]
    split_ifs with hlt
    · obtain ⟨hindex, hchain, hrest⟩ := h hlt
      refine Watched.stays_bind (Watched.stays_visit hindex) fun _ => ?_
      exact Watched.stays_bind (chain.stays_watch false hchain) fun _ => rest.stays_watch stop hrest
    · exact Watched.stays_pure ()
  | .loop index line head body bodyStop rest, stop, h => by
    rw [Program.KeepsTo] at h
    rw [Program.watch]
    split_ifs with hlt
    · obtain ⟨hindex, hbody, hrest⟩ := h hlt
      refine Watched.stays_bind (Watched.stays_visit hindex) fun _ => ?_
      exact Watched.stays_bind (Loop.stays_watch line (body.stays_watch bodyStop hbody) head)
        fun _ => rest.stays_watch stop hrest
    · exact Watched.stays_pure ()

/-- The trail of a chain whose bodies keep to some lines is on these lines. -/
theorem Chain.stays_watch : ∀ (c : Chain) (taken : Bool), c.KeepsTo P →
    (c.watch limits taken).Stays P
  | .finished, _, _ => by
    rw [Chain.watch]
    exact Watched.stays_pure ()
  | .clause line cond body stop next, taken, h => by
    rw [Chain.KeepsTo] at h
    rw [Chain.watch]
    split_ifs
    · exact next.stays_watch true h.2
    · refine Watched.stays_bind (Watched.stays_lift _) fun holds => ?_
      cases holds with
      | false => exact next.stays_watch false h.2
      | true =>
        exact Watched.stays_bind (body.stays_watch stop h.1) fun _ => next.stays_watch true h.2
  | .otherwise body stop, taken, h => by
    rw [Chain.KeepsTo] at h
    rw [Chain.watch]
    split_ifs
    · exact Watched.stays_pure ()
    · exact body.stays_watch stop h
  | .malformed, _, _ => by
    rw [Chain.watch]
    exact Watched.stays_lift _
  | .circular line cond, taken, _ => by
    rw [Chain.watch]
    exact Watched.stays_lift _

end

end KeepsTo

/-! ## Programs of rows -/

section RowProgram

variable {P : Nat → Prop} {d : Dialect} {index stop after : Nat} {line header : Text}
  {conditional : Option Text} {bounds : Bounds} {tail : Chain} {below : Below}

/-- A program keeps to some lines if its parts do. -/
theorem keepsTo_rowProgram (hindex : P index)
    (hbody : (below.program (index + 1)).KeepsTo P bounds.stop)
    (htail : conditional.isSome → tail.KeepsTo P)
    (hbelow : ∀ k, (below.program k).KeepsTo P stop) :
    (rowProgram d index line header conditional bounds tail after below).KeepsTo P stop := by
  cases conditional with
  | some cond =>
    rw [rowProgram_some, Program.KeepsTo, Chain.KeepsTo]
    exact fun _ => ⟨hindex, ⟨hbody, htail rfl⟩, hbelow after⟩
  | none =>
    cases hloop : loop? d header with
    | some head =>
      rw [rowProgram_of_loop hloop, Program.KeepsTo]
      exact fun _ => ⟨hindex, hbody, hbelow bounds.next⟩
    | none =>
      rw [rowProgram_of_no_loop hloop, Program.KeepsTo]
      exact fun _ => ⟨hindex, hbelow (index + 1)⟩

/-- A program whose line is not before `stop` reaches no line at all. -/
theorem keepsTo_rowProgram_of_le (h : stop ≤ index) :
    (rowProgram d index line header conditional bounds tail after below).KeepsTo P stop := by
  have hlt : ¬index < stop := Nat.not_lt.2 h
  cases conditional with
  | some cond =>
    rw [rowProgram_some, Program.KeepsTo]
    exact fun h => absurd h hlt
  | none =>
    cases hloop : loop? d header with
    | some head =>
      rw [rowProgram_of_loop hloop, Program.KeepsTo]
      exact fun h => absurd h hlt
    | none =>
      rw [rowProgram_of_no_loop hloop, Program.KeepsTo]
      exact fun h => absurd h hlt

/-- Behind the last line there is no program. -/
theorem programAt_of_length_le {α : Type} {make : Nat → α → List α → List Row → Row}
    {lines : List α} (h : lines.length ≤ index) : programAt make lines index = .done := by
  rw [programAt, rowsAt, List.drop_eq_nil_of_le h]
  rfl

/-- The programs below a line keep to some lines if those of all later lines do. -/
theorem keepsTo_below {α : Type} {make : Nat → α → List α → List Row → Row} {lines : List α}
    (h : ∀ k, index < k → (programAt make lines k).KeepsTo P stop) (k : Nat) :
    (Below.program ⟨index + 1, rowsAt make lines (index + 1)⟩ k).KeepsTo P stop := by
  by_cases hk : index < k
  · rw [Below.program_rowsAt hk]
    exact h k hk
  · have hrow : Below.row? ⟨index + 1, rowsAt make lines (index + 1)⟩ k = none :=
      if_pos (by dsimp only; omega)
    rw [Below.program, hrow]
    exact Program.keepsTo_done stop

end RowProgram

end StepTrace
