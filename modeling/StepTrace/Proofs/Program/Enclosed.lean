import Mathlib.Logic.Relation
import StepTrace.Proofs.Program.Reading.Indented

/-!
# Bodies inside of bodies

In an indented dialect where a body ends is found out anew for each header, from its own indent and
without a look at the body around it. Still no body, no clause and no run leads out of the body that
it stands in, whatever the indents are (`Dialect.bodies_contained`).

The reason is that the line behind a body is indented less than every line of the body
(`Structured.Sealed`). So it ends every block that begins inside, and it is level with no line
inside, which it would have to be as a further clause of a conditional there. The whole snippet is
sealed as well, since nothing stands behind it, and so all bodies of a program are found by one
induction (`Structured.Sealed.eachBody`).
-/

namespace StepTrace

open Structured

/-! ## The bodies of a program -/

mutual

/-- Every body that the steps before `stop` can run has a property, and so have the bodies inside of
it. -/
def Program.EachBody (Q : Program → Nat → Prop) : Program → (stop : Nat) → Prop
  | .done, _ => True
  | .plain index _ _ rest, stop => index < stop → rest.EachBody Q stop
  | .branch index chain rest, stop => index < stop → chain.EachBody Q ∧ rest.EachBody Q stop
  | .loop index _ _ body bodyStop rest, stop =>
    index < stop → Q body bodyStop ∧ body.EachBody Q bodyStop ∧ rest.EachBody Q stop

/-- Every body of a chain has a property, and so have the bodies inside of it. -/
def Chain.EachBody (Q : Program → Nat → Prop) : Chain → Prop
  | .finished => True
  | .clause _ _ body stop next => Q body stop ∧ body.EachBody Q stop ∧ next.EachBody Q
  | .otherwise body stop => Q body stop ∧ body.EachBody Q stop
  | .malformed => True
  | .circular _ _ => True

end

/-- What is run behind a conditional or a loop. -/
def Program.behind? : Program → Option Program
  | .branch _ _ rest => some rest
  | .loop _ _ _ _ _ rest => some rest
  | _ => none

/-- The bodies of the clauses of a chain, each with the line before which it stops. -/
def Chain.bodies : Chain → List (Program × Nat)
  | .clause _ _ body stop next => (body, stop) :: next.bodies
  | .otherwise body stop => [(body, stop)]
  | _ => []

section EachBody

variable {Q R : Program → Nat → Prop}

theorem Program.eachBody_done (stop : Nat) : Program.done.EachBody Q stop := by
  rw [Program.EachBody]
  trivial

theorem Chain.eachBody_finished : Chain.finished.EachBody Q := by
  rw [Chain.EachBody]
  trivial

theorem Chain.eachBody_malformed : Chain.malformed.EachBody Q := by
  rw [Chain.EachBody]
  trivial

mutual

theorem Program.EachBody.imp (h : ∀ body stop, Q body stop → R body stop) :
    ∀ {p : Program} {stop : Nat}, p.EachBody Q stop → p.EachBody R stop
  | .done, stop, _ => Program.eachBody_done stop
  | .plain index line statement rest, stop, hp => by
    rw [Program.EachBody] at hp ⊢
    exact fun hlt => (hp hlt).imp h
  | .branch index chain rest, stop, hp => by
    rw [Program.EachBody] at hp ⊢
    exact fun hlt => ⟨(hp hlt).1.imp h, (hp hlt).2.imp h⟩
  | .loop index line head body bodyStop rest, stop, hp => by
    rw [Program.EachBody] at hp ⊢
    exact fun hlt => ⟨h _ _ (hp hlt).1, (hp hlt).2.1.imp h, (hp hlt).2.2.imp h⟩

theorem Chain.EachBody.imp (h : ∀ body stop, Q body stop → R body stop) :
    ∀ {c : Chain}, c.EachBody Q → c.EachBody R
  | .finished, _ => Chain.eachBody_finished
  | .clause line cond body stop next, hc => by
    rw [Chain.EachBody] at hc ⊢
    exact ⟨h _ _ hc.1, hc.2.1.imp h, hc.2.2.imp h⟩
  | .otherwise body stop, hc => by
    rw [Chain.EachBody] at hc ⊢
    exact ⟨h _ _ hc.1, hc.2.imp h⟩
  | .malformed, _ => Chain.eachBody_malformed
  | .circular line cond, _ => by
    rw [Chain.EachBody]
    trivial

end

end EachBody

/-! ## Bodies in a sealed range -/

section Ranges

variable {d : Dialect} {lines : List IndentedLine}

theorem sealed_all (lines : List IndentedLine) : Sealed lines 0 lines.length := by
  intro _ _ _ _ _ _ hl
  rw [List.getElem?_eq_none (Nat.le_refl _)] at hl
  cases hl

/-- A program is the body of a line: it begins on the next line and stops behind the block. -/
structure IsBody (d : Dialect) (lines : List IndentedLine) (index : Nat) (line : IndentedLine)
    (body : Program) (stop : Nat) : Prop where
  header : lines[index]? = some line
  body_eq : body = indentedProgram d lines (index + 1)
  stop_eq : stop = (indentedBoundsAt lines index).stop

theorem Structured.Opens.isBody {index : Nat} {line : IndentedLine}
    {inner behind : List IndentedLine} (h : Opens lines index line inner behind) (d : Dialect) :
    IsBody d lines index line (indentedProgram d lines (index + 1))
      (index + 1 + inner.length) where
  header := h.getElem?
  body_eq := rfl
  stop_eq := by rw [h.boundsAt]

/-- A program is the body of a line in a range, and it stops in the range. -/
def IsBodyIn (d : Dialect) (lines : List IndentedLine) (first stop : Nat) (body : Program)
    (last : Nat) : Prop :=
  ∃ index line, first ≤ index ∧ index < stop ∧ last ≤ stop ∧ IsBody d lines index line body last

/-- A line stands right behind the block of another one, is level with it and begins like a further
clause. -/
def FollowedBy (lines : List IndentedLine) (index next : Nat) : Prop :=
  ∃ line l, lines[index]? = some line ∧ next = (indentedBoundsAt lines index).stop ∧
    lines[next]? = some l ∧ l.indent = line.indent ∧ beginsClause l = true

/-- The line at which the run goes on behind the conditional or the loop on a line. -/
def nextLine? (d : Dialect) (lines : List IndentedLine) (index : Nat) : Option Nat :=
  lines[index]?.bind fun line =>
    if line.condition?.isSome then some (indentedTailAt d lines index line).2
    else if (loop? d (indentedHeader line.text)).isSome then
      some (indentedBoundsAt lines index).next
    else none

/-- Behind a conditional or a loop the program from the next line on is run. -/
theorem behind?_indentedProgram (d : Dialect) (lines : List IndentedLine) (index : Nat) :
    (indentedProgram d lines index).behind? =
      (nextLine? d lines index).map (indentedProgram d lines) := by
  cases hline : lines[index]? with
  | none =>
    rw [indentedProgram, programAt_of_length_le (List.getElem?_eq_none_iff.1 hline), nextLine?,
      hline]
    rfl
  | some line =>
    obtain ⟨inner, behind, hopens⟩ := exists_opens hline
    rw [nextLine?, hline, Option.bind_some, hopens.boundsAt]
    cases hcond : line.condition? with
    | some cond =>
      have hafter := (goesOn_tailAt d lines.length (Nat.le_add_left _ _) hline).bounds.1
      rw [hopens.program_of_condition hcond hafter]
      rfl
    | none =>
      cases hloop : loop? d (indentedHeader line.text) with
      | some head =>
        rw [hopens.program_of_loop hcond hloop]
        rfl
      | none =>
        rw [hopens.program_of_statement hcond hloop]
        rfl

namespace Structured.Sealed

variable {first stop index : Nat} {line : IndentedLine} {inner behind : List IndentedLine}

/-- The clauses of a conditional inside are inside. -/
theorem followed_lt (h : Sealed lines first stop) (hfirst : first ≤ index) (hlt : index < stop)
    {next : Nat} (hnext : Relation.ReflTransGen (FollowedBy lines) index next) :
    index ≤ next ∧ next < stop := by
  induction hnext with
  | refl => exact ⟨Nat.le_refl _, hlt⟩
  | tail _ hstep ih =>
    obtain ⟨line, l, hline, rfl, hl, hlevel, -⟩ := hstep
    obtain ⟨inner, behind, hopens⟩ := exists_opens hline
    simp only [hopens.boundsAt] at hl ⊢
    exact ⟨by omega, h.level_lt hopens (hfirst.trans ih.1) ih.2 hl hlevel⟩

/-- The run goes on behind a conditional inside at a line inside or at the end. -/
theorem after_le (h : Sealed lines first stop) {chain : Chain} {after : Nat}
    (hgoes : GoesOn d lines index line chain after) (hfirst : first ≤ index) (hlt : index < stop) :
    after ≤ stop := by
  induction hgoes with
  | finished hopens => exact h.block_le hopens hfirst hlt
  | further hopens hnext hindent _ _ _ ih =>
    exact ih (by omega) (h.level_lt hopens hfirst hlt hnext.getElem? hindent)
  | malformed hopens hnext hindent =>
    exact h.block_le hnext (by omega) (h.level_lt hopens hfirst hlt hnext.getElem? hindent)
  | last hopens hnext hindent =>
    exact h.block_le hnext (by omega) (h.level_lt hopens hfirst hlt hnext.getElem? hindent)

/-- The run goes on behind a conditional or a loop inside at a later line, inside or at the end. -/
theorem nextLine_le (h : Sealed lines first stop) (hfirst : first ≤ index) (hlt : index < stop)
    {next : Nat} (hnext : nextLine? d lines index = some next) : index < next ∧ next ≤ stop := by
  obtain ⟨line, hline, hnext⟩ := Option.bind_eq_some_iff.1 hnext
  obtain ⟨inner, behind, hopens⟩ := exists_opens hline
  rw [hopens.boundsAt] at hnext
  split_ifs at hnext
  · cases hnext
    have hgoes := goesOn_tailAt d lines.length (Nat.le_add_left _ _) hline
    exact ⟨hgoes.bounds.1, h.after_le hgoes hfirst hlt⟩
  · cases hnext
    exact ⟨by dsimp only; omega, h.block_le hopens hfirst hlt⟩

theorem isBodyIn (h : Sealed lines first stop) (hopens : Opens lines index line inner behind)
    (hfirst : first ≤ index) (hlt : index < stop) :
    IsBodyIn d lines first stop (indentedProgram d lines (index + 1))
      (index + 1 + inner.length) :=
  ⟨index, line, hfirst, hlt, h.block_le hopens hfirst hlt, hopens.isBody d⟩

/-- The bodies of the clauses behind a line inside are bodies of lines inside, if those of all
programs below are. -/
theorem eachBody_chain (h : Sealed lines first stop) {chain : Chain} {after : Nat}
    (hgoes : GoesOn d lines index line chain after) (hfirst : first ≤ index) (hlt : index < stop)
    (hbelow : ∀ k, index < k → ∀ last ≤ stop,
      (indentedProgram d lines k).EachBody (IsBodyIn d lines first stop) last) :
    chain.EachBody (IsBodyIn d lines first stop) := by
  induction hgoes with
  | finished => exact Chain.eachBody_finished
  | further hopens hnext hindent _ _ _ ih =>
    have hinside := h.level_lt hopens hfirst hlt hnext.getElem? hindent
    rw [Chain.EachBody]
    exact ⟨h.isBodyIn hnext (by omega) hinside,
      hbelow _ (by omega) _ (h.block_le hnext (by omega) hinside),
      ih (by omega) hinside fun k hk => hbelow k (by omega)⟩
  | malformed => exact Chain.eachBody_malformed
  | last hopens hnext hindent =>
    have hinside := h.level_lt hopens hfirst hlt hnext.getElem? hindent
    rw [Chain.EachBody]
    exact ⟨h.isBodyIn hnext (by omega) hinside,
      hbelow _ (by omega) _ (h.block_le hnext (by omega) hinside)⟩

/-- The bodies of a program that begins inside and stops there are bodies of lines inside. By
induction on the number of lines from the first one to the end. -/
theorem eachBody (h : Sealed lines first stop) (d : Dialect) : ∀ (n : Nat) {c : Nat},
    lines.length ≤ c + n → first ≤ c → ∀ last ≤ stop,
    (indentedProgram d lines c).EachBody (IsBodyIn d lines first stop) last
  | n, c, hcount, hfirst, last, hlast => by
    rcases Nat.lt_or_ge c lines.length with hlt | hge
    · obtain ⟨n, rfl⟩ : ∃ m, n = m + 1 := ⟨n - 1, by omega⟩
      have hbelow : ∀ k, c < k → ∀ last ≤ stop,
          (indentedProgram d lines k).EachBody (IsBodyIn d lines first stop) last :=
        fun k hk => h.eachBody d n (by omega) (by omega)
      have hline : lines[c]? = some lines[c] := List.getElem?_eq_getElem hlt
      obtain ⟨inner, behind, hopens⟩ := exists_opens hline
      generalize lines[c] = line at hline hopens
      have hbody (hc : c < stop) := hbelow (c + 1) (Nat.lt_succ_self c) _
        (h.block_le hopens hfirst hc)
      cases hcond : line.condition? with
      | some cond =>
        have hgoes := goesOn_tailAt d lines.length (Nat.le_add_left _ _) hline
        rw [hopens.program_of_condition hcond hgoes.bounds.1, Program.EachBody, Chain.EachBody]
        intro hc
        have hc : c < stop := by omega
        exact ⟨⟨h.isBodyIn hopens hfirst hc, hbody hc, h.eachBody_chain hgoes hfirst hc hbelow⟩,
          hbelow _ hgoes.bounds.1 last hlast⟩
      | none =>
        cases hloop : loop? d (indentedHeader line.text) with
        | some head =>
          rw [hopens.program_of_loop hcond hloop, Program.EachBody]
          intro hc
          have hc : c < stop := by omega
          exact ⟨h.isBodyIn hopens hfirst hc, hbody hc, hbelow _ (by omega) last hlast⟩
        | none =>
          rw [hopens.program_of_statement hcond hloop, Program.EachBody]
          exact fun _ => hbelow (c + 1) (Nat.lt_succ_self c) last hlast
    · rw [indentedProgram, programAt_of_length_le hge]
      exact Program.eachBody_done last

end Structured.Sealed

/-! ## Clauses -/

/-- The bodies of the clauses behind a line are those of the lines that follow it. -/
theorem Structured.GoesOn.isBody_of_mem {index after : Nat} {line : IndentedLine} {chain : Chain}
    (h : GoesOn d lines index line chain after) : ∀ b ∈ chain.bodies, ∃ k l,
      Relation.ReflTransGen (FollowedBy lines) index k ∧ IsBody d lines k l b.1 b.2 := by
  have hfollowed {index : Nat} {line next : IndentedLine} {inner behind inner' behind'}
      (hopens : Opens lines index line inner behind)
      (hnext : Opens lines (index + 1 + inner.length) next inner' behind')
      (hindent : next.indent = line.indent) (hbegins : beginsClause next = true) :
      FollowedBy lines index (index + 1 + inner.length) :=
    ⟨line, next, hopens.getElem?, by rw [hopens.boundsAt], hnext.getElem?, hindent, hbegins⟩
  induction h with
  | finished => exact List.forall_mem_nil _
  | malformed => exact List.forall_mem_nil _
  | further hopens hnext hindent hword _ _ ih =>
    have hstep := hfollowed hopens hnext hindent (by rw [beginsClause, hword, Bool.true_or])
    refine List.forall_mem_cons.2 ⟨⟨_, _, .single hstep, hnext.isBody d⟩, fun b hb => ?_⟩
    obtain ⟨k, l, hwalk, hbody⟩ := ih b hb
    exact ⟨k, l, hwalk.head hstep, hbody⟩
  | last hopens hnext hindent _ hword =>
    have hstep := hfollowed hopens hnext hindent (by rw [beginsClause, hword, Bool.or_true])
    exact List.forall_mem_singleton.2 ⟨_, _, .single hstep, hnext.isBody d⟩

/-- The bodies of a conditional are those of its line and of the lines that follow it. -/
theorem isBody_of_mem_bodies {c index : Nat} {chain : Chain} {rest : Program}
    (h : indentedProgram d lines c = .branch index chain rest) : ∀ b ∈ chain.bodies, ∃ k l,
      Relation.ReflTransGen (FollowedBy lines) c k ∧ IsBody d lines k l b.1 b.2 := by
  cases hline : lines[c]? with
  | none =>
    rw [indentedProgram, programAt_of_length_le (List.getElem?_eq_none_iff.1 hline)] at h
    cases h
  | some line =>
    obtain ⟨inner, behind, hopens⟩ := exists_opens hline
    cases hcond : line.condition? with
    | some cond =>
      have hgoes := goesOn_tailAt d lines.length (Nat.le_add_left _ _) hline
      rw [hopens.program_of_condition hcond hgoes.bounds.1] at h
      cases h
      exact List.forall_mem_cons.2 ⟨⟨c, line, .refl, hopens.isBody d⟩, hgoes.isBody_of_mem⟩
    | none =>
      cases hloop : loop? d (indentedHeader line.text) with
      | some head =>
        rw [hopens.program_of_loop hcond hloop] at h
        cases h
      | none =>
        rw [hopens.program_of_statement hcond hloop] at h
        cases h

/-! ## Containment -/

/-- While the body of a line is run, everything stays inside of it. -/
structure BodyContained (d : Dialect) (lines : List IndentedLine) (index : Nat)
    (line : IndentedLine) (body : Program) (stop : Nat) : Prop where
  isBody : IsBody d lines index line body stop
  /-- All of its lines are deeper than the line. -/
  deeper : ∀ k l, index < k → k < stop → lines[k]? = some l → line.indent < l.indent
  /-- Every body that can be run in it is that of a line inside and stops inside. -/
  nested : body.EachBody (IsBodyIn d lines (index + 1) stop) stop
  /-- Every clause of a conditional in it stands inside. -/
  clauses : ∀ c next, index < c → c < stop →
    Relation.ReflTransGen (FollowedBy lines) c next → c ≤ next ∧ next < stop
  /-- Behind a conditional or a loop in it the run goes on at a later line, at its end at the
  latest. -/
  returns : ∀ c next, index < c → c < stop → nextLine? d lines c = some next →
    c < next ∧ next ≤ stop
  /-- However it is run and ends, only lines inside are visited. -/
  visits : ∀ limits r, ∀ k ∈ (body.watch limits stop).trail r, index < k ∧ k < stop

theorem IsBody.contained {index stop : Nat} {line : IndentedLine} {body : Program}
    (h : IsBody d lines index line body stop) : BodyContained d lines index line body stop := by
  obtain ⟨inner, behind, hopens⟩ := exists_opens h.header
  obtain rfl := h.body_eq
  obtain rfl : stop = index + 1 + inner.length := by rw [h.stop_eq, hopens.boundsAt]
  exact {
    isBody := h
    deeper := fun _ _ hk hlt hl => hopens.getElem?_inner hk hlt hl
    nested := hopens.sealed.eachBody d lines.length (by omega) (Nat.le_refl _) _ (Nat.le_refl _)
    clauses := fun _ _ hc hlt => hopens.sealed.followed_lt hc hlt
    returns := fun _ _ hc hlt => hopens.sealed.nextLine_le hc hlt
    visits := fun _ => Program.stays_watch _ _ (hopens.keepsTo d) }

end Ranges

/-- In an indented dialect every body that can be run is the block of a line: all of its lines are
deeper than that line, and while it is run nothing leads out of it, neither a body or a clause
inside, nor the line at which the run goes on behind a conditional or a loop, nor a line that is
visited. The clauses of a conditional are the lines that follow it, and what is run behind it is the
program from the next line on. -/
theorem Dialect.bodies_contained {d : Dialect} (hlayout : d.layout = .indented) (source : Text) :
    let lines := indentedLines d source
    (Program.read d source).1.EachBody (fun body stop =>
        ∃ index line, BodyContained d lines index line body stop) (Program.read d source).2 ∧
    (∀ c index chain rest, indentedProgram d lines c = .branch index chain rest →
      ∀ b ∈ chain.bodies, ∃ k line,
        Relation.ReflTransGen (FollowedBy lines) c k ∧ IsBody d lines k line b.1 b.2) ∧
    ∀ c, (indentedProgram d lines c).behind? =
      (nextLine? d lines c).map (indentedProgram d lines) := by
  intro lines
  refine ⟨?_, fun c index chain rest => isBody_of_mem_bodies, behind?_indentedProgram d lines⟩
  rw [read_of_indented hlayout]
  have hbodies := (sealed_all lines).eachBody d lines.length (Nat.le_add_left _ 0)
    (Nat.le_refl 0) lines.length (Nat.le_refl _)
  refine hbodies.imp fun body stop hbody => ?_
  obtain ⟨index, line, -, -, -, hbody⟩ := hbody
  exact ⟨index, line, hbody.contained⟩

/-- A loop with a conditional in its body, behind which the body goes on at an indent between those
of the loop and the conditional. -/
def raggedSnippet : Text :=
  "for i in range(2):\n      if i > 0:\n         x = 1\n      elif i < 1:\n".toList ++
    "       x = 2\n   y = x\nz = y".toList

/-- The lines of the loop's body are visited in each round, and none behind it. -/
theorem Dialect.bodies_contained_ragged :
    let lines := indentedLines .python raggedSnippet
    Dialect.python.layout = .indented ∧ lines.map (·.indent) = [0, 6, 9, 6, 7, 3, 0] ∧
    nextLine? .python lines 0 = some 6 ∧ nextLine? .python lines 1 = some 5 ∧
    Dialect.python.trail .usual raggedSnippet = [0, 1, 4, 5, 1, 2, 5, 6] ∧
    ∃ index line, BodyContained .python lines index line (indentedProgram .python lines 1) 6 := by
  intro lines
  refine ⟨rfl, by decide +kernel, by decide +kernel, by decide +kernel, by decide +kernel, ?_⟩
  obtain ⟨line, hline⟩ : ∃ line, lines[0]? = some line :=
    Option.isSome_iff_exists.1 (by decide +kernel)
  obtain ⟨inner, behind, hopens⟩ := exists_opens hline
  have hcond : line.condition? = none := by
    have hnone : lines[0]?.bind (·.condition?) = none := by decide +kernel
    rwa [hline] at hnone
  obtain ⟨head, hloop⟩ : ∃ head, loop? .python (indentedHeader line.text) = some head := by
    have hsome : (lines[0]?.bind fun l => loop? .python (indentedHeader l.text)).isSome := by
      decide +kernel
    rw [hline] at hsome
    exact Option.isSome_iff_exists.1 hsome
  have hstop : 0 + 1 + inner.length = 6 := by
    have hbounds : indentedBoundsAt lines 0 = ⟨6, 6⟩ := by decide +kernel
    rw [hopens.boundsAt] at hbounds
    exact congrArg Bounds.stop hbounds
  have hbodies := (Dialect.bodies_contained (d := .python) rfl raggedSnippet).1
  rw [read_of_indented rfl, hopens.program_of_loop hcond hloop, Program.EachBody, hstop] at hbodies
  have hcount : 0 < lines.length := by decide +kernel
  exact (hbodies hcount).1

end StepTrace
