import StepTrace.Statement

/-!
# Programs

A program is read off the lines of a snippet once and then run. It is a row of steps, each with the
index of its line: statements, conditionals and loops, the latter two with bodies that are programs
again. A body is given by a program and the line before which it stops, since in a braced snippet
without braces a body may share its lines with what follows.

A conditional is a chain of clauses. Which clauses belong to it depends on the lines alone, so the
chain is known before the run. Three chains are out of the ordinary: a clause without a condition
is a fault as soon as it is reached, whether or not an earlier clause was taken. A clause that its
own line leads back to is evaluated again and again. After a clause that was taken, that leads
nowhere.
-/

namespace StepTrace

/-- The head of a loop. -/
inductive Loop where
  /-- Over a range given by one, two or three bounds. -/
  | range (item : Text) (bounds : List Expr)
  /-- Over the whole numbers from one bound to another. -/
  | span (item : Text) (low high : Expr) (inclusive : Bool)
  /-- Over the items of a list. -/
  | each (item items : Text)
  /-- While a condition holds, with statements before the first round and after each. -/
  | guarded (init : List Statement) (cond : Condition) (update : List Statement)
      (counter : Option Text)
deriving DecidableEq, Repr

mutual

/-- The steps of a program. -/
inductive Program where
  | done
  | plain (index : Nat) (line : Text) (statement : Statement) (rest : Program)
  | branch (index : Nat) (chain : Chain) (rest : Program)
  | loop (index : Nat) (line : Text) (head : Loop) (body : Program) (stop : Nat) (rest : Program)

/-- The clauses of a conditional. -/
inductive Chain where
  /-- No further clause. -/
  | finished
  /-- A clause with a condition. -/
  | clause (line : Text) (cond : Condition) (body : Program) (stop : Nat) (next : Chain)
  /-- The last clause, for when no condition held. -/
  | otherwise (body : Program) (stop : Nat)
  /-- A clause whose condition is missing. -/
  | malformed
  /-- A clause that leads back to itself. -/
  | circular (line : Text) (cond : Condition)

end

deriving instance Repr for Program, Chain

instance : Inhabited Program := ⟨.done⟩

instance : Inhabited Chain := ⟨.finished⟩

end StepTrace
