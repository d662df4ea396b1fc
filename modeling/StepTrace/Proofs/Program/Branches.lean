import StepTrace.Proofs.Program.Reading.Braced
import StepTrace.Proofs.Program.Reading.Indented

/-!
# Exclusive branches

Of the branches of a conditional one is run at most: the first one whose condition holds, or the
last clause if there is one and no condition holds (`Dialect.branches_exclusive`). This is proved of
the conditionals of all dialects, with what belongs to a conditional stated for each layout
(`Reading.indented`, `Reading.braced`).

A clause that is overlooked ends the conditional. Its own line and its body are then run as ordinary
lines, after another branch was taken (`Dialect.branches_not_exclusive`).
-/

namespace StepTrace

/-- The reading of a snippet. -/
def Dialect.reading (d : Dialect) (source : Text) : Reading :=
  match d.layout with
  | .indented => .indented d (indentedLines d source)
  | .braced => .braced d (d.bracedSource source)

theorem Dialect.sound_reading (d : Dialect) (source : Text) :
    ∃ tail, (d.reading source).Sound tail := by
  unfold Dialect.reading
  cases hlayout : d.layout with
  | indented => exact ⟨_, Reading.sound_indented d _⟩
  | braced => exact ⟨_, Reading.sound_braced hlayout source⟩

/-- A snippet is run from its first line on. -/
theorem Dialect.read_eq (d : Dialect) (source : Text) :
    Program.read d source = ((d.reading source).program 0, (d.reading source).count) := by
  unfold Dialect.reading
  cases hlayout : d.layout with
  | indented => exact read_of_indented hlayout source
  | braced =>
    simp only [Program.read, hlayout, Program.ofBraced, BracedSource.rows_eq]
    rfl

/-- A conditional looks at the conditions of its branches in their order and runs the body of the
first one that holds, or of the last clause if no condition holds, and of no other branch. If the
bodies are sealed, the lines that are visited in between belong to one of them, and the bodies stand
one behind the other. All clauses of the conditional are among the branches, unless one is
overlooked, which ends the conditional, or something else is taken for a clause. That comes behind
the branches, and it visits no line if a branch was taken. -/
theorem Dialect.branches_exclusive (d : Dialect) (source : Text) {index : Nat} {cond : Text}
    (hheader : (d.reading source).header? index = some cond) :
    let R := d.reading source
    let branches := R.branches index cond
    let last := R.lastBranch index cond
    Program.read d source = (R.program 0, R.count) ∧
    (∃ (stray : Chain) (after : Nat),
      (∀ limits stop, index < stop → (R.program index).watch limits stop = (do
        Watched.visit index
        let taken ← R.watchFirst limits branches
        stray.watch limits taken
        (R.program after).watch limits stop)) ∧
      (∀ limits r, (stray.watch limits true).trail r = []) ∧
      (last.cond = none ∨ R.misled last.index = false →
        stray = .finished ∧ after = (R.bounds last.index).next)) ∧
    ((∀ b ∈ branches, R.sealed b.index) → ∀ limits r,
      R.VisitsOneOf branches ((R.watchFirst limits branches).trail r)) ∧
    branches.Pairwise (fun a b => (R.bounds a.index).stop ≤ b.index) ∧
    (last.cond = none ∨ R.misled last.index ∨
      ∀ b, R.clause? last.index = some b → R.overlooked b.index) := by
  intro R branches last
  obtain ⟨tail, hsound⟩ := d.sound_reading source
  obtain ⟨stray, after, hwatch, hend, hfinished⟩ := hsound.exists_watch hheader
  exact ⟨d.read_eq source, ⟨stray, after, hwatch, stray.trail_watch_true, hfinished⟩,
    fun hsealed limits r => hsound.visitsOneOf hsealed r, hsound.pairwise_clausesFrom _ _,
    hend.imp_right Reading.next?_eq_none.1⟩

/-- A conditional with a branch without braces and two clauses with braces, behind an assignment
that makes the second condition hold. -/
def mixedSnippet : Text :=
  "int x = 5;\nif (x > 7)\ny = 1;\nelse if (x > 3) \x7b\ny = 2;\n\x7d\n".toList ++
    "else \x7b\ny = 3;\n\x7d\nz = 4;".toList

theorem Dialect.branches_exclusive_mixed :
    let R := Dialect.c.reading mixedSnippet
    let branches : List Branch :=
      [⟨1, some "(x > 7)".toList⟩, ⟨3, some "(x > 3)".toList⟩, ⟨6, none⟩]
    R.header? 1 = some "(x > 7)".toList ∧ R.branches 1 "(x > 7)".toList = branches ∧
    Dialect.c.trail .usual mixedSnippet = [0, 1, 4, 9] ∧
    (∀ limits stop, 1 < stop → (R.program 1).watch limits stop = (do
      Watched.visit 1
      let taken ← R.watchFirst limits branches
      Chain.finished.watch limits taken
      (R.program 9).watch limits stop)) ∧
    ∀ limits r, R.VisitsOneOf branches ((R.watchFirst limits branches).trail r) := by
  intro R branches
  have hheader : R.header? 1 = some "(x > 7)".toList := by decide +kernel
  have hbranches : R.branches 1 "(x > 7)".toList = branches := by decide +kernel
  have hsealed : ∀ b ∈ branches, R.sealed b.index := by decide +kernel
  have hlast : (R.lastBranch 1 "(x > 7)".toList).cond = none ∧
      (R.bounds (R.lastBranch 1 "(x > 7)".toList).index).next = 9 := by decide +kernel
  obtain ⟨-, ⟨stray, after, hwatch, -, hfinished⟩, hvisits, -⟩ :=
    Dialect.branches_exclusive .c mixedSnippet hheader
  obtain ⟨rfl, rfl⟩ := hfinished (Or.inl hlast.1)
  refine ⟨hheader, hbranches, by decide +kernel, ?_, ?_⟩
  · rw [← hbranches, ← hlast.2]
    exact hwatch
  · rw [← hbranches] at hsealed ⊢
    exact hvisits hsealed

/-- The last clause of the first snippet has no braces, and in the second one no blank stands before
the condition of the second clause. Both clauses are overlooked. The first condition holds, and the
bodies of both branches are run. -/
theorem Dialect.branches_not_exclusive :
    let source := "int x = 5;\nif (x > 3)\nx = 10;\nelse\nx = 20;".toList
    let other := "x = 5\nif x > 3:\n  y = 1\nelif(x > 4):\n  y = 2".toList
    ((Dialect.c.reading source).header? 1 = some "(x > 3)".toList ∧
      (Dialect.c.reading source).clause? 1 = some ⟨3, none⟩ ∧
      (Dialect.c.reading source).overlooked 3 ∧
      Dialect.c.trail .usual source = [0, 1, 2, 3, 4]) ∧
    (Dialect.python.reading other).header? 1 = some "x > 3".toList ∧
      (Dialect.python.reading other).clause? 1 = some ⟨3, some "(x > 4)".toList⟩ ∧
      (Dialect.python.reading other).overlooked 3 ∧
      Dialect.python.trail .usual other = [0, 1, 2, 3, 4] := by
  decide +kernel

end StepTrace
