import StepTrace.Proofs.Program.Walk
import StepTrace.Proofs.Run.Trail
import StepTrace.Proofs.Source.Blocks
import StepTrace.Proofs.Structured.Braced

/-!
# Runs inside a block

In a braced dialect the body of a header that ends in a brace is the block between the header and
the line that closes it. While the body is run, the walk over the clauses of a conditional inside of
it can leave the block in one way only (`BracedSource.Moves.lt_close_or`): the clause has no brace
at its end, its one statement is the last one of the block or is missing, and a further clause
stands behind the closing brace. That clause, which belongs to the header around, is then taken for
one of the inner conditional (`BracedSource.body_contained_fails`).

If no walk leaves the block and every header inside of it has its own block closed, all lines that
are visited while the body is run are lines of the body (`BracedSource.body_contained`).
-/

namespace StepTrace

open Structured (bracedProgram tailAt)

/-- The body of a clause, and the line before which it stops. -/
def Chain.body? : Chain → Option (Program × Nat)
  | .clause _ _ body stop _ => some (body, stop)
  | .otherwise body stop => some (body, stop)
  | _ => none

/-- The body of a conditional's first clause or of a loop, and the line before which it stops. -/
def Program.body? : Program → Option (Program × Nat)
  | .branch _ chain _ => chain.body?
  | .loop _ _ _ body stop _ => some (body, stop)
  | _ => none

/-- The lines of a snippet in a braced dialect with their braces matched. -/
abbrev Dialect.bracedSource (d : Dialect) (source : Text) : BracedSource :=
  .ofLines (bracedLines d source)

theorem elseForm_of_isClosing {line : Text} (h : isClosing line) :
    elseForm.matchesFront line = false := by
  rcases Bool.or_eq_true_iff.1 h with ht | ht
  · obtain rfl := beq_iff_eq.1 ht
    decide
  · obtain rfl := beq_iff_eq.1 ht
    decide

theorem isSkipped_of_isClosing {d : Dialect} (hbraced : d.layout = .braced) {line : Text}
    (h : isClosing line) : isSkipped d line := by
  unfold isSkipped
  rw [hbraced]
  rcases Bool.or_eq_true_iff.1 h with ht | ht <;> simp [ht]

namespace BracedSource

/-- The chain that begins on a line if it is taken as a further clause. -/
abbrev chainAt (d : Dialect) (s : BracedSource) (index : Nat) (line : Text) : Chain :=
  (row d s index line (rowsAt (makeRow d s) s.lines (index + 1))).chain

section Enclosed

variable {d : Dialect} {s : BracedSource} {P : Nat → Prop}

/-- The clauses behind a clause keep to some lines if those do that the walk moves to. -/
theorem keepsTo_tailAt {index : Nat} {line : Text} (hline : s.lines[index]? = some line)
    (hclause : (firstCondition? line).isSome ∨ (furtherCondition? line).isSome)
    (hmoves : ∀ j next, s.Moves index j → index < j → s.lines[j]? = some next →
      (chainAt d s j next).KeepsTo P) :
    (tailAt d s index line).1.KeepsTo P := by
  unfold tailAt tail
  cases helse : s.elseLine? (s.bounds index line).stop with
  | none => exact Chain.keepsTo_finished
  | some j =>
    have hj := lt_of_isElse (elseLine?_eq_some helse).1
    have hnext : s.lines[j]? = some s.lines[j] := List.getElem?_eq_getElem hj
    by_cases hahead : index < j
    · simp only [Below.row?_rowsAt hahead, rowsAt_of_getElem? hnext, List.head?_cons]
      exact hmoves j _ ⟨line, hline, hclause, helse⟩ hahead hnext
    · have hrow : Below.row? ⟨index + 1, rowsAt (makeRow d s) s.lines (index + 1)⟩ j = none :=
        if_pos (by dsimp only; omega)
      simp only [hrow]
      exact Chain.keepsTo_circular _ _

/-- What makes a run inside of the lines between two others stay there: bodies stop in time, walks
over clauses do not leave, and the last line is passed over. -/
structure Encloses (d : Dialect) (s : BracedSource) (first close : Nat) : Prop where
  stop_le : ∀ c line, first < c → c < close → s.lines[c]? = some line →
    (s.bounds c line).stop ≤ close + 1
  moves : ∀ c j, first < c → c < close → s.Moves c j → j < close
  skipped : ∀ line, first < close → s.lines[close]? = some line → isSkipped d line

/-- Programs that begin inside and stop there keep to the lines inside, and so do chains. By
induction on the number of lines from the first one to the end. -/
theorem Encloses.keepsTo {first close : Nat} (h : Encloses d s first close) : ∀ n c : Nat,
    s.lines.length ≤ c + n → first < c →
    (∀ stop ≤ close + 1, (bracedProgram d s c).KeepsTo (fun k => first < k ∧ k < close) stop) ∧
    ∀ line, s.lines[c]? = some line → c < close →
      (chainAt d s c line).KeepsTo fun k => first < k ∧ k < close
  | 0, c, hcount, _ => by
    have hcount : s.lines.length ≤ c := hcount
    refine ⟨fun stop _ => ?_, fun line hline => ?_⟩
    · rw [bracedProgram, programAt_of_length_le hcount]
      exact Program.keepsTo_done stop
    · rw [List.getElem?_eq_none hcount] at hline
      cases hline
  | n + 1, c, hcount, hfirst => by
    have hbelow : ∀ stop ≤ close + 1, ∀ k, c < k →
        (bracedProgram d s k).KeepsTo (fun k => first < k ∧ k < close) stop :=
      fun stop hstop k hk => (h.keepsTo n k (by omega) (by omega)).1 stop hstop
    have hbody : ∀ line, s.lines[c]? = some line → c < close →
        (Below.program ⟨c + 1, rowsAt (makeRow d s) s.lines (c + 1)⟩ (c + 1)).KeepsTo
          (fun k => first < k ∧ k < close) (s.bounds c line).stop :=
      fun line hline hc => keepsTo_below (hbelow _ (h.stop_le c line hfirst hc hline)) (c + 1)
    have htail : ∀ line, s.lines[c]? = some line → c < close →
        (firstCondition? line).isSome ∨ (furtherCondition? line).isSome →
        (tailAt d s c line).1.KeepsTo fun k => first < k ∧ k < close :=
      fun line hline hc hclause => keepsTo_tailAt hline hclause fun j next hmove hahead hnext =>
        (h.keepsTo n j (by omega) (by omega)).2 next hnext (h.moves c j hfirst hc hmove)
    refine ⟨fun stop hstop => ?_, fun line hline hc => ?_⟩
    · rcases Nat.lt_or_ge c s.lines.length with hlt | hge
      · have hline : s.lines[c]? = some s.lines[c] := List.getElem?_eq_getElem hlt
        cases hskip : isSkipped d s.lines[c] with
        | true =>
          rw [bracedProgram, programAt_of_getElem? hline, makeRow, row_program, if_pos hskip]
          exact keepsTo_below (hbelow stop hstop) (c + 1)
        | false =>
          rw [Structured.bracedProgram_eq hline hskip]
          rcases Nat.lt_trichotomy c close with hc | rfl | hc
          · exact keepsTo_rowProgram ⟨hfirst, hc⟩ (hbody _ hline hc)
              (fun hsome => htail _ hline hc (Or.inl hsome)) (keepsTo_below (hbelow stop hstop))
          · rw [h.skipped _ hfirst hline] at hskip
            cases hskip
          · exact keepsTo_rowProgram_of_le (by omega)
      · rw [bracedProgram, programAt_of_length_le hge]
        exact Program.keepsTo_done stop
    · rw [chainAt, row_chain]
      cases hfurther : furtherCondition? line with
      | some cond =>
        rw [Chain.KeepsTo]
        exact ⟨hbody line hline hc, htail line hline hc (Or.inr (by simp [hfurther]))⟩
      | none =>
        rw [Chain.KeepsTo]
        exact hbody line hline hc

end Enclosed

variable {d : Dialect} {source : Text} {i close : Nat}

theorem exists_isClosing (hclose : (d.bracedSource source).braces.get? i = some close)
    (hlt : i < close) :
    ∃ line, (d.bracedSource source).lines[close]? = some line ∧ isClosing line :=
  BraceMap.isClosing_of_get? (fun _ h => isClosing_or_opensFirst h) hclose hlt

theorem not_isElse_close (hclose : (d.bracedSource source).braces.get? i = some close)
    (hlt : i < close) : (d.bracedSource source).isElse close = false := by
  obtain ⟨line, hline, hclosing⟩ := exists_isClosing hclose hlt
  rw [isElse_eq hline, elseForm_of_isClosing hclosing]

theorem lt_close (hclose : (d.bracedSource source).braces.get? i = some close) {c b : Nat}
    (hic : i < c) (hc : c < close) (hb : (d.bracedSource source).braces.get? c = some b) :
    b < close :=
  BraceMap.lt_of_nested (fun _ h => isClosing_or_opensFirst h) hclose (hic.trans hc) hic hc hb

/-- A clause inside of a block is followed by one inside of it, or it has no brace at its end, its
body reaches the end of the block, and the next clause stands behind the block. -/
theorem Moves.lt_close_or (hclose : (d.bracedSource source).braces.get? i = some close) {c j : Nat}
    (hic : i < c) (hc : c < close) (hmove : (d.bracedSource source).Moves c j) :
    j < close ∨ ∃ line, (d.bracedSource source).lines[c]? = some line ∧
      line.endsIn '\x7b' = false ∧ close ≤ c + 2 ∧ close < j ∧ j ≤ close + 2 := by
  obtain ⟨line, hline, -, helse⟩ := hmove
  obtain ⟨hj, hstop, -⟩ := elseLine?_eq_some helse
  have hcount : close < (d.bracedSource source).lines.length := (BraceMap.get?_ofLines hclose).2
  have hne : j ≠ close := by
    rintro rfl
    rw [not_isElse_close hclose (hic.trans hc)] at hj
    cases hj
  cases hbrace : line.endsIn '\x7b' with
  | true =>
    rw [stop_of_endsIn _ c hbrace] at hstop
    cases hb : (d.bracedSource source).braces.get? c with
    | none =>
      have hlt := lt_of_isElse hj
      rw [hb, Option.getD_none] at hstop
      omega
    | some b =>
      have hlt := lt_close hclose hic hc hb
      rw [hb, Option.getD_some] at hstop
      exact Or.inl (by omega)
  | false =>
    have hunbraced : ((d.bracedSource source).bounds c line).stop = c + 2 := by
      rw [bounds, if_neg (by simp [hbrace])]
      show min (c + 2) (d.bracedSource source).lines.length = c + 2
      omega
    rw [hunbraced] at hstop
    rcases Nat.lt_or_ge j close with hlt | hge
    · exact Or.inl hlt
    · exact Or.inr ⟨line, hline, hbrace, by omega, by omega, by omega⟩

/-- Every header inside of a block has its own block closed, and no walk over clauses leaves the
block. -/
structure Confined (s : BracedSource) (first close : Nat) : Prop where
  closed : ∀ c line, first < c → c < close → s.lines[c]? = some line → line.endsIn '\x7b' →
    (s.braces.get? c).isSome
  moves : ∀ c j, first < c → c < close → s.Moves c j → j < close

theorem confined_iff {s : BracedSource} {first close : Nat} : s.Confined first close ↔
    ∀ c < close, first < c →
      (s.lines[c]?.all fun line => !line.endsIn '\x7b' || (s.braces.get? c).isSome) ∧
      ∀ j < s.lines.length, s.Moves c j → j < close := by
  refine ⟨fun h c hc hfirst => ⟨?_, fun j _ => h.moves c j hfirst hc⟩, fun h => ⟨?_, ?_⟩⟩
  · cases hline : s.lines[c]? with
    | none => rfl
    | some line =>
      cases hbrace : line.endsIn '\x7b' with
      | false => simp [hbrace]
      | true => simp [h.closed c line hfirst hc hline hbrace]
  · intro c line hfirst hc hline hbrace
    simpa [hline, hbrace] using (h c hc hfirst).1
  · rintro c j hfirst hc ⟨line, hline, hclause, helse⟩
    exact (h c hc hfirst).2 j (lt_of_isElse (elseLine?_eq_some helse).1)
      ⟨line, hline, hclause, helse⟩

instance (s : BracedSource) (first close : Nat) : Decidable (s.Confined first close) :=
  decidable_of_iff _ confined_iff.symm

section Confined

variable (hclose : (d.bracedSource source).braces.get? i = some close)
  (hconfined : (d.bracedSource source).Confined i close)

include hclose hconfined

/-- A body inside of a block stops inside of it, or behind the closing line if it is missing. -/
theorem Confined.stop_le {c : Nat} {line : Text} (hic : i < c) (hc : c < close)
    (hline : (d.bracedSource source).lines[c]? = some line) :
    ((d.bracedSource source).bounds c line).stop ≤ close + 1 := by
  by_cases hbrace : line.endsIn '\x7b'
  · obtain ⟨b, hb⟩ := Option.isSome_iff_exists.1 (hconfined.closed c line hic hc hline hbrace)
    have hlt := lt_close hclose hic hc hb
    rw [stop_of_endsIn _ c hbrace, hb, Option.getD_some]
    omega
  · rw [bounds, if_neg hbrace]
    show min (c + 2) _ ≤ close + 1
    omega

theorem Confined.encloses (hbraced : d.layout = .braced) :
    Encloses d (d.bracedSource source) i close where
  stop_le c line hic hc hline := hconfined.stop_le hclose hic hc hline
  moves := hconfined.moves
  skipped line hlt hline := by
    obtain ⟨line', hline', hclosing⟩ := exists_isClosing hclose hlt
    obtain rfl : line = line' := Option.some.inj (hline.symm.trans hline')
    exact isSkipped_of_isClosing hbraced hclosing

end Confined

/-- The conditional, loop or clause on a line that ends in a brace runs the block up to the closing
line as its body. -/
theorem body?_of_get? {line : Text} (hline : (d.bracedSource source).lines[i]? = some line)
    (hbrace : line.endsIn '\x7b')
    (hclose : (d.bracedSource source).braces.get? i = some close) :
    (isSkipped d line = false → ∀ b ∈ (bracedProgram d (d.bracedSource source) i).body?,
      b = (bracedProgram d (d.bracedSource source) (i + 1), close)) ∧
    ∀ b ∈ (chainAt d (d.bracedSource source) i line).body?,
      b = (bracedProgram d (d.bracedSource source) (i + 1), close) := by
  have hbounds : (d.bracedSource source).bounds i line = ⟨close, close + 1⟩ := by
    rw [bounds, if_pos hbrace, BraceMap.blockEnd, hclose]
    rfl
  have hbody : Below.program ⟨i + 1, rowsAt (makeRow d (d.bracedSource source))
      (d.bracedSource source).lines (i + 1)⟩ (i + 1) =
      bracedProgram d (d.bracedSource source) (i + 1) := Below.program_rowsAt (Nat.le_refl _)
  refine ⟨fun hskip b hb => ?_, fun b hb => ?_⟩
  · rw [Structured.bracedProgram_eq hline hskip, hbounds] at hb
    cases hfirst : firstCondition? line with
    | some cond =>
      rw [hfirst, rowProgram_some, hbody] at hb
      exact (Option.some.inj hb).symm
    | none =>
      rw [hfirst] at hb
      cases hloop : loop? d (bracedHeader line) with
      | some head =>
        rw [rowProgram_of_loop hloop, hbody] at hb
        exact (Option.some.inj hb).symm
      | none =>
        rw [rowProgram_of_no_loop hloop] at hb
        cases hb
  · rw [chainAt, row_chain, hbounds, hbody] at hb
    cases hfurther : furtherCondition? line with
    | some cond =>
      rw [hfurther] at hb
      exact (Option.some.inj hb).symm
    | none =>
      rw [hfurther] at hb
      exact (Option.some.inj hb).symm

/-- The conditional, loop or clause on a line that ends in a brace has the block up to the closing
line as its body. A conditional inside of the block takes a clause from outside only if its own
clause has no brace at its end, has its body at the end of the block, and the clause from outside
stands behind the closing line. If that does not happen and every header inside has its own block
closed, then no line is visited outside of the block while the body is run. -/
theorem body_contained (hbraced : d.layout = .braced) {line : Text}
    (hline : (d.bracedSource source).lines[i]? = some line) (hbrace : line.endsIn '\x7b')
    (hclose : (d.bracedSource source).braces.get? i = some close) :
    ((isSkipped d line = false → ∀ b ∈ (bracedProgram d (d.bracedSource source) i).body?,
        b = (bracedProgram d (d.bracedSource source) (i + 1), close)) ∧
      ∀ b ∈ (chainAt d (d.bracedSource source) i line).body?,
        b = (bracedProgram d (d.bracedSource source) (i + 1), close)) ∧
    (∀ c j, i < c → c < close → (d.bracedSource source).Moves c j → j < close ∨
      ∃ text, (d.bracedSource source).lines[c]? = some text ∧ text.endsIn '\x7b' = false ∧
        close ≤ c + 2 ∧ close < j ∧ j ≤ close + 2) ∧
    ((d.bracedSource source).Confined i close → ∀ limits r,
      ∀ k ∈ ((bracedProgram d (d.bracedSource source) (i + 1)).watch limits close).trail r,
        i < k ∧ k < close) := by
  refine ⟨body?_of_get? hline hbrace hclose,
    fun c j hic hc hmove => hmove.lt_close_or hclose hic hc, fun hconfined limits => ?_⟩
  have hkeeps := (hconfined.encloses hclose hbraced).keepsTo
    (d.bracedSource source).lines.length (i + 1) (by omega) (by omega)
  exact Program.stays_watch _ close (hkeeps.1 close (by omega))

/-- A block whose inner conditional has a further clause with braces of its own, inside of the
block, and a clause behind the block that belongs to the header. -/
theorem body_contained_nested :
    let s := Dialect.c.bracedSource
      ("if (a > 0) \x7b\nif (b > 0)\nx = 1;\nelse \x7b\nx = 2;\n\x7d\n\x7d\n".toList ++
        "else \x7b\ny = 2;\n\x7d".toList)
    s.braces.get? 0 = some 6 ∧ s.Moves 0 7 ∧ s.Moves 1 3 ∧ s.Confined 0 6 ∧
    ((bracedProgram .c s 1).watch .usual 6).trail (.start .empty) = [1, 4] ∧
    ∀ limits r, ∀ k ∈ ((bracedProgram .c s 1).watch limits 6).trail r, 0 < k ∧ k < 6 := by
  intro s
  have hclose : s.braces.get? 0 = some 6 := by decide +kernel
  have hconfined : s.Confined 0 6 := by decide +kernel
  have hline : s.lines[0]? = some "if (a > 0) \x7b".toList := by decide +kernel
  exact ⟨hclose, by decide +kernel, by decide +kernel, hconfined, by decide +kernel,
    (body_contained rfl hline (by decide) hclose).2.2 hconfined⟩

/-- The last conditional of a block has no braces and takes the clause behind the block: line 5 is
visited in a body that ends before line 3. With a brace at its end that stands in an open quotation,
a header inside of a block has all lines behind it as its body. -/
theorem body_contained_fails :
    let s := Dialect.c.bracedSource
      "if (a > 0) \x7b\nif (b > 0)\nx = 1;\n\x7d\nelse \x7b\ny = 2;\n\x7d".toList
    let t := Dialect.c.bracedSource
      "if (1 > 0) \x7b\nif (0 == \"a) \x7b\ny = 1;\n\x7d\nz = 2;".toList
    (s.braces.get? 0 = some 3 ∧ s.Moves 1 4 ∧
      ((bracedProgram .c s 1).watch .usual 3).trail (.start .empty) = [1, 5]) ∧
    t.braces.get? 0 = some 3 ∧
      ((bracedProgram .c t 1).watch .usual 3).trail (.start .empty) = [1, 2, 4] := by
  intro s t
  exact ⟨⟨by decide +kernel, by decide +kernel, by decide +kernel⟩, by decide +kernel,
    by decide +kernel⟩

end BracedSource

end StepTrace
