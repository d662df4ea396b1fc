import StepTrace.Proofs.Program.LoopHeaders
import StepTrace.Proofs.Program.Relocated
import StepTrace.Proofs.Run.Alike

/-!
# Loops with clauses and loops with a condition

A loop with a start, a condition and an update stands for a shorter one: the start before it, and
the update at the end of its body (`forLines`, `whileLines`). The two record different steps, since
the start and the updates of the first are silent. But they do the same to the variables and the
output in the same number of rounds. To say so, rounds are counted along a run (`Program.countRun`).

The loops themselves are alike round by round (`Alike.guarded`). That the lines of the two forms are
read as these loops is a matter of where the body stands: it is fully braced, so it does in both
places what it does by itself (`bracedProgram_enclosing`).
-/

namespace StepTrace

/-! ## Rounds -/

namespace Loop

/-- Run the body while a condition holds, at most `left` times, and count the rounds. -/
def countWhile (limits : Limits) (line : Text) (cond : Condition) (counter : Option Text)
    (body update : Run Unit) : (left position : Nat) → Run Nat
  | 0, _ => pure 0
  | left + 1, position => do
    if ← cond.test then
      Run.attempt limits line fun s => .ok (.idle (roundNote s counter position))
      body
      update
      let rounds ← countWhile limits line cond counter body update left (position + 1)
      return rounds + 1
    else return 0

/-- Run a loop and count its rounds, if it has a condition. -/
def countRun (limits : Limits) (line : Text) (body : Run Unit) : Loop → Run Nat
  | guarded init cond update counter => do
    Statement.runSilently limits init
    countWhile limits line cond counter body (Statement.runSilently limits update)
      limits.rounds.toNat 1
  | head => do
    head.run limits line body
    return 0

theorem repeatWhile_eq_countWhile (limits : Limits) (line : Text) (cond : Condition)
    (counter : Option Text) (body update : Run Unit) : ∀ left position : Nat,
    repeatWhile limits line cond counter body update left position =
      countWhile limits line cond counter body update left position >>= fun _ => pure ()
  | 0, _ => rfl
  | left + 1, position => by
    rw [repeatWhile_succ, countWhile, bind_assoc]
    refine bind_congr fun b => ?_
    cases b with
    | false => rfl
    | true =>
      simp only [if_true, bind_assoc, pure_bind,
        repeatWhile_eq_countWhile limits line cond counter body update left (position + 1)]

theorem run_eq_countRun (limits : Limits) (line : Text) (body : Run Unit) (head : Loop) :
    head.run limits line body = head.countRun limits line body >>= fun _ => pure () := by
  cases head with
  | guarded init cond update counter =>
    rw [run, countRun, bind_assoc]
    exact bind_congr fun _ => repeatWhile_eq_countWhile limits line cond counter body _ _ 1
  | _ =>
    simp only [countRun, bind_assoc, pure_bind]
    exact bind_pure_unit.symm

end Loop

namespace Program

/-- Run the steps of a program on lines before `stop`, and count the rounds of its loops with a
condition, apart from those inside of bodies. -/
def countRun (limits : Limits) : Program → (stop : Nat) → Run Nat
  | .done, _ => pure 0
  | .plain index line statement rest, stop =>
    if index < stop then do
      statement.run limits line
      rest.countRun limits stop
    else pure 0
  | .branch index chain rest, stop =>
    if index < stop then do
      chain.run limits false
      rest.countRun limits stop
    else pure 0
  | .loop index line head body bodyStop rest, stop =>
    if index < stop then do
      let rounds ← head.countRun limits line (body.run limits bodyStop)
      let more ← rest.countRun limits stop
      return rounds + more
    else pure 0

/-- Counting does not change what a program does. -/
theorem run_eq_countRun (limits : Limits) (p : Program) (stop : Nat) :
    p.run limits stop = p.countRun limits stop >>= fun _ => pure () := by
  fun_induction countRun limits p stop with
  | case1 => rfl
  | case2 stop index line statement rest hlt ih =>
    rw [run, if_pos hlt, bind_assoc]
    exact bind_congr fun _ => ih
  | case3 stop index line statement rest hlt => rw [run, if_neg hlt]; rfl
  | case4 stop index chain rest hlt ih =>
    rw [run, if_pos hlt, bind_assoc]
    exact bind_congr fun _ => ih
  | case5 stop index chain rest hlt => rw [run, if_neg hlt]; rfl
  | case6 stop index line head body bodyStop rest hlt ih =>
    rw [run, if_pos hlt, Loop.run_eq_countRun, ih]
    simp only [bind_assoc, pure_bind]
  | case7 stop index line head body bodyStop rest hlt => rw [run, if_neg hlt]; rfl

theorem countRun_last_loop {limits : Limits} {index stop last : Nat} {line : Text} {head : Loop}
    {body : Program} (h : index < last) :
    (Program.loop index line head body stop .done).countRun limits last =
      head.countRun limits line (body.run limits stop) := by
  rw [countRun, if_pos h]
  simp only [countRun, pure_bind, Nat.add_zero]
  exact bind_pure _

end Program

/-! ## Rounds that do the same -/

theorem Statement.runSilently_nil (limits : Limits) : Statement.runSilently limits [] = pure () :=
  Run.ext fun _ => rfl

/-- Two loops with the same condition are alike if their bodies with the updates are. -/
theorem Alike.countWhile {limits : Limits} {body update body' update' : Run Unit}
    (hround : Alike (body >>= fun _ => update) (body' >>= fun _ => update')) (line line' : Text)
    (cond : Condition) (counter counter' : Option Text) : ∀ left position : Nat,
    Alike (Loop.countWhile limits line cond counter body update left position)
      (Loop.countWhile limits line' cond counter' body' update' left position)
  | 0, _ => .pure 0
  | left + 1, position => by
    rw [Loop.countWhile, Loop.countWhile]
    refine (Alike.test cond).bind fun b => ?_
    cases b with
    | false => exact .pure 0
    | true =>
      refine (Alike.round counter counter' line line' position).bind fun _ => ?_
      simp only [← bind_assoc]
      refine (hround.bind fun _ => ?_).bind fun n => .pure (n + 1)
      exact Alike.countWhile hround line line' cond counter counter' left (position + 1)

/-- A loop with silent start and updates is like the start, and then a loop without them whose body
ends with the update. -/
theorem Alike.guarded {limits : Limits} {body : Run Unit} (hbody : Alike body body)
    (init update : Statement) (cond : Condition) (counter : Option Text)
    (forLine whileLine initLine updateLine : Text) :
    Alike ((Loop.guarded [init] cond [update] counter).countRun limits forLine body)
      (init.run limits initLine >>= fun _ =>
        (Loop.guarded [] cond [] none).countRun limits whileLine
          (body >>= fun _ => update.run limits updateLine)) := by
  rw [Loop.countRun, Loop.countRun, Statement.runSilently_nil]
  refine (Alike.silent init initLine).bind fun _ => ?_
  refine Alike.countWhile ?_ forLine whileLine cond counter none _ 1
  rw [bind_assoc]
  refine hbody.bind fun _ => ?_
  rw [bind_pure_unit]
  exact Alike.silent update updateLine

/-! ## A body between braces -/

open BracedSource Structured

section Enclosed

theorem BraceScan.lines_of_isBraceless (s : BraceScan) : ∀ (ts : List Text) (index : Nat),
    (∀ t ∈ ts, t.isBraceless) → s.lines index ts = s
  | [], _, _ => rfl
  | t :: ts, index, h => by
    rw [lines, s.line_of_isBraceless index (h t (by simp))]
    exact lines_of_isBraceless s ts (index + 1) fun t ht => h t (List.mem_cons_of_mem _ ht)

theorem Text.isBraceless_of_not_mem {t : Text} (hopen : '\x7b' ∉ t) (hclose : '\x7d' ∉ t) :
    t.isBraceless := by
  refine List.all_eq_true.2 fun c hc => ?_
  have hmem := mem_of_mem_codeFrom hc
  exact Bool.and_eq_true_iff.2 ⟨bne_iff_ne.2 fun heq => hopen (heq ▸ hmem),
    bne_iff_ne.2 fun heq => hclose (heq ▸ hmem)⟩

/-- The brace behind a header without braces is opened, unless a quotation in the header is. -/
theorem BraceScan.line_header (s : BraceScan) (index : Nat) {header : Text}
    (hopen : '\x7b' ∉ header) (hclose : '\x7d' ∉ header) :
    s.line index (opened .braced header) = ⟨index :: s.stack, s.closed⟩ ∨
      s.line index (opened .braced header) = s := by
  have hheader : header.code.foldl (step index) s = s :=
    s.line_of_isBraceless index (Text.isBraceless_of_not_mem hopen hclose)
  rw [line, opened, Text.code, Text.codeFrom_append, List.foldl_append,
    show Text.codeFrom .outside header = header.code from rfl, hheader]
  generalize header.foldl Quotation.step .outside = q
  simp only [Text.codeFrom]
  split_ifs
  · exact Or.inl rfl
  · exact Or.inr rfl
  · exact Or.inl rfl
  · exact Or.inr rfl

variable {front part back : List Text} {header : Text}

/-- A part in a body between braces, with lines without braces before the body and behind the part.
The brace behind the header is closed by the one at the end, unless it is in an open quotation.
-/
theorem braces_enclosed (hfront : ∀ t ∈ front, t.isBraceless) (hback : ∀ t ∈ back, t.isBraceless)
    (hopen : '\x7b' ∉ header) (hclose : '\x7d' ∉ header)
    (hpart : Text.bracesClose 0 (part.flatMap Text.code)) :
    ∃ others : BraceMap,
      BraceMap.ofLines (front ++ enclosed (opened .braced header) (part ++ back)) =
        others ++ (BraceMap.ofLines part).shift (front.length + 1) ∧
      (others = [] ∨ others = [(front.length, front.length + 1 + part.length + back.length)]) := by
  have hscan (s : BraceScan) : s.lines (front.length + 1) (part ++ back ++ [['\x7d']]) =
      (⟨s.stack, (BraceMap.ofLines part).shift (front.length + 1) ++ s.closed⟩ : BraceScan).line
        (front.length + 1 + part.length + back.length) ['\x7d'] := by
    rw [BraceScan.lines_append, BraceScan.lines_append, BraceScan.lines_of_bracesClose _ _ hpart,
      BraceScan.lines_of_isBraceless _ back _ hback, List.length_append, ← Nat.add_assoc]
    rfl
  rw [BraceMap.ofLines, BraceScan.lines_append, BraceScan.lines_of_isBraceless _ front _ hfront,
    Nat.zero_add, enclosed, BraceScan.lines]
  rcases BraceScan.line_header ⟨[], []⟩ front.length hopen hclose with hline | hline
  · rw [hline, hscan, BraceScan.line_closing _ _ rfl]
    exact ⟨[_], by simp, Or.inr rfl⟩
  · rw [hline, hscan]
    exact ⟨[], List.append_nil _, Or.inl rfl⟩

/-- The snippet with a part in a body between braces. -/
abbrev enclosing (front : List Text) (header : Text) (part back : List Text) : BracedSource :=
  ofLines (front ++ enclosed (opened .braced header) (part ++ back))

theorem length_enclosing (front : List Text) (header : Text) (part back : List Text) :
    (enclosing front header part back).lines.length =
      front.length + 1 + part.length + back.length + 1 := by
  simp only [enclosing, ofLines, enclosed, List.length_append, List.length_cons, List.length_nil]
  omega

theorem getElem?_enclosing (front : List Text) (header : Text) (part back : List Text) (j : Nat) :
    (enclosing front header part back).lines[front.length + 1 + j]? =
      (part ++ back ++ [['\x7d']])[j]? := by
  show (front ++ enclosed (opened .braced header) (part ++ back))[front.length + 1 + j]? = _
  rw [List.getElem?_append_right (by omega), enclosed,
    show front.length + 1 + j - front.length = j + 1 by omega, List.getElem?_cons_succ]

/-- Where the program of the loop over such a body comes from: the part is held in its place, the
body reaches to the closing brace at least, and nothing follows. -/
theorem enclosing_reads {d : Dialect} (hfront : ∀ t ∈ front, t.isBraceless)
    (hback : ∀ t ∈ back, t.isBraceless) (hopen : '\x7b' ∉ header) (hclose : '\x7d' ∉ header)
    (hpart : isFullyBraced d part) :
    (enclosing front header part back).Holds (front.length + 1) part ∧
      ∃ stop, (enclosing front header part back).bounds front.length (opened .braced header) =
          ⟨stop, stop + 1⟩ ∧
        front.length + 1 + part.length + back.length ≤ stop ∧
        (enclosing front header part back).lines.length ≤ stop + 1 := by
  obtain ⟨others, hbraces, hothers⟩ :=
    braces_enclosed hfront hback hopen hclose (Bool.and_eq_true_iff.1 hpart).1
  have hlines : (enclosing front header part back).lines =
      (front ++ [opened .braced header]) ++ (part ++ (back ++ [['\x7d']])) := by
    simp [enclosing, ofLines, enclosed]
  have hlength : (front ++ [opened .braced header]).length = front.length + 1 := by simp
  have hlt : ∀ p ∈ others, p.1 < (front ++ [opened .braced header]).length := by
    rw [hlength]
    rcases hothers with rfl | rfl <;> simp
  refine ⟨hlength ▸ holds_of_braces hlines hlt (hlength ▸ hbraces), ?_⟩
  rw [BracedSource.bounds, if_pos (endsIn_opened header)]
  refine ⟨_, rfl, ?_⟩
  have hget : (enclosing front header part back).braces.get? front.length =
      BraceMap.get? others front.length := by
    show BraceMap.get? (BraceMap.ofLines _) _ = _
    rw [hbraces, BraceMap.get?_append, BraceMap.get?_shift_of_lt (Nat.lt_succ_self _),
      Option.or_none]
  rw [BraceMap.blockEnd, hget, length_enclosing]
  rcases hothers with rfl | rfl
  · exact ⟨Nat.le_succ _, Nat.le_succ _⟩
  · simp [BraceMap.get?]

variable {language : Language}

/-- The closing brace at the end is passed over, and nothing is behind it. -/
theorem bracedProgram_closing (hlayout : language.dialect.layout = .braced) :
    bracedProgram language.dialect (enclosing front header part back)
      (front.length + 1 + part.length + back.length) = .done := by
  have hline : (enclosing front header part back).lines[
      front.length + 1 + part.length + back.length]? = some ['\x7d'] := by
    rw [Nat.add_assoc, getElem?_enclosing, ← List.length_append]
    exact List.getElem?_concat_length
  have hskip : isSkipped language.dialect ['\x7d'] := by
    rw [isSkipped, hlayout]
    rfl
  rw [bracedProgram_skipped hline hskip]
  exact programAt_of_length_le (Nat.le_of_eq (length_enclosing front header part back))

/-- The loop over a body between braces runs the part and then what is behind it in the body. -/
theorem bracedProgram_enclosing {head : Loop} (limits : Limits)
    (hloop : loop? language.dialect header.trimRight = some head)
    (hfront : ∀ t ∈ front, t.isBraceless) (hback : ∀ t ∈ back, t.isBraceless)
    (hopen : '\x7b' ∉ header) (hclose : '\x7d' ∉ header)
    (hpart : isFullyBraced language.dialect part) :
    ∃ body stop, front.length + 1 + part.length + back.length ≤ stop ∧
      bracedProgram language.dialect (enclosing front header part back) front.length =
        .loop front.length (opened .braced header) head body stop .done ∧
      body.run limits stop = (Program.ofBraced language.dialect part).run limits part.length >>=
        fun _ => (bracedProgram language.dialect (enclosing front header part back)
          (front.length + 1 + part.length)).run limits stop := by
  obtain ⟨hholds, stop, hbounds, hle, hcount⟩ :=
    enclosing_reads hfront hback hopen hclose hpart
  obtain ⟨hskip, hfirst, hheader⟩ := loopLine_reads hloop
  have hline : (enclosing front header part back).lines[front.length]? =
      some (opened .braced header) := by
    show (front ++ enclosed (opened .braced header) (part ++ back))[front.length]? = _
    rw [List.getElem?_append_right (Nat.le_refl _), Nat.sub_self]
    rfl
  refine ⟨_, stop, hle, ?_, hholds.run hpart (by omega)⟩
  rw [bracedProgram_of_loop hline hskip hfirst hheader hbounds (by omega)]
  congr 1
  exact programAt_of_length_le hcount

end Enclosed

/-! ## The two forms -/

/-- A line that is run as a statement: it is not passed over and is no conditional and no loop. -/
def isStatementLine (d : Dialect) (line : Text) : Bool :=
  !isSkipped d line && (firstCondition? line).isNone && (loop? d (bracedHeader line)).isNone

/-- The lines of a loop with clauses. -/
def forLines (language : Language) (init cond update : Text) (body : List Text) : List Text :=
  enclosed (opened .braced (forHeader language init cond update)) body

/-- The lines of the loop with a condition that it stands for. -/
def whileLines (language : Language) (cond : Text) (initLine updateLine : Text) (body : List Text) :
    List Text :=
  initLine :: enclosed (opened .braced (whileHeader language cond)) (body ++ [updateLine])

section Forms

variable {language : Language} {init cond update : Text} {body : List Text} {limits : Limits}

theorem layout_of_hasClauses (h : language.hasClauses) : language.dialect.layout = .braced := by
  cases language <;> first | rfl | cases h

theorem not_mem_forHeader {brace : Char} (hbrace : brace = '\x7b' ∨ brace = '\x7d')
    (hinit : brace ∉ init) (hcond : brace ∉ cond) (hupdate : brace ∉ update) :
    brace ∉ forHeader language init cond update := by
  unfold forHeader
  rcases hbrace with rfl | rfl <;> split_ifs <;> simp [hinit, hcond, hupdate]

theorem not_mem_whileHeader {brace : Char} (hbrace : brace = '\x7b' ∨ brace = '\x7d')
    (hcond : brace ∉ cond) : brace ∉ whileHeader language cond := by
  unfold whileHeader
  rcases hbrace with rfl | rfl <;> split_ifs <;> simp [hcond]

theorem isBraceless_statementLine {t : Text} (h : isLoopPart t) (semicolon : Bool) :
    (statementLine t semicolon).isBraceless := by
  obtain ⟨-, -, -, hopen, hclose⟩ := isLoopPart_iff.1 h
  unfold statementLine
  split_ifs
  · exact Text.isBraceless_of_not_mem (by simpa using hopen) (by simpa using hclose)
  · exact Text.isBraceless_of_not_mem hopen hclose

/-- What the lines of a loop with clauses do. -/
theorem countRun_forLines {head : Loop} (hlayout : language.dialect.layout = .braced)
    (hloop : loop? language.dialect (forHeader language init cond update).trimRight = some head)
    (hinit : isLoopPart init) (hcond : isLoopPart cond) (hupdate : isLoopPart update)
    (hbody : isFullyBraced language.dialect body) :
    (Program.ofBraced language.dialect (forLines language init cond update body)).countRun limits
        (forLines language init cond update body).length =
      head.countRun limits (opened .braced (forHeader language init cond update))
        ((Program.ofBraced language.dialect body).run limits body.length) := by
  obtain ⟨-, -, -, hinitopen, hinitclose⟩ := isLoopPart_iff.1 hinit
  obtain ⟨-, -, -, hcondopen, hcondclose⟩ := isLoopPart_iff.1 hcond
  obtain ⟨-, -, -, hupdateopen, hupdateclose⟩ := isLoopPart_iff.1 hupdate
  have hlines : forLines language init cond update body =
      (enclosing [] (forHeader language init cond update) body []).lines := by
    simp [forLines, enclosing, ofLines]
  obtain ⟨program, stop, -, hprogram, hrun⟩ := bracedProgram_enclosing limits hloop
    (List.forall_mem_nil _) (List.forall_mem_nil _)
    (not_mem_forHeader (Or.inl rfl) hinitopen hcondopen hupdateopen)
    (not_mem_forHeader (Or.inr rfl) hinitclose hcondclose hupdateclose) hbody
  have hend : bracedProgram language.dialect
      (enclosing [] (forHeader language init cond update) body []) (0 + 1 + body.length) = .done :=
    bracedProgram_closing hlayout
  have hfirst : bracedProgram language.dialect
      (ofLines (enclosing [] (forHeader language init cond update) body []).lines) 0 =
      .loop 0 (opened .braced (forHeader language init cond update)) head program stop .done :=
    hprogram
  have hpos : 0 < (forLines language init cond update body).length := by simp [forLines, enclosed]
  rw [ofBraced_eq, hlines, hfirst, Program.countRun_last_loop (hlines ▸ hpos), hrun]
  simp only [List.length_nil, hend, Program.run]
  exact congrArg (head.countRun limits _) bind_pure_unit

/-- What the lines of a loop with a condition do, with a statement before it and one at the end of
its body. -/
theorem countRun_whileLines {head : Loop} (hlayout : language.dialect.layout = .braced)
    (hloop : loop? language.dialect (whileHeader language cond).trimRight = some head)
    (hcond : isLoopPart cond) {initLine updateLine : Text} (hinitbraces : initLine.isBraceless)
    (hupdatebraces : updateLine.isBraceless) (hinit : isStatementLine language.dialect initLine)
    (hupdate : isStatementLine language.dialect updateLine)
    (hbody : isFullyBraced language.dialect body) :
    (Program.ofBraced language.dialect (whileLines language cond initLine updateLine body)).countRun
        limits (whileLines language cond initLine updateLine body).length =
      (Statement.read language.dialect initLine).run limits initLine >>= fun _ =>
        head.countRun limits (opened .braced (whileHeader language cond))
          ((Program.ofBraced language.dialect body).run limits body.length >>= fun _ =>
            (Statement.read language.dialect updateLine).run limits updateLine) := by
  obtain ⟨-, -, -, hcondopen, hcondclose⟩ := isLoopPart_iff.1 hcond
  simp only [isStatementLine, Bool.and_eq_true, Bool.not_eq_true', Option.isNone_iff_eq_none]
    at hinit hupdate
  have hlines : whileLines language cond initLine updateLine body =
      (enclosing [initLine] (whileHeader language cond) body [updateLine]).lines := rfl
  obtain ⟨program, stop, hstop, hprogram, hrun⟩ := bracedProgram_enclosing limits hloop
    (List.forall_mem_singleton.2 hinitbraces) (List.forall_mem_singleton.2 hupdatebraces)
    (not_mem_whileHeader (Or.inl rfl) hcondopen) (not_mem_whileHeader (Or.inr rfl) hcondclose) hbody
  have hfirst : bracedProgram language.dialect
      (ofLines (whileLines language cond initLine updateLine body)) 0 =
      .plain 0 initLine (Statement.read language.dialect initLine)
        (.loop 1 (opened .braced (whileHeader language cond)) head program stop .done) := by
    rw [bracedProgram_plain rfl hinit.1.1 hinit.1.2 hinit.2]
    exact congrArg (Program.plain 0 initLine _) hprogram
  have hlast : (enclosing [initLine] (whileHeader language cond) body [updateLine]).lines[
      [initLine].length + 1 + body.length]? = some updateLine := by
    rw [getElem?_enclosing]
    simp
  have hend : bracedProgram language.dialect
      (enclosing [initLine] (whileHeader language cond) body [updateLine])
      ([initLine].length + 1 + body.length + 1) = .done := bracedProgram_closing hlayout
  have hlt : [initLine].length + 1 + body.length < stop := hstop
  rw [bracedProgram_plain hlast hupdate.1.1 hupdate.1.2 hupdate.2, hend, Program.run, if_pos hlt]
    at hrun
  rw [ofBraced_eq, hfirst, Program.countRun, if_pos (by simp [whileLines]),
    Program.countRun_last_loop (by simp [whileLines, enclosed]), hrun]
  refine bind_congr fun _ => congrArg (head.countRun limits _) ?_
  exact bind_congr fun _ => bind_pure_unit

theorem Run.exec_discard {x : Run α} (r : Recorder) : (x >>= fun _ => pure ()).exec r =
    ((x.exec r).1.map fun _ => (), (x.exec r).2) := by
  rw [Run.exec_bind]
  rcases x.exec r with ⟨e | a, r'⟩ <;> rfl

/-- A loop with clauses and the loop with a condition that it stands for do the same to the
variables and the output in the same number of rounds, or end with the same fault, as long as
neither run reaches the limit of entries. -/
theorem forLines_run_as_whileLines (hlanguage : language.hasClauses) (hinit : isLoopClause init)
    (hcond : isLoopGuard cond) (hupdate : isLoopClause update)
    (hbody : isFullyBraced language.dialect body) {semicolon semicolon' : Bool}
    (hinitLine : isStatementLine language.dialect (statementLine init semicolon))
    (hupdateLine : isStatementLine language.dialect (statementLine update semicolon'))
    (heach : language = .go →
      (loop? language.dialect (whileHeader language cond).trimRight).any Loop.isEach = false)
    (r : Recorder) :
    let lines := forLines language init cond update body
    let lines' := whileLines language cond (statementLine init semicolon)
      (statementLine update semicolon') body
    let program := Program.ofBraced language.dialect lines
    let program' := Program.ofBraced language.dialect lines'
    let result := (program.run limits lines.length).exec r
    let result' := (program'.run limits lines'.length).exec r
    result.1 ≠ .error .limit → result'.1 ≠ .error .limit →
      result.1 = result'.1 ∧ result.2.store = result'.2.store ∧
        result.2.outputs = result'.2.outputs ∧
        ((program.countRun limits lines.length).exec r).1 =
          ((program'.countRun limits lines'.length).exec r).1 := by
  intro lines lines' program program' result result' hlimit hlimit'
  have hinitpart := (Bool.and_eq_true_iff.1 hinit).1
  have hcondpart := (Bool.and_eq_true_iff.1 hcond).1
  have hupdatepart := (Bool.and_eq_true_iff.1 hupdate).1
  obtain ⟨hinitne, -, hinitsemi, -, -⟩ := isLoopPart_iff.1 hinitpart
  obtain ⟨hupdatene, -, hupdatesemi, -, -⟩ := isLoopPart_iff.1 hupdatepart
  obtain ⟨counter, hfor⟩ := loop?_forHeader hlanguage hinit hcond hupdate
  have hlayout := layout_of_hasClauses hlanguage
  have halike : Alike (program.countRun limits lines.length)
      (program'.countRun limits lines'.length) := by
    rw [countRun_forLines hlayout hfor hinitpart hcondpart hupdatepart hbody,
      countRun_whileLines hlayout (loop?_whileHeader hlanguage hcond heach) hcondpart
        (isBraceless_statementLine hinitpart semicolon)
        (isBraceless_statementLine hupdatepart semicolon') hinitLine hupdateLine hbody,
      Statement.read_statementLine _ hinitne hinitsemi,
      Statement.read_statementLine _ hupdatene hupdatesemi]
    exact Alike.guarded (Program.alike_run _ _) _ _ _ _ _ _ _ _
  have hresult : result = _ := (congrArg (Run.exec · r)
    (Program.run_eq_countRun limits program lines.length)).trans (Run.exec_discard r)
  have hresult' : result' = _ := (congrArg (Run.exec · r)
    (Program.run_eq_countRun limits program' lines'.length)).trans (Run.exec_discard r)
  rw [hresult] at hlimit ⊢
  rw [hresult'] at hlimit' ⊢
  rcases halike r r (.refl r) with hreached | hreached | ⟨hsame, hstate⟩
  · exact absurd (by rw [hreached]; rfl) hlimit
  · exact absurd (by rw [hreached]; rfl) hlimit'
  · exact ⟨congrArg (Except.map fun _ => ()) hsame, hstate.store, hstate.outputs, hsame⟩

/-- The variables after a run of some lines that begins with the given ones. -/
def storeAfter (d : Dialect) (s : Store) (lines : List Text) : Store :=
  (((Program.ofBraced d lines).run ⟨20, 3, 20⟩ lines.length).exec (Recorder.start s)).2.store

/-- The rounds of such a run. -/
def roundsOf (d : Dialect) (s : Store) (lines : List Text) : Except Stop Nat :=
  (((Program.ofBraced d lines).countRun ⟨20, 3, 20⟩ lines.length).exec (Recorder.start s)).1

/-- A body with an inner loop and with a conditional that changes the variable of the loop. -/
def nestedBody : List Text :=
  ["while (j < i) \x7b", "j++;", "\x7d", "if (i == 1) \x7b", "i += 1;", "\x7d"].map String.toList

theorem forLines_run_as_whileLines_nested :
    let lines := forLines .c "int i = 0".toList "i < 3".toList "i++".toList nestedBody
    let lines' := whileLines .c "i < 3".toList (statementLine "int i = 0".toList true)
      (statementLine "i++".toList true) nestedBody
    storeAfter Language.c.dialect .empty lines = storeAfter Language.c.dialect .empty lines' ∧
      roundsOf Language.c.dialect .empty lines = .ok 2 ∧
      roundsOf Language.c.dialect .empty lines' = .ok 2 := by
  have hsame := @forLines_run_as_whileLines .c "int i = 0".toList "i < 3".toList "i++".toList
    nestedBody ⟨20, 3, 20⟩ (by decide) (by decide +kernel) (by decide +kernel) (by decide +kernel)
    (by decide +kernel) true true (by decide +kernel) (by decide +kernel) (fun h => nomatch h)
    (Recorder.start .empty) (by decide +kernel) (by decide +kernel)
  have hrounds : roundsOf Language.c.dialect .empty
      (forLines .c "int i = 0".toList "i < 3".toList "i++".toList nestedBody) = .ok 2 := by
    decide +kernel
  exact ⟨hsame.2.1, hrounds, hsame.2.2.2.symm.trans hrounds⟩

/-- Two conditions with which the two loops differ. What reads as a loop over a list behind the word
of the loop holds for no round as a clause. And a blank clause always holds, while a blank condition
between parentheses never does. -/
theorem forLines_differ_from_whileLines :
    let items := Store.empty.insert "xs".toList (.list [.num (.int 1), .num (.int 2)])
    isLoopGuard "_, v := range xs".toList ∧
      (storeAfter Dialect.go items (forLines .go "i := 0".toList "_, v := range xs".toList
        "i++".toList [])).number "i".toList = .int 0 ∧
      (storeAfter Dialect.go items (whileLines .go "_, v := range xs".toList "i := 0".toList
        "i++".toList [])).number "i".toList = .int 2 ∧
      (storeAfter Dialect.c .empty (forLines .c "i = 0".toList " ".toList "i++".toList [])).number
        "i".toList = .int 3 ∧
      (storeAfter Dialect.c .empty (whileLines .c " ".toList "i = 0;".toList "i++;".toList
        [])).number "i".toList = .int 0 := by
  intro items
  refine ⟨?_, ?_, ?_, ?_, ?_⟩ <;> decide +kernel

end Forms

end StepTrace
