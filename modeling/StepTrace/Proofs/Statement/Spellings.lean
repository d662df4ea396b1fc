import StepTrace.Proofs.Run.Action
import StepTrace.Proofs.Statement.Assignment

/-!
# Spellings of an update

An update combines a variable with an amount: a numeral, another variable or an element of a list.
It can be written as `x += e` or as `x = x + e`, and a step by one also as `x++` or `++x`
(`Update.Spells`). Each spelling has a form of its own. The first is read as an update with an
expression, the second as an assignment of an expression that is cut at its operator, and the steps
come without an expression. All of them are the same computation (`Update.action_eq`), so running
them differs in nothing but the line and the note of the entry (`Update.spellings_agree`).

Here the amount must not have an operator outside of brackets, since an expression is cut only once.
-/

namespace StepTrace

open CharClass Pattern StepTrace.Expr

/-! ## Updates -/

/-- The text of an index without quotes and brackets. -/
structure IndexText where
  text : Text
  filled : text ≠ []
  flat : ∀ c ∈ text, isFlat c = true
  oneLine : '\n' ∉ text

/-- What a variable is combined with. -/
inductive Amount where
  | literal (n : Numeral)
  | named (y : Identifier)
  | element (y : Identifier) (index : IndexText)

/-- The text of an amount. -/
def Amount.text : Amount → Text
  | literal n => n.text
  | named y => y.text
  | element y index => y.text ++ '[' :: (index.text ++ [']'])

/-- The value of an amount. There is none at an index that is too large. -/
def Amount.eval (s : Store) : Amount → Except Fault Number
  | literal n => .ok n.value
  | named y => .ok (s.number y.text)
  | element y index =>
    match s.get? y.text with
    | some (.list items) => do elementAt items (← (Expr.read index.text).eval s)
    | _ => .ok .zero

/-- Combine a variable with an amount. -/
structure Update where
  target : Identifier
  op : Operator
  amount : Amount

namespace Update

/-- The computation that an update is. -/
def operation (s : Store) (u : Update) : Except Fault Operation := do
  return Statement.operation u.target.text u.op (s.number u.target.text) (← u.amount.eval s)

/-- One up or one down. -/
def IsStep (u : Update) : Prop :=
  (u.op = .add ∨ u.op = .sub) ∧ ∃ n : Numeral, u.amount = .literal n ∧ n.text = ['1']

/-- The update written as `x += e`. -/
def compound (u : Update) (before behind : Gap) : Text :=
  u.target.text ++ (before.text ++ u.op.toChar :: '=' :: (behind.text ++ u.amount.text))

/-- The right side of `x = x + e`. -/
def sum (u : Update) (before behind : Gap) : Text :=
  u.target.text ++ (before.text ++ u.op.toChar :: (behind.text ++ u.amount.text))

/-- The ways to write an update. -/
inductive Spells (u : Update) : Text → Prop
  | compound (before behind : Gap) : Spells u (u.compound before behind)
  | expanded (before behind left right : Gap) :
    Spells u (u.target.text ++ (before.text ++ '=' :: (behind.text ++ u.sum left right)))
  | markBehind (h : u.IsStep) (gap : Gap) :
    Spells u (u.target.text ++ (gap.text ++ [u.op.toChar, u.op.toChar]))
  | markBefore (h : u.IsStep) (gap : Gap) :
    Spells u (u.op.toChar :: u.op.toChar :: (gap.text ++ u.target.text))

end Update

theorem Identifier.exists_cons (x : Identifier) :
    ∃ c rest, x.text = c :: rest ∧ isNameStart c = true := by
  obtain ⟨c, rest, hx⟩ := List.exists_cons_of_ne_nil (Text.isName_ne_nil x.isName)
  have hname := x.isName
  rw [hx] at hname
  exact ⟨c, rest, hx, (Bool.and_eq_true_iff.1 hname).1⟩

/-! ## Amounts -/

namespace Amount

variable (e : Amount)

theorem isSolid : IsSolid e.text := by
  cases e with
  | literal n =>
    have hhead : n.text.head? ≠ some '(' := fun h =>
      n.not_mem_text (by decide) (by decide) (List.mem_of_head? h)
    exact ⟨n.text_ne_nil, n.isTrimmed_text, hhead, n.not_mem_text (by decide) (by decide),
      enclosed_of_isFlat fun c hc => isFlat_of_mem_numeral hc⟩
  | named y => exact (isOperandText_of_isName y.isName).toIsSolid
  | element y index =>
    exact (isOperandText_of_element y.isName (enclosed_of_isFlat index.flat)
      index.oneLine).toIsSolid

theorem getLast?_ne : e.text.getLast? ≠ some ';' := by
  intro h
  cases e with
  | literal n => exact n.not_mem_text (by decide) (by decide) (List.mem_of_getLast? h)
  | named y => exact Text.not_mem_of_isName y.isName (by decide) (List.mem_of_getLast? h)
  | element y index =>
    rw [text, ← List.cons_append, ← List.append_assoc, List.getLast?_concat] at h
    cases h

/-- By itself or as the side of an operator, an amount is read as an operand. -/
theorem read_eq : Expr.read e.text = operand e.text := by
  cases e with
  | literal n =>
    have hliteral := Number.ofLiteral?_text n
    rw [text, read_of_literal hliteral, operand_of_literal hliteral]
  | named y => exact (isOperandText_of_isName y.isName).read_eq
  | element y index =>
    exact (isOperandText_of_element y.isName (enclosed_of_isFlat index.flat) index.oneLine).read_eq

theorem eval_operand {s : Store} (hs : s.BindsNames) : (operand e.text).eval s = e.eval s := by
  cases e with
  | literal n => rw [text, operand_of_literal (Number.ofLiteral?_text n), Expr.eval, eval]
  | named y => rw [text, operand_of_isName y.isName, Expr.eval, eval]
  | element y index =>
    have htrim := (Amount.element y index).isSolid.trimmed
    have hfilled : isFilled index.text := by simp [isFilled, index.filled, index.oneLine]
    have hwhole : Text.isName (y.text ++ '[' :: (index.text ++ [']'])) = false :=
      Text.isName_eq_false_of_mem (c := '[') (by simp) (by decide)
    rw [text] at htrim ⊢
    rw [operand_of_element y.isName hfilled htrim, Expr.eval, Store.number_eq_zero hs hwhole]
    rfl

/-- With regular variables every amount has a value. -/
theorem exists_eval {s : Store} (hs : s.IsRegular) : ∃ b, e.eval s = .ok b := by
  have hyields : Yields (fun _ => False) Number.IsNormal ((operand e.text).eval s) :=
    eval_isNormal hs.normal hs.sized (operand_isNormal _)
  obtain ⟨b, hb⟩ := hyields.exists_ok
  exact ⟨b, by rw [← e.eval_operand hs.names, hb]⟩

end Amount

/-! ## What the forms find -/

theorem Operator.toChar_mem (op : Operator) : op.toChar ∈ "+-*/".toList := by
  cases op <;> decide

/-- The operator and the sign of the short form. -/
theorem finds_operator (op : Operator) (rest : Text) :
    Finds (seq (capture .operator (oneOf "+-*/")) (text "=")) (op.toChar :: '=' :: rest) rest
      [(.operator, [op.toChar])] where
  way previous k := by
    have htaken : Cursor.taken ⟨previous, op.toChar :: '=' :: rest⟩
        ⟨some op.toChar, '=' :: rest⟩ = [op.toChar] := Cursor.taken_eq rfl
    refine ⟨⟨some '=', rest⟩, rfl, ⟨some op.toChar, '=' :: rest⟩, _, ⟨k, ⟨op.toChar, ?_, rfl, rfl,
      rfl⟩, rfl⟩, takes_text.2 ⟨rfl, rfl, ?_⟩⟩
    · simpa using op.toChar_mem
    · rw [htaken]
      rfl
  only {c k c' k'} hrest htakes := by
    obtain ⟨c₁, _, ⟨_, ⟨a, -, hsplit, -, rfl⟩, rfl⟩, hsign⟩ := htakes
    obtain ⟨hrest₁, -, rfl⟩ := takes_text.1 hsign
    have htaken : c.taken c₁ = [a] := Cursor.taken_eq hsplit
    rw [htaken]
    obtain ⟨rfl, hbehind⟩ := List.cons.inj (hrest.symm.trans hsplit)
    exact ⟨(List.cons.inj (hbehind.trans hrest₁)).2.symm, rfl⟩
  mark {c k c' k'} htakes := by
    obtain ⟨c₁, _, ⟨_, ⟨a, ha, hsplit, -⟩, -⟩, -⟩ := htakes
    exact ⟨a, _, hsplit, List.mem_cons_of_mem _ (by simpa using ha)⟩

/-- The doubled operator of a step. -/
theorem finds_marker {op : Operator} (hop : op = .add ∨ op = .sub) (rest : Text) :
    Finds Statement.stepMarker (op.toChar :: op.toChar :: rest) rest
      [(.marker, [op.toChar, op.toChar])] where
  way previous k := by
    refine ⟨⟨some op.toChar, rest⟩, rfl, k, ?_, ?_⟩
    · rcases hop with rfl | rfl
      · exact .inl (takes_text.2 ⟨rfl, rfl, rfl⟩)
      · exact .inr (takes_text.2 ⟨rfl, rfl, rfl⟩)
    · have htaken : Cursor.taken ⟨previous, op.toChar :: op.toChar :: rest⟩
          ⟨some op.toChar, rest⟩ = [op.toChar, op.toChar] := Cursor.taken_eq rfl
      rw [htaken]
      rfl
  only {c k c' k'} hc htakes := by
    obtain ⟨k₁, hmarker, rfl⟩ := htakes
    have hrest : c.rest = [op.toChar, op.toChar] ++ c'.rest ∧ k₁ = k := by
      rcases hmarker with h | h <;> obtain ⟨hrest, -, rfl⟩ := takes_text.1 h
      all_goals
        obtain ⟨hfirst, -⟩ := List.cons.inj (hc.symm.trans hrest)
        rw [hrest, hfirst]
        exact ⟨rfl, rfl⟩
    obtain ⟨hrest, rfl⟩ := hrest
    rw [Cursor.taken_eq hrest]
    rw [hc] at hrest
    exact ⟨(List.cons.inj (List.cons.inj hrest).2).2.symm, rfl⟩
  mark {c k c' k'} htakes := by
    obtain ⟨_, hmarker, -⟩ := htakes
    rcases hmarker with h | h
    · exact ⟨'+', _, (takes_text.1 h).1, by decide⟩
    · exact ⟨'-', _, (takes_text.1 h).1, by decide⟩

theorem takes_updateForm {c k c' k'} : Statement.updateForm.Takes c k c' k' ↔
    (seq (capture .name name) (seq gap (seq (seq (capture .operator (oneOf "+-*/")) (text "="))
      (toEnd .expr)))).Takes c k c' k' := by
  refine ⟨?_, ?_⟩
  · rintro ⟨_, _, h₁, _, _, h₂, _, _, h₃, _, _, h₄, h₅⟩
    exact ⟨_, _, h₁, _, _, h₂, _, _, ⟨_, _, h₃, h₄⟩, h₅⟩
  · rintro ⟨_, _, h₁, _, _, h₂, _, _, ⟨_, _, h₃, h₄⟩, h₅⟩
    exact ⟨_, _, h₁, _, _, h₂, _, _, h₃, _, _, h₄, h₅⟩

/-! ## What the spellings are read as -/

/-- An expression is read without the white space around it. -/
theorem Expr.read_congr {t u : Text} (h : t.trim = u.trim) : read t = read u := by
  simp only [read, readWith, h]

namespace Update

variable (u : Update) (before behind left right : Gap)

theorem sum_ne_nil : u.sum left right ≠ [] := by simp [sum]

theorem oneLine_sum : '\n' ∉ u.sum left right := by
  have hx := (isOperandText_of_isName u.target.isName).oneLine
  have hop : '\n' ≠ u.op.toChar := by cases u.op <;> decide
  simp [sum, hx, hop, left.oneLine, right.oneLine, u.amount.isSolid.oneLine]

theorem isTrimmed_sum : (u.sum left right).IsTrimmed := by
  have hx := isOperandText_of_isName u.target.isName
  have he := u.amount.isSolid
  have h := Text.isTrimmed_append hx.trimmed he.trimmed hx.filled he.filled
    (left.text ++ u.op.toChar :: right.text)
  rwa [List.append_assoc, List.cons_append] at h

theorem body_eq (middle : Text) : Statement.body (u.target.text ++ (middle ++ u.amount.text)) =
    u.target.text ++ (middle ++ u.amount.text) :=
  have hx := isOperandText_of_isName u.target.isName
  have he := u.amount.isSolid
  Statement.body_append hx.trimmed he.trimmed hx.filled he.filled u.amount.getLast?_ne middle

theorem read_compound (d : Dialect) : Statement.read d (u.compound before behind) =
    .update u.target.text u.op (operand u.amount.text) .updateVariable := by
  have he := u.amount.isSolid
  obtain ⟨f, v, hf, hcaptures, hv⟩ := exists_match? (x := u.target) (g := before)
    takes_updateForm (finds_operator u.op (behind.text ++ u.amount.text)) he.filled he.oneLine
    he.trimmed
  have hname : f.getD .name = u.target.text := by rw [Found.getD, Found.get?, hcaptures]; rfl
  have hop : f.getD .operator = [u.op.toChar] := by rw [Found.getD, Found.get?, hcaptures]; rfl
  have hexpr : f.getD .expr = v := by rw [Found.getD, Found.get?, hcaptures]; rfl
  have hread : Expr.read v = operand u.amount.text :=
    (read_congr (hv.trans he.trimmed.trim_eq.symm)).trans u.amount.read_eq
  have hbody := u.body_eq (before.text ++ u.op.toChar :: '=' :: behind.text)
  rw [List.append_assoc, List.cons_append, List.cons_append] at hbody
  simp only [Statement.read]
  rw [compound, hbody, Statement.update?, hf]
  simp [hname, hop, hexpr, hread, Statement.operatorOf]

theorem read_sum : Expr.read (u.sum left right) =
    .binary u.op (.named u.target.text) (operand u.amount.text) := by
  have hx := isOperandText_of_isName u.target.isName
  have he := u.amount.isSolid
  have htrim := (u.isTrimmed_sum left right).trim_eq
  have hcut : cut? (u.sum left right).trim = some (u.target.text, u.op, u.amount.text) := by
    rw [htrim]
    exact cut?_binary hx.passed hx.filled hx.trimmed he.filled he.trimmed left.blank right.blank
      u.op
  rw [read_of_cut (ofLiteral?_eq_none u.target.isName htrim) hcut,
    operand_of_isName u.target.isName]

theorem beforeMark_sum :
    BeforeMark u.op.toChar (right.text ++ u.amount.text) (u.sum left right) :=
  ⟨u.target.text, left.text, fun _ => Text.isWord_of_mem_isName u.target.isName, left.blank,
    (List.append_assoc _ _ _).symm⟩

theorem unquote?_sum : (u.sum left right).unquote? = none := by
  obtain ⟨c, x, hx, hstart⟩ := u.target.exists_cons
  have hquote : isQuote c = false := by
    rw [Bool.eq_false_iff]
    intro h
    simp only [isQuote, Bool.or_eq_true, beq_iff_eq] at h
    rcases h with (rfl | rfl) | rfl <;> exact absurd hstart (by decide)
  rw [Text.unquote?, (u.isTrimmed_sum left right).trim_eq, sum, hx]
  simp [hquote]

/-- The right side of the long form is neither a quoted text, nor a fold, nor an element. -/
theorem readSource_sum (d : Dialect) {t : Text} (ht : t.trim = u.sum left right) :
    Statement.readSource d t = .computed (u.sum left right)
      (.binary u.op (.named u.target.text) (operand u.amount.text)) := by
  have hop : ∀ {a : Char}, a = '.' ∨ a = '[' → a ≠ u.op.toChar := by
    rintro a (rfl | rfl) <;> cases u.op <;> decide
  have hname : name.spares u.op.toChar = true ∧ gap.spares u.op.toChar = true := by
    cases u.op <;> decide
  have hfold : Statement.foldForm.match? (u.sum left right) = none := by
    refine match?_eq_none ?_ (u.beforeMark_sum left right)
    exact ((leads_beforeMark hname.1).capture _).seq
      (.first (declines_other rfl rfl rfl (hop (.inl rfl))))
  have helement : Statement.elementForm.match? (u.sum left right) = none := by
    refine match?_eq_none ?_ (u.beforeMark_sum left right)
    exact (leads_beforeMark hname.1).seq ((leads_beforeMark hname.2).seq
      (.first (declines_other rfl rfl rfl (hop (.inr rfl)))))
  simp only [Statement.readSource, ht, u.unquote?_sum, Statement.fold?, hfold, Pattern.matchesFront,
    helement, u.read_sum]
  simp

theorem beforeName_sum : BeforeName (behind.text ++ u.sum left right) := by
  obtain ⟨c, x, hx, hstart⟩ := u.target.exists_cons
  refine ⟨behind.text, c, x ++ (left.text ++ u.op.toChar :: (right.text ++ u.amount.text)),
    behind.blank, hstart, ?_⟩
  rw [sum, hx, List.cons_append]

theorem read_expanded (language : Language) : Statement.read language.dialect
      (u.target.text ++ (before.text ++ '=' :: (behind.text ++ u.sum left right))) =
    .bind u.target.text (.computed (u.sum left right)
      (.binary u.op (.named u.target.text) (operand u.amount.text))) false := by
  have hrest := u.beforeName_sum behind left right
  have hline : BeforeMark '=' (behind.text ++ u.sum left right)
      (u.target.text ++ (before.text ++ '=' :: (behind.text ++ u.sum left right))) :=
    ⟨u.target.text, before.text, fun _ => Text.isWord_of_mem_isName u.target.isName, before.blank,
      (List.append_assoc _ _ _).symm⟩
  have hbody := u.body_eq (before.text ++ '=' :: (behind.text ++ (u.target.text ++
    (left.text ++ u.op.toChar :: right.text))))
  simp only [List.append_assoc, List.cons_append] at hbody
  obtain ⟨f, v, hf, hcaptures, hv⟩ := exists_match? (x := u.target) (g := before)
    (p := Dialect.plainBinding) Iff.rfl (finds_sign hrest.head?_ne) (u.sum_ne_nil left right)
    (u.oneLine_sum left right) (u.isTrimmed_sum left right)
  have hname : f.getD .name = u.target.text := by rw [Found.getD, Found.get?, hcaptures]; rfl
  have hexpr : f.get? .expr = some v := get?_of_captures hcaptures
  rw [Statement.read_assignment language hline hrest hbody hf hexpr, hname,
    u.readSource_sum left right _ hv]

/-- A step is found with its marker behind the name. -/
theorem exists_markBehind (hop : u.op = .add ∨ u.op = .sub) :
    ∃ f, firstMatch? Statement.stepForms
        (u.target.text ++ (before.text ++ [u.op.toChar, u.op.toChar])) = some (f, ()) ∧
      f.captures = [(.marker, [u.op.toChar, u.op.toChar]), (.name, u.target.text)] := by
  have hmarker := finds_marker hop []
  have hsome : ((all [capture .name name, gap, Statement.stepMarker, textEnd]).match?
      (u.target.text ++ (before.text ++ [u.op.toChar, u.op.toChar]))).isSome := by
    obtain ⟨c', k', htakes⟩ := exists_takes_named (k := [])
      (q := seq Statement.stepMarker (seq textEnd nothing))
      (c := ⟨none, u.target.text ++ (before.text ++ [u.op.toChar, u.op.toChar])⟩) .name rfl
      fun previous => by
        obtain ⟨c', hc', htakes⟩ := hmarker.way previous [(.name, u.target.text)]
        exact ⟨_, _, _, _, htakes, _, _, ⟨.inl hc', rfl, rfl⟩, rfl, rfl⟩
    exact isSome_match? htakes
  obtain ⟨f, hf⟩ := Option.isSome_iff_exists.1 hsome
  refine ⟨f, firstMatch?_cons_of_some hf, ?_⟩
  obtain ⟨c₁, hc₁, c₂, _, hmark, _, _, ⟨-, rfl, rfl⟩, -, hk⟩ :=
    takes_named hmarker.head? hmarker.head?_of_takes rfl (takes_of_match? hf)
  rw [hk, (hmarker.only hc₁ hmark).2]
  rfl

/-- A step is found with its marker before the name. -/
theorem exists_markBefore (hop : u.op = .add ∨ u.op = .sub) :
    ∃ f, firstMatch? Statement.stepForms
        (u.op.toChar :: u.op.toChar :: (behind.text ++ u.target.text)) = some (f, ()) ∧
      f.captures = [(.name, u.target.text), (.marker, [u.op.toChar, u.op.toChar])] := by
  have hmarker := finds_marker hop (behind.text ++ u.target.text)
  generalize hline : u.op.toChar :: u.op.toChar :: (behind.text ++ u.target.text) = line
    at hmarker ⊢
  have hnone : (all [capture .name name, gap, Statement.stepMarker, textEnd]).match? line =
      none := by
    refine match?_eq_none (A := (· = line)) (.first (.capture (.first (declines_char ?_)) _)) rfl
    rintro a t rfl
    obtain ⟨rfl, -⟩ := List.cons.inj hline
    cases u.op <;> decide
  have hsome :
      ((all [Statement.stepMarker, gap, capture .name name, textEnd]).match? line).isSome := by
    obtain ⟨c', hc', htakes⟩ := hmarker.way none []
    have hgap : gap.Takes c' [(.marker, [u.op.toChar, u.op.toChar])]
        ⟨behind.text.getLast?.or c'.previous, u.target.text⟩ _ :=
      takes_many_char.2 ⟨behind.text, behind.blank, hc', rfl, rfl⟩
    have hname : ∀ previous, name.Takes ⟨previous, u.target.text⟩
        [(.marker, [u.op.toChar, u.op.toChar])] ⟨u.target.text.getLast?.or previous, []⟩ _ :=
      fun _ => takes_name.2 ⟨u.target.text, u.target.isName, (List.append_nil _).symm, rfl, rfl⟩
    exact isSome_match? ⟨_, _, htakes, _, _, hgap, _, _, ⟨_, hname _, rfl⟩, _, _,
      ⟨.inl rfl, rfl, rfl⟩, rfl, rfl⟩
  obtain ⟨f, hf⟩ := Option.isSome_iff_exists.1 hsome
  refine ⟨f, (firstMatch?_cons_of_none hnone).trans (firstMatch?_cons_of_some hf), ?_⟩
  obtain ⟨c₁, _, hmark, c₂, _, hgap, _, _, ⟨_, hname, rfl⟩, c₃, _, ⟨hend, rfl, rfl⟩, -, hk⟩ :=
    takes_of_match? hf
  obtain ⟨hrest, rfl⟩ := hmarker.only rfl hmark
  obtain ⟨front, hfront, hsplit, -, rfl⟩ := takes_many_char.1 hgap
  obtain ⟨y, hy, hsplit', -, rfl⟩ := takes_name.1 hname
  have hall : behind.text ++ u.target.text = front ++ (y ++ c₃.rest) := by
    rw [← hrest, hsplit, hsplit']
  have hfeed : '\n' ∉ behind.text ++ u.target.text := by
    simp [behind.oneLine, (isOperandText_of_isName u.target.isName).oneLine]
  have hnil : c₃.rest = [] :=
    eq_nil_of_textEnd hfeed (hall.trans (List.append_assoc _ _ _).symm) hend
  rw [hnil, List.append_nil] at hall
  have hhead : ∀ {y : Text}, y.isName → ∀ a ∈ y.head?, isBlank a = false := fun hy a ha =>
    Text.not_isBlank_of_isName hy a (List.mem_of_head? ha)
  obtain rfl : u.target.text = y :=
    (Text.span_append behind.blank (hhead u.target.isName)).2.symm.trans
      ((congrArg _ hall).trans (Text.span_append hfront (hhead hy)).2)
  rw [hk, Cursor.taken_eq hsplit']
  rfl

/-- The short form has an equals sign, and a step has none. -/
theorem match?_updateForm_eq_none {t : Text} (h : '=' ∉ t) :
    Statement.updateForm.match? t = none := by
  refine Option.eq_none_iff_forall_ne_some.2 fun f hf => h ?_
  obtain ⟨c₁, _, hname, c₂, _, hgap, c₃, _, hop, c₄, _, hsign, -⟩ := takes_of_match? hf
  have hmem : '=' ∈ c₃.rest := by simp [(takes_text.1 hsign).1]
  exact (((cuts_takes _ _ _ _ _ hop).1.trans (cuts_takes _ _ _ _ _ hgap).1).trans
    (cuts_takes _ _ _ _ _ hname).1).subset hmem

theorem read_step_of_found (hop : u.op = .add ∨ u.op = .sub) (d : Dialect) {line : Text} {f : Found}
    (hbody : Statement.body line = line) (hsign : '=' ∉ line)
    (hf : firstMatch? Statement.stepForms line = some (f, ()))
    (hname : f.getD .name = u.target.text)
    (hmarker : f.getD .marker = [u.op.toChar, u.op.toChar]) :
    ∃ label, Statement.read d line =
      .update u.target.text u.op (.literal (.int 1)) label := by
  simp only [Statement.read, hbody, Statement.update?, match?_updateForm_eq_none hsign,
    Statement.step?, hf, Option.map_none, Option.map_some, hname, hmarker]
  rcases hop with hop | hop <;> rw [hop] <;> exact ⟨_, rfl⟩

theorem solid_marks : Text.IsTrimmed [u.op.toChar, u.op.toChar] ∧
    ([u.op.toChar, u.op.toChar] : Text).getLast? ≠ some ';' ∧ '=' ≠ u.op.toChar := by
  refine ⟨Text.isTrimmed_of_forall ?_, ?_, ?_⟩ <;> cases u.op <;> decide

theorem not_mem_target : '=' ∉ u.target.text ∧ ';' ∉ u.target.text :=
  ⟨Text.not_mem_of_isName u.target.isName (by decide),
    Text.not_mem_of_isName u.target.isName (by decide)⟩

theorem read_markBehind (hop : u.op = .add ∨ u.op = .sub) (d : Dialect) : ∃ label,
    Statement.read d (u.target.text ++ (before.text ++ [u.op.toChar, u.op.toChar])) =
      .update u.target.text u.op (.literal (.int 1)) label := by
  have hx := isOperandText_of_isName u.target.isName
  obtain ⟨htrim, hlast, hsign⟩ := u.solid_marks
  have hgap : '=' ∉ before.text := fun hmem => absurd (before.blank _ hmem) (by decide)
  obtain ⟨f, hf, hcaptures⟩ := u.exists_markBehind before hop
  refine u.read_step_of_found hop d
    (Statement.body_append hx.trimmed htrim hx.filled (List.cons_ne_nil _ _) hlast _)
    (by simp [u.not_mem_target.1, hgap, hsign]) hf ?_ ?_
  all_goals
    rw [Found.getD, Found.get?, hcaptures]
    rfl

theorem read_markBefore (hop : u.op = .add ∨ u.op = .sub) (d : Dialect) : ∃ label,
    Statement.read d (u.op.toChar :: u.op.toChar :: (behind.text ++ u.target.text)) =
      .update u.target.text u.op (.literal (.int 1)) label := by
  have hx := isOperandText_of_isName u.target.isName
  obtain ⟨htrim, -, hsign⟩ := u.solid_marks
  have hgap : '=' ∉ behind.text := fun hmem => absurd (behind.blank _ hmem) (by decide)
  obtain ⟨f, hf, hcaptures⟩ := u.exists_markBefore behind hop
  refine u.read_step_of_found hop d
    (Statement.body_append htrim hx.trimmed (List.cons_ne_nil _ _) hx.filled
      (fun h => u.not_mem_target.2 (List.mem_of_getLast? h)) behind.text)
    (by simp [u.not_mem_target.1, hgap, hsign]) hf ?_ ?_
  all_goals
    rw [Found.getD, Found.get?, hcaptures]
    rfl

/-! ## What the spellings do -/

/-- A numeral written as a one is 1. -/
theorem eval_of_isStep (h : u.IsStep) (s : Store) : u.amount.eval s = .ok (.int 1) := by
  obtain ⟨-, n, hn, htext⟩ := h
  have hone : Number.ofLiteral? ['1'] = some (.int 1) := by decide +kernel
  have hvalue := Number.ofLiteral?_text n
  rw [htext, hone, Option.some_inj] at hvalue
  rw [hn, Amount.eval, hvalue]

theorem action_update {s : Store} {right : Expr} (h : right.eval s = u.amount.eval s)
    (label : Label) : (Statement.update u.target.text u.op right label).action s =
      (u.operation s).map (Action.compute · (.plain label)) := by
  rw [Statement.action, operation, h]
  cases u.amount.eval s <;> rfl

theorem action_bind {s : Store} (hs : s.BindsNames) :
    (Statement.bind u.target.text (.computed (u.sum left right)
        (.binary u.op (.named u.target.text) (operand u.amount.text))) false).action s =
      (u.operation s).map (Action.compute · (.plain .assignment)) := by
  have hop : isWord u.op.toChar = false := by cases u.op <;> decide
  have hwhole : (u.sum left right).isName = false :=
    Text.isName_eq_false_of_mem (by simp [sum]) hop
  have hcopied : Statement.copied? s (u.sum left right) = none := by
    rw [Statement.copied?, Store.get?_eq_none hs hwhole]
  simp only [Statement.action, Statement.evaluate, hcopied, Statement.compute, Expr.eval,
    u.amount.eval_operand hs, operation]
  cases u.amount.eval s <;> rfl

/-- Every spelling is the computation that the update is. -/
theorem action_eq {line : Text} (h : u.Spells line) (language : Language) {s : Store}
    (hs : s.BindsNames) : ∃ label, (Statement.read language.dialect line).action s =
      (u.operation s).map (Action.compute · (.plain label)) := by
  have hstep : ∀ {label}, u.IsStep → Statement.read language.dialect line =
      .update u.target.text u.op (.literal (.int 1)) label →
      (Statement.read language.dialect line).action s =
        (u.operation s).map (Action.compute · (.plain label)) := fun hstep hread => by
    rw [hread]
    exact u.action_update (by rw [u.eval_of_isStep hstep, Expr.eval]) _
  cases h with
  | compound before behind =>
    rw [u.read_compound]
    exact ⟨_, u.action_update (u.amount.eval_operand hs) _⟩
  | expanded before behind left right =>
    rw [u.read_expanded]
    exact ⟨_, u.action_bind left right hs⟩
  | markBehind h gap =>
    obtain ⟨label, hread⟩ := u.read_markBehind gap h.1 language.dialect
    exact ⟨label, hstep h hread⟩
  | markBefore h gap =>
    obtain ⟨label, hread⟩ := u.read_markBefore gap h.1 language.dialect
    exact ⟨label, hstep h hread⟩

end Update

/-! ## Runs -/

/-- What an entry shows beside its line and its note. -/
def Entry.effect (e : Entry) : Nat × Snapshot × Snapshot × Option Operation × Option Text :=
  (e.step, e.before, e.after, e.operation, e.output)

/-- A state without the lines and notes in its trace. -/
def Recorder.effects (r : Recorder) :
    Store × Transcript × Nat × Array (Nat × Snapshot × Snapshot × Option Operation × Option Text) :=
  (r.store, r.outputs, r.muted, r.trace.map Entry.effect)

/-- The same computation has the same effects whatever line and note it is recorded with. -/
theorem Action.effects_exec_run (limits : Limits) (line line' : Text) (o : Operation)
    (note note' : Note) (r : Recorder) :
    (((compute o note).run limits line).exec r).map id Recorder.effects =
      (((compute o note').run limits line').exec r).map id Recorder.effects := by
  rw [exec_run, exec_run]
  split_ifs
  · rfl
  · rfl
  · simp [Recorder.effects, Recorder.performRecorded, Recorder.perform, Recorder.entry,
      Action.store, Action.outputs, Action.apply, Action.operation, Action.output, Entry.effect]

namespace Update

variable (u : Update)

/-- Running a spelling is performing the computation of the update. -/
theorem exec_eq {line : Text} (h : u.Spells line) (language : Language) (limits : Limits)
    {r : Recorder} (hs : r.store.BindsNames) :
    ∃ note, ((Statement.read language.dialect line).run limits line).exec r =
      match u.operation r.store with
      | .ok o => ((Action.compute o note).run limits line).exec r
      | .error f => (.error (.fault f), r) := by
  obtain ⟨label, haction⟩ := u.action_eq h language hs
  refine ⟨.plain label, ?_⟩
  rw [Statement.run_eq, Run.exec_attempt, haction]
  cases u.operation r.store <;> rfl

/-- All spellings of an update end in the same way with the same variables and output, and record
entries that differ only in their line and their note. With regular variables there is such an
entry: it shows the computation of the update, whose result is bound to its target. -/
theorem spellings_agree (language : Language) (limits : Limits) (r : Recorder)
    (hs : r.store.BindsNames) {line line' : Text} (h : u.Spells line) (h' : u.Spells line') :
    let run (t : Text) := ((Statement.read language.dialect t).run limits t).exec r
    (run line).map id Recorder.effects = (run line').map id Recorder.effects ∧
      (r.store.IsRegular → r.muted = 0 → r.trace.size < limits.entries →
        ∃ o e, u.operation r.store = .ok o ∧ Entry.operation e = some o ∧
          run line = (.ok (), { r with
            store := r.store.insert u.target.text (.num o.result)
            trace := r.trace.push e })) := by
  obtain ⟨note, hrun⟩ := u.exec_eq h language limits hs
  obtain ⟨note', hrun'⟩ := u.exec_eq h' language limits hs
  simp only [hrun, hrun']
  refine ⟨?_, fun hregular hmuted hroom => ?_⟩
  · cases u.operation r.store with
    | error f => rfl
    | ok o => exact Action.effects_exec_run limits line line' o note note' r
  · obtain ⟨b, hb⟩ := u.amount.exists_eval hregular
    have ho : u.operation r.store = .ok (Statement.operation u.target.text u.op
        (r.store.number u.target.text) b) := by
      rw [operation, hb]
      rfl
    rw [ho]
    refine ⟨_, r.entry line (.compute _ note), rfl, rfl, ?_⟩
    refine (Action.exec_run_unmuted limits line _ hmuted).trans ?_
    rw [if_neg (Int.not_le.2 hroom)]
    rfl

/-- The element of a list taken away from the index it stands at. -/
def sample : Update where
  target := ⟨['n'], by decide⟩
  op := .sub
  amount := .element ⟨['x', 's'], by decide⟩ ⟨['n'], by decide, by decide, by decide⟩

/-- Its two spellings in a language with typed declarations, from a list and a number on, and the
entry that they record. -/
theorem spellings_agree_sample :
    let run (t : Text) :=
      ((Statement.read (Language.dialect .java) t).run .usual t).exec (.start .sample)
    Store.sample.BindsNames ∧ sample.Spells "n -= xs[n]".toList ∧
      sample.Spells "n = n - xs[n]".toList ∧
      (run "n -= xs[n]".toList).map id Recorder.effects =
        (run "n = n - xs[n]".toList).map id Recorder.effects ∧
      (∃ o e, sample.operation .sample = .ok o ∧ Entry.operation e = some o ∧
        (run "n -= xs[n]".toList).2.trace = #[e]) ∧
      (run "n -= xs[n]".toList).2.store.number "n".toList = .int 8 := by
  intro run
  let space : Gap := ⟨[' '], by decide, by decide⟩
  have hshort : sample.Spells "n -= xs[n]".toList := .compound space space
  have hlong : sample.Spells "n = n - xs[n]".toList := .expanded space space space space
  have hs := Store.isRegular_sample
  obtain ⟨hsame, hentry⟩ :=
    sample.spellings_agree .java .usual (.start .sample) hs.names hshort hlong
  obtain ⟨o, e, ho, he, hrun⟩ := hentry hs rfl (by decide)
  replace hrun : run "n -= xs[n]".toList = _ := hrun
  have htrace : (run "n -= xs[n]".toList).2.trace = #[e] := by
    rw [hrun]
    rfl
  exact ⟨hs.names, hshort, hlong, hsame, ⟨o, e, ho, he, htrace⟩, by decide +kernel⟩

end Update

end StepTrace
