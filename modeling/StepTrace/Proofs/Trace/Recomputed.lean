import StepTrace.Proofs.Expr.Lists
import StepTrace.Proofs.Expr.Normal
import StepTrace.Proofs.Program.Read
import StepTrace.Proofs.Trace.Normal

/-!
# Operations that are computed again

An entry shows an operation by the texts of its operands and its result. Where both texts are whole
numbers, the result follows from the texts alone (`Dialect.operations_recomputed`): the operands are
read back from what is shown of them.

For this the operands must have been whole numbers as well, and not doubles that look like some. A
double that is whole does not occur. This is a discipline (`Discipline.reduced`) that every program
that was read obeys, and other than normal forms it needs no bound on the size of a snippet.
-/

namespace StepTrace

/-! ## Variables without whole doubles -/

/-- No double in the value is a whole number. -/
def Value.IsReduced (v : Value) : Prop := ∀ ⦃n : Number⦄, v.Holds n → n.IsReduced

/-- No double in a variable is a whole number. -/
def Store.IsReduced (s : Store) : Prop := ∀ ⦃name v⦄, s.get? name = some v → v.IsReduced

namespace Value

theorem isReduced_num {n : Number} (h : n.IsReduced) : (num n).IsReduced := by
  intro m hm
  cases hm
  exact h

theorem isReduced_text (t : Text) : (text t).IsReduced := by
  intro n hn
  cases hn

theorem isReduced_list {numbers : List Number} (h : ∀ n ∈ numbers, n.IsReduced) :
    (list (numbers.map num)).IsReduced := by
  intro m hm
  cases hm with
  | item hv hm =>
    obtain ⟨n, hn, rfl⟩ := List.mem_map.1 hv
    exact isReduced_num (h n hn) hm

theorem IsReduced.item {items : List Value} (h : (list items).IsReduced) {v : Value}
    (hv : v ∈ items) : v.IsReduced := fun _ hn => h (.item hv hn)

theorem IsReduced.toNumber {v : Value} (h : v.IsReduced) : v.toNumber.IsReduced := by
  cases v with
  | num n => exact h .num
  | text t =>
    rw [Value.toNumber]
    cases ht : Number.ofLiteral? t with
    | none => exact trivial
    | some n => exact (Number.ofLiteral?_isNormal ht).isReduced
  | _ => exact trivial

end Value

namespace Store

theorem isReduced_empty : empty.IsReduced := by
  intro name v h
  cases h

variable {s : Store} (hs : s.IsReduced)

include hs

theorem IsReduced.insert {v : Value} (hv : v.IsReduced) (name : Text) :
    (s.insert name v).IsReduced := by
  intro n w hw
  rw [Store.get?_insert] at hw
  split_ifs at hw
  · cases hw
    exact hv
  · exact hs hw

theorem IsReduced.number (name : Text) : (s.number name).IsReduced := by
  rw [Store.number]
  cases hv : s.get? name with
  | none => exact trivial
  | some v => exact (hs hv).toNumber

end Store

/-! ## Expressions -/

section Evaluating

variable {s : Store} (hs : s.IsReduced)

theorem elementAt_isReduced {items : List Value} (h : (Value.list items).IsReduced)
    (index : Number) : Yields (fun _ => True) Number.IsReduced (elementAt items index) := by
  rw [elementAt]
  cases index.toDouble? with
  | none => exact trivial
  | some x =>
    dsimp only
    split_ifs
    · cases hitem : items[index.floor.toNat]? with
      | none => exact trivial
      | some v => exact (h.item (List.mem_of_getElem? hitem)).toNumber
    · exact trivial

include hs

/-- The value of an expression is no whole double. Only its literals and the variables matter, since
an operator has a reduced result whatever it is applied to. -/
theorem Expr.eval_isReduced {e : Expr} (h : e.IsNormal) :
    Yields (fun _ => True) Number.IsReduced (e.eval s) := by
  cases e with
  | literal n => exact Number.IsNormal.isReduced h
  | named name => exact hs.number name
  | length name whole =>
    rw [eval]
    cases (s.get? name).bind Value.length? with
    | none => exact hs.number whole
    | some n => exact trivial
  | element name index whole =>
    rw [eval]
    split
    · rename_i items hitems
      exact (Yields.of_ok fun _ _ => trivial).bind fun i _ => elementAt_isReduced (hs hitems) i
    · exact hs.number whole
  | binary op left right =>
    rw [eval]
    refine (Yields.of_ok fun _ _ => trivial).bind fun a _ => ?_
    exact (Yields.of_ok fun _ _ => trivial).bind fun b _ => Number.apply_isReduced op a b

end Evaluating

/-! ## Actions -/

/-- The operation is one on two numbers that are reduced. -/
def Operation.IsReduced (o : Operation) : Prop :=
  ∃ target op a b, o = Statement.operation target op a b ∧ a.IsReduced ∧ b.IsReduced

/-- What the action binds, or the operation that it shows, is reduced. -/
def Action.IsReduced : Action → Prop
  | .bind _ value _ => value.IsReduced
  | .compute operation _ => operation.IsReduced
  | _ => True

theorem Operation.IsReduced.result {o : Operation} (h : o.IsReduced) : o.result.IsReduced := by
  obtain ⟨target, op, a, b, rfl, -, -⟩ := h
  exact Number.apply_isReduced op a b

theorem Action.IsReduced.store {a : Action} (h : a.IsReduced) {s : Store} (hs : s.IsReduced) :
    (a.store s).IsReduced := by
  cases a with
  | bind name value note => exact hs.insert h name
  | compute operation note =>
    exact hs.insert (Value.isReduced_num (Operation.IsReduced.result h)) operation.target
  | idle note => exact hs
  | print line note => exact hs

/-- The discipline that lets no double be a whole number. A run may stop for any reason. -/
def Discipline.reduced : Discipline where
  store := Store.IsReduced
  action := Action.IsReduced
  silent := Action.IsReduced
  stop _ := True
  stop_limit := trivial
  condition _ := trivial
  round _ _ _ := trivial
  keeps hs ha := (ha.elim id id : Action.IsReduced _).store hs

/-! ## Statements -/

/-- All literals of what a variable is bound to are in normal form. -/
def Source.IsNormal : Source → Prop
  | .quoted _ => True
  | .fold _ init => init.IsNormal
  | .element _ expr => expr.IsNormal
  | .computed _ expr => expr.IsNormal

namespace Statement

/-- All literals of a statement are in normal form. -/
def IsNormal : Statement → Prop
  | update _ _ right _ => right.IsNormal
  | list _ items _ => ∀ e ∈ items, e.IsNormal
  | bind _ source _ => source.IsNormal
  | _ => True

section Evaluating

variable {s : Store} (hs : s.IsReduced) (target : Text)

theorem copied?_isReduced (hs : s.IsReduced) {name : Text} {v : Value}
    (h : copied? s name = some v) : v.IsReduced := by
  unfold copied? at h
  split at h
  · rename_i items hitems
    cases h
    exact hs hitems
  · cases h
    exact Value.isReduced_text _
  · cases h

/-- What a binding found: a reduced value, and reduced operands of the operation it took. -/
def FoundReduced (found : Value × Label × Option Operation) : Prop :=
  found.1.IsReduced ∧ ∀ o, found.2.2 = some o → o.IsReduced

include hs

theorem compute_isReduced {e : Expr} (h : e.IsNormal) : Yields (fun _ => True)
    (fun found => found.1.IsReduced ∧ ∀ o, found.2 = some o → o.IsReduced)
    (compute s target e) := by
  cases e with
  | binary op left right =>
    refine (Expr.eval_isReduced hs h.1).bind fun a ha => ?_
    refine (Expr.eval_isReduced hs h.2).bind fun b hb => ?_
    refine ⟨Number.apply_isReduced op a b, fun o ho => ?_⟩
    cases ho
    exact ⟨target, op, a, b, rfl, ha, hb⟩
  | _ => exact (Expr.eval_isReduced hs h).bind fun n hn => ⟨hn, by simp⟩

theorem evaluate_isReduced (declares : Bool) {source : Source} (h : source.IsNormal) :
    Yields (fun _ => True) FoundReduced (evaluate s target declares source) := by
  cases source with
  | quoted text => exact ⟨Value.isReduced_text text, by simp⟩
  | fold items init =>
    refine (Yields.of_ok fun _ _ => trivial).bind fun start _ => ?_
    refine (Yields.of_ok fun _ _ => trivial).bind fun total _ => ?_
    exact ⟨Value.isReduced_num total.normalize_isReduced, by simp⟩
  | element whole expr =>
    rw [evaluate]
    cases hcopied : copied? s whole with
    | some v => exact ⟨copied?_isReduced hs hcopied, by simp⟩
    | none =>
      exact (Expr.eval_isReduced hs h).bind fun n hn => ⟨Value.isReduced_num hn, by simp⟩
  | computed whole expr =>
    rw [evaluate]
    cases hcopied : copied? s whole with
    | some v => exact ⟨copied?_isReduced hs hcopied, by simp⟩
    | none =>
      exact (compute_isReduced hs target h).bind fun found hfound =>
        ⟨Value.isReduced_num hfound.1, hfound.2⟩

end Evaluating

/-- A statement with literals in normal form keeps all variables reduced. -/
theorem obeys_reduced {st : Statement} (h : st.IsNormal) : st.Obeys .reduced Action.IsReduced := by
  intro s hs
  cases st with
  | update target op right label =>
    exact (Expr.eval_isReduced hs h).bind fun b hb => ⟨target, op, _, b, rfl, hs.number target, hb⟩
  | list target items label =>
    refine (Yields.mapM fun e he => Expr.eval_isReduced hs (h e he)).bind fun values hvalues => ?_
    exact Value.isReduced_list hvalues.2
  | declare target => exact Value.isReduced_num trivial
  | bind target source declares =>
    refine (evaluate_isReduced hs target declares h).bind fun found hfound => ?_
    obtain ⟨value, label, _ | o⟩ := found
    · exact hfound.1
    · exact hfound.2 o rfl
  | print style args => exact (Yields.of_ok fun _ _ => trivial).bind fun _ _ => trivial
  | other => exact trivial

/-! ### Statements that were read -/

theorem readSource_isNormal (d : Dialect) (t : Text) : (readSource d t).IsNormal := by
  unfold readSource
  dsimp only
  cases t.trim.unquote? with
  | some text => exact trivial
  | none =>
    dsimp only
    cases hfold : fold? d t.trim with
    | some found =>
      unfold fold? at hfold
      split_ifs at hfold
      obtain ⟨f, -, rfl⟩ := Option.map_eq_some_iff.1 hfold
      exact Expr.read_isNormal _
    | none =>
      dsimp only [Option.getD]
      split_ifs
      · exact Expr.operand_isNormal _
      · exact Expr.read_isNormal _

theorem read_isNormal (d : Dialect) (line : Text) : (read d line).IsNormal := by
  generalize hread : read d line = st
  rcases read_cases hread with rfl | h | h | h | h | h
  · exact trivial
  · obtain ⟨f, -, rfl⟩ := Option.map_eq_some_iff.1 h
    exact Expr.read_isNormal _
  · obtain ⟨f, -, rfl⟩ := Option.map_eq_some_iff.1 h
    exact Number.isNormal_of_le (n := 1) (by decide +kernel)
  · obtain ⟨⟨f, label⟩, -, rfl⟩ := Option.map_eq_some_iff.1 h
    exact Expr.readItems_isNormal _
  · obtain ⟨⟨f, declares⟩, -, rfl⟩ := Option.map_eq_some_iff.1 h
    dsimp only
    cases f.get? .expr with
    | none => exact trivial
    | some expr => exact readSource_isNormal d expr
  · obtain ⟨⟨f, style⟩, -, rfl⟩ := Option.map_eq_some_iff.1 h
    exact trivial

theorem obeys_reduced_of_mem_readAll (d : Dialect) (clause : Text) :
    ∀ st ∈ readAll d clause, st.Obeys .reduced Action.IsReduced := by
  intro st hst
  obtain ⟨part, -, rfl⟩ := List.mem_map.1 hst
  exact obeys_reduced (read_isNormal d part)

end Statement

/-! ## Loops and programs -/

theorem Condition.obeys_reduced (c : Condition) : c.Obeys .reduced :=
  c.obeys_of_stop fun _ => trivial

theorem Sweep.numbers_obeys_reduced (item : Text) {start stop step : Int} (hstep : step ≠ 0) :
    (numbers start stop step hstep).Obeys .reduced item := by
  intro limit v hv position total
  obtain ⟨n, -, rfl⟩ := List.mem_map.1 hv
  exact Value.isReduced_num trivial

theorem Sweep.items_obeys_reduced (item : Text) {values : List Value}
    (h : ∀ v ∈ values, v.IsReduced) : (items values).Obeys .reduced item :=
  fun _ v hv _ _ => h v hv

theorem Loop.rangeSweep_obeys_reduced (item : Text) (floors : List Int) :
    (rangeSweep floors).Obeys .reduced item := by
  unfold rangeSweep
  split
  · exact Sweep.numbers_obeys_reduced item _
  · exact Sweep.numbers_obeys_reduced item _
  · split_ifs
    · exact Sweep.items_obeys_reduced item (List.forall_mem_nil _)
    · exact Sweep.numbers_obeys_reduced item _
  · exact Sweep.items_obeys_reduced item (List.forall_mem_nil _)

theorem readLoop_obeys_reduced (d : Dialect) (f : Found) (form : LoopForm) :
    (readLoop d f form).Obeys .reduced := by
  cases form with
  | range =>
    intro s _
    exact (Yields.of_ok fun _ _ => trivial).bind fun numbers _ =>
      Loop.rangeSweep_obeys_reduced _ _
  | span =>
    intro s _
    refine (Yields.of_ok fun _ _ => trivial).bind fun low _ => ?_
    exact (Yields.of_ok fun _ _ => trivial).bind fun high _ => Sweep.numbers_obeys_reduced _ _
  | each =>
    intro s hs
    rw [readLoop, Loop.sweep]
    split
    · rename_i values hvalues
      exact Sweep.items_obeys_reduced _ fun v hv => (hs hvalues).item hv
    · exact Sweep.items_obeys_reduced _ (List.forall_mem_nil _)
  | clauses =>
    exact ⟨Statement.obeys_reduced_of_mem_readAll d _, Condition.obeys_reduced _,
      Statement.obeys_reduced_of_mem_readAll d _⟩
  | condition =>
    exact ⟨List.forall_mem_nil _, Condition.obeys_reduced _, List.forall_mem_nil _⟩

theorem Dialect.lineObeys_reduced (d : Dialect) (line header : Text) :
    d.LineObeys .reduced line header where
  statement := Statement.obeys_reduced (Statement.read_isNormal d line)
  loop head hhead := by
    obtain ⟨⟨f, form⟩, -, rfl⟩ := Option.map_eq_some_iff.1 hhead
    exact readLoop_obeys_reduced d f form

theorem Program.read_obeys_reduced (d : Dialect) (source : Text) :
    (Program.read d source).1.Obeys .reduced := by
  unfold Program.read
  cases d.layout with
  | indented =>
    exact Program.ofIndented_obeys (fun _ => Condition.obeys_reduced _) fun line _ =>
      ⟨d.lineObeys_reduced _ _, fun _ => trivial⟩
  | braced =>
    exact Program.ofBraced_obeys (fun _ => Condition.obeys_reduced _) (Or.inl trivial)
      fun line _ => d.lineObeys_reduced _ _

/-! ## Entries -/

/-- The operation of an entry is one on reduced numbers. -/
def Entry.IsReduced (e : Entry) : Prop := ∀ o, e.operation = some o → o.IsReduced

/-- Every operation in a trace has reduced operands. -/
theorem Dialect.isReduced_of_mem_trace {d : Dialect} {limits : Limits} {source : Text}
    {entries : List Entry} (h : d.trace limits source = .trace entries) {e : Entry}
    (he : e ∈ entries) {o : Operation} (ho : e.operation = some o) : o.IsReduced := by
  have hobeys := Dialect.trace_obeys limits (Program.read_obeys_reduced d source)
    Store.isReduced_empty
  rw [h] at hobeys
  obtain ⟨r, hsteps, rfl⟩ := hobeys
  refine Discipline.Steps.forall_mem_trace (P := Entry.IsReduced) ?_ hsteps Store.isReduced_empty
    (by simp [Recorder.start]) e (Array.mem_toList_iff.1 he) o ho
  intro r line a _ ha o ho
  cases a with
  | compute operation note =>
    cases ho
    exact ha
  | _ => cases ho

/-- The result of an operation on whole numbers follows from what is shown of them. -/
theorem Operation.IsReduced.recomputed {o : Operation} (h : o.IsReduced)
    (hleft : o.left.isInteger) (hright : o.right.isInteger) :
    ∃ a b : Int, Number.ofLiteral? o.left = some (.int a) ∧
      Number.ofLiteral? o.right = some (.int b) ∧
      Number.applyBySign o.operator (.int a) (.int b) = o.result := by
  obtain ⟨target, op, a, b, rfl, ha, hb⟩ := h
  simp only [Statement.operation] at hleft hright ⊢
  obtain ⟨a, rfl, halarge⟩ := Number.exists_of_isInteger_display ha hleft
  obtain ⟨b, rfl, hblarge⟩ := Number.exists_of_isInteger_display hb hright
  refine ⟨a, b, Number.ofLiteral?_display halarge, Number.ofLiteral?_display hblarge, ?_⟩
  rw [Number.applyBySign, Operator.ofChar?_toChar, Option.elim_some]

/-- What is shown of whole numbers is read back: of a single one up to the largest double, and of a
list of at most eight of them. So wherever an entry of a trace shows an operation on two whole
numbers, its result is what the operator gives on the numbers that are read from the entry. -/
theorem Dialect.operations_recomputed :
    (∀ n : Int, n.natAbs ≤ Double.largestInt →
      Number.ofLiteral? (Number.display (.int n)) = some (.int n)) ∧
    (∀ (s : Store) (items : List Int), items.length ≤ 8 →
      (∀ n ∈ items, n.natAbs ≤ Double.largestInt) →
      ∃ es, Expr.readList? (Value.display (.list (items.map fun n => .num (.int n)))) = some es ∧
        Expr.evalAll s es = .ok (items.map .int)) ∧
    ∀ (d : Dialect) (limits : Limits) (source : Text) (entries : List Entry),
      d.trace limits source = .trace entries → ∀ e ∈ entries, ∀ o, e.operation = some o →
        o.left.isInteger → o.right.isInteger →
        ∃ a b : Int, Number.ofLiteral? o.left = some (.int a) ∧
          Number.ofLiteral? o.right = some (.int b) ∧
          Number.applyBySign o.operator (.int a) (.int b) = o.result := by
  refine ⟨fun n hn => Number.ofLiteral?_display hn,
    fun s items hlen hitems => Value.readList?_display hlen hitems s, ?_⟩
  intro d limits source entries htrace e he o ho hleft hright
  exact (Dialect.isReduced_of_mem_trace htrace he ho).recomputed hleft hright

/-- The least whole number that is no infinity, a list with a number that is no exact double, and a
quotient of whole numbers that is none. -/
theorem Dialect.operations_recomputed_quotient :
    Number.ofLiteral? (Number.display (.int (-Double.largestInt))) =
      some (.int (-Double.largestInt)) ∧
    (∃ es, Expr.readList? "[-7, 0, 9007199254740993]".toList = some es ∧
      Expr.evalAll .empty es = .ok [.int (-7), .int 0, .int 9007199254740993]) ∧
    ∃ entries, Dialect.python.trace .usual "x = -3\ny = x * 4\ny /= 8".toList = .trace entries ∧
      ∃ e ∈ entries, ∃ o, e.operation = some o ∧ o.left = "-12".toList ∧ o.right = "8".toList ∧
        o.operator = ['/'] ∧ ∃ a b : Int, Number.ofLiteral? o.left = some (.int a) ∧
          Number.ofLiteral? o.right = some (.int b) ∧
          Number.applyBySign o.operator (.int a) (.int b) = o.result := by
  obtain ⟨hnumber, hlist, htrace⟩ := Dialect.operations_recomputed
  refine ⟨hnumber _ (by rw [Int.natAbs_neg, Int.natAbs_natCast]), ?_, ?_⟩
  · have hshown : Value.display (.list ([-7, 0, 9007199254740993].map fun n : Int =>
        .num (.int n))) = "[-7, 0, 9007199254740993]".toList := by decide +kernel
    rw [← hshown]
    exact hlist .empty [-7, 0, 9007199254740993] (by decide) (by decide +kernel)
  · obtain ⟨entries, h, -⟩ := Outcome.exists_trace_of_length (n := 3)
      (o := Dialect.python.trace .usual "x = -3\ny = x * 4\ny /= 8".toList) (by decide +kernel)
    have hshown : ((Dialect.python.recorded .usual
        "x = -3\ny = x * 4\ny /= 8".toList).toList.filterMap Entry.operation).map
          (fun o => (o.left, o.operator, o.right)) =
        [("-3".toList, ['*'], "4".toList), ("-12".toList, ['/'], "8".toList)] := by
      decide +kernel
    rw [Dialect.recorded_of_trace h] at hshown
    obtain ⟨o, ho, hparts⟩ := List.mem_map.1
      (hshown ▸ (by decide : ("-12".toList, ['/'], "8".toList) ∈
        [("-3".toList, ['*'], "4".toList), ("-12".toList, ['/'], "8".toList)]))
    obtain ⟨e, he, hoperation⟩ := List.mem_filterMap.1 ho
    simp only [Prod.mk.injEq] at hparts
    obtain ⟨hleft, hoperator, hright⟩ := hparts
    refine ⟨entries, h, e, he, o, hoperation, hleft, hright, hoperator, ?_⟩
    exact htrace .python .usual _ entries h e he o hoperation
      (by rw [hleft]; decide +kernel) (by rw [hright]; decide +kernel)

end StepTrace
