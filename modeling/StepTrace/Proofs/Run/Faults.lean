import StepTrace.Language
import StepTrace.Proofs.Message.Note
import StepTrace.Proofs.Print.Faults
import StepTrace.Proofs.Source.Prepared

/-!
# Faults of a run

Everything that a run binds is within a bound: numbers in normal form, and texts and lists that are
not longer than a line of the snippet. This is a discipline (`Discipline.within`), and every program
that was read obeys it (`Program.read_obeys`). Under it expressions, conditions, loops and print
calls have no fault. What is left are a sum that a whole number too large for a double is added to,
a key of a hole that is no number, and a clause without a condition (`Dialect.MayFault`).

Which of these faults can end a run depends on the forms of its dialect. `Dialect.trace_faults` says
for each language which they are.
-/

namespace StepTrace

/-! ## Actions within a bound -/

/-- What an action binds is within a bound. -/
def Action.Within (bound : Nat) : Action → Prop
  | .bind _ value _ => value.Within bound
  | .compute operation _ => operation.result.IsNormal
  | _ => True

theorem Action.Within.store {bound : Nat} {a : Action} (ha : a.Within bound) {s : Store}
    (hs : s.Within bound) : (a.store s).Within bound := by
  cases a with
  | bind name value note => exact hs.insert ha name
  | compute operation note => exact hs.insert (v := .num operation.result) ha operation.target
  | idle note => exact hs
  | print line note => exact hs

/-- The discipline that keeps all variables within a bound and allows some faults. -/
def Discipline.within (bound : Nat) (allowed : Fault → Prop) : Discipline where
  store := Store.Within bound
  action := Action.Within bound
  silent := Action.Within bound
  stop
    | .fault f => allowed f
    | _ => True
  stop_limit := trivial
  condition _ := trivial
  round _ _ _ := trivial
  keeps hs ha := (ha.elim id id : Action.Within _ _).store hs

/-! ## Statements -/

/-- The dialect has a print call with holes for arguments. -/
def Dialect.fillsHoles (d : Dialect) : Bool := d.prints.any fun call => call.2.fillsHoles

/-- The faults that a run of a snippet in a dialect can end in: a sum became too large, a hole has a
key that is no number, or a further clause has no condition. -/
inductive Dialect.MayFault (d : Dialect) (source : Text) : Fault → Prop
  | total : d.folds → MayFault d source (@Fault.tooLarge .total)
  | key (key : Text) : d.fillsHoles → MayFault d source (.notAnIndex key)
  | clause : d.layout = .indented → (∃ line ∈ indentedLines d source, line.IsBare) →
      MayFault d source .noCondition

section Parts

variable {d : Dialect} {source : Text} {bound : Nat} (hbound : bound ≤ Double.largestInt)

namespace Statement

theorem sum_yields {allowed : Fault → Prop} (hallowed : allowed (@Fault.tooLarge .total)) :
    ∀ {values : List Value} {total : Number}, total.Fits →
      Yields allowed Number.Fits (sum total values)
  | [], _, h => h
  | v :: rest, total, h => by
    rw [sum]
    cases hsum : Number.combine? .add total v.toNumber with
    | none => exact hallowed
    | some next => exact sum_yields hallowed (Number.combine?_fits h hsum)

theorem copied?_within {s : Store} (hs : s.Within bound) {name : Text} {v : Value}
    (h : copied? s name = some v) : v.Within bound := by
  unfold copied? at h
  split at h
  · rename_i items hitems
    cases h
    exact hs name _ hitems
  · rename_i t ht
    cases h
    exact hs name _ ht
  · cases h

/-- What a binding found: a value within the bound, and the result of the computation it shows. -/
def FoundWithin (bound : Nat) (found : Value × Label × Option Operation) : Prop :=
  found.1.Within bound ∧ ∀ o, found.2.2 = some o → o.result.IsNormal

include hbound

theorem compute_yields {allowed : Fault → Prop} {s : Store} (hs : s.Within bound) (target : Text)
    {e : Expr} (h : e.IsNormal) : Yields allowed
      (fun found => found.1.IsNormal ∧ ∀ o, found.2 = some o → o.result.IsNormal)
      (compute s target e) := by
  cases e with
  | binary op left right =>
    refine (Expr.eval_yields hs hbound h.1).bind fun a ha => ?_
    refine (Expr.eval_yields hs hbound h.2).bind fun b _ => ?_
    have hresult : (Number.apply op a b).IsNormal := Number.apply_isNormal op ha.fits b
    refine ⟨hresult, fun o ho => ?_⟩
    cases ho
    exact hresult
  | _ => exact (Expr.eval_yields hs hbound h).bind fun n hn => ⟨hn, fun _ ho => nomatch ho⟩

theorem evaluate_fold_yields {allowed : Fault → Prop}
    (hallowed : allowed (@Fault.tooLarge .total)) {s : Store} (hs : s.Within bound) (target : Text)
    (declares : Bool) (items : Text) {init : Expr} (h : init.IsNormal) :
    Yields allowed (FoundWithin bound) (evaluate s target declares (.fold items init)) := by
  refine (Expr.eval_yields hs hbound h).bind fun start hstart => ?_
  refine (sum_yields hallowed hstart.fits).bind fun total htotal => ?_
  exact ⟨Number.normalize_isNormal htotal, fun _ ho => nomatch ho⟩

theorem evaluate_element_yields {allowed : Fault → Prop} {s : Store} (hs : s.Within bound)
    (target : Text) (declares : Bool) (whole : Text) {e : Expr} (h : e.IsNormal) :
    Yields allowed (FoundWithin bound) (evaluate s target declares (.element whole e)) := by
  rw [evaluate]
  cases hcopied : copied? s whole with
  | some v => exact ⟨copied?_within hs hcopied, by simp⟩
  | none => exact (Expr.eval_yields hs hbound h).bind fun n hn => ⟨hn, by simp⟩

theorem evaluate_computed_yields {allowed : Fault → Prop} {s : Store} (hs : s.Within bound)
    (target : Text) (declares : Bool) (whole : Text) {e : Expr} (h : e.IsNormal) :
    Yields allowed (FoundWithin bound) (evaluate s target declares (.computed whole e)) := by
  rw [evaluate]
  cases hcopied : copied? s whole with
  | some v => exact ⟨copied?_within hs hcopied, by simp⟩
  | none => exact (compute_yields hbound hs target h).bind fun found hfound => hfound

/-- A variable is bound to a value within the bound if its text is not longer than that. Adding up a
list is the only fault. -/
theorem evaluate_yields {s : Store} (hs : s.Within bound) (target : Text) (declares : Bool)
    {t : Text} (ht : t.length ≤ bound) : Yields (d.MayFault source) (FoundWithin bound)
      (evaluate s target declares (readSource d t)) := by
  unfold readSource
  dsimp only
  cases hquoted : t.trim.unquote? with
  | some text =>
    have hlen : text.length ≤ t.length :=
      ((Text.unquote?_isInfix hquoted).trans t.trim_isInfix).length_le
    exact ⟨Nat.le_trans hlen ht, fun _ ho => nomatch ho⟩
  | none =>
    dsimp only
    cases hfold : fold? d t.trim with
    | some found =>
      unfold fold? at hfold
      split_ifs at hfold with hfolds
      obtain ⟨f, -, rfl⟩ := Option.map_eq_some_iff.1 hfold
      exact evaluate_fold_yields hbound (.total hfolds) hs target declares _ (Expr.read_isNormal _)
    | none =>
      dsimp only [Option.getD]
      split_ifs
      · exact evaluate_element_yields hbound hs target declares _ (Expr.operand_isNormal _)
      · exact evaluate_computed_yields hbound hs target declares _ (Expr.read_isNormal _)

/-! ### Forms of statements -/

/-- The statement keeps all variables within the bound, and has no fault beyond those of the
dialect. -/
def Safe (d : Dialect) (source : Text) (bound : Nat) (st : Statement) : Prop :=
  st.Obeys (.within bound (d.MayFault source)) (Action.Within bound)

theorem update_safe (target : Text) (op : Operator) {right : Expr} (h : right.IsNormal)
    (label : Label) : (update target op right label).Safe d source bound := by
  intro s hs
  refine (Expr.eval_yields hs hbound h).bind fun b _ => ?_
  exact Number.apply_isNormal op (hs.number target).fits b

theorem list_safe (target : Text) {items : List Expr} (hlen : items.length ≤ bound)
    (h : ∀ e ∈ items, e.IsNormal) (label : Label) :
    (list target items label).Safe d source bound := by
  intro s hs
  refine (Expr.evalAll_yields hs hbound h).bind fun values hvalues => ?_
  exact Value.within_list (hvalues.1.trans_le hlen) hvalues.2

theorem bind_safe (target : Text) {t : Text} (ht : t.length ≤ bound) (declares : Bool) :
    (bind target (readSource d t) declares).Safe d source bound := by
  intro s hs
  refine (evaluate_yields hbound hs target declares ht).bind fun found hfound => ?_
  obtain ⟨value, label, _ | o⟩ := found
  · exact hfound.1
  · exact hfound.2 o rfl

theorem print_safe {call : Pattern × PrintStyle} (h : call ∈ d.prints) (args : Text) :
    (print call.2 args).Safe d source bound := by
  intro s hs
  have hkey : call.2.fillsHoles → ∀ key, d.MayFault source (.notAnIndex key) :=
    fun hfills key => .key key (List.any_eq_true.2 ⟨call, h, hfills⟩)
  exact (call.2.render_yields hs hbound args hkey).bind fun _ _ => trivial

theorem update?_safe {t : Text} {st : Statement} (h : update? t = some st) :
    st.Safe d source bound := by
  obtain ⟨f, -, rfl⟩ := Option.map_eq_some_iff.1 h
  exact update_safe hbound _ _ (Expr.read_isNormal _) _

theorem step?_safe {t : Text} {st : Statement} (h : step? t = some st) :
    st.Safe d source bound := by
  obtain ⟨f, -, rfl⟩ := Option.map_eq_some_iff.1 h
  have hone : (Expr.literal (.int 1)).IsNormal := Number.isNormal_of_le (n := 1) (by decide +kernel)
  exact update_safe hbound _ _ hone _

theorem list?_safe {t : Text} (ht : t.length < bound) {st : Statement} (h : list? d t = some st) :
    st.Safe d source bound := by
  obtain ⟨⟨f, label⟩, hf, rfl⟩ := Option.map_eq_some_iff.1 h
  obtain ⟨p, -, hp⟩ := Pattern.mem_of_firstMatch? hf
  have hitems : (f.getD .items).length ≤ t.length := (Pattern.isInfix_getD hp .items).length_le
  have hlen := Expr.length_readItems_le (f.getD .items)
  exact list_safe hbound _ (by omega) (Expr.readItems_isNormal _) label

theorem binding?_safe {t : Text} (ht : t.length < bound) {st : Statement}
    (h : binding? d t = some st) : st.Safe d source bound := by
  obtain ⟨⟨f, declares⟩, hf, rfl⟩ := Option.map_eq_some_iff.1 h
  obtain ⟨p, -, hp⟩ := Pattern.mem_of_firstMatch? hf
  dsimp only
  cases hexpr : f.get? .expr with
  | none => exact fun _ _ => Number.isNormal_zero
  | some expr =>
    have hlen : expr.length ≤ t.length := (Pattern.isInfix_of_get? hp hexpr).length_le
    exact bind_safe hbound _ (by omega) declares

theorem print?_safe {t : Text} {st : Statement} (h : print? d t = some st) :
    st.Safe d source bound := by
  obtain ⟨⟨f, style⟩, hf, rfl⟩ := Option.map_eq_some_iff.1 h
  obtain ⟨p, hp, -⟩ := Pattern.mem_of_firstMatch? hf
  exact print_safe hbound hp _

/-- A statement on a line that is shorter than the bound is safe. -/
theorem read_safe {line : Text} (hline : line.length < bound) :
    (read d line).Safe d source bound := by
  have hinfix : body line <:+: line :=
    (Text.trim_isInfix _).trans ((Text.dropTail_isPrefix _ _).isInfix.trans line.trim_isInfix)
  have hbody : (body line).length < bound := Nat.lt_of_le_of_lt hinfix.length_le hline
  generalize hread : read d line = st
  rcases read_cases hread with rfl | h | h | h | h | h
  · exact fun _ _ => trivial
  · exact update?_safe hbound h
  · exact step?_safe hbound h
  · exact list?_safe hbound hbody h
  · exact binding?_safe hbound hbody h
  · exact print?_safe hbound h

theorem readAll_safe {clause : Text} (hclause : clause.length < bound) :
    ∀ st ∈ readAll d clause, st.Safe d source bound := by
  intro st hst
  obtain ⟨part, hpart, rfl⟩ := List.mem_map.1 hst
  exact read_safe hbound (Nat.lt_of_le_of_lt (Text.infix_of_mem_splitParts hpart).length_le hclause)

end Statement

/-! ## Loops -/

theorem Sweep.numbers_obeys {allowed : Fault → Prop} (item : Text) {start stop step : Int}
    (hstep : step ≠ 0)
    (h : ∀ n : Int, (start ≤ n ∧ n < stop) ∨ (stop < n ∧ n ≤ start) →
      n.natAbs ≤ Double.largestInt) :
    (Sweep.numbers start stop step hstep).Obeys (.within bound allowed) item := by
  intro limit v hv position total
  obtain ⟨n, hn, rfl⟩ := List.mem_map.1 hv
  exact h n ((Progression.between_of_mem_values hstep (by omega) hn).imp And.right And.right)

theorem Loop.rangeSweep_obeys {allowed : Fault → Prop} (item : Text) {floors : List Int}
    (h : ∀ n ∈ floors, n.natAbs ≤ Double.largestInt) :
    (rangeSweep floors).Obeys (.within bound allowed) item := by
  unfold rangeSweep
  split
  · rename_i stop
    have hstop := h stop (by simp)
    exact Sweep.numbers_obeys item _ fun n hn => by omega
  · rename_i start stop
    have hstart := h start (by simp)
    have hstop := h stop (by simp)
    exact Sweep.numbers_obeys item _ fun n hn => by omega
  · rename_i start stop step rest
    have hstart := h start (by simp)
    have hstop := h stop (by simp)
    split_ifs with hstep
    · exact fun _ => List.forall_mem_nil _
    · exact Sweep.numbers_obeys item _ fun n hn => by omega
  · exact fun _ => List.forall_mem_nil _

include hbound

theorem loopCondition_obeys {allowed : Fault → Prop} (t : Text) :
    (loopCondition t).Obeys (.within bound allowed) := by
  unfold loopCondition
  split_ifs
  · exact Condition.obeys_constant true
  · exact fun s hs => Condition.eval_yields hs hbound t

/-- The head of a loop whose parts are shorter than the bound obeys the discipline. -/
theorem readLoop_obeys {f : Found} (hf : ∀ slot, (f.getD slot).length < bound) (form : LoopForm) :
    (readLoop d f form).Obeys (.within bound (d.MayFault source)) := by
  cases form with
  | range =>
    intro s hs
    refine (Expr.evalAll_yields hs hbound fun e he => ?_).bind fun numbers hnumbers => ?_
    · obtain ⟨part, -, rfl⟩ := List.mem_map.1 he
      exact Expr.read_isNormal part
    · refine Loop.rangeSweep_obeys _ fun n hn => ?_
      obtain ⟨number, hnumber, rfl⟩ := List.mem_map.1 hn
      exact (hnumbers.2 number hnumber).natAbs_floor_le
  | span =>
    intro s hs
    refine (Expr.eval_yields hs hbound (Expr.read_isNormal _)).bind fun low hlow => ?_
    refine (Expr.eval_yields hs hbound (Expr.read_isNormal _)).bind fun high hhigh => ?_
    have hlow := hlow.natAbs_floor_le
    have hhigh := hhigh.natAbs_floor_le
    refine Sweep.numbers_obeys _ _ fun n hn => ?_
    split_ifs at hn <;> omega
  | each =>
    intro s hs
    rw [readLoop, Loop.sweep]
    split
    · rename_i values hvalues
      intro limit v hv position total
      obtain ⟨n, rfl, hn⟩ := (hs _ _ hvalues).2 v hv
      exact hn
    · exact fun _ => List.forall_mem_nil _
  | clauses =>
    have htrim : ∀ slot, (Text.trim (f.getD slot)).length < bound := fun slot =>
      Nat.lt_of_le_of_lt (Text.trim_isInfix (f.getD slot)).length_le (hf slot)
    exact ⟨Statement.readAll_safe hbound (htrim .init), loopCondition_obeys hbound _,
      Statement.readAll_safe hbound (htrim .update)⟩
  | condition =>
    refine ⟨List.forall_mem_nil _, ?_, List.forall_mem_nil _⟩
    cases f.get? .cond with
    | none => exact Condition.obeys_constant true
    | some t => exact fun s hs => Condition.eval_yields hs hbound t

/-- A line shorter than the bound obeys the discipline as a statement and as the head of a loop. -/
theorem Dialect.lineObeys {line header : Text} (hline : line.length < bound)
    (hheader : header.length ≤ line.length) :
    d.LineObeys (.within bound (d.MayFault source)) line header where
  statement := Statement.read_safe hbound hline
  loop head hhead := by
    obtain ⟨⟨f, form⟩, hf, rfl⟩ := Option.map_eq_some_iff.1 hhead
    obtain ⟨p, -, hp⟩ := Pattern.mem_of_firstMatch? hf
    refine readLoop_obeys hbound (fun slot => ?_) form
    have hslot := (Pattern.isInfix_getD hp slot).length_le
    omega

end Parts

/-! ## Programs -/

/-- Every program that was read keeps its variables within four times the size of its snippet. -/
theorem Program.read_obeys (d : Dialect) {source : Text}
    (hbound : 4 * source.length + 5 ≤ Double.largestInt) :
    (Program.read d source).1.Obeys (.within (4 * source.length + 5) (d.MayFault source)) := by
  have hcond : ∀ t, (Condition.read t).Obeys
      (.within (4 * source.length + 5) (d.MayFault source)) :=
    fun t s hs => Condition.eval_yields hs hbound t
  unfold Program.read
  cases hlayout : d.layout with
  | indented =>
    refine Program.ofIndented_obeys hcond fun line hline => ⟨?_, fun hmalformed => ?_⟩
    · have hlen : line.text.length ≤ 4 * source.length := length_of_mem_indentedLines hline
      exact d.lineObeys hbound (by omega) (indentedHeader_isPrefix line.text).length_le
    · have hfeed := no_feed_of_mem_indentedLines hline
      exact .clause hlayout ⟨line, hline, hmalformed.isBare hfeed⟩
  | braced =>
    refine Program.ofBraced_obeys hcond (Or.inl trivial) fun line hline => ?_
    have hlen : line.length ≤ source.length + 4 := length_of_mem_bracedLines hline
    exact d.lineObeys hbound (by omega) (length_bracedHeader_le line)

/-- A run ends in no fault but those of its dialect. -/
theorem Dialect.mayFault_of_trace {d : Dialect} {limits : Limits} {source : Text} {f : Fault}
    (hsize : source.length < 2 ^ 63) (h : d.trace limits source = .fault f) :
    d.MayFault source f := by
  have hbound : 4 * source.length + 5 ≤ Double.largestInt := by
    have hlargest : 2 ^ 66 ≤ Double.largestInt := by decide +kernel
    omega
  have hobeys := Dialect.trace_obeys limits (Program.read_obeys d hbound) Store.within_empty
  rw [h] at hobeys
  exact hobeys

/-! ## Languages -/

/-- Which languages add up lists, have holes for arguments, or are indented. -/
theorem Dialect.languages_of_features (id : Text) :
    ((ofId id).folds →
      Language.ofId? id = some .javascript ∨ Language.ofId? id = some .typescript) ∧
    ((ofId id).fillsHoles → Language.ofId? id = some .rust ∨ Language.ofId? id = some .csharp ∨
      Language.ofId? id = some .python) ∧
    ((ofId id).layout = .indented → Language.ofId? id = some .python ∨
      Language.ofId? id = some .sql ∨ Language.ofId? id = none) := by
  unfold ofId
  cases Language.ofId? id with
  | none => decide
  | some language => cases language <;> decide

/-- How a run of a snippet can fail, for a text whose characters can be counted by a machine word.
In C, C++, Java and Go it cannot. In Rust and C# a hole can have a key that is no number, in
JavaScript and TypeScript a sum can become too large, and in every other language but Python a
further clause can lack its condition, if its line says nothing else. In Python both a key and a
clause can fail. No other fault occurs: no index and no number to be written with places is too
large, no range has step zero, and the message of every note has its arguments. -/
theorem Dialect.trace_faults (id : Text) (limits : Limits) (l : Locale) {source : Text}
    (hsource : source.length < 2 ^ 63) :
    (∀ f, (ofId id).trace limits source = .fault f →
      match Language.ofId? id with
      | some .c | some .cpp | some .java | some .go => False
      | some .rust | some .csharp => ∃ key, f = .notAnIndex key
      | some .javascript | some .typescript => f = @Fault.tooLarge .total
      | some .python =>
        (f = .noCondition ∧ ∃ line ∈ indentedLines (ofId id) source, line.IsBare) ∨
          ∃ key, f = .notAnIndex key
      | some .sql | none =>
        f = .noCondition ∧ ∃ line ∈ indentedLines (ofId id) source, line.IsBare) ∧
    ∀ (note : Note) label args, note.message? l = some (label, args) →
      ∃ t, translate l label.key.toList args = .ok t := by
  refine ⟨fun f hf => ?_, fun _ _ _ h => Note.exists_translate_message h⟩
  obtain ⟨hfolds, hholes, hindented⟩ := languages_of_features id
  cases mayFault_of_trace hsource hf with
  | total h =>
    rcases hfolds h with hid | hid
    · rw [hid]
    · rw [hid]
  | key key h =>
    rcases hholes h with hid | hid | hid
    · rw [hid]
      exact ⟨key, rfl⟩
    · rw [hid]
      exact ⟨key, rfl⟩
    · rw [hid]
      exact Or.inr ⟨key, rfl⟩
  | clause h hline =>
    rcases hindented h with hid | hid | hid
    · rw [hid]
      exact Or.inl ⟨rfl, hline⟩
    · rw [hid]
      exact ⟨rfl, hline⟩
    · rw [hid]
      exact ⟨rfl, hline⟩

/-- The fault that a run ended in. -/
def Outcome.fault? : Outcome → Option Fault
  | .fault f => some f
  | _ => none

theorem Outcome.eq_fault {o : Outcome} {f : Fault} (h : o.fault? = some f) : o = .fault f := by
  cases o with
  | fault cause => cases h; rfl
  | _ => cases h

/-- Each of the three faults does end a run, and behind the missing condition there is a bare line.
-/
theorem Dialect.trace_faults_occur :
    (ofId "rust".toList).trace .usual "println!(\"\x7b²\x7d\", 1);".toList =
      .fault (.notAnIndex ['²']) ∧
    (ofId "javascript".toList).trace .usual
      "let a = [1e308, 1e308, 0.5];\nlet s = a.reduce((x, y) => x + y, 0);".toList =
      .fault (@Fault.tooLarge .total) ∧
    (ofId "sql".toList).trace .usual "if 1 > 2:\n  x = 1\nelif  :\n  x = 2".toList =
      .fault .noCondition ∧
    ∃ line ∈ indentedLines (ofId "sql".toList) "if 1 > 2:\n  x = 1\nelif  :\n  x = 2".toList,
      line.IsBare := by
  have hclause : (ofId "sql".toList).trace .usual
      "if 1 > 2:\n  x = 1\nelif  :\n  x = 2".toList = .fault .noCondition :=
    Outcome.eq_fault (by decide +kernel)
  refine ⟨Outcome.eq_fault (by decide +kernel), Outcome.eq_fault (by decide +kernel), hclause, ?_⟩
  exact ((trace_faults "sql".toList .usual .english (by decide +kernel)).1 _ hclause).2

end StepTrace
