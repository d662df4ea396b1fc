import StepTrace.Condition
import StepTrace.Proofs.Fault
import StepTrace.Proofs.Number.Normal
import StepTrace.Proofs.Store
import StepTrace.Proofs.Text.Pieces

/-!
# Expressions over variables in normal form

A value is within a bound (`Value.Within`) if it is a number in normal form, a text of at most so
many characters, or a list of at most so many numbers in normal form. If all variables are, and the
bound is small enough to be a double, then no expression and no condition that was read has a fault,
and the value of an expression is in normal form (`Expr.eval_yields`, `Condition.eval_yields`): an
index that is too large for a double does not occur.
-/

namespace StepTrace

/-! ## Values -/

/-- A number in normal form, or a text or list of numbers in normal form that is not too long. -/
def Value.Within (bound : Nat) : Value → Prop
  | .num n => n.IsNormal
  | .text t => t.length ≤ bound
  | .list items => items.length ≤ bound ∧ ∀ v ∈ items, ∃ n : Number, v = .num n ∧ n.IsNormal
  | _ => False

/-- A number that is a value or occurs in one, at any depth. -/
inductive Value.Holds (n : Number) : Value → Prop
  | num : Holds n (.num n)
  | item {items : List Value} {v : Value} (hv : v ∈ items) (h : Holds n v) : Holds n (.list items)

/-- All variables are within a bound. -/
def Store.Within (bound : Nat) (s : Store) : Prop :=
  ∀ name v, s.get? name = some v → v.Within bound

section Values

variable {bound : Nat} {s : Store}

theorem Value.isNormal_toNumber {v : Value} (h : ∀ {n : Number}, v.Holds n → n.IsNormal) :
    v.toNumber.IsNormal := by
  cases v with
  | null => exact Number.isNormal_zero
  | bool b => cases b <;> exact Number.isNormal_of_le (by decide +kernel)
  | num n => exact h .num
  | text t =>
    rw [toNumber]
    cases ht : Number.ofLiteral? t with
    | none => exact Number.isNormal_zero
    | some n => exact Number.ofLiteral?_isNormal ht
  | list items => exact Number.isNormal_zero

theorem Value.Within.isNormal_of_holds {v : Value} (h : v.Within bound) {n : Number}
    (hn : v.Holds n) : n.IsNormal := by
  cases hn with
  | num => exact h
  | item hv hn =>
    obtain ⟨m, rfl, hm⟩ := h.2 _ hv
    cases hn
    exact hm

theorem Value.within_list {numbers : List Number} (hlen : numbers.length ≤ bound)
    (h : ∀ n ∈ numbers, n.IsNormal) : (Value.list (numbers.map .num)).Within bound := by
  refine ⟨by rwa [List.length_map], fun v hv => ?_⟩
  obtain ⟨n, hn, rfl⟩ := List.mem_map.1 hv
  exact ⟨n, rfl, h n hn⟩

theorem Store.within_empty : Store.empty.Within bound := fun _ _ h => nomatch h

theorem Store.Within.insert (hs : s.Within bound) {v : Value} (hv : v.Within bound) (name : Text) :
    (s.insert name v).Within bound := by
  intro n w hw
  rw [Store.get?_insert] at hw
  split_ifs at hw
  · cases hw
    exact hv
  · exact hs n w hw

theorem Store.isNormal_number {name : Text}
    (h : ∀ {v n}, s.get? name = some v → v.Holds n → n.IsNormal) : (s.number name).IsNormal := by
  rw [Store.number]
  cases hv : s.get? name with
  | none => exact Number.isNormal_zero
  | some v => exact Value.isNormal_toNumber (h hv)

theorem Store.Within.number (hs : s.Within bound) (name : Text) : (s.number name).IsNormal :=
  Store.isNormal_number fun hv hn => (hs name _ hv).isNormal_of_holds hn

theorem Value.length?_le {v : Value} (hv : v.Within bound) {n : Nat} (h : v.length? = some n) :
    n ≤ bound := by
  cases v with
  | text t => cases h; exact hv
  | list items => cases h; exact hv.1
  | _ => cases h

end Values

/-! ## Items -/

/-- Neither infinite nor without a value. -/
def Number.isFinite : Number → Bool
  | .int _ => true
  | .float x => x.isFinite

/-- The item at the floor of an index. It is 0 outside of the list and at an index that is not
finite. -/
def itemAt (items : List Value) (index : Number) : Number :=
  if index.isFinite ∧ 0 ≤ index.floor then (items[index.floor.toNat]?.map Value.toNumber).getD .zero
  else .zero

theorem isNormal_itemAt {items : List Value} (h : ∀ {n}, (Value.list items).Holds n → n.IsNormal)
    (index : Number) : (itemAt items index).IsNormal := by
  rw [itemAt]
  split_ifs
  · cases hitem : items[index.floor.toNat]? with
    | none => exact Number.isNormal_zero
    | some v =>
      exact Value.isNormal_toNumber fun hn => h (.item (List.mem_of_getElem? hitem) hn)
  · exact Number.isNormal_zero

/-- At an index in normal form there is an element. -/
theorem elementAt_eq {index : Number} (h : index.IsNormal) (items : List Value) :
    elementAt items index = .ok (itemAt items index) := by
  obtain ⟨x, hx⟩ := Option.isSome_iff_exists.1 h.toDouble?
  have hfinite : x.isFinite = index.isFinite := by
    cases index with
    | float y =>
      rw [Number.toDouble?, Option.some_inj] at hx
      rw [hx, Number.isFinite]
    | int n =>
      rw [Number.toDouble?, Double.ofInt?] at hx
      generalize Double.rounded _ _ _ = y at hx
      cases y with
      | finite negative units =>
        cases hx
        rfl
      | _ => cases hx
  rw [elementAt, hx, itemAt, ← hfinite]
  dsimp only
  split_ifs
  · cases items[index.floor.toNat]? <;> rfl
  · rfl

/-! ## Evaluating -/

/-- All literals of an expression are in normal form. -/
def Expr.IsNormal : Expr → Prop
  | .literal n => n.IsNormal
  | .element _ index _ => index.IsNormal
  | .binary _ left right => left.IsNormal ∧ right.IsNormal
  | _ => True

section Evaluating

variable {bound : Nat} {s : Store} {allowed : Fault → Prop}

/-- The value of an expression is a number in normal form, without a fault, if the numbers in the
variables are and no length is too large for a double. -/
theorem Expr.eval_isNormal
    (hnormal : ∀ {name v n}, s.get? name = some v → v.Holds n → n.IsNormal)
    (hsized : ∀ {name v k}, s.get? name = some v → v.length? = some k → k ≤ Double.largestInt) :
    ∀ {e : Expr}, e.IsNormal → Yields allowed Number.IsNormal (e.eval s)
  | .literal n, h => h
  | .named name, _ => Store.isNormal_number hnormal
  | .length name whole, _ => by
    rw [Expr.eval]
    cases hlen : (s.get? name).bind Value.length? with
    | none => exact Store.isNormal_number hnormal
    | some n =>
      obtain ⟨v, hv, hn⟩ := Option.bind_eq_some_iff.1 hlen
      exact Number.isNormal_of_le (hsized hv hn)
  | .element name index whole, h => by
    rw [Expr.eval]
    split
    · rename_i items hitems
      have hindex : index.IsNormal := h
      refine (Expr.eval_isNormal hnormal hsized hindex).bind fun i hi => ?_
      rw [elementAt_eq hi]
      exact isNormal_itemAt (hnormal hitems) i
    · exact Store.isNormal_number hnormal
  | .binary op left right, h => by
    rw [Expr.eval]
    refine (Expr.eval_isNormal hnormal hsized h.1).bind fun a ha => ?_
    refine (Expr.eval_isNormal hnormal hsized h.2).bind fun b _ => ?_
    exact Number.apply_isNormal op ha.fits b

theorem Expr.eval_yields (hs : s.Within bound) (hbound : bound ≤ Double.largestInt) {e : Expr}
    (h : e.IsNormal) : Yields allowed Number.IsNormal (e.eval s) :=
  eval_isNormal (fun hv hn => (hs _ _ hv).isNormal_of_holds hn)
    (fun hv hk => (Value.length?_le (hs _ _ hv) hk).trans hbound) h

theorem Expr.evalAll_yields (hs : s.Within bound) (hbound : bound ≤ Double.largestInt)
    {es : List Expr} (h : ∀ e ∈ es, e.IsNormal) :
    Yields allowed (fun ns => ns.length = es.length ∧ ∀ n ∈ ns, n.IsNormal) (evalAll s es) :=
  .mapM fun e he => eval_yields hs hbound (h e he)

end Evaluating

/-! ## Reading -/

namespace Expr

theorem readWith_isNormal {operand : Text → Expr} (h : ∀ t, (operand t).IsNormal) (t : Text) :
    (readWith operand t).IsNormal := by
  unfold readWith
  dsimp only
  cases hliteral : Number.ofLiteral? t.trim with
  | some n => exact Number.ofLiteral?_isNormal hliteral
  | none =>
    cases cut? t.trim with
    | some parts => exact ⟨h _, h _⟩
    | none => exact h _

theorem operandWithin_isNormal : ∀ (depth : Nat) (t : Text), (operandWithin depth t).IsNormal
  | 0, _ => trivial
  | depth + 1, t => by
    rw [operandWithin]
    split_ifs
    · exact Number.isNormal_zero
    · cases hliteral : Number.ofLiteral? t.trim with
      | some n => exact Number.ofLiteral?_isNormal hliteral
      | none =>
        dsimp only
        split
        · exact trivial
        · exact trivial
        · exact readWith_isNormal (operandWithin_isNormal depth) _
        · exact trivial

theorem operand_isNormal (t : Text) : (operand t).IsNormal := operandWithin_isNormal _ t

theorem read_isNormal (t : Text) : (read t).IsNormal := readWith_isNormal operand_isNormal t

theorem readItems_isNormal (t : Text) : ∀ e ∈ readItems t, e.IsNormal := by
  unfold readItems
  split_ifs
  · exact fun _ h => nomatch h
  · intro e he
    obtain ⟨item, -, rfl⟩ := List.mem_map.1 he
    exact operand_isNormal item

theorem readList?_isNormal {t : Text} {items : List Expr} (h : readList? t = some items) :
    ∀ e ∈ items, e.IsNormal := by
  obtain ⟨inner, -, h⟩ := Option.bind_eq_some_iff.1 h
  split_ifs at h
  cases h
  exact readItems_isNormal inner

theorem length_readItems_le (t : Text) : (readItems t).length ≤ t.length + 1 := by
  unfold readItems
  split_ifs
  · exact Nat.zero_le _
  · rw [List.length_map]
    exact Text.length_splitTop_le [','] t

end Expr

/-- A condition that was read can be evaluated. -/
theorem Condition.eval_yields {bound : Nat} {s : Store} {allowed : Fault → Prop}
    (hs : s.Within bound) (hbound : bound ≤ Double.largestInt) (t : Text) :
    Yields allowed (fun _ => True) ((Condition.read t).eval s) := by
  unfold Condition.read
  dsimp only
  split_ifs
  · exact trivial
  · exact trivial
  · cases cut? t.unwrap with
    | none => exact trivial
    | some parts =>
      refine (Expr.eval_yields hs hbound (Expr.read_isNormal _)).bind fun a _ => ?_
      exact (Expr.eval_yields hs hbound (Expr.read_isNormal _)).bind fun b _ => trivial

end StepTrace
