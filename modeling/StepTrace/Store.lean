import StepTrace.Value

/-!
# Stores

A store binds names to values. The names stand in the order in which they were first bound: binding
a name again changes its value and not its place. `Store.names` is the view that shows this order.
-/

namespace StepTrace

/-- Names and their values, in the order of their first binding. -/
structure Store where
  bindings : List (Text × Value)
deriving Repr, Inhabited

namespace Store

/-- The store that binds nothing. -/
def empty : Store := ⟨[]⟩

/-- The names in the order of their first binding. -/
def names (s : Store) : List Text := s.bindings.map Prod.fst

/-- The value of a name in a list of bindings. -/
def find? (name : Text) : List (Text × Value) → Option Value
  | [] => none
  | (n, v) :: rest => if n = name then some v else find? name rest

/-- The value bound to a name. -/
def get? (s : Store) (name : Text) : Option Value := find? name s.bindings

/-- Bind a name in a list of bindings: in its place, or at the end. -/
def bind (name : Text) (value : Value) : List (Text × Value) → List (Text × Value)
  | [] => [(name, value)]
  | (n, v) :: rest => if n = name then (n, value) :: rest else (n, v) :: bind name value rest

/-- Bind a name. -/
def insert (s : Store) (name : Text) (value : Value) : Store := ⟨bind name value s.bindings⟩

/-- A store with the given bindings, made one after the other. -/
def ofList (bindings : List (Text × Value)) : Store :=
  bindings.foldl (fun s b => s.insert b.1 b.2) empty

/-- Append an item to the list bound to a name. -/
def append? (s : Store) (name : Text) (item : Value) : Option Store :=
  match s.get? name with
  | some (.list items) => some (s.insert name (.list (items ++ [item])))
  | _ => none

/-- The value of a name seen as a number; an unbound name is 0. -/
def number (s : Store) (name : Text) : Number :=
  match s.get? name with
  | some v => v.toNumber
  | none => .zero

/-- The display text of a store: names and values between braces. -/
def display (s : Store) : Text :=
  match s.bindings with
  | [] => "\x7b\x7d".toList
  | bindings =>
    let shown := bindings.map fun b => b.1 ++ ": ".toList ++ b.2.display
    "\x7b ".toList ++ Text.joined ", ".toList shown ++ " \x7d".toList

end Store

end StepTrace
