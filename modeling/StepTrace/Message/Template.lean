import StepTrace.Fault

/-!
# Message templates

A message template is a row of texts and named places. Filling it puts an argument in every place,
and a place without an argument is a fault.
-/

namespace StepTrace

/-- A piece of a message template. -/
inductive Fragment where
  | text (value : String)
  | argument (name : String)
deriving DecidableEq, Repr

/-- A message with places for arguments. -/
abbrev Template := List Fragment

namespace Template

/-- The template as it is written, its places between braces. -/
def source (t : Template) : Text :=
  t.flatMap fun
    | .text value => value.toList
    | .argument name => '\x7b' :: name.toList ++ ['\x7d']

/-- The template with its arguments. A place without one stays empty. -/
def fillWith (t : Template) (args : List (Text × Text)) : Text :=
  t.flatMap fun
    | .text value => value.toList
    | .argument name => (args.lookup name.toList).getD []

/-- The first place without an argument. -/
def missing? (t : Template) (args : List (Text × Text)) : Option Text :=
  t.findSome? fun
    | .text _ => none
    | .argument name => if (args.lookup name.toList).isSome then none else some name.toList

/-- The template with its arguments, all of which have to be there. -/
def fill (t : Template) (args : List (Text × Text)) : Except Fault Text :=
  match t.missing? args with
  | some name => .error (.missingArgument name)
  | none => .ok (t.fillWith args)

end Template

end StepTrace
