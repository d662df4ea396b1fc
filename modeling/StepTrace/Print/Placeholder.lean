import StepTrace.Print.Argument

/-!
# Percent placeholders

A placeholder is a percent sign, an optional precision of a point and one or two digits, and one of
seven letters. The arguments are filled in from left to right, each at the first placeholder of the
text as it then is. Two percent signs stand for one.
-/

namespace StepTrace.Print

open CharClass

/-- A placeholder behind its percent sign: the precision, if any, and what follows. -/
def placeholderAt? (t : Text) : Option (Option Nat × Text) :=
  let (precision, rest) : Option Nat × Text :=
    match t with
    | '.' :: t =>
      let digits := (t.take 2).takeWhile isDecimal
      if digits.isEmpty then (none, '.' :: t)
      else (some (Literal.value digits), t.drop digits.length)
    | t => (none, t)
  match rest with
  | c :: rest => if "dsfiuvc".toList.contains c then some (precision, rest) else none
  | [] => none

/-- The first placeholder: what comes before it, its precision, and what follows. -/
def firstPlaceholder? : Text → Option (Text × Option Nat × Text)
  | [] => none
  | c :: t =>
    match (if c = '%' then placeholderAt? t else none) with
    | some (precision, rest) => some ([], precision, rest)
    | none => (firstPlaceholder? t).map fun (before, found) => (c :: before, found)

/-- A number with a set number of places. -/
def withPlaces (count : Nat) (n : Number) : Except Fault Text :=
  match n.toDouble? with
  | none => .error (@Fault.tooLarge .places)
  | some (.finite negative units) => .ok (Decimal.fixed count negative units)
  | some _ => .ok n.display

/-- The text for a placeholder. A precision matters for numbers only. -/
def filling (s : Store) (precision : Option Nat) (arg : Text) : Except Fault Text :=
  match precision with
  | some count =>
    if arg.isQuotedLiteral then value s arg
    else do withPlaces count (← (Expr.read arg).eval s)
  | none => value s arg

/-- Fill the arguments in, one after the other, as long as there is a placeholder. -/
def fill (s : Store) : (args : List Text) → Text → Except Fault Text
  | [], t => .ok t
  | arg :: rest, t =>
    match firstPlaceholder? t with
    | none => .ok t
    | some (before, precision, behind) => do
      fill s rest (before ++ (← filling s precision arg) ++ behind)

/-- A template and its arguments. Without a percent sign in the template the arguments follow it,
with a space before each. -/
def formatted (s : Store) (args : Text) : Except Fault Text :=
  match args.arguments with
  | [] => .ok []
  | first :: rest => do
    let template ← value s first
    if template.contains '%' then
      return withoutFeeds (Text.replace ['%', '%'] ['%'] (← fill s rest template))
    else
      return withoutFeeds (Text.joined [' '] (template :: (← values s rest)))

end StepTrace.Print
