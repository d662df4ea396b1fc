import StepTrace.Expr.Read

/-!
# Arguments of a print call

An argument is a quoted text, a list between square brackets, or an expression. An expression that
is the name of a variable shows the variable, and otherwise its value as a number. A quoted text
ends in the quote it begins with and has no bare quote of that kind inside, a bare quote being one
without a backslash right before it.
-/

namespace StepTrace

namespace Text

/-- A quote without a backslash before it occurs. -/
def hasBare (quote : Char) : (previous : Option Char) → Text → Bool
  | _, [] => false
  | previous, c :: t => (c == quote && previous != some '\\') || hasBare quote (some c) t

/-- The text inside a quoted literal. -/
def unquote? (t : Text) : Option Text :=
  match t.trim with
  | quote :: rest =>
    if isQuote quote ∧ rest.getLast? = some quote then
      let inner := rest.dropLast
      if hasBare quote none inner then none else some inner
    else none
  | [] => none

/-- The text is a quoted literal. -/
def isQuotedLiteral (t : Text) : Bool := t.unquote?.isSome

end Text

/-- What one argument of a print call is. -/
inductive Argument where
  | quoted (text : Text)
  | list (items : List Expr)
  | value (source : Text) (expr : Expr)
deriving DecidableEq, Repr

namespace Argument

/-- Read an argument. -/
def read (t : Text) : Argument :=
  let body := t.trim
  match body.unquote? with
  | some text => .quoted text
  | none =>
    match Expr.readList? body with
    | some items => .list items
    | none => .value body (Expr.read body)

/-- The text of an argument. -/
def render (s : Store) : Argument → Except Fault Text
  | quoted text => .ok text
  | list items => do
    return Value.display (.list ((← Expr.evalAll s items).map .num))
  | value source expr =>
    match s.get? source with
    | some v => .ok v.display
    | none => do return (← expr.eval s).display

end Argument

namespace Print

/-- The text of one argument. -/
def value (s : Store) (t : Text) : Except Fault Text := (Argument.read t).render s

/-- The texts of several arguments. -/
def values (s : Store) (ts : List Text) : Except Fault (List Text) := ts.mapM (value s)

/-- A concatenation of terms if at least one is quoted and there are enough of them, and one
argument otherwise. -/
def concatenated (atLeast : Nat) (s : Store) (t : Text) : Except Fault Text :=
  let terms := t.terms
  if atLeast ≤ terms.length ∧ terms.any Text.isQuotedLiteral then
    return (← values s terms).flatten
  else value s t

/-- An argument that may be a concatenation of two terms or more. -/
def phrase (s : Store) (t : Text) : Except Fault Text := concatenated 2 s t

/-- An argument in which even a single quoted term counts as a concatenation. -/
def sum (s : Store) (t : Text) : Except Fault Text := concatenated 1 s t

/-- The texts that are not empty with a space between them, trimmed. -/
def spaced (ts : List Text) : Text :=
  (Text.joined [' '] (ts.filter (! ·.isEmpty))).trim

/-- The arguments one after the other with a space between them. -/
def words (s : Store) (args : Text) : Except Fault Text := do
  return spaced (← args.arguments.mapM (phrase s))

/-- Drop the marks for a line feed, a backslash and the letter n, and trim. -/
def withoutFeeds (t : Text) : Text := (Text.replace ['\\', 'n'] [] t).trim

/-- What ends a line in a stream and is not shown. -/
def streamEnds : List Text :=
  ["std::endl".toList, "endl".toList, "\"\\n\"".toList, "'\\n'".toList]

/-- The items written to a stream, one after the other. -/
def stream (s : Store) (chain : Text) : Except Fault Text := do
  let items := chain.streamItems.filter (! streamEnds.contains ·)
  return withoutFeeds (← values s items).flatten

end Print

end StepTrace
