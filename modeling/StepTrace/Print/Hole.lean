import StepTrace.Print.Argument

/-!
# Holes in templates

A template is cut once into its characters and its holes. In the plain form a hole is a pair of
braces with no brace between them; in the dollar form it is a dollar sign, a brace, and everything
up to the next closing brace, which must not be empty. In both forms the part of a hole from its
first colon on is a format that is ignored.

A hole is filled by an expression, or, when the template has arguments, by one of them: the argument
whose number it holds, or the next one in order if it holds nothing. A hole for an argument that is
not there stays as it is written.
-/

namespace StepTrace.Print

open CharClass

/-- A character or a hole of a template. -/
inductive Piece where
  | char (c : Char)
  | hole (content whole : Text)
deriving DecidableEq, Repr

/-- The two forms of a hole. -/
inductive HoleForm where
  | plain
  | dollar
deriving DecidableEq, Repr

/-- The content of the hole that a text begins with. -/
def holeAt? : HoleForm → Text → Option Text
  | .plain, '\x7b' :: t =>
    match t.dropWhile (fun c => c != '\x7b' && c != '\x7d') with
    | '\x7d' :: _ => some (t.takeWhile fun c => c != '\x7b' && c != '\x7d')
    | _ => none
  | .dollar, '$' :: '\x7b' :: t =>
    let content := t.takeWhile (· != '\x7d')
    if content.isEmpty || content.length == t.length then none else some content
  | _, _ => none

/-- The number of characters of a hole around its content. -/
def HoleForm.frame : HoleForm → Nat
  | .plain => 2
  | .dollar => 3

/-- The pieces of a template after passing over `skip` characters of the last hole. -/
def piecesFrom (form : HoleForm) : (skip : Nat) → Text → List Piece
  | _, [] => []
  | skip + 1, _ :: t => piecesFrom form skip t
  | 0, c :: t =>
    match holeAt? form (c :: t) with
    | some content =>
      let size := content.length + form.frame
      .hole content ((c :: t).take size) :: piecesFrom form (size - 1) t
    | none => .char c :: piecesFrom form 0 t

/-- The pieces of a template. -/
def pieces (form : HoleForm) (t : Text) : List Piece := piecesFrom form 0 t

/-- The key of a hole: its content up to the first colon, trimmed. -/
def holeKey (content : Text) : Text := (Text.upTo ':' content).trim

/-! ## Expressions in holes -/

/-- The text for a hole that holds an expression. -/
def holeValue (s : Store) (key : Text) : Except Fault Text :=
  match s.get? key with
  | some v => .ok v.display
  | none => do return (← (Expr.read key).eval s).display

/-- A template with the value of its expression in every hole. -/
def interpolated (form : HoleForm) (s : Store) (template : Text) : Except Fault Text := do
  let texts ← (pieces form template).mapM fun
    | .char c => pure [c]
    | .hole content _ => holeValue s (holeKey content)
  return texts.flatten

/-! ## Arguments in holes -/

/-- What a hole asks for. -/
inductive Request where
  | next
  | argument (index : Nat)
  | missing
  | expression (key : Text)
deriving DecidableEq, Repr

/-- The longest key that is taken for a number. -/
def longestIndex : Nat := 6

/-- What a hole with this key asks for. Digit characters without a place value are no number. -/
def Request.ofKey (key : Text) : Except Fault Request :=
  if key.isEmpty then .ok .next
  else if key.all isDigit then
    if longestIndex < key.length then .ok .missing
    else if key.all isDecimal then .ok (.argument (Literal.value key))
    else .error (.notAnIndex key)
  else .ok (.expression key)

/-- The text for a hole, and how many arguments have then been taken in order. -/
def fillHole (s : Store) (args : List Text) (taken : Nat) (content whole : Text) :
    Except Fault (Text × Nat) := do
  match ← Request.ofKey (holeKey content) with
  | .next =>
    match args[taken]? with
    | some arg => return (← value s arg, taken + 1)
    | none => return (whole, taken)
  | .argument index =>
    match args[index]? with
    | some arg => return (← value s arg, taken)
    | none => return (whole, taken)
  | .missing => return (whole, taken)
  | .expression key => return (← value s key, taken)

/-- Fill the holes from left to right. -/
def fillHoles (s : Store) (args : List Text) : (taken : Nat) → List Piece → Except Fault Text
  | _, [] => .ok []
  | taken, .char c :: rest => do return c :: (← fillHoles s args taken rest)
  | taken, .hole content whole :: rest => do
    let (text, taken) ← fillHole s args taken content whole
    return text ++ (← fillHoles s args taken rest)

/-- A quoted template and its arguments. Without one the arguments are shown one after the other. -/
def composed (s : Store) (args : Text) : Except Fault Text :=
  match args.arguments with
  | [] => .ok []
  | first :: rest =>
    match first.unquote? with
    | some template => do return withoutFeeds (← fillHoles s rest 0 (pieces .plain template))
    | none => words s args

end StepTrace.Print
