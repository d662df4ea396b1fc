import StepTrace.Pattern.Basic
import StepTrace.Source.Code

/-!
# One statement a line

A line of brace code is cut into statements: after a semicolon, after the brace that opens a block,
and around the brace that closes one. Semicolons inside parentheses and in the header of a counting
loop do not cut, and the braces of an initializer belong to their statement. Quotations are never
cut.
-/

namespace StepTrace

open Pattern

/-! ## What opens a block -/

/-- The words that begin a block. -/
def blockWord : Pattern :=
  seq
    (any [text "if", text "else", text "for", text "foreach", text "while", text "do",
      text "switch", text "try", text "catch", text "finally", text "fn", text "func",
      text "class", text "struct", text "enum", text "interface", text "impl", text "loop",
      text "match", text "namespace", text "function", text "export", text "public",
      text "private", text "protected", text "internal", text "static",
      all [text "int", blanks, text "main"]])
    wordEdge

/-- The word that makes an object behind an equals sign. -/
def newWord : Pattern := all [text "=", gap, text "new", wordEdge]

/-- An equals sign or a closing bracket at the end, or a new object. -/
def isInitializer (t : Text) : Bool := t.endsIn '=' || t.endsIn ']' || newWord.occursIn t

/-- A brace behind this trimmed text opens a block. -/
def opensBlock (t : Text) : Bool :=
  t.isEmpty || t.endsIn ')' || t.endsWith "else".toList || t.endsWith "=>".toList ||
    (!isInitializer t && blockWord.matchesFront t)

/-- The header of a counting loop has begun. -/
def isForHeader (t : Text) : Bool := (seq gap (word "for")).matchesFront t

/-! ## Cutting -/

/-- What is known while a line is cut. -/
structure Cutter where
  /-- The characters of the statement so far, the last first. -/
  reversed : Text
  /-- Open parentheses and square brackets. -/
  parens : Nat
  /-- Open braces of an initializer. -/
  braces : Nat
  quotation : Quotation
deriving DecidableEq, Repr

namespace Cutter

/-- Before the first character. -/
def start : Cutter := ⟨[], 0, 0, .outside⟩

/-- The statement so far. -/
def current (k : Cutter) : Text := k.reversed.reverse

/-- The statement so far as a list, empty if there is none. -/
def flushed (k : Cutter) : List Text :=
  let t := k.current.trim
  if t.isEmpty then [] else [t]

/-- Keep a character. -/
def push (k : Cutter) (c : Char) : Cutter :=
  { k with reversed := c :: k.reversed, quotation := k.quotation.step c }

/-- The statement so far is done. -/
def cut (k : Cutter) : List Text × Cutter := (k.flushed, { k with reversed := [] })

/-- The statements that a character completes, and what is known after it. -/
def step (k : Cutter) (c : Char) : List Text × Cutter :=
  if !k.quotation.isCode c then ([], k.push c)
  else if c = '(' ∨ c = '[' then ([], { k.push c with parens := k.parens + 1 })
  else if c = ')' ∨ c = ']' then ([], { k.push c with parens := k.parens - 1 })
  else if c = '\x7b' then
    if k.braces ≠ 0 ∨ k.parens ≠ 0 ∨ !opensBlock k.current.trim then
      ([], { k.push c with braces := k.braces + 1 })
    else (k.push c).cut
  else if c = '\x7d' then
    if k.braces ≠ 0 then ([], { k.push c with braces := k.braces - 1 })
    else (k.flushed ++ [['\x7d']], { k with reversed := [] })
  else if c = ';' ∧ k.parens = 0 ∧ k.braces = 0 ∧ !isForHeader k.current then (k.push c).cut
  else ([], k.push c)

end Cutter

/-- The statements of the rest of a line. -/
def statementsFrom (k : Cutter) : Text → List Text
  | [] => k.flushed
  | c :: t =>
    let (done, k) := k.step c
    done ++ statementsFrom k t

/-- A semicolon by itself joins the closing brace before it. -/
def attachSemicolons : List Text → List Text
  | ['\x7d'] :: [';'] :: rest => ['\x7d', ';'] :: attachSemicolons rest
  | t :: rest => t :: attachSemicolons rest
  | [] => []

/-- The statements of a line. -/
def statements (t : Text) : List Text := attachSemicolons (statementsFrom .start t)

end StepTrace
