import StepTrace.Message.Label
import StepTrace.Print.Style

/-!
# Dialects

A dialect says how a snippet is cut into lines and blocks, and which forms its statements and loops
take. It is a record of patterns, tried in order, and what each of them means. Conditionals and the
shared forms of assignment are the same in all dialects and are not part of it.
-/

namespace StepTrace

/-- How blocks are recognised. -/
inductive Layout where
  | indented
  | braced
deriving DecidableEq, Repr

/-- The kinds of loops. -/
inductive LoopForm where
  /-- Over the numbers of a range call. -/
  | range
  /-- Over the numbers between two bounds. -/
  | span
  /-- Over the items of a list. -/
  | each
  /-- With a start, a condition and an update. -/
  | clauses
  /-- While a condition holds. -/
  | condition
deriving DecidableEq, Repr

/-- The forms of a language. -/
structure Dialect where
  layout : Layout
  /-- The markers of a comment that runs to the end of the line. -/
  comments : List Text
  /-- Lines that are passed over. -/
  scaffolding : List Pattern
  /-- Declarations of lists, with the label of their note. -/
  lists : List (Pattern × Label)
  /-- Bindings; a flag says whether they declare. -/
  bindings : List (Pattern × Bool)
  loops : List (Pattern × LoopForm)
  prints : List (Pattern × PrintStyle)
  /-- The dialect has lists that can be folded into a sum. -/
  folds : Bool

namespace Dialect

open Pattern

/-! ## Shared forms -/

/-- A binding without declaration. -/
def plainBinding : Pattern :=
  all [capture .name name, gap, bindSign, gap, capture .expr filled, textEnd]

/-- The words that begin a statement which is no declaration. -/
def notAType : Pattern :=
  seq (texts ["return", "else", "delete", "throw", "goto", "case", "new", "yield", "using",
    "import"]) wordEdge

/-- The words that may stand before a type. -/
def typeModifiers : Pattern :=
  many true (seq (texts ["final", "const", "static", "unsigned", "signed", "long", "short",
    "volatile", "readonly"]) blanks)

/-- A declaration that begins with a type. -/
def typedBinding : Pattern :=
  all [notAhead notAType, typeModifiers, char CharClass.isNameStart,
    many true (char fun c => CharClass.isWord c || ":<>,[]".toList.contains c),
    several (char fun c => CharClass.isBlank c || c == '*' || c == '&'), capture .name name,
    optional (all [gap, bindSign, gap, capture .expr filled]), textEnd]

/-- The items of a list between braces, up to the end. -/
def bracedItems : Pattern := all [text "\x7b", capture .items remainder, text "\x7d", textEnd]

/-- The items of a list between square brackets, up to the end. -/
def bracketedItems : Pattern := all [text "[", capture .items remainder, text "]", textEnd]

/-- A call with its arguments, up to the end. -/
def call (callee : Pattern) : Pattern :=
  all [callee, text "(", capture .args remainder, text ")", textEnd]

/-- A type with angle and square brackets. -/
def bracketType : Pattern := several (char fun c => CharClass.isWord c || "<>[]".toList.contains c)

/-- The loop with a start, a condition and an update between parentheses. -/
def clauseLoop : Pattern × LoopForm :=
  (all [text "for", gap, text "(", capture .init (many true (noneOf ";")), text ";",
    capture .cond (many true (noneOf ";")), text ";", capture .update remainder, text ")",
    textEnd], .clauses)

/-- The loop while a condition between parentheses holds. -/
def parenLoop : Pattern × LoopForm :=
  (all [text "while", gap, capture .cond (all [text "(", remainder, text ")"]), textEnd],
    .condition)

/-- Behind a closing parenthesis there is nothing more. -/
def closeParen : Pattern := all [gap, text ")", textEnd]

end Dialect

end StepTrace
