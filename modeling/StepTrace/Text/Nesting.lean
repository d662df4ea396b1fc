import StepTrace.Text.Basic

/-!
# Quotes and brackets

A scan over code keeps a `Nesting`: the quotation it is inside of, or else the depth of brackets. A
quotation ends at the next quote of its kind. Inside a quotation brackets do not count, and a
closing bracket with nothing open does not either. A character stands on the *top level* when no
quotation and no bracket is open and it opens or closes none itself.
-/

namespace StepTrace

open CharClass

/-- The three quotes. -/
def isQuote (c : Char) : Bool := c == '\'' || c == '"' || c == '`'

/-- The opening brackets. -/
def isOpener (c : Char) : Bool := c == '(' || c == '[' || c == '\x7b'

/-- The closing brackets. -/
def isCloser (c : Char) : Bool := c == ')' || c == ']' || c == '\x7d'

/-- Where a scan stands. -/
structure Nesting where
  depth : Nat
  quote : Option Char
deriving DecidableEq, Repr

namespace Nesting

/-- The start of a scan. -/
def start : Nesting := ⟨0, none⟩

/-- Where the scan stands after a character. -/
def step (n : Nesting) (c : Char) : Nesting :=
  match n.quote with
  | some q => if c = q then { n with quote := none } else n
  | none =>
    if isQuote c then { n with quote := some c }
    else if isOpener c then { n with depth := n.depth + 1 }
    else if isCloser c then { n with depth := n.depth - 1 }
    else n

/-- Where the scan stands after a text. -/
def after (n : Nesting) (t : Text) : Nesting := t.foldl step n

/-- No quotation and no bracket is open. -/
def isOpen (n : Nesting) : Bool := n.depth == 0 && n.quote.isNone

/-- The character stands on the top level. -/
def isTop (n : Nesting) (c : Char) : Bool :=
  n.isOpen && !isQuote c && !isOpener c && !isCloser c

end Nesting

namespace Text

/-- The parts between the separators that stand on the top level, from a point of the scan on and
after passing over `skip` characters of the last separator. -/
def partsFrom (separator : Text) : Nesting → (skip : Nat) → Text → List Text
  | _, _, [] => [[]]
  | n, skip + 1, _ :: t => partsFrom separator n skip t
  | n, 0, c :: t =>
    if n.isTop c && separator.isPrefixOf (c :: t) then
      [] :: partsFrom separator n (separator.length - 1) t
    else consFirst c (partsFrom separator (n.step c) 0 t)

/-- The trimmed parts of a text between the separators on the top level. -/
def splitTop (separator t : Text) : List Text := (partsFrom separator .start 0 t).map trim

/-- The parts that are not empty. -/
def splitParts (separator t : Text) : List Text := (splitTop separator t).filter (! ·.isEmpty)

/-- The arguments of a call. -/
def arguments (t : Text) : List Text := splitParts [','] t

/-- The terms of a concatenation. -/
def terms (t : Text) : List Text := splitParts ['+'] t

/-- The items written to a stream. -/
def streamItems (t : Text) : List Text := splitParts ['<', '<'] t

/-! ## Parentheses -/

/-- Parentheses match, counted from a depth on. Quotes do not matter here. -/
def balancedFrom : Nat → Text → Bool
  | depth, [] => depth == 0
  | depth, c :: t =>
    if c = '(' then balancedFrom (depth + 1) t
    else if c = ')' then
      match depth with
      | 0 => false
      | depth + 1 => balancedFrom depth t
    else balancedFrom depth t

/-- Every closing parenthesis has its opening one. -/
def balanced (t : Text) : Bool := balancedFrom 0 t

/-- The text between two characters at its ends. -/
def between? (opening closing : Char) (t : Text) : Option Text :=
  match t with
  | c :: rest => if c = opening ∧ rest.getLast? = some closing then some rest.dropLast else none
  | [] => none

/-- Take away at most `count` pairs of outer parentheses from a trimmed text. -/
def unwrapUpTo : (count : Nat) → Text → Text
  | 0, t => t
  | count + 1, t =>
    match between? '(' ')' t with
    | some inner => if balanced inner then unwrapUpTo count inner.trim else t
    | none => t

/-- A trimmed text without the parentheses around all of it. -/
def unwrap (t : Text) : Text := unwrapUpTo t.length t.trim

end Text

end StepTrace
