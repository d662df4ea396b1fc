import StepTrace.Text.Nesting

/-!
# Code and quotations

In a line of code a backslash inside a quotation protects the character behind it. The characters of
a line that belong to no quotation are its *code*. Comments start in the code only.
-/

namespace StepTrace

/-- Where a scan over a line stands. -/
inductive Quotation where
  | outside
  | inside (quote : Char)
  | escaped (quote : Char)
deriving DecidableEq, Repr

namespace Quotation

/-- Where the scan stands after a character. -/
def step : Quotation → Char → Quotation
  | outside, c => if isQuote c then inside c else outside
  | inside quote, c =>
    if c = '\\' then escaped quote else if c = quote then outside else inside quote
  | escaped quote, _ => inside quote

/-- A character met here is code. -/
def isCode (q : Quotation) (c : Char) : Bool := q == outside && !isQuote c

end Quotation

namespace Text

/-- The code of a line from a point of the scan on. -/
def codeFrom : Quotation → Text → Text
  | _, [] => []
  | q, c :: t => if q.isCode c then c :: codeFrom (q.step c) t else codeFrom (q.step c) t

/-- The characters of a line that belong to no quotation. -/
def code (t : Text) : Text := codeFrom .outside t

/-- The line up to the first marker in its code, from a point of the scan on. -/
def uncommentedFrom (marker : Text) : Quotation → Text → Text
  | _, [] => []
  | q, c :: t =>
    if q.isCode c && marker.isPrefixOf (c :: t) then []
    else c :: uncommentedFrom marker (q.step c) t

/-- The line up to the first marker in its code. -/
def uncommented (t marker : Text) : Text := uncommentedFrom marker .outside t

/-- What follows the first end of a block comment. -/
def afterCommentEnd? : Text → Option Text
  | [] => none
  | '*' :: '/' :: t => some t
  | c :: t => if c = '\n' then none else afterCommentEnd? t

/-- A line without its block comments, after passing over `skip` characters of the last one. -/
def uncommentedBlocksFrom : (skip : Nat) → Text → Text
  | _, [] => []
  | skip + 1, _ :: t => uncommentedBlocksFrom skip t
  | 0, c :: t =>
    match (if c = '/' then (after? ['*'] t).bind afterCommentEnd? else none) with
    | some rest => uncommentedBlocksFrom (t.length - rest.length) t
    | none => c :: uncommentedBlocksFrom 0 t

/-- A line without the block comments that end on it. Quotations do not protect them. -/
def uncommentedBlocks (t : Text) : Text := uncommentedBlocksFrom 0 t

end Text

end StepTrace
