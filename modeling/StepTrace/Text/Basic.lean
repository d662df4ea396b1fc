import StepTrace.Text.CharClass

/-!
# Texts

A text is a list of characters, so lengths, indents and cuts count characters and every scan is a
recursion on the list. This file has the operations that all readers of code share: trimming,
cutting into lines, words and pieces, and replacing.
-/

namespace StepTrace

/-- A text, as the list of its characters. -/
abbrev Text := List Char

namespace Text

open CharClass

/-! ## Trimming -/

/-- Drop the characters at the end that satisfy `p`. -/
def dropTail (p : Char → Bool) (t : Text) : Text := (t.reverse.dropWhile p).reverse

/-- Drop the white space in front. -/
def trimLeft (t : Text) : Text := t.dropWhile isBlank

/-- Drop the white space at the end. -/
def trimRight (t : Text) : Text := t.dropTail isBlank

/-- Drop the white space at both ends. -/
def trim (t : Text) : Text := (t.trimLeft).trimRight

/-- Nothing but white space. -/
def isEmptyOrBlank (t : Text) : Bool := t.all isBlank

/-- The number of blanks in front. -/
def indent (t : Text) : Nat := (t.takeWhile isBlank).length

/-! ## Ends -/

/-- What follows `front` when the text begins with it. -/
def after? : (front t : Text) → Option Text
  | [], t => some t
  | _ :: _, [] => none
  | f :: front, c :: t => if f = c then after? front t else none

/-- What comes before `back` when the text ends in it. -/
def before? (back t : Text) : Option Text :=
  (after? back.reverse t.reverse).map List.reverse

/-- The text begins with `front`. -/
def startsWith (t front : Text) : Bool := front.isPrefixOf t

/-- The text ends in `back`. -/
def endsWith (t back : Text) : Bool := back.isSuffixOf t

/-- The text ends in the character `c`. -/
def endsIn (t : Text) (c : Char) : Bool := t.getLast? == some c

/-! ## Cutting -/

/-- Put a character in front of the first piece. -/
def consFirst (c : Char) : List Text → List Text
  | [] => [[c]]
  | piece :: rest => (c :: piece) :: rest

/-- Cut at every character that satisfies `p`, which is dropped. There is always one piece more than
there are cuts. -/
def cutAt (p : Char → Bool) : Text → List Text
  | [] => [[]]
  | c :: t => if p c then [] :: cutAt p t else consFirst c (cutAt p t)

/-- The pieces between line feeds. -/
def feedLines (t : Text) : List Text := cutAt (· == '\n') t

/-- The lines of a text. A carriage return and the line feed behind it end one line together, and an
empty last line is none. -/
def lines : Text → List Text
  | [] => []
  | '\r' :: '\n' :: t => [] :: lines t
  | c :: t =>
    if isLineEnd c then [] :: lines t else consFirst c (lines t)

/-- The words of a text: its longest pieces without white space. -/
def words (t : Text) : List Text := (cutAt isBlank t).filter (! ·.isEmpty)

/-- The part in front of the first `c`, or all of it. -/
def upTo (c : Char) (t : Text) : Text := t.takeWhile (· != c)

/-! ## Joining and replacing -/

/-- The texts one after the other with `between` in each gap. -/
def joined (between : Text) (ts : List Text) : Text := between.intercalate ts

/-- Replace from a position on, after passing over `skip` characters of the last occurrence. -/
def replaceFrom (old new : Text) : Nat → Text → Text
  | _, [] => []
  | skip + 1, _ :: t => replaceFrom old new skip t
  | 0, c :: t =>
    if old.isPrefixOf (c :: t) then new ++ replaceFrom old new (old.length - 1) t
    else c :: replaceFrom old new 0 t

/-- Replace every occurrence of `old`, from left to right. -/
def replace (old new t : Text) : Text := replaceFrom old new 0 t

/-- Replace tabs by spaces up to the next multiple of `width`, starting in the given column. -/
def expandTabsFrom (width : Nat) : Nat → Text → Text
  | _, [] => []
  | column, c :: t =>
    if c = '\t' then
      let gap := width - column % width
      List.replicate gap ' ' ++ expandTabsFrom width (column + gap) t
    else if c = '\n' ∨ c = '\r' then c :: expandTabsFrom width 0 t
    else c :: expandTabsFrom width (column + 1) t

/-- Replace tabs by spaces up to the next multiple of `width`. -/
def expandTabs (width : Nat) (t : Text) : Text := expandTabsFrom width 0 t

/-! ## Names -/

/-- The name at the front of a text and what follows it. -/
def name? : Text → Option (Text × Text)
  | [] => none
  | c :: t => if isNameStart c then some (c :: t.takeWhile isWord, t.dropWhile isWord) else none

end Text

end StepTrace
