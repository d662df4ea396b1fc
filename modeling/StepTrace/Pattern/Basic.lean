import StepTrace.Text.Basic

/-!
# Patterns

A small language of patterns for lines of code, with named captures. A pattern is matched against
the front of a text by trying its possibilities in a fixed order and taking the first that works:
of two alternatives the left one, and of the lengths of a repetition the longest first or the
shortest first, as it says. The matcher hands every position it reaches to a continuation, and
comes back to the next possibility when the continuation fails. It recurses on the pattern, and a
repetition on the number of characters left, since each round takes at least one.
-/

namespace StepTrace

open CharClass

/-- The parts of a line that patterns name. -/
inductive Slot where
  | name
  | expr
  | operator
  | marker
  | items
  | item
  | args
  | low
  | high
  | inclusive
  | init
  | cond
  | update
  | template
deriving DecidableEq, Repr

/-- A pattern. -/
inductive Pattern where
  /-- The empty text. -/
  | nothing
  /-- One character of a class. -/
  | char (accepts : Char → Bool)
  /-- One pattern after the other. -/
  | seq (first second : Pattern)
  /-- The first pattern, or else the second. -/
  | alt (first second : Pattern)
  /-- Any number of rounds, the most first or the fewest first. -/
  | many (greedy : Bool) (round : Pattern)
  /-- Name what a pattern takes. -/
  | capture (slot : Slot) (body : Pattern)
  /-- Nothing, where the pattern could not go on. -/
  | notAhead (body : Pattern)
  /-- Nothing, between a word character and another character or an end. -/
  | wordEdge
  /-- Nothing, at the end of the text or before a line feed that ends it. -/
  | textEnd
  /-- Nothing, at the end of the text or before a line feed. -/
  | lineEnd

/-- A place in a text: the character before it and what follows. -/
structure Cursor where
  previous : Option Char
  rest : Text
deriving DecidableEq, Repr

/-- The captured parts, the latest first. -/
abbrev Captures := List (Slot × Text)

/-- What has been taken between two places of a text. -/
def Cursor.taken (start stop : Cursor) : Text :=
  start.rest.take (start.rest.length - stop.rest.length)

/-- Exactly one side of the place is a word character. -/
def Cursor.atWordEdge (c : Cursor) : Bool := c.previous.any isWord != c.rest.head?.any isWord

/-- A successful match: the place behind it and the captured parts. -/
structure Found where
  stop : Cursor
  captures : Captures
deriving DecidableEq, Repr

/-- The captured part of a name. -/
def Found.get? (f : Found) (slot : Slot) : Option Text := f.captures.lookup slot

/-- The captured part of a name, or nothing at all. -/
def Found.getD (f : Found) (slot : Slot) : Text := (f.get? slot).getD []

/-- What follows a match. -/
abbrev Next := Cursor → Captures → Option Found

namespace Pattern

/-- At most `bound` rounds, then go on; more rounds are tried first. -/
def rounds (round : Next → Next) (next : Next) : (bound : Nat) → Next
  | 0, at_, captures => next at_ captures
  | bound + 1, at_, captures =>
    (round (rounds round next bound) at_ captures).or (next at_ captures)

/-- At most `bound` rounds, then go on; fewer rounds are tried first. -/
def lazyRounds (round : Next → Next) (next : Next) : (bound : Nat) → Next
  | 0, at_, captures => next at_ captures
  | bound + 1, at_, captures =>
    (next at_ captures).or (round (lazyRounds round next bound) at_ captures)

/-- Match a pattern at a place and go on with the rest. -/
def run : Pattern → Next → Next
  | nothing, next, at_, captures => next at_ captures
  | char accepts, next, at_, captures =>
    match at_.rest with
    | c :: rest => if accepts c then next ⟨some c, rest⟩ captures else none
    | [] => none
  | seq first second, next, at_, captures => first.run (second.run next) at_ captures
  | alt first second, next, at_, captures =>
    (first.run next at_ captures).or (second.run next at_ captures)
  | many true round, next, at_, captures =>
    rounds round.run next at_.rest.length at_ captures
  | many false round, next, at_, captures =>
    lazyRounds round.run next at_.rest.length at_ captures
  | capture slot body, next, at_, captures =>
    body.run (fun stop inner => next stop ((slot, at_.taken stop) :: inner)) at_ captures
  | notAhead body, next, at_, captures =>
    if (body.run (fun stop inner => some ⟨stop, inner⟩) at_ captures).isSome then none
    else next at_ captures
  | wordEdge, next, at_, captures => if at_.atWordEdge then next at_ captures else none
  | textEnd, next, at_, captures =>
    if at_.rest = [] ∨ at_.rest = ['\n'] then next at_ captures else none
  | lineEnd, next, at_, captures =>
    if at_.rest.head?.all (· == '\n') then next at_ captures else none

/-- Match a pattern at a place. -/
def matchAt? (p : Pattern) (c : Cursor) : Option Found :=
  p.run (fun stop captures => some ⟨stop, captures⟩) c []

/-- Match a pattern at the front of a text. -/
def match? (p : Pattern) (t : Text) : Option Found := p.matchAt? ⟨none, t⟩

/-- The pattern matches at the front of a text. -/
def matchesFront (p : Pattern) (t : Text) : Bool := (p.match? t).isSome

/-- Match a pattern at the first place possible behind a character. -/
def searchFrom? (p : Pattern) : (previous : Option Char) → Text → Option Found
  | previous, [] => p.matchAt? ⟨previous, []⟩
  | previous, c :: t =>
    (p.matchAt? ⟨previous, c :: t⟩).or (searchFrom? p (some c) t)

/-- The pattern matches somewhere in a text. -/
def occursIn (p : Pattern) (t : Text) : Bool := (p.searchFrom? none t).isSome

/-- The first of several patterns that matches at the front, with what belongs to it. -/
def firstMatch? (ps : List (Pattern × α)) (t : Text) : Option (Found × α) :=
  ps.findSome? fun (p, a) => (p.match? t).map (·, a)

/-! ## Building patterns -/

/-- Patterns one after the other. -/
def all (ps : List Pattern) : Pattern := ps.foldr seq nothing

/-- The first of several patterns that works. -/
def any : List Pattern → Pattern
  | [] => notAhead nothing
  | [p] => p
  | p :: rest => alt p (any rest)

/-- A given text. -/
def text (t : String) : Pattern := all (t.toList.map fun c => char (· == c))

/-- One of several given texts. -/
def texts (ts : List String) : Pattern := any (ts.map text)

/-- The character is the given small letter, in either case. A few letters beyond the basic range
are cases of `s`, `k` and `i` too. -/
def isLetter (letter c : Char) : Bool :=
  c.toLower == letter ||
    match letter with
    | 's' => c == '\u017f'
    | 'k' => c == '\u212a'
    | 'i' => c == '\u0130' || c == '\u0131'
    | _ => false

/-- A given text in small letters, in either case. -/
def anyCase (t : String) : Pattern := all (t.toList.map fun c => char (isLetter c))

/-- A given text as a word that ends there. -/
def word (t : String) : Pattern := seq (text t) wordEdge

/-- A pattern or nothing, the pattern first. -/
def optional (p : Pattern) : Pattern := alt p nothing

/-- At least one round, the most first. -/
def several (p : Pattern) : Pattern := seq p (many true p)

/-- At least one round, the fewest first. -/
def severalLazy (p : Pattern) : Pattern := seq p (many false p)

/-- One of the given characters. -/
def oneOf (cs : String) : Pattern := char (cs.toList.contains ·)

/-- Any character but the given ones. -/
def noneOf (cs : String) : Pattern := char (! cs.toList.contains ·)

/-- Any character on a line. -/
def anything : Pattern := char (· != '\n')

/-- White space, possibly none. -/
def gap : Pattern := many true (char isBlank)

/-- White space, at least one character. -/
def blanks : Pattern := several (char isBlank)

/-- A name. -/
def name : Pattern := seq (char isNameStart) (many true (char isWord))

/-- Word characters, at least one. -/
def wordChars : Pattern := several (char isWord)

/-- The rest of a line, possibly nothing, the most first. -/
def remainder : Pattern := many true anything

/-- The rest of a line, at least one character, the most first. -/
def filled : Pattern := several anything

/-- The sign that binds, which is not the start of a comparison. -/
def bindSign : Pattern := seq (text "=") (notAhead (text "="))

end Pattern

end StepTrace
