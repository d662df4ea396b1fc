import StepTrace.Proofs.Text.Words
import StepTrace.Script.Run

/-!
# Structured scripts

A structured script is a tree of commands, conditionals and loops (`Block`). It is written with one
line for a command and two lines around the body of a conditional or a loop, with single spaces
between the words of a line (`Block.lines`). From a written line its words can be read back
(`Text.words_joined`).

The tree has a meaning of its own, without lines, jumps and counters (`Block.run?`). A conditional
runs its body if the comparison holds. A loop takes its count when it is reached and runs its body
that often. What is done is a row of events, each with the line and the note of an entry, the
variables after it, and the line that was printed. A count that is not a whole number has no
meaning here.
-/

namespace StepTrace

namespace Script

/-! ## Trees -/

/-- A structured script. -/
inductive Block where
  | done
  /-- A command with its operands. -/
  | plain (words : List Text) (rest : Block)
  /-- A conditional with the two sides and the sign of its comparison. -/
  | branch (left sign right : Text) (body rest : Block)
  /-- A loop with its count. -/
  | loop (count : Text) (body rest : Block)
deriving Repr

/-- The words that belong to conditionals and loops. -/
def blockWords : List Text := ["if".toList, "endif".toList, "loop".toList, "end".toList]

/-- The words are a command: none that belongs to a conditional or a loop, and no comment. -/
def isCommand (ws : List Text) : Bool :=
  !ws.isEmpty && ws.all Text.isWord && !blockWords.contains (word ws 0) &&
    !(word ws 0).startsWith ['#']

/-- The line of some words. -/
def lineOf (ws : List Text) : Text := Text.joined [' '] ws

namespace Block

/-- Every command is one, and every operand is a word. -/
def isProper : Block → Bool
  | done => true
  | plain words rest => isCommand words && rest.isProper
  | branch left sign right body rest =>
    left.isWord && sign.isWord && right.isWord && body.isProper && rest.isProper
  | loop count body rest => count.isWord && body.isProper && rest.isProper

/-- The first line of a conditional. -/
def ifLine (left sign right : Text) : Text := lineOf ["if".toList, left, sign, right]

/-- The first line of a loop. -/
def loopLine (count : Text) : Text := lineOf ["loop".toList, count]

/-- The lines of a structured script. -/
def lines : Block → List Text
  | done => []
  | plain words rest => lineOf words :: rest.lines
  | branch left sign right body rest =>
    ifLine left sign right :: body.lines ++ "endif".toList :: rest.lines
  | loop count body rest => loopLine count :: body.lines ++ "end".toList :: rest.lines

end Block

/-! ## Meaning -/

/-- What is done in one step. -/
structure Event where
  line : Text
  note : Text
  /-- The variables after the step. -/
  store : Store
  printed : Option Text
deriving Repr

/-- The entries of some events, numbered from `number` on. -/
def entriesFrom : (number : Nat) → List Event → List ScriptEntry
  | _, [] => []
  | number, e :: es => ⟨number, e.line, e.note, e.store⟩ :: entriesFrom (number + 1) es

/-- What a command does with given variables. -/
def effect (s : Store) (ws : List Text) : Event :=
  match Instruction.ofWords ws with
  | .set name value =>
    let n := resolve s value
    ⟨lineOf ws, "set ".toList ++ name ++ " = ".toList ++ n.display, s.insert name (.num n), none⟩
  | .combine command op name value =>
    let n := resolve s value
    ⟨lineOf ws, command ++ [' '] ++ name ++ [' '] ++ n.display,
      s.insert name (.num (Number.apply op (s.number name) n)), none⟩
  | .print value =>
    let shown := (resolve s value).display
    ⟨lineOf ws, "print ".toList ++ shown, s, some shown⟩
  | _ => ⟨lineOf ws, "unknown command".toList, s, none⟩

/-- The note at the end of a round with so many rounds left. -/
def roundNote : (left : Nat) → Text
  | 0 => "end loop".toList
  | left + 1 =>
    "repeat loop (".toList ++ (Number.int (left + 1)).display ++ " left)".toList

/-- What is done from given variables on, and the variables at the end, if it has a meaning. -/
abbrev Meaning := Store → Option (List Event × Store)

/-- Run a body so many times. -/
def rounds (body : Meaning) : (left : Nat) → Meaning
  | 0, s => some ([], s)
  | left + 1, s => do
    let (es, t) ← body s
    let (fs, u) ← rounds body left t
    return (es ++ ⟨"end".toList, roundNote left, t, none⟩ :: fs, u)

/-- Run a structured script. -/
def Block.run? : Block → Meaning
  | done, s => some ([], s)
  | plain words rest, s => do
    let e := effect s words
    let (es, t) ← rest.run? e.store
    return (e :: es, t)
  | branch left sign right body rest, s =>
    if holds s left sign right then do
      let (es, t) ← body.run? s
      let (fs, u) ← rest.run? t
      return (⟨ifLine left sign right, "enter if".toList, s, none⟩ :: es ++
        ⟨"endif".toList, "end if".toList, t, none⟩ :: fs, u)
    else do
      let (fs, u) ← rest.run? s
      return (⟨ifLine left sign right, "skip if".toList, s, none⟩ :: fs, u)
  | loop count body rest, s =>
    match resolve s count with
    | .float _ => none
    | .int n =>
      if 0 < n then do
        let (es, t) ← rounds body.run? n.toNat s
        let (fs, u) ← rest.run? t
        return (⟨loopLine count, "loop x".toList ++ (Number.int n).display, s, none⟩ :: es ++ fs, u)
      else do
        let (fs, u) ← rest.run? s
        return (⟨loopLine count, "skip loop".toList, s, none⟩ :: fs, u)

end Script

end StepTrace
