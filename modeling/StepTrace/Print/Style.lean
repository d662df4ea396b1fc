import StepTrace.Pattern.Basic
import StepTrace.Print.Hole
import StepTrace.Print.Placeholder

/-!
# Styles of printing

Each kind of print call puts its output line together in a style of its own from the text between
its parentheses.
-/

namespace StepTrace

/-- How the output line of a print call is put together. -/
inductive PrintStyle where
  /-- The arguments with spaces between them. -/
  | words
  /-- The same, where an argument may hold expressions in braces or a format call. -/
  | formatWords
  /-- The same, where an argument between backquotes may hold expressions. -/
  | templateWords
  /-- One argument, concatenated from terms. -/
  | sum
  /-- One argument as it is. -/
  | value
  /-- A template with percent placeholders. -/
  | placeholders
  /-- A template with holes for the arguments. -/
  | holes
  /-- Items written to a stream. -/
  | stream
  /-- Interpolation, holes, a sum or words, as the arguments tell. -/
  | composite
deriving DecidableEq, Repr

namespace Print

open Pattern

/-! ## Arguments with formats -/

/-- The settings of a call that print nothing. -/
def setting : Pattern := all [texts ["sep", "end", "file", "flush"], gap, text "="]

/-- A call of the format function on a quoted template. -/
def formatCall : Pattern :=
  let between (quote : String) := all [text quote, remainder, text quote]
  all [capture .template (alt (between "\"") (between "'")), text ".format(",
    capture .args remainder, text ")", textEnd]

/-- The quoted text behind the letter that allows expressions in it. -/
def afterLetter? : Text → Option Text
  | c :: quote :: t =>
    if (c = 'f' ∨ c = 'F') ∧ (quote = '"' ∨ quote = '\'') then some (quote :: t) else none
  | _ => none

/-- An argument that may hold expressions in braces or be a format call. -/
def formatPhrase (s : Store) (arg : Text) : Except Fault Text :=
  match afterLetter? arg with
  | some literal => interpolated .plain s (literal.unquote?.getD [])
  | none =>
    match formatCall.match? arg with
    | some found =>
      composed s (found.getD .template ++ ", ".toList ++ found.getD .args)
    | none => phrase s arg

/-- Arguments in which expressions and format calls are written out. -/
def formatWords (s : Store) (args : Text) : Except Fault Text := do
  let shown := args.arguments.filter fun arg => !setting.matchesFront arg
  return spaced (← shown.mapM (formatPhrase s))

/-- An argument that may be a template between backquotes. -/
def templatePhrase (s : Store) (arg : Text) : Except Fault Text :=
  match (if arg.startsWith ['`'] then arg.unquote? else none) with
  | some template => interpolated .dollar s template
  | none => phrase s arg

/-- Arguments in which templates are written out. -/
def templateWords (s : Store) (args : Text) : Except Fault Text := do
  return spaced (← args.arguments.mapM (templatePhrase s))

/-! ## Composite output -/

/-- A hole with the number of an argument. -/
def numberedHole : Pattern :=
  all [text "\x7b", several (char CharClass.isDecimal),
    optional (seq (text ":") (many true (noneOf "\x7d"))), text "\x7d"]

/-- Output that is told by its arguments: one interpolated text, a template with numbered holes, one
sum, or words. -/
def composite (s : Store) (args : Text) : Except Fault Text :=
  match args.arguments with
  | [] => words s args
  | first :: rest =>
    if rest.isEmpty ∧ first.startsWith ['$', '"'] then
      interpolated .plain s ((Text.unquote? (first.drop 1)).getD [])
    else if first.isQuotedLiteral ∧ numberedHole.occursIn first then composed s args
    else if rest.isEmpty then sum s first
    else words s args

end Print

/-- The output line of a print call with the given arguments. -/
def PrintStyle.render : PrintStyle → Store → Text → Except Fault Text
  | .words => Print.words
  | .formatWords => Print.formatWords
  | .templateWords => Print.templateWords
  | .sum => Print.sum
  | .value => Print.value
  | .placeholders => Print.formatted
  | .holes => Print.composed
  | .stream => Print.stream
  | .composite => Print.composite

end StepTrace
