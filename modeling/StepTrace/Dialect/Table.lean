import StepTrace.Dialect.Basic

/-!
# The dialects

One record for each language that has forms of its own, and one for all other snippets.
-/

namespace StepTrace.Dialect

open Pattern

/-! ## Blocks by indentation -/

/-- The list bound to a name. -/
def bracketList : Pattern := all [capture .name name, gap, text "=", gap, bracketedItems]

/-- The loops of the indented dialects. -/
def indentedLoops : List (Pattern × LoopForm) :=
  [(all [text "for", blanks, capture .item name, blanks, text "in", blanks,
      call (seq (text "range") gap)], .range),
   (all [text "for", blanks, capture .item name, blanks, text "in", blanks, capture .items name,
      textEnd], .each),
   (all [text "while", wordEdge, gap, capture .cond filled, textEnd], .condition)]

/-- Snippets of no known language: indented blocks and the two most common print calls. -/
def generic : Dialect where
  layout := .indented
  comments := [['#'], ['/', '/']]
  scaffolding := []
  lists := [(bracketList, .listAssignment)]
  bindings := [(plainBinding, false)]
  loops := indentedLoops
  prints := [(call (seq (texts ["print", "console.log"]) gap), .words)]
  folds := false

/-- Python. -/
def python : Dialect :=
  { generic with
    comments := [['#']]
    prints := [(call (seq (text "print") gap), .formatWords)] }

/-! ## Scripts -/

/-- A type annotation behind a name. -/
def annotation : Pattern :=
  optional (all [gap, text ":", gap, severalLazy (noneOf "=")])

/-- The words that declare a variable in a script. -/
def scriptDeclares : Pattern := seq (texts ["const", "let", "var"]) blanks

/-- JavaScript. -/
def javascript : Dialect where
  layout := .braced
  comments := [['/', '/']]
  scaffolding := [all [oneOf "\"'", text "use strict", oneOf "\"'", textEnd]]
  lists :=
    [(all [optional scriptDeclares, capture .name name, annotation, gap, text "=", gap,
        bracketedItems], .listAssignment)]
  bindings :=
    [(all [scriptDeclares, capture .name name, annotation,
        optional (all [gap, bindSign, gap, capture .expr filled]), textEnd], false),
     (plainBinding, false)]
  loops :=
    [clauseLoop,
     (all [text "for", gap, text "(", gap, scriptDeclares, capture .item name, blanks, text "of",
        blanks, capture .items name, closeParen], .each),
     parenLoop]
  prints := [(call (all [text "console.", texts ["log", "info"], gap]), .templateWords)]
  folds := true

/-- The word that may stand before a declaration of types. -/
def exportWord : Pattern := optional (seq (text "export") blanks)

/-- TypeScript: scripts with declarations of types, which are passed over. -/
def typescript : Dialect :=
  { javascript with
    scaffolding := javascript.scaffolding ++
      [all [exportWord, texts ["interface", "type", "declare"], wordEdge],
       all [exportWord, text "enum", wordEdge]] }

/-! ## Languages with typed declarations -/

/-- Bindings where a declaration begins with a type. -/
def typedBindings : List (Pattern × Bool) := [(typedBinding, true), (plainBinding, false)]

/-- A pair of square brackets. -/
def emptyBrackets : Pattern := all [text "[", gap, text "]"]

/-- Java. -/
def java : Dialect where
  layout := .braced
  comments := [['/', '/']]
  scaffolding :=
    [all [many true (seq (texts ["public", "private", "protected", "final", "abstract"]) blanks),
       text "class", wordEdge],
     all [optional (seq (text "public") blanks), text "static", blanks, text "void", blanks,
       text "main", wordEdge],
     all [texts ["import", "package"], wordEdge]]
  lists :=
    [(all [optional (seq (text "final") blanks), wordChars, gap, emptyBrackets, gap,
        capture .name name, gap, text "=", gap,
        optional (all [text "new", blanks, wordChars, gap, emptyBrackets, gap]), bracedItems],
      .arrayDeclaration)]
  bindings := typedBindings
  loops :=
    [clauseLoop,
     (all [text "for", gap, text "(", gap, optional (seq (text "final") blanks), bracketType,
        blanks, capture .item name, gap, text ":", gap, capture .items name, closeParen], .each),
     parenLoop]
  prints :=
    [(call (seq (text "System.out.print") (optional (text "ln"))), .sum),
     (call (seq (text "System.out.") (texts ["printf", "format"])), .placeholders)]
  folds := false

/-- An array with its items. -/
def array : Pattern :=
  all [many true (seq (texts ["const", "static", "unsigned", "long", "short"]) blanks), wordChars,
    blanks, capture .name name, gap, text "[", many true (noneOf "]"), text "]", gap, text "=",
    gap, bracedItems]

/-- C. -/
def c : Dialect where
  layout := .braced
  comments := [['/', '/']]
  scaffolding :=
    [text "#",
     all [texts ["int", "void"], blanks, text "main", gap, text "("],
     all [text "return", blanks, text "0", optional (text ";"), textEnd]]
  lists := [(array, .arrayDeclaration)]
  bindings := typedBindings
  loops := [clauseLoop, parenLoop]
  prints :=
    [(call (seq (text "printf") gap), .placeholders), (call (seq (text "puts") gap), .value)]
  folds := false

/-- The name of the standard library before its members. -/
def standard : Pattern := optional (text "std::")

/-- C++. -/
def cpp : Dialect :=
  { c with
    scaffolding := c.scaffolding ++
      [all [text "using", blanks, text "namespace", wordEdge],
       all [texts ["class", "struct"], wordEdge]]
    lists :=
      [(all [optional (seq (text "const") blanks), standard, text "vector", gap, text "<",
          several (noneOf ">"), text ">", gap, capture .name name, gap, optional (text "="), gap,
          bracedItems], .vectorDeclaration),
       (array, .arrayDeclaration)]
    loops :=
      [clauseLoop,
       (all [text "for", gap, text "(", gap, optional (seq (text "const") blanks),
          several (char fun c => CharClass.isWord c || ":<>".toList.contains c), gap,
          optional (text "&"), gap, capture .item name, gap, text ":", gap, capture .items name,
          closeParen], .each),
       parenLoop]
    prints :=
      (all [standard, text "cout", gap, text "<<", gap, capture .args remainder, textEnd],
        .stream) :: c.prints }

/-- C#. -/
def csharp : Dialect where
  layout := .braced
  comments := [['/', '/']]
  scaffolding :=
    [word "using",
     word "namespace",
     all [many true (seq (texts ["public", "private", "internal", "static", "sealed", "partial"])
       blanks), text "class", wordEdge],
     all [many true (seq (texts ["public", "private", "static"]) blanks), texts ["void", "int"],
       blanks, text "Main", gap, text "("]]
  lists :=
    [(all [alt (all [wordChars, gap, emptyBrackets]) (text "var"), blanks, capture .name name, gap,
        text "=", gap,
        optional
          (all [text "new", gap, many true (char CharClass.isWord), gap, emptyBrackets, gap]),
        bracedItems], .arrayDeclaration),
     (all [alt (all [text "List", gap, text "<", wordChars, text ">"]) (text "var"), blanks,
        capture .name name, gap, text "=", gap, text "new", blanks, text "List", gap, text "<",
        wordChars, text ">", gap, optional (all [text "(", gap, text ")"]), gap, bracedItems],
      .listDeclaration)]
  bindings := typedBindings
  loops :=
    [clauseLoop,
     (all [text "foreach", gap, text "(", gap, bracketType, blanks, capture .item name, blanks,
        text "in", blanks, capture .items name, closeParen], .each),
     parenLoop]
  prints := [(call (all [text "Console.Write", optional (text "Line"), gap]), .composite)]
  folds := false

/-! ## Go and Rust -/

/-- Go. -/
def go : Dialect where
  layout := .braced
  comments := [['/', '/']]
  scaffolding :=
    [word "package",
     word "import",
     all [text "\"", many true (noneOf "\""), text "\"", textEnd],
     seq (text ")") textEnd,
     all [text "func", blanks, text "main", gap, text "(", gap, text ")"]]
  lists :=
    [(all [optional (seq (text "var") blanks), capture .name name, gap, optional (text ":"),
        text "=", gap, text "[", many true (char CharClass.isDecimal), text "]", wordChars, gap,
        bracedItems], .listDeclaration)]
  bindings :=
    [(all [capture .name name, gap, text ":=", gap, capture .expr filled, textEnd], true),
     (all [text "var", blanks, capture .name name,
        optional (seq blanks (several (char fun c => CharClass.isWord c || c == '[' || c == ']'))),
        optional (all [gap, text "=", gap, capture .expr filled]), textEnd], true),
     (plainBinding, false)]
  loops :=
    [(all [text "for", blanks, capture .init (many true (noneOf ";")), text ";",
        capture .cond (many true (noneOf ";")), text ";", capture .update remainder, textEnd],
      .clauses),
     (all [text "for", blanks, alt (text "_") name, gap, text ",", gap, capture .item name, gap,
        text ":=", gap, text "range", blanks, capture .items name, textEnd], .each),
     (seq (text "for") textEnd, .condition),
     (all [text "for", blanks, capture .cond (several (noneOf ";")), textEnd], .condition)]
  prints :=
    [(call (seq (text "fmt.Printf") gap), .placeholders),
     (call (all [text "fmt.Print", optional (text "ln"), gap]), .words)]
  folds := false

/-- The beginning of a declaration up to its type annotation. -/
def letBinding : Pattern :=
  all [text "let", blanks, optional (seq (text "mut") blanks), capture .name name, annotation]

/-- Rust. -/
def rust : Dialect where
  layout := .braced
  comments := [['/', '/']]
  scaffolding :=
    [all [text "fn", blanks, text "main", gap, text "(", gap, text ")"],
     word "use"]
  lists :=
    [(all [letBinding, gap, text "=", gap, text "vec!", gap, bracketedItems], .vectorDeclaration),
     (all [letBinding, gap, text "=", gap, bracketedItems], .arrayDeclaration)]
  bindings :=
    [(all [letBinding, optional (all [gap, bindSign, gap, capture .expr filled]), textEnd], true),
     (plainBinding, false)]
  loops :=
    [(all [text "for", blanks, capture .item name, blanks, text "in", blanks, optional (text "&"),
        optional (seq (text "mut") blanks), capture .items name, optional (text ".iter()"),
        textEnd], .each),
     (all [text "for", blanks, capture .item name, blanks, text "in", blanks, optional (text "("),
        gap, capture .low (severalLazy (noneOf ".")), gap, text "..",
        capture .inclusive (optional (text "=")), gap, capture .high (severalLazy (noneOf ")")),
        gap, optional (text ")"), textEnd], .span),
     (seq (text "loop") textEnd, .condition),
     (all [text "while", blanks, capture .cond filled, textEnd], .condition)]
  prints := [(call (all [text "print", optional (text "ln"), text "!", gap]), .holes)]
  folds := false

end StepTrace.Dialect
