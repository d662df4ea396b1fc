import StepTrace.Dialect.Table

/-!
# Languages

The language of a snippet is guessed from surface patterns. The patterns are tried in the order of
how telling they are, and the first that occurs decides. A snippet without any of them is of an
unknown language.
-/

namespace StepTrace

open Pattern

/-- The languages that can be told, the most telling first. -/
inductive Language where
  | java
  | csharp
  | cpp
  | c
  | go
  | rust
  | typescript
  | javascript
  | python
  | sql
deriving DecidableEq, Repr

namespace Language

/-- All languages in the order in which they are tried. -/
def ranked : List Language :=
  [.java, .csharp, .cpp, .c, .go, .rust, .typescript, .javascript, .python, .sql]

/-- The short name of a language. -/
def id : Language → Text
  | java => "java".toList
  | csharp => "csharp".toList
  | cpp => "cpp".toList
  | c => "c".toList
  | go => "go".toList
  | rust => "rust".toList
  | typescript => "typescript".toList
  | javascript => "javascript".toList
  | python => "python".toList
  | sql => "sql".toList

/-- The name of a language as it is shown. -/
def label : Language → Text
  | java => "Java".toList
  | csharp => "C#".toList
  | cpp => "C++".toList
  | c => "C".toList
  | go => "Go".toList
  | rust => "Rust".toList
  | typescript => "TypeScript".toList
  | javascript => "JavaScript".toList
  | python => "Python".toList
  | sql => "SQL".toList

/-- The language with a short name. -/
def ofId? (t : Text) : Option Language := ranked.find? (·.id = t)

/-- The dialect of a language. Queries have none of their own. -/
def dialect : Language → Dialect
  | java => .java
  | csharp => .csharp
  | cpp => .cpp
  | c => .c
  | go => .go
  | rust => .rust
  | typescript => .typescript
  | javascript => .javascript
  | python => .python
  | sql => .generic

/-- The kind of script that a snippet of the language can be executed as. -/
def runnable? : Language → Option Text
  | javascript => some "js".toList
  | _ => none

/-! ## Detection -/

/-- Words with blanks between them, from edge to edge. -/
def phrase (ws : List String) : Pattern :=
  let rec go : List String → Pattern
    | [] => nothing
    | [w] => text w
    | w :: rest => all [text w, blanks, go rest]
  all [wordEdge, go ws, wordEdge]

/-- What tells a language. -/
def mark : Language → Pattern
  | java =>
    any [phrase ["public", "class"], phrase ["public", "static", "void", "main"],
      text "System.out.println"]
  | csharp =>
    any [phrase ["using", "System"],
      all [text "Console.Write", optional (text "Line"), wordEdge]]
  | cpp =>
    any [all [text "#include", blanks, text "<iostream>"], text "std::cout", text "std::string"]
  | c => any [all [text "#include", blanks, text "<stdio.h>"], text "printf(", text "scanf("]
  | go => any [phrase ["package", "main"], phrase ["func", "main"], text "fmt.Print"]
  | rust => any [phrase ["fn", "main"], seq wordEdge (text "println!"), phrase ["let", "mut"]]
  | typescript =>
    any [phrase ["interface"],
      all [wordEdge, text "type", blanks, wordChars, gap, text "="],
      all [text ":", gap, texts ["string", "number", "boolean", "any", "unknown"], wordEdge]]
  | javascript =>
    any [phrase ["console.log"], text "=>",
      all [wordEdge, text "function", blanks, wordChars, gap, text "("],
      all [wordEdge, texts ["let", "const", "var"], blanks,
        char fun c => CharClass.isNameStart c || c == '$',
        many true (char fun c => CharClass.isWord c || c == '$'), gap, text "="]]
  | python =>
    any [seq (text "def") (char CharClass.isBlank),
      all [wordEdge, text "import", char CharClass.isBlank],
      seq wordEdge (text "print("), phrase ["elif"], phrase ["None"],
      all [text ":", gap, lineEnd]]
  | sql =>
    all [wordEdge,
      any (["select", "from", "where", "insert", "update", "delete"].map anyCase), wordEdge]

end Language

/-- What a snippet was found to be. -/
inductive Verdict where
  | empty
  | known (language : Language)
  | unknown
deriving DecidableEq, Repr

namespace Verdict

/-- The short name of a verdict. -/
def id : Verdict → Text
  | empty => "empty".toList
  | known language => language.id
  | unknown => "unknown".toList

/-- The name of a verdict as it is shown. -/
def label (l : Locale) : Verdict → Text
  | empty => Label.noCode.write l []
  | known language => language.label
  | unknown => Label.unknownLanguage.write l []

/-- The kind of script that the snippet can be executed as. -/
def runnable? : Verdict → Option Text
  | known language => language.runnable?
  | _ => none

end Verdict

/-- Tell the language of a snippet. -/
def detect (source : Text) : Verdict :=
  let sample := source.trim
  if sample.isEmpty then .empty
  else match Language.ranked.find? (·.mark.occursIn sample) with
    | some language => .known language
    | none => .unknown

/-- The dialect with a short name; any other name means a snippet of no known language. -/
def Dialect.ofId (id : Text) : Dialect :=
  match Language.ofId? id with
  | some language => language.dialect
  | none => .generic

end StepTrace
