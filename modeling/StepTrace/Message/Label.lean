import StepTrace.Fault
import StepTrace.Message.Template

/-!
# Labels

The messages the program can show, in English and in Spanish. The languages differ in nothing but
these texts. Every label has a key, by which it can be looked up from outside.
-/

namespace StepTrace

/-- The languages of the messages. -/
inductive Locale where
  | english
  | spanish
deriving DecidableEq, Repr

namespace Locale

/-- The code of a language. -/
def code : Locale → Text
  | english => "en".toList
  | spanish => "es".toList

/-- The language of a code; every code but the Spanish one means English. -/
def ofCode (t : Text) : Locale := if t = spanish.code then spanish else english

end Locale

/-- The messages. -/
inductive Label where
  | yes
  | no
  | condition
  | loopProgress
  | loopValue
  | loopIteration
  | updateVariable
  | increment
  | decrement
  | listAssignment
  | arrayDeclaration
  | vectorDeclaration
  | listDeclaration
  | reduceAssignment
  | stringAssignment
  | assignment
  | assignmentFromArray
  | declaration
  | declarationAssignment
  | declarationAssignmentFromArray
  | output
  | execution
  | noCode
  | unknownLanguage
  | localActiveLines
  | localLoops
  | localNoLoops
  | localConditions
  | localNoConditions
  | localHint
  | incompleteNotice
  | noQuestion
  | answerIncomplete
  | answerBasic
  | answerSummary
  | answerStep
  | answerOutput
  | noOutput
  | aiDefaultPrompt
  | aiError
  | aiRateLimited
  | aiInsufficientCredits
  | aiSystemPrompt
  | aiUserMessage
deriving DecidableEq, Repr

namespace Label

/-- The key of a label. -/
def key : Label → String
  | yes => "true"
  | no => "false"
  | condition => "condition"
  | loopProgress => "loop_progress"
  | loopValue => "loop_value"
  | loopIteration => "loop_iteration"
  | updateVariable => "update_variable"
  | increment => "increment"
  | decrement => "decrement"
  | listAssignment => "list_assignment"
  | arrayDeclaration => "array_declaration"
  | vectorDeclaration => "vector_declaration"
  | listDeclaration => "list_declaration"
  | reduceAssignment => "reduce_assignment"
  | stringAssignment => "string_assignment"
  | assignment => "assignment"
  | assignmentFromArray => "assignment_from_array"
  | declaration => "declaration"
  | declarationAssignment => "declaration_assignment"
  | declarationAssignmentFromArray => "declaration_assignment_from_array"
  | output => "output"
  | execution => "execution"
  | noCode => "no_code"
  | unknownLanguage => "unknown_language"
  | localActiveLines => "local_active_lines"
  | localLoops => "local_loops"
  | localNoLoops => "local_no_loops"
  | localConditions => "local_conditions"
  | localNoConditions => "local_no_conditions"
  | localHint => "local_hint"
  | incompleteNotice => "incomplete_notice"
  | noQuestion => "no_question"
  | answerIncomplete => "answer_incomplete"
  | answerBasic => "answer_basic"
  | answerSummary => "answer_summary"
  | answerStep => "answer_step"
  | answerOutput => "answer_output"
  | noOutput => "no_output"
  | aiDefaultPrompt => "ai_default_prompt"
  | aiError => "ai_error"
  | aiRateLimited => "ai_rate_limited"
  | aiInsufficientCredits => "ai_insufficient_credits"
  | aiSystemPrompt => "ai_system_prompt"
  | aiUserMessage => "ai_user_message"

/-- All labels. -/
def all : List Label :=
  [.yes, .no, .condition, .loopProgress, .loopValue, .loopIteration, .updateVariable, .increment,
   .decrement, .listAssignment, .arrayDeclaration, .vectorDeclaration, .listDeclaration,
   .reduceAssignment, .stringAssignment, .assignment, .assignmentFromArray, .declaration,
   .declarationAssignment, .declarationAssignmentFromArray, .output, .execution, .noCode,
   .unknownLanguage, .localActiveLines, .localLoops, .localNoLoops, .localConditions,
   .localNoConditions, .localHint, .incompleteNotice, .noQuestion, .answerIncomplete,
   .answerBasic, .answerSummary, .answerStep, .answerOutput, .noOutput, .aiDefaultPrompt,
   .aiError, .aiRateLimited, .aiInsufficientCredits, .aiSystemPrompt, .aiUserMessage]

/-- The label with a given key. -/
def ofKey? (t : Text) : Option Label := all.find? (·.key.toList = t)

/-- The English text of a label. -/
def english : Label → Template
  | .yes => [.text "true"]
  | .no => [.text "false"]
  | .condition => [.text "Condition: ", .argument "result"]
  | .loopProgress =>
    [.text "Loop ", .argument "name", .text " = ", .argument "value", .text " (",
     .argument "index", .text "/", .argument "total", .text ")"]
  | .loopValue => [.text "Loop ", .argument "name", .text " = ", .argument "value"]
  | .loopIteration => [.text "Loop iteration ", .argument "index"]
  | .updateVariable => [.text "Update variable"]
  | .increment => [.text "Increment"]
  | .decrement => [.text "Decrement"]
  | .listAssignment => [.text "List assignment"]
  | .arrayDeclaration => [.text "Array declaration"]
  | .vectorDeclaration => [.text "Vector declaration"]
  | .listDeclaration => [.text "List declaration"]
  | .reduceAssignment => [.text "Assignment (reduce)"]
  | .stringAssignment => [.text "String assignment"]
  | .assignment => [.text "Assignment"]
  | .assignmentFromArray => [.text "Assignment from array"]
  | .declaration => [.text "Declaration"]
  | .declarationAssignment => [.text "Declaration and assignment"]
  | .declarationAssignmentFromArray => [.text "Declaration and assignment from array"]
  | .output => [.text "Output"]
  | .execution => [.text "Execution"]
  | .noCode => [.text "No code"]
  | .unknownLanguage => [.text "Unknown language"]
  | .localActiveLines => [.text "Detected ", .argument "count", .text " active lines."]
  | .localLoops => [.text "There are loops in the flow."]
  | .localNoLoops => [.text "No explicit loops found."]
  | .localConditions => [.text "There are conditions affecting execution."]
  | .localNoConditions => [.text "No explicit conditions found."]
  | .localHint => [.text "This is a local summary. Connect a real AI provider for deeper analysis."]
  | .incompleteNotice => [.text "Note: the code appears incomplete."]
  | .noQuestion => [.text "No question"]
  | .answerIncomplete =>
    [.text "About your question (\"", .argument "question",
     .text "\"), the current code appears incomplete, so it cannot be fully answered."]
  | .answerBasic =>
    [.text "About your question (\"", .argument "question",
     .text "\"), the current code allows a basic answer."]
  | .answerSummary => [.text "In short, ", .argument "summary"]
  | .answerStep =>
    [.text "On line ", .argument "index", .text " you can see: ", .argument "text", .text "."]
  | .answerOutput => [.text "Output: ", .argument "output"]
  | .noOutput => [.text "No output."]
  | .aiDefaultPrompt => [.text "Explain the execution flow."]
  | .aiError => [.text "The AI explanation is not available right now."]
  | .aiRateLimited => [.text "The AI provider is rate limiting requests. Try again in a moment."]
  | .aiInsufficientCredits => [.text "The AI provider account has insufficient credits."]
  | .aiSystemPrompt =>
    [.text "Answer the user question first and clearly, based only on the code. If it cannot ",
     .text "be answered from the code, say so explicitly. Then explain the code in a smooth, ",
     .text "detailed text for someone who does not know programming. Avoid jargon unless you ",
     .text "explain it simply. No lists or headings, just short paragraphs. Do not invent ",
     .text "values; ignore comments; if something cannot be inferred, say so."]
  | .aiUserMessage =>
    [.text "User question:\n", .argument "prompt", .text "\n\nCode:\n", .argument "code"]

/-- The Spanish text of a label. -/
def spanish : Label → Template
  | .yes => [.text "verdadero"]
  | .no => [.text "falso"]
  | .condition => [.text "Condición: ", .argument "result"]
  | .loopProgress =>
    [.text "Bucle ", .argument "name", .text " = ", .argument "value", .text " (",
     .argument "index", .text "/", .argument "total", .text ")"]
  | .loopValue => [.text "Bucle ", .argument "name", .text " = ", .argument "value"]
  | .loopIteration => [.text "Iteración del bucle ", .argument "index"]
  | .updateVariable => [.text "Actualiza variable"]
  | .increment => [.text "Incremento"]
  | .decrement => [.text "Decremento"]
  | .listAssignment => [.text "Asignación de lista"]
  | .arrayDeclaration => [.text "Declaración de array"]
  | .vectorDeclaration => [.text "Declaración de vector"]
  | .listDeclaration => [.text "Declaración de lista"]
  | .reduceAssignment => [.text "Asignación (reduce)"]
  | .stringAssignment => [.text "Asignación de texto"]
  | .assignment => [.text "Asignación"]
  | .assignmentFromArray => [.text "Asignación desde array"]
  | .declaration => [.text "Declaración"]
  | .declarationAssignment => [.text "Declaración y asignación"]
  | .declarationAssignmentFromArray => [.text "Declaración y asignación desde array"]
  | .output => [.text "Salida"]
  | .execution => [.text "Ejecución"]
  | .noCode => [.text "Sin código"]
  | .unknownLanguage => [.text "Lenguaje desconocido"]
  | .localActiveLines => [.text "Detecté ", .argument "count", .text " líneas activas."]
  | .localLoops => [.text "Hay bucles en el flujo."]
  | .localNoLoops => [.text "No veo bucles explícitos."]
  | .localConditions => [.text "Hay condiciones que afectan la ejecución."]
  | .localNoConditions => [.text "No veo condiciones explícitas."]
  | .localHint =>
    [.text "Este es un resumen local. Conecta un proveedor IA real para obtener análisis ",
     .text "profundo."]
  | .incompleteNotice => [.text "Nota: el código parece incompleto."]
  | .noQuestion => [.text "Sin pregunta"]
  | .answerIncomplete =>
    [.text "Sobre tu pregunta (\"", .argument "question",
     .text "\"), el código actual parece incompleto, así que no se puede responder del todo."]
  | .answerBasic =>
    [.text "Sobre tu pregunta (\"", .argument "question",
     .text "\"), el código actual permite una respuesta básica."]
  | .answerSummary => [.text "En resumen, ", .argument "summary"]
  | .answerStep =>
    [.text "En la línea ", .argument "index", .text " se ve: ", .argument "text", .text "."]
  | .answerOutput => [.text "Salida: ", .argument "output"]
  | .noOutput => [.text "Sin salida."]
  | .aiDefaultPrompt => [.text "Explica el flujo de ejecución."]
  | .aiError => [.text "La explicación con IA no está disponible ahora."]
  | .aiRateLimited =>
    [.text "El proveedor de IA está limitando las solicitudes. Inténtalo en un momento."]
  | .aiInsufficientCredits => [.text "La cuenta del proveedor de IA no tiene créditos suficientes."]
  | .aiSystemPrompt =>
    [.text "Responde la pregunta del usuario primero y de forma clara, basándote solo en el ",
     .text "código. Si no se puede responder con el código, dilo explícitamente. Luego ",
     .text "explica el código en un texto fluido y detallado, pensado para alguien que no ",
     .text "sabe programar. Evita jerga técnica sin explicarla con palabras simples. No uses ",
     .text "listas ni títulos, solo párrafos breves. No inventes valores; ignora comentarios; ",
     .text "si algo no se puede inferir, dilo."]
  | .aiUserMessage =>
    [.text "Pregunta del usuario:\n", .argument "prompt", .text "\n\nCódigo:\n", .argument "code"]

/-- The text of a label in a language. -/
def template (l : Locale) (label : Label) : Template :=
  match l with
  | .english => label.english
  | .spanish => label.spanish

/-- The text of a label with its arguments filled in. -/
def write (l : Locale) (label : Label) (args : List (Text × Text)) : Text :=
  (label.template l).fillWith args

end Label

/-- The message with a key: its template as it is if there are no arguments, and filled with them
otherwise. An unknown key stands for itself. -/
def translate (l : Locale) (key : Text) (args : List (Text × Text)) : Except Fault Text :=
  match Label.ofKey? key with
  | none => .ok key
  | some label =>
    let template := label.template l
    if args.isEmpty then .ok template.source else template.fill args

end StepTrace
