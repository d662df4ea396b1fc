import StepTrace.Json.Write
import StepTrace.Language
import StepTrace.Number.Literal

/-!
# Executing a script

A script is executed by an interpreter in a process of its own, with a limit on its computing time
and on the time that is waited for it. The interpreter is given a fixed program that reads the
script from its input. What the process printed becomes a list of lines, and what it reported
becomes the error.
-/

namespace StepTrace.Execution

/-- How scripts are executed. -/
structure Settings where
  executable : Text := "node".toList
  /-- The limit on the computing time in seconds. -/
  cpuSeconds : Option Int := some 2
deriving DecidableEq, Repr

/-- The kind of script that can be executed. -/
def kind : Text := "js".toList

/-- The usual time to wait in milliseconds. -/
def usualWait : Int := 1200

/-- The lines of the program that the interpreter is given. -/
def reader : List String :=
  ["let data = \"\";",
   "process.stdin.setEncoding(\"utf8\");",
   "process.stdin.on(\"data\", (chunk) => \x7b data += chunk; \x7d);",
   "process.stdin.on(\"end\", () => \x7b",
   "  const \x7b source \x7d = JSON.parse(data);",
   "  console.log = (...args) => \x7b",
   "    process.stdout.write(args.map((item) => String(item)).join(\" \") + \"\\n\");",
   "  \x7d;",
   "  try \x7b",
   "    new Function(source)();",
   "  \x7d catch (error) \x7b",
   "    process.stderr.write(String(error));",
   "    process.exitCode = 1;",
   "  \x7d",
   "\x7d);"]

/-- The program that the interpreter is given. -/
def program : Text := '\n' :: reader.flatMap fun line => line.toList ++ ['\n']

/-- The command that is run. -/
def Settings.command (s : Settings) : List Text := [s.executable, "-e".toList, program]

/-- The variables of the environment that the process sees. -/
def visibleVariables : List Text := ["PATH".toList]

/-- The limits that are set for the process, lower and upper. -/
def Settings.cpuLimits (s : Settings) : List (Int × Int) := s.cpuSeconds.toList.map fun n => (n, n)

/-- The text that the process reads: an object with the script. -/
def payload (source : Text) : Text :=
  '\x7b' :: Json.written "source".toList ++ ": ".toList ++ Json.written source ++ ['\x7d']

/-- The time to wait in seconds. -/
def waitSeconds (milliseconds : Int) : Option Double := Number.quotient? milliseconds 1000

/-- What became of the attempt to run a process. -/
inductive Attempt where
  | notStarted (cause : Text)
  | timedOut (printed : Option Text)
  | finished (printed reported : Option Text) (status : Int)
deriving DecidableEq, Repr

/-- The process had to be ended. -/
def Attempt.isKilled : Attempt → Bool
  | .timedOut _ => true
  | _ => false

/-- The outcome of an execution. -/
structure Result where
  logs : List Text
  error : Option Text
  timedOut : Bool
deriving DecidableEq, Repr

/-- The lines that were printed. -/
def logs (printed : Option Text) : List Text := (printed.getD []).lines

/-- The error of a finished process: what it reported, or else a status other than zero. -/
def error? (reported : Option Text) (status : Int) : Option Text :=
  let text := (reported.getD []).trim
  if text.isEmpty then
    if status = 0 then none else some ("exit status ".toList ++ Text.ofInt status)
  else some text

/-- The outcome that follows from what became of the process. -/
def Attempt.result : Attempt → Result
  | .notStarted cause => ⟨[], some cause, false⟩
  | .timedOut printed => ⟨logs printed, none, true⟩
  | .finished printed reported status => ⟨logs printed, error? reported status, false⟩

/-- The snippet is of the kind that can be executed. -/
def canExecute (source : Text) : Bool := (detect source).runnable? == some kind

end StepTrace.Execution
