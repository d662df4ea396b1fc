import StepTrace.Client
import StepTrace.Execution
import StepTrace.Explain.Answer
import StepTrace.Script.Run
import StepTrace.Proofs.Run.Action
import StepTrace.Proofs.Run.Discipline
import StepTrace.Proofs.Store
import StepTrace.Proofs.Trace.WellFormed
import StepTrace.Proofs.Trace.Limit
import StepTrace.Proofs.Pattern.Reach
import StepTrace.Proofs.Program.Read
import StepTrace.Proofs.Source.Brace
import StepTrace.Proofs.Program.Walk
import StepTrace.Proofs.Number.Normal
import StepTrace.Proofs.Expr.Normal
import StepTrace.Proofs.Print.Faults
import StepTrace.Proofs.Source.Prepared
import StepTrace.Proofs.Message.Note
import StepTrace.Proofs.Run.Faults
import StepTrace.Proofs.Script.Block
import StepTrace.Proofs.Script.Placed
import StepTrace.Proofs.Script.Simulation
import StepTrace.Proofs.Trace.Replay
import StepTrace.Proofs.Program.Rows
import StepTrace.Proofs.Structured.Header
import StepTrace.Proofs.Structured.Braced
import StepTrace.Proofs.Structured.Curtailed
import StepTrace.Proofs.Structured.Indented
import StepTrace.Proofs.Trace.Normal
import StepTrace.Proofs.Run.Trail
import StepTrace.Proofs.Source.Blocks
import StepTrace.Proofs.Program.Containment
import StepTrace.Proofs.Program.Outline
import StepTrace.Proofs.Program.Outermost
import StepTrace.Proofs.Program.Reading
import StepTrace.Proofs.Program.Reading.Indented
import StepTrace.Proofs.Program.Reading.Braced
import StepTrace.Proofs.Program.Branches
import StepTrace.Proofs.Script.Halting
import StepTrace.Proofs.Run.Localized
import StepTrace.Proofs.Source.Cutting
import StepTrace.Proofs.Source.Layouts
import StepTrace.Proofs.Program.Relocated
import StepTrace.Proofs.Run.Alike
import StepTrace.Proofs.Program.LoopHeaders
import StepTrace.Proofs.Program.LoopForms
import StepTrace.Proofs.Condition
import StepTrace.Proofs.Expr.Scan
import StepTrace.Proofs.Expr.Operand
import StepTrace.Proofs.Expr.Literals
import StepTrace.Proofs.Expr.Formula
import StepTrace.Proofs.Expr.Parentheses
import StepTrace.Proofs.Matching
import StepTrace.Proofs.Script.Jumps
import StepTrace.Proofs.Source.BraceMatching
import StepTrace.Proofs.Source.Kept
import StepTrace.Proofs.Text.Splitting
import StepTrace.Proofs.Print.Literal
import StepTrace.Proofs.Source.Literals
import StepTrace.Proofs.Print.Hole
import StepTrace.Proofs.Print.Placeholder
import StepTrace.Proofs.Script.Spacing
import StepTrace.Proofs.Pattern.Leads
import StepTrace.Proofs.Statement.Spellings
import StepTrace.Proofs.Number.Display
import StepTrace.Proofs.Expr.Lists
import StepTrace.Proofs.Trace.Recomputed
import StepTrace.Proofs.Program.Indents
import StepTrace.Proofs.Program.Enclosed
import StepTrace.Proofs.Pattern.Context
import StepTrace.Proofs.Language
import StepTrace.Proofs.Explain.Answer
