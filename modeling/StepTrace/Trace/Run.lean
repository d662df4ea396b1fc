import StepTrace.Trace.Basic

/-!
# Runs

A run changes the variables, the output and the trace, and may stop early: at the limit of entries,
at a fault, or because it would go on for ever without a further step. What was done before it
stopped stays done.

Recording does nothing while the recorder is muted. Otherwise it refuses the entry beyond the limit.
-/

namespace StepTrace

/-- Why a run stops early. -/
inductive Stop where
  | limit
  | fault (cause : Fault)
  | stalled
deriving DecidableEq, Repr

/-- The state of a run. -/
structure Recorder where
  store : Store
  outputs : Transcript
  trace : Array Entry
  /-- How many silent parts the run is inside of. -/
  muted : Nat
deriving Repr

namespace Recorder

/-- The state with the given variables and nothing recorded. -/
def start (s : Store) : Recorder := ⟨s, .empty, #[], 0⟩

/-- The variables and the output now. -/
def snapshot (r : Recorder) : Snapshot := ⟨r.store, r.outputs⟩

end Recorder

/-- A computation on the state that may stop early. -/
abbrev Run := ExceptT Stop (StateM Recorder)

namespace Run

/-- A result that may be a fault. -/
def lift (r : Except Fault α) : Run α :=
  match r with
  | .ok a => pure a
  | .error f => throw (.fault f)

/-- The variables. -/
def store : Run Store := do return (← get).store

/-- The variables and the output. -/
def snapshot : Run Snapshot := do return (← get).snapshot

/-- Bind a variable. -/
def bind (name : Text) (value : Value) : Run Unit :=
  modify fun r => { r with store := r.store.insert name value }

/-- Print a line. -/
def print (line : Text) : Run Unit :=
  modify fun r => { r with outputs := r.outputs.push line }

/-- Record a step that began at a snapshot. -/
def record (limits : Limits) (line : Text) (note : Note) (before : Snapshot)
    (operation : Option Operation) (output : Option Text) : Run Unit := do
  let r ← get
  if r.muted ≠ 0 then return ()
  if limits.entries ≤ r.trace.size then throw .limit
  let entry : Entry := ⟨r.trace.size + 1, line, note, before, r.snapshot, operation, output⟩
  modify fun r => { r with trace := r.trace.push entry }

/-- Run a part without recording it. However it ends, recording goes on as before. -/
def silently (part : Run Unit) : Run Unit := ExceptT.mk do
  modify fun r => { r with muted := r.muted + 1 }
  let outcome ← part.run
  modify fun r => { r with muted := r.muted - 1 }
  return outcome

end Run

end StepTrace
