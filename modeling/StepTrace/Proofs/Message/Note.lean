import Mathlib.Tactic.Common
import StepTrace.Message.Note

/-!
# Messages of notes

A note is written with a label and arguments of its own (`Note.message?`). Looked up by the key of
its label, the message is the note as it is written: no place in it lacks an argument, in any
language (`Note.translate_message`).
-/

namespace StepTrace

namespace Note

/-- The label of a note and its arguments in a language. A note given in words has none. -/
def message? (l : Locale) : Note → Option (Label × List (Text × Text))
  | plain label => some (label, [])
  | condition holds => some (.condition, [("result".toList, (truth holds).write l [])])
  | progress name value position total => some (.loopProgress,
      [("name".toList, name), ("value".toList, value), ("index".toList, Text.ofNat position),
       ("total".toList, Text.ofNat total)])
  | loopValue name value => some (.loopValue, [("name".toList, name), ("value".toList, value)])
  | iteration position => some (.loopIteration, [("index".toList, Text.ofNat position)])
  | verbatim _ => none

variable {l : Locale} {note : Note} {label : Label} {args : List (Text × Text)}

theorem write_eq (h : note.message? l = some (label, args)) :
    note.write l = label.write l args := by
  cases note <;> cases h <;> rfl

/-- The label of a note with arguments is found by its key, and its text has places for these
arguments only. -/
theorem template_message (h : note.message? l = some (label, args)) (hargs : args ≠ []) :
    Label.ofKey? label.key.toList = some label ∧ (label.template l).missing? args = none := by
  cases note with
  | plain => cases h; exact absurd rfl hargs
  | verbatim => cases h
  | _ => cases h; exact ⟨rfl, by cases l <;> rfl⟩

/-- The message of a note with arguments, looked up by its key, is the note as it is written. -/
theorem translate_message (h : note.message? l = some (label, args)) (hargs : args ≠ []) :
    translate l label.key.toList args = .ok (note.write l) := by
  obtain ⟨hlabel, hmissing⟩ := template_message h hargs
  simp only [translate, hlabel]
  rw [if_neg (by simp [hargs]), Template.fill, hmissing, write_eq h]
  rfl

/-- The message of every note can be looked up. -/
theorem exists_translate_message (h : note.message? l = some (label, args)) :
    ∃ t, translate l label.key.toList args = .ok t := by
  by_cases hargs : args = []
  · rw [hargs, translate]
    cases Label.ofKey? label.key.toList with
    | none => exact ⟨_, rfl⟩
    | some _ => exact ⟨_, rfl⟩
  · exact ⟨_, translate_message h hargs⟩

end Note

end StepTrace
