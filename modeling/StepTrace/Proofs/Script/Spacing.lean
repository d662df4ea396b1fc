import Mathlib.Data.List.Forall2
import StepTrace.Proofs.Script.Jumps
import StepTrace.Proofs.Text.Words
import StepTrace.Script.Run

/-!
# White space between the words of a script

A line is read twice. The machine takes it apart into words and looks at nothing else
(`Prepared.steps_congr`). The pass that links the lines looks at its characters: an end is a word by
itself, but a beginning is told by its first word and a space behind that word. So a conditional or
loop with another blank in this place is run as one and is not linked with its end
(`isUnseen`). Then its end belongs to no beginning or to another one.

These are the only lines that change when they are respaced (`JumpScan.step_respaced_iff`). Without
such a line a script does the same however its words are spaced (`run_respaced`).
-/

namespace StepTrace.Script

open CharClass

/-! ## What the machine sees -/

theorem isPassed_eq (line : Text) :
    isPassed line = line.words.head?.all (Text.startsWith · ['#']) := by
  cases hwords : line.words with
  | nil =>
    rw [isPassed, Text.trim_of_blank (Text.words_eq_nil_iff.1 hwords)]
    rfl
  | cons w ws =>
    obtain ⟨hne, -⟩ := Text.isWord_iff.1 (Text.isWord_of_mem_words (hwords ▸ List.mem_cons_self))
    obtain ⟨c, w, rfl⟩ := List.exists_cons_of_ne_nil hne
    obtain ⟨rest, htrim⟩ : ∃ rest, line.trim = c :: w ++ rest := by
      rcases Text.exists_of_words_eq_cons hwords with ⟨-, h⟩ | ⟨b, rest, -, h, -⟩
      · exact ⟨[], by rw [h, List.append_nil]⟩
      · exact ⟨b :: rest, h⟩
    rw [isPassed, htrim]
    rfl

/-- The next line is found by the words of the lines alone. -/
theorem fetchFrom?_congr {lines lines' : List Text}
    (h : lines.map Text.words = lines'.map Text.words) (index : Nat) :
    (fetchFrom? index lines).map (Prod.map id Text.words) =
      (fetchFrom? index lines').map (Prod.map id Text.words) := by
  induction lines generalizing lines' index with
  | nil =>
    rw [List.map_eq_nil_iff.1 h.symm]
  | cons line lines ih =>
    obtain ⟨line', lines', rfl, hline, hlines⟩ := List.map_eq_cons_iff.1 h.symm
    rw [fetchFrom?, fetchFrom?, isPassed_eq, isPassed_eq, hline]
    split_ifs
    · exact ih hlines.symm (index + 1)
    · simp [Text.words_trim, hline]

/-- What an entry shows beside its line. -/
def ScriptEntry.shown (e : ScriptEntry) : Nat × Text × Store := (e.step, e.note, e.store)

namespace Prepared

variable {p p' : Prepared} (hwords : p.lines.map Text.words = p'.lines.map Text.words)
  (hjumps : p.jumps = p'.jumps)

include hwords hjumps

theorem step?_congr (m : Machine) : (p.step? m).map Prod.snd = (p'.step? m).map Prod.snd := by
  have hdrop : (p.lines.drop m.next).map Text.words = (p'.lines.drop m.next).map Text.words := by
    rw [List.map_drop, List.map_drop, hwords]
  have hrun := congrArg (Option.map fun found : Nat × List Text =>
    (Instruction.ofWords found.2).run p.jumps found.1 m) (fetchFrom?_congr hdrop m.next)
  rw [Option.map_map, Option.map_map] at hrun
  rw [step?, step?, Option.map_map, Option.map_map, ← hjumps]
  exact hrun

/-- With the same words on each line and the same jumps, a script goes the same steps. -/
theorem steps_congr (left number : Nat) (m : Machine) :
    (p.steps left number m).1.map ScriptEntry.shown =
      (p'.steps left number m).1.map ScriptEntry.shown ∧
    (p.steps left number m).2 = (p'.steps left number m).2 := by
  induction left generalizing number m with
  | zero => exact ⟨rfl, rfl⟩
  | succ left ih =>
    have hstep := step?_congr hwords hjumps m
    rw [steps, steps]
    cases h : p.step? m with
    | none =>
      rw [h, Option.map_none, eq_comm, Option.map_eq_none_iff] at hstep
      rw [hstep]
      exact ⟨rfl, rfl⟩
    | some found =>
      obtain ⟨line, note, m'⟩ := found
      rw [h, Option.map_some, eq_comm, Option.map_eq_some_iff] at hstep
      obtain ⟨⟨line', note', m''⟩, h', heq⟩ := hstep
      cases heq
      obtain ⟨htrace, hlast⟩ := ih (number + 1) m'
      rw [h']
      exact ⟨congrArg (List.cons _) htrace, hlast⟩

end Prepared

/-! ## What the pass over the lines sees -/

/-- The words that begin a conditional or a loop. -/
def openers : List Text := ["if".toList, "loop".toList]

/-- The words of a line begin with a given one and go on. -/
def leads (k : Text) (ws : List Text) : Bool := word ws 0 == k && decide (1 < ws.length)

/-- A line that begins a conditional or a loop by its words, with a blank behind the first word that
is not a space. -/
def isUnseen (line : Text) : Bool :=
  openers.any fun k => leads k line.words && !line.trim.startsWith (k ++ [' '])

section Opening

variable {k line : Text} (hk : k.isWord)

include hk

theorem leads_of_startsWith (h : line.trim.startsWith (k ++ [' '])) : leads k line.words := by
  obtain ⟨rest, hrest⟩ := List.isPrefixOf_iff_prefix.1 h
  have hwords : line.words = k :: Text.words rest := by
    rw [← Text.words_trim, ← hrest, List.append_assoc, List.singleton_append,
      Text.words_append hk (by decide)]
  rcases Text.exists_of_words_eq_cons hwords with ⟨-, htrim⟩ | ⟨-, -, -, -, -, hne⟩
  · rw [htrim] at hrest
    have hlength := congrArg List.length hrest
    simp at hlength
  · obtain ⟨v, ws, hws⟩ := List.exists_cons_of_ne_nil hne
    simp [leads, word, hwords, hws]

/-- In a respaced line the words alone tell what it begins with. -/
theorem startsWith_respaced : line.respaced.trim.startsWith (k ++ [' ']) = leads k line.words := by
  rw [Bool.eq_iff_iff]
  constructor
  · intro h
    simpa only [Text.words_respaced] using leads_of_startsWith hk h
  · intro h
    obtain ⟨hfirst, hmore⟩ := Bool.and_eq_true_iff.1 h
    rw [Text.trim_respaced]
    rcases hwords : line.words with _ | ⟨w, _ | ⟨v, ws⟩⟩
    · simp [hwords] at hmore
    · simp [hwords] at hmore
    · obtain rfl : w = k := by simpa [hwords, word] using hfirst
      rw [Text.joined_cons_cons]
      exact List.isPrefixOf_iff_prefix.2 ⟨Text.joined [' '] (v :: ws), by simp⟩

end Opening

theorem isWord_of_mem_openers {k : Text} (hk : k ∈ openers) : k.isWord := by
  have hall : openers.all Text.isWord := by decide
  exact List.all_eq_true.1 hall k hk

theorem startsWith_of_seen {k line : Text} (hk : k ∈ openers) (h : isUnseen line = false) :
    line.trim.startsWith (k ++ [' ']) = leads k line.words := by
  have hseen := List.any_eq_false.1 h k hk
  rw [Bool.eq_iff_iff]
  refine ⟨leads_of_startsWith (isWord_of_mem_openers hk), fun hleads => ?_⟩
  simpa [hleads] using hseen

namespace JumpScan

/-- Lines with the same words that begin in the same way are the same to the pass. -/
theorem step_congr {line line' : Text} (hwords : line.words = line'.words)
    (hopens : ∀ k ∈ openers, line.trim.startsWith (k ++ [' ']) = line'.trim.startsWith (k ++ [' ']))
    (s : JumpScan) (index : Nat) : s.step index line = s.step index line' := by
  have hif : line.trim.startsWith "if ".toList = line'.trim.startsWith "if ".toList :=
    hopens "if".toList (by decide)
  have hloop : line.trim.startsWith "loop ".toList = line'.trim.startsWith "loop ".toList :=
    hopens "loop".toList (by decide)
  have hclose : ∀ {w : Text}, w.isWord → (line.trim = w ↔ line'.trim = w) := fun hw => by
    rw [Text.trim_eq_iff_words hw, Text.trim_eq_iff_words hw, hwords]
  have hendif := hclose (w := "endif".toList) (by decide)
  have hend := hclose (w := "end".toList) (by decide)
  simp only [step, hif, hloop, hendif, hend]

theorem lines_congr {lines lines' : List Text} (h : List.Forall₂ (fun line line' =>
    ∀ (s : JumpScan) (index : Nat), s.step index line = s.step index line') lines lines')
    (s : JumpScan) (index : Nat) : s.lines index lines = s.lines index lines' := by
  induction h generalizing s index with
  | nil => rfl
  | cons hline _ ih => rw [JumpScan.lines, JumpScan.lines, hline, ih]

/-- Where nothing is open yet, one pass shows whether the line opens something. -/
theorem opens_eq_of_step {b : Brackets Text} {line line' : Text}
    (h : b.step ⟨[], []⟩ (line, 0) = b.step ⟨[], []⟩ (line', 0)) :
    b.opens line = b.opens line' := by
  have hopened : ∀ t : Text, (b.step ⟨[], []⟩ (t, 0)).opened = if b.opens t then [0] else [] := by
    intro t
    simp only [Brackets.step]
    split_ifs <;> rfl
  have hsame := congrArg Brackets.Matching.opened h
  rw [hopened, hopened] at hsame
  split_ifs at hsame <;> simp_all

theorem startsWith_of_step {line line' : Text}
    (h : step ⟨[], [], ⟨[], []⟩⟩ 0 line = step ⟨[], [], ⟨[], []⟩⟩ 0 line') :
    ∀ k ∈ openers, line.trim.startsWith (k ++ [' ']) = line'.trim.startsWith (k ++ [' ']) := by
  have hif := congrArg ifPart h
  have hloop := congrArg loopPart h
  rw [ifPart_step, ifPart_step] at hif
  rw [loopPart_step, loopPart_step] at hloop
  have hopensIf : ifLines.opens line = ifLines.opens line' := opens_eq_of_step hif
  have hopensLoop : loopLines.opens line = loopLines.opens line' := opens_eq_of_step hloop
  simp only [openers, List.forall_mem_cons]
  exact ⟨hopensIf, hopensLoop, List.forall_mem_nil _⟩

/-- Exactly the unseen lines are changed for the pass by respacing them. -/
theorem step_respaced_iff (line : Text) :
    (∀ (s : JumpScan) (index : Nat), s.step index line.respaced = s.step index line) ↔
      isUnseen line = false := by
  constructor
  · intro h
    have hsame := startsWith_of_step (h ⟨[], [], ⟨[], []⟩⟩ 0)
    refine List.any_eq_false.2 fun k hk => ?_
    rw [← hsame k hk, startsWith_respaced (isWord_of_mem_openers hk)]
    simp
  · intro h s index
    refine step_congr line.words_respaced (fun k hk => ?_) s index
    rw [startsWith_respaced (isWord_of_mem_openers hk), startsWith_of_seen hk h]

end JumpScan

/-! ## Runs -/

/-- Respacing lines of a script that are not unseen leaves everything but the lines in its trace as
it is. The unseen lines are those that the pass which links beginnings and ends takes for something
else when they are respaced. -/
theorem run_respaced (limits : Limits) :
    (∀ line : Text, isUnseen line = false ↔
      ∀ (s : JumpScan) (index : Nat), s.step index line.respaced = s.step index line) ∧
    ∀ source source' : Text, List.Forall₂ (fun line line' : Text =>
        line' = line ∨ line' = line.respaced ∧ isUnseen line = false)
      source.feedLines source'.feedLines →
      (run limits source').output = (run limits source).output ∧
      (run limits source').trace.map ScriptEntry.shown =
        (run limits source).trace.map ScriptEntry.shown := by
  refine ⟨fun line => (JumpScan.step_respaced_iff line).symm, fun source source' h => ?_⟩
  have hwords : source.feedLines.map Text.words = source'.feedLines.map Text.words := by
    rw [← List.forall₂_eq_eq_eq, List.forall₂_map_left_iff, List.forall₂_map_right_iff]
    refine h.imp ?_
    rintro line - (rfl | ⟨rfl, -⟩)
    · rfl
    · exact line.words_respaced.symm
  have hjumps : Jumps.ofLines source.feedLines = Jumps.ofLines source'.feedLines := by
    refine congrArg JumpScan.jumps (JumpScan.lines_congr (h.imp ?_) _ 0)
    rintro line - (rfl | ⟨rfl, hseen⟩) s index
    · rfl
    · exact ((JumpScan.step_respaced_iff line).2 hseen s index).symm
  obtain ⟨htrace, hlast⟩ : _ ∧ ((Prepared.ofText source).steps _ _ _).2 =
      ((Prepared.ofText source').steps _ _ _).2 :=
    Prepared.steps_congr hwords hjumps limits.entries.toNat 1 .start
  exact ⟨congrArg (fun m => m.output.toList) hlast.symm, htrace.symm⟩

/-- White space of all kinds behind the words of a loop and a conditional, at the ends of a line and
inside of a comment. -/
theorem run_respaced_tabs :
    let source : Text :=
      "set\tx 1\nloop \t2\n if x   <\t9\n# a\tb\nadd x\tx \nendif\nend\nprint\tx".toList
    let source' : Text :=
      "set x 1\nloop 2\n if x < 9\n# a b\nadd x x \nendif\nend\nprint x".toList
    List.Forall₂ (fun line line' : Text =>
        line' = line ∨ line' = line.respaced ∧ isUnseen line = false)
      source.feedLines source'.feedLines ∧
      (run .usual source').output = ["4".toList] ∧ (run .usual source).output = ["4".toList] := by
  intro source source'
  have hlines : List.Forall₂ (fun line line' : Text =>
      line' = line ∨ line' = line.respaced ∧ isUnseen line = false)
      source.feedLines source'.feedLines := by decide +kernel
  have hrun : (run .usual source').output = ["4".toList] := by decide +kernel
  exact ⟨hlines, hrun, ((run_respaced .usual).2 source source' hlines).1.symm.trans hrun⟩

/-- A conditional and a loop with a tab behind their first word: the body of the one is not skipped,
and that of the other is not repeated. -/
theorem run_not_respaced :
    let source : Text := "if\t0 > 1\nprint 5\nendif\nloop\t2\nprint 1\nend".toList
    let source' : Text := "if 0 > 1\nprint 5\nendif\nloop 2\nprint 1\nend".toList
    List.Forall₂ (fun line line' : Text => line' = line ∨ line' = line.respaced)
      source.feedLines source'.feedLines ∧
      (run .usual source).output = ["5".toList, "1".toList] ∧
      (run .usual source').output = ["1".toList, "1".toList] := by
  decide +kernel

end StepTrace.Script
