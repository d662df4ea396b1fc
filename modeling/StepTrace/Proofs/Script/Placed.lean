import StepTrace.Proofs.Script.Block
import StepTrace.Proofs.Source.Lines

/-!
# Where a structured script stands

The lines of a structured script stand in a list of lines, with lines that are passed over before,
between and behind them. `Block.Placed` says where: it gives every command, conditional and loop its
lines, and it says that the jumps lead from the first line of a conditional or loop to its last one,
and in a loop back.

The jumps are found by a scan with two stacks. Over the lines of a structured script the scan leaves
the stacks as they were, changes the jumps of these lines only, and links each first line with its
last one (`JumpScan.Places`). That the stacks come back is what makes the scan of a body no concern
of the conditional or loop around it.
-/

namespace StepTrace.Script

/-! ## Lines of a script -/

/-- The lines of a script that are not passed over, trimmed. -/
def spokenLines (lines : List Text) : List Text := (lines.filter (! isPassed ·)).map Text.trim

theorem spokenLines_append (a b : List Text) :
    spokenLines (a ++ b) = spokenLines a ++ spokenLines b := by
  simp [spokenLines]

theorem spokenLines_eq_nil {lines : List Text} :
    spokenLines lines = [] ↔ ∀ line ∈ lines, isPassed line = true := by
  simp [spokenLines]

/-- The first line that says something, and what is passed over before it. -/
theorem exists_of_spokenLines_eq_cons {lines : List Text} {t : Text} {ts : List Text}
    (h : spokenLines lines = t :: ts) : ∃ passed line rest, lines = passed ++ line :: rest ∧
      spokenLines passed = [] ∧ isPassed line = false ∧ line.trim = t ∧ spokenLines rest = ts := by
  obtain ⟨line, ls, hfilter, rfl, hts⟩ := List.map_eq_cons_iff.1 h
  obtain ⟨passed, rest, rfl, hpassed, hline, rfl⟩ := List.filter_eq_cons_iff.1 hfilter
  exact ⟨passed, line, rest, rfl, spokenLines_eq_nil.2 (by simpa using hpassed),
    by simpa using hline, rfl, hts⟩

theorem exists_of_spokenLines_eq_append {lines ts us : List Text}
    (h : spokenLines lines = ts ++ us) : ∃ a b, lines = a ++ b ∧ spokenLines a = ts ∧
      spokenLines b = us := by
  obtain ⟨as, bs, hfilter, hts, hus⟩ := List.map_eq_append_iff.1 h
  obtain ⟨a, b, rfl, rfl, rfl⟩ := List.filter_eq_append_iff.1 hfilter
  exact ⟨a, b, rfl, hts, hus⟩

/-- A body, the line that ends it, and what follows. -/
theorem exists_of_spokenLines_eq_body {lines body : List Text} {t : Text} {ts : List Text}
    (h : spokenLines lines = body ++ t :: ts) : ∃ inner line rest, lines = inner ++ line :: rest ∧
      spokenLines inner = body ∧ isPassed line = false ∧ line.trim = t ∧
      spokenLines rest = ts := by
  obtain ⟨a, b, rfl, ha, hb⟩ := exists_of_spokenLines_eq_append h
  obtain ⟨passed, line, rest, rfl, hpassed, hline, ht, hts⟩ := exists_of_spokenLines_eq_cons hb
  refine ⟨a ++ passed, line, rest, by simp, ?_, hline, ht, hts⟩
  rw [spokenLines_append, ha, hpassed, List.append_nil]

/-- The lines from an index up to another one are passed over. -/
structure Passes (lines : List Text) (first stop : Nat) : Prop where
  le : first ≤ stop
  passed : ∀ k, first ≤ k → k < stop → ∃ line, lines[k]? = some line ∧ isPassed line = true

/-- The line at an index is not passed over, and trimmed it is the given text. -/
def Says (lines : List Text) (index : Nat) (t : Text) : Prop :=
  ∃ line, lines[index]? = some line ∧ isPassed line = false ∧ line.trim = t

namespace Passes

variable {lines : List Text} {i j k : Nat}

theorem refl (lines : List Text) (i : Nat) : Passes lines i i :=
  ⟨Nat.le_refl _, fun _ _ _ => by omega⟩

theorem trans (h : Passes lines i j) (h' : Passes lines j k) : Passes lines i k where
  le := h.le.trans h'.le
  passed l hil hlk := by
    rcases Nat.lt_or_ge l j with hlj | hjl
    · exact h.passed l hil hlj
    · exact h'.passed l hjl hlk

theorem of_standsAt {passed : List Text} (h : StandsAt lines i passed)
    (hpassed : spokenLines passed = []) : Passes lines i (i + passed.length) where
  le := Nat.le_add_right _ _
  passed k hk hlt := by
    obtain ⟨rest, hrest⟩ := h
    obtain ⟨d, rfl⟩ := Nat.exists_eq_add_of_le hk
    have hd : d < passed.length := by omega
    refine ⟨passed[d], ?_, spokenLines_eq_nil.1 hpassed _ (List.getElem_mem hd)⟩
    rw [← List.getElem?_drop, ← hrest, List.getElem?_append_left hd, List.getElem?_eq_getElem hd]

end Passes

/-! ## Places -/

/-- A structured script stands on the lines from an index up to another one, and the jumps lead from
the first line of each conditional and loop to its last line, and in a loop back. -/
def Block.Placed (p : Prepared) : Block → (first stop : Nat) → Prop
  | done, first, stop => Passes p.lines first stop
  | plain words rest, first, stop =>
    ∃ k, Passes p.lines first k ∧ Says p.lines k (lineOf words) ∧ rest.Placed p (k + 1) stop
  | branch left sign right body rest, first, stop =>
    ∃ k e, Passes p.lines first k ∧ Says p.lines k (ifLine left sign right) ∧
      body.Placed p (k + 1) e ∧ Says p.lines e "endif".toList ∧ p.jumps.ifEnd? k = some e ∧
      rest.Placed p (e + 1) stop
  | loop count body rest, first, stop =>
    ∃ k e, Passes p.lines first k ∧ Says p.lines k (loopLine count) ∧ body.Placed p (k + 1) e ∧
      Says p.lines e "end".toList ∧ p.jumps.loopEnd? k = some e ∧ p.jumps.loopStart? e = some k ∧
      rest.Placed p (e + 1) stop

/-- Two jumps are the same at an index. -/
structure Jumps.SameAt (j j' : Jumps) (index : Nat) : Prop where
  ifEnd : j.ifEnd? index = j'.ifEnd? index
  loopEnd : j.loopEnd? index = j'.loopEnd? index
  loopStart : j.loopStart? index = j'.loopStart? index

theorem Jumps.SameAt.trans {j j' j'' : Jumps} {index : Nat} (h : j.SameAt j' index)
    (h' : j'.SameAt j'' index) : j.SameAt j'' index :=
  ⟨h.1.trans h'.1, h.2.trans h'.2, h.3.trans h'.3⟩

namespace Block

theorem Placed.le {p : Prepared} {b : Block} {i j : Nat} (h : b.Placed p i j) : i ≤ j := by
  induction b generalizing i j with
  | done => exact Passes.le h
  | plain words rest ih =>
    obtain ⟨k, hk, _, hrest⟩ := h
    have := hk.le
    have := ih hrest
    omega
  | branch left sign right body rest ihBody ih =>
    obtain ⟨k, e, hk, _, hbody, _, _, hrest⟩ := h
    have := hk.le
    have := ihBody hbody
    have := ih hrest
    omega
  | loop count body rest ihBody ih =>
    obtain ⟨k, e, hk, _, hbody, _, _, _, hrest⟩ := h
    have := hk.le
    have := ihBody hbody
    have := ih hrest
    omega

/-- A place depends on the jumps of its own lines only. -/
theorem Placed.congr {lines : List Text} {jumps jumps' : Jumps} {b : Block} {i j : Nat}
    (h : b.Placed ⟨lines, jumps⟩ i j) (hsame : ∀ k, i ≤ k → k < j → jumps'.SameAt jumps k) :
    b.Placed ⟨lines, jumps'⟩ i j := by
  induction b generalizing i j with
  | done => exact h
  | plain words rest ih =>
    obtain ⟨k, hk, htext, hrest⟩ := h
    have := hk.le
    exact ⟨k, hk, htext, ih hrest fun l hl hlj => hsame l (by omega) hlj⟩
  | branch left sign right body rest ihBody ih =>
    obtain ⟨k, e, hk, htext, hbody, hend, hjump, hrest⟩ := h
    have := hk.le
    have := hbody.le
    have := hrest.le
    refine ⟨k, e, hk, htext, ?_, hend, ?_, ?_⟩
    · exact ihBody hbody fun l hl hle => hsame l (by omega) (by omega)
    · exact (hsame k (by omega) (by omega)).ifEnd.trans hjump
    · exact ih hrest fun l hl hlj => hsame l (by omega) hlj
  | loop count body rest ihBody ih =>
    obtain ⟨k, e, hk, htext, hbody, hend, hjump, hback, hrest⟩ := h
    have := hk.le
    have := hbody.le
    have := hrest.le
    refine ⟨k, e, hk, htext, ?_, hend, ?_, ?_, ?_⟩
    · exact ihBody hbody fun l hl hle => hsame l (by omega) (by omega)
    · exact (hsame k (by omega) (by omega)).loopEnd.trans hjump
    · exact (hsame e (by omega) (by omega)).loopStart.trans hback
    · exact ih hrest fun l hl hlj => hsame l (by omega) hlj

/-- What is passed over before a structured script belongs to its place. -/
theorem Placed.after_passes {p : Prepared} {b : Block} {i j k : Nat} (h : Passes p.lines i j)
    (hb : b.Placed p j k) : b.Placed p i k := by
  cases b with
  | done => exact h.trans hb
  | plain words rest =>
    obtain ⟨l, hl, hrest⟩ := hb
    exact ⟨l, h.trans hl, hrest⟩
  | branch left sign right body rest =>
    obtain ⟨l, e, hl, hrest⟩ := hb
    exact ⟨l, e, h.trans hl, hrest⟩
  | loop count body rest =>
    obtain ⟨l, e, hl, hrest⟩ := hb
    exact ⟨l, e, h.trans hl, hrest⟩

end Block

/-! ## What a line does to the scan -/

section Step

variable {line t : Text}

theorem word_of_startsWith {w : Text} (hw : w.isWord) (h : t.startsWith (w ++ [' '])) :
    word t.words 0 = w := by
  obtain ⟨rest, rfl⟩ := List.isPrefixOf_iff_prefix.1 h
  rw [List.append_assoc, List.singleton_append, Text.words_append hw (by decide)]
  rfl

theorem word_lineOf {ws : List Text} (h : ∀ w ∈ ws, w.isWord) (i : Nat) :
    word (lineOf ws).words i = word ws i := by
  rw [lineOf, Text.words_joined h]

theorem word_lineOf_not_mem_blockWords {ws : List Text} (h : isCommand ws) :
    word (lineOf ws).words 0 ∉ blockWords := by
  simp only [isCommand, Bool.and_eq_true, Bool.not_eq_true'] at h
  obtain ⟨⟨⟨_, hwords⟩, hblock⟩, _⟩ := h
  rw [word_lineOf (by simpa using hwords)]
  simpa using hblock

namespace JumpScan

variable (s : JumpScan) (index : Nat)

theorem step_passed (h : isPassed line = true) : s.step index line = s := by
  unfold isPassed at h
  simp only [step]
  rcases htrim : line.trim with _ | ⟨c, rest⟩
  · rfl
  · obtain rfl : '#' = c := by simpa [htrim, Text.startsWith] using h
    rfl

/-- A line whose first word belongs to no conditional and no loop leaves the scan as it is. -/
theorem step_command (h : word line.trim.words 0 ∉ blockWords) : s.step index line = s := by
  have hif : ¬line.trim.startsWith "if ".toList := fun hif => h <| by
    rw [word_of_startsWith (w := "if".toList) (by decide) hif]
    decide
  have hloop : ¬line.trim.startsWith "loop ".toList := fun hloop => h <| by
    rw [word_of_startsWith (w := "loop".toList) (by decide) hloop]
    decide
  have hendif : line.trim ≠ "endif".toList := fun hendif => h (by rw [hendif]; decide)
  have hend : line.trim ≠ "end".toList := fun hend => h (by rw [hend]; decide)
  simp only [step]
  rw [if_neg hif, if_neg hendif, if_neg hloop, if_neg hend]

theorem step_if {left sign right : Text} (h : line.trim = Block.ifLine left sign right) :
    s.step index line = { s with openIfs := index :: s.openIfs } := by
  have hif : line.trim.startsWith "if ".toList := by
    rw [h, Block.ifLine, lineOf, Text.joined, List.intercalate_cons_cons]
    exact List.isPrefixOf_iff_prefix.2 ⟨_, rfl⟩
  simp only [step]
  rw [if_pos hif]

theorem step_loop {count : Text} (h : line.trim = Block.loopLine count) :
    s.step index line = { s with openLoops := index :: s.openLoops } := by
  have hline : line.trim = "loop ".toList ++ count := by
    rw [h, Block.loopLine, lineOf, Text.joined, List.intercalate_cons_cons]
    simp
  simp only [step]
  rw [hline]
  rfl

theorem step_endif {start : Nat} {rest : List Nat} (hopen : s.openIfs = start :: rest)
    (h : line.trim = "endif".toList) : s.step index line =
      { s with
        openIfs := rest, jumps := { s.jumps with ifs := (start, index) :: s.jumps.ifs } } := by
  simp only [step, h, hopen]
  rfl

theorem step_end {start : Nat} {rest : List Nat} (hopen : s.openLoops = start :: rest)
    (h : line.trim = "end".toList) : s.step index line =
      { s with
        openLoops := rest
        jumps := { s.jumps with loops := (start, index) :: s.jumps.loops } } := by
  simp only [step, h, hopen]
  rfl

theorem lines_append (a b : List Text) :
    s.lines index (a ++ b) = (s.lines index a).lines (index + a.length) b := by
  induction a generalizing s index with
  | nil => rfl
  | cons line a ih =>
    rw [List.cons_append, lines, lines, ih, List.length_cons, Nat.add_right_comm, Nat.add_assoc]

theorem lines_passed {passed : List Text} (h : spokenLines passed = []) :
    s.lines index passed = s := by
  have hall := spokenLines_eq_nil.1 h
  clear h
  induction passed generalizing index with
  | nil => rfl
  | cons line passed ih =>
    rw [lines, step_passed s index (hall line (by simp))]
    exact ih _ fun l hl => hall l (by simp [hl])

theorem lines_first {passed rest : List Text} (h : spokenLines passed = []) :
    s.lines index (passed ++ line :: rest) =
      (s.step (index + passed.length) line).lines (index + passed.length + 1) rest := by
  rw [lines_append, lines_passed s index h, lines]

end JumpScan

end Step

/-! ## What a structured script does to the scan -/

/-- From one state to another the scan has placed a structured script: the stacks are as they were,
and only the jumps of its lines may have changed. -/
structure JumpScan.Places (lines : List Text) (b : Block) (first stop : Nat) (s s' : JumpScan) :
    Prop where
  openIfs : s'.openIfs = s.openIfs
  openLoops : s'.openLoops = s.openLoops
  elsewhere : ∀ k, k < first ∨ stop ≤ k → s'.jumps.SameAt s.jumps k
  placed : b.Placed ⟨lines, s'.jumps⟩ first stop

theorem Jumps.sameAt_cons_if {j : Jumps} {start stop k : Nat} (h : k ≠ start) :
    Jumps.SameAt { j with ifs := (start, stop) :: j.ifs } j k where
  ifEnd := by
    show ((start, stop) :: j.ifs).lookup k = _
    rw [List.lookup_cons, beq_false_of_ne h]
    rfl
  loopEnd := rfl
  loopStart := rfl

theorem Jumps.sameAt_cons_loop {j : Jumps} {start stop k : Nat} (h : k ≠ start) (h' : k ≠ stop) :
    Jumps.SameAt { j with loops := (start, stop) :: j.loops } j k where
  ifEnd := rfl
  loopEnd := by
    show ((start, stop) :: j.loops).lookup k = _
    rw [List.lookup_cons, beq_false_of_ne h]
    rfl
  loopStart := by
    show (((start, stop) :: j.loops).find? (·.2 = k)).map Prod.fst = _
    rw [List.find?_cons_of_neg (by simpa using h'.symm)]
    rfl

namespace JumpScan.Places

variable {lines : List Text} {s s₁ s₂ : JumpScan} {b body rest : Block} {i k e stop : Nat}

theorem after_passes (hpasses : Passes lines i k) (h : Places lines b k stop s s₁) :
    Places lines b i stop s s₁ where
  openIfs := h.openIfs
  openLoops := h.openLoops
  elsewhere l hl := h.elsewhere l (by have := hpasses.le; omega)
  placed := h.placed.after_passes hpasses

theorem done (hpasses : Passes lines i stop) : Places lines .done i stop s s :=
  ⟨rfl, rfl, fun _ _ => ⟨rfl, rfl, rfl⟩, hpasses⟩

theorem plain {words : List Text} (hline : Says lines k (lineOf words))
    (hrest : Places lines rest (k + 1) stop s s₁) :
    Places lines (.plain words rest) k stop s s₁ where
  openIfs := hrest.openIfs
  openLoops := hrest.openLoops
  elsewhere l hl := hrest.elsewhere l (by omega)
  placed := ⟨k, .refl _ _, hline, hrest.placed⟩

theorem branch {left sign right : Text} (hline : Says lines k (Block.ifLine left sign right))
    (hbody : Places lines body (k + 1) e { s with openIfs := k :: s.openIfs } s₁)
    (hend : Says lines e "endif".toList)
    (hrest : Places lines rest (e + 1) stop
      { s₁ with
        openIfs := s.openIfs, jumps := { s₁.jumps with ifs := (k, e) :: s₁.jumps.ifs } } s₂) :
    Places lines (.branch left sign right body rest) k stop s s₂ := by
  have hbodyLe := hbody.placed.le
  have hrestLe := hrest.placed.le
  -- the jumps found behind the body leave those of the body alone
  have hafter : ∀ l, l ≠ k → l ≤ e → s₂.jumps.SameAt s₁.jumps l := fun l hne hle =>
    (hrest.elsewhere l (by omega)).trans (Jumps.sameAt_cons_if hne)
  refine ⟨hrest.openIfs, hrest.openLoops.trans hbody.openLoops, ?_, k, e, .refl _ _, hline, ?_,
    hend, ?_, hrest.placed⟩
  · intro l hl
    refine (hrest.elsewhere l (by omega)).trans ?_
    exact (Jumps.sameAt_cons_if (by omega)).trans (hbody.elsewhere l (by omega))
  · exact hbody.placed.congr fun l hl hle => hafter l (by omega) (by omega)
  · refine (hrest.elsewhere k (by omega)).ifEnd.trans ?_
    simp [Jumps.ifEnd?]

theorem loop {count : Text} (hline : Says lines k (Block.loopLine count))
    (hbody : Places lines body (k + 1) e { s with openLoops := k :: s.openLoops } s₁)
    (hend : Says lines e "end".toList)
    (hrest : Places lines rest (e + 1) stop
      { s₁ with
        openLoops := s.openLoops, jumps := { s₁.jumps with loops := (k, e) :: s₁.jumps.loops } }
      s₂) :
    Places lines (.loop count body rest) k stop s s₂ := by
  have hbodyLe := hbody.placed.le
  have hrestLe := hrest.placed.le
  refine ⟨hrest.openIfs.trans hbody.openIfs, hrest.openLoops, ?_, k, e, .refl _ _, hline, ?_,
    hend, ?_, ?_, hrest.placed⟩
  · intro l hl
    refine (hrest.elsewhere l (by omega)).trans ?_
    exact (Jumps.sameAt_cons_loop (by omega) (by omega)).trans (hbody.elsewhere l (by omega))
  · refine hbody.placed.congr fun l hl hle => ?_
    exact (hrest.elsewhere l (by omega)).trans (Jumps.sameAt_cons_loop (by omega) (by omega))
  · refine (hrest.elsewhere k (by omega)).loopEnd.trans ?_
    simp [Jumps.loopEnd?]
  · refine (hrest.elsewhere e (by omega)).loopStart.trans ?_
    simp [Jumps.loopStart?]

end JumpScan.Places

/-- Over the lines of a structured script the scan places it. -/
theorem JumpScan.places_lines {all raws : List Text} {b : Block} {index stop : Nat} (s : JumpScan)
    (hproper : b.isProper) (hat : StandsAt all index raws) (hraws : spokenLines raws = b.lines)
    (hstop : index + raws.length = stop) : Places all b index stop s (s.lines index raws) := by
  induction b generalizing raws index stop s with
  | done =>
    subst hstop
    rw [lines_passed s index hraws]
    exact .done (.of_standsAt hat hraws)
  | plain words rest ih =>
    simp only [Block.isProper, Bool.and_eq_true] at hproper
    obtain ⟨hcommand, hrest⟩ := hproper
    obtain ⟨passed, line, tail, rfl, hpassed, hline, htrim, htail⟩ :=
      exists_of_spokenLines_eq_cons hraws
    simp only [List.length_append, List.length_cons] at hstop
    rw [lines_first s index hpassed,
      step_command s _ (htrim ▸ word_lineOf_not_mem_blockWords hcommand)]
    exact .after_passes (.of_standsAt hat.left hpassed) <|
      .plain ⟨line, hat.right.head, hline, htrim⟩ (ih s hrest hat.right.tail htail (by omega))
  | branch left sign right body rest ihBody ih =>
    simp only [Block.isProper, Bool.and_eq_true] at hproper
    obtain ⟨⟨_, hbody⟩, hrest⟩ := hproper
    obtain ⟨passed, line, tail, rfl, hpassed, hline, htrim, htail⟩ :=
      exists_of_spokenLines_eq_cons hraws
    obtain ⟨inner, last, after, rfl, hinner, hlast, hlastTrim, hafter⟩ :=
      exists_of_spokenLines_eq_body htail
    simp only [List.length_append, List.length_cons] at hstop
    have hinnerAt := hat.right.tail
    -- the scan of the body, which leaves the conditional open
    have hplaces := ihBody { s with openIfs := (index + passed.length) :: s.openIfs } hbody
      hinnerAt.left hinner rfl
    rw [lines_first s index hpassed, step_if s _ htrim, lines_append, JumpScan.lines,
      step_endif _ _ hplaces.openIfs hlastTrim]
    exact .after_passes (.of_standsAt hat.left hpassed) <|
      .branch ⟨line, hat.right.head, hline, htrim⟩ hplaces
        ⟨last, hinnerAt.right.head, hlast, hlastTrim⟩
        (ih _ hrest hinnerAt.right.tail hafter (by omega))
  | loop count body rest ihBody ih =>
    simp only [Block.isProper, Bool.and_eq_true] at hproper
    obtain ⟨⟨_, hbody⟩, hrest⟩ := hproper
    obtain ⟨passed, line, tail, rfl, hpassed, hline, htrim, htail⟩ :=
      exists_of_spokenLines_eq_cons hraws
    obtain ⟨inner, last, after, rfl, hinner, hlast, hlastTrim, hafter⟩ :=
      exists_of_spokenLines_eq_body htail
    simp only [List.length_append, List.length_cons] at hstop
    have hinnerAt := hat.right.tail
    have hplaces := ihBody { s with openLoops := (index + passed.length) :: s.openLoops } hbody
      hinnerAt.left hinner rfl
    rw [lines_first s index hpassed, step_loop s _ htrim, lines_append, JumpScan.lines,
      step_end _ _ hplaces.openLoops hlastTrim]
    exact .after_passes (.of_standsAt hat.left hpassed) <|
      .loop ⟨line, hat.right.head, hline, htrim⟩ hplaces
        ⟨last, hinnerAt.right.head, hlast, hlastTrim⟩
        (ih _ hrest hinnerAt.right.tail hafter (by omega))

/-- A structured script stands on all lines of a script that says its lines. -/
theorem Prepared.placed_ofText {source : Text} {b : Block} (hproper : b.isProper)
    (hlines : spokenLines source.feedLines = b.lines) :
    b.Placed (.ofText source) 0 source.feedLines.length :=
  (JumpScan.places_lines _ hproper (.all _) hlines (Nat.zero_add _)).placed

end StepTrace.Script
