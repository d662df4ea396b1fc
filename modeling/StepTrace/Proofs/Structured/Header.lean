import StepTrace.Language
import StepTrace.Proofs.Program.Walk
import StepTrace.Proofs.Structured.Tree
import StepTrace.Proofs.Text.Trim

/-!
# Headers of structured programs

The first line of a conditional, a further clause or a loop is a header behind which a body is
opened. From such a line the header is read back (`bracedHeader_opened`, `indentedHeader_opened`),
and from the header of a clause its condition, up to white space around it (`ifForm_cond`,
`elifForm_cond`, `elseIfForm_cond`).

The header of a loop begins with one of a few words in every dialect (`loops_begin`). So its line is
no conditional, no further clause and no scaffolding.
-/

namespace StepTrace

open Pattern

/-! ## Conditions in headers -/

/-- What follows the word of a clause with a condition. -/
def conditionTail : Pattern := all [wordEdge, gap, capture .cond filled, textEnd]

theorem Cursor.taken_eq {c c' : Cursor} {front : Text} (h : c.rest = front ++ c'.rest) :
    c.taken c' = front := by
  rw [Cursor.taken, h, List.length_append, Nat.add_sub_cancel, List.take_left]

theorem trim_of_takes_conditionTail {c c' : Cursor} {k k' : Captures}
    (h : conditionTail.Takes c k c' k') : ∃ u, k' = (.cond, u) :: k ∧ u.trim = c.rest.trim := by
  obtain ⟨_, _, ⟨-, rfl, rfl⟩, c₁, k₁, hgap, _, k₂, ⟨k₃, hfilled, rfl⟩, c₂, _, ⟨hend, rfl, rfl⟩, -,
    rfl⟩ := h
  obtain ⟨blanks, hblanks, hrest, -, rfl⟩ := takes_many_char.1 hgap
  obtain ⟨cond, -, -, hcond, -, rfl⟩ := takes_several_char.1 hfilled
  refine ⟨cond, by rw [Cursor.taken_eq hcond], ?_⟩
  have hback : ∀ a ∈ c₂.rest, CharClass.isBlank a = true := by
    rcases hend with hend | hend
    · simp [hend]
    · rw [hend]
      exact List.forall_mem_singleton.2 (by decide)
  rw [hrest, hcond, ← List.append_assoc, Text.trim_append hblanks hback]

theorem exists_takes_conditionTail {w : Char} (hw : CharClass.isWord w = true) {rest : Text}
    (hfeed : '\n' ∉ rest) (k : Captures) :
    ∃ c' k', conditionTail.Takes ⟨some w, ' ' :: rest⟩ k c' k' := by
  have hedge : (⟨some w, ' ' :: rest⟩ : Cursor).atWordEdge = true := by
    show (CharClass.isWord w != CharClass.isWord ' ') = true
    rw [hw]
    decide
  have hgap : gap.Takes ⟨some w, ' ' :: rest⟩ k ⟨some w, ' ' :: rest⟩ k :=
    takes_many_char.2 ⟨[], by simp⟩
  have hcond : filled.Takes ⟨some w, ' ' :: rest⟩ k
      ⟨(' ' :: rest).getLast?.or (some w), []⟩ k := by
    refine takes_several_char.2 ⟨' ' :: rest, by simp, fun a ha => ?_, by simp, rfl, rfl⟩
    rcases List.mem_cons.1 ha with rfl | ha
    · decide
    · simpa using fun h : a = '\n' => hfeed (h ▸ ha)
  exact ⟨_, _, _, _, ⟨hedge, rfl, rfl⟩, _, _, hgap, _, _, ⟨_, hcond, rfl⟩, _, _,
    ⟨Or.inl rfl, rfl, rfl⟩, rfl, rfl⟩

/-- A pattern that can be matched and captures a condition in every way finds it. -/
theorem exists_cond {p : Pattern} {t c : Text} (hsome : ∃ c' k', p.Takes ⟨none, t⟩ [] c' k')
    (hcond : ∀ c' k', p.Takes ⟨none, t⟩ [] c' k' → ∃ u, k' = [(.cond, u)] ∧ u.trim = c.trim) :
    ∃ u, (p.match? t).bind (·.get? .cond) = some u ∧ u.trim = c.trim := by
  obtain ⟨c', k', htakes⟩ := hsome
  obtain ⟨f, hf⟩ := Option.isSome_iff_exists.1 (isSome_match? htakes)
  obtain ⟨u, hu, htrim⟩ := hcond _ _ (takes_of_match? hf)
  refine ⟨u, ?_, htrim⟩
  rw [hf, Option.bind_some, Found.get?, hu]
  rfl

theorem trim_blank_cons (c : Text) : Text.trim (' ' :: c) = c.trim := by
  have hblank : ∀ a ∈ [' '], CharClass.isBlank a = true :=
    List.forall_mem_singleton.2 (by decide)
  have hnil : ∀ a ∈ ([] : Text), CharClass.isBlank a = true := List.forall_mem_nil _
  simpa using Text.trim_append hblank hnil c

/-- The condition behind a single word. -/
theorem exists_cond_of_text (word : String) {w : Char} (hlast : word.toList.getLast? = some w)
    (hw : CharClass.isWord w = true) {c : Text} (hfeed : '\n' ∉ c) :
    ∃ u, ((seq (text word) conditionTail).match? (word.toList ++ ' ' :: c)).bind (·.get? .cond) =
      some u ∧ u.trim = c.trim := by
  refine exists_cond ?_ ?_
  · obtain ⟨c', k', htail⟩ := exists_takes_conditionTail hw hfeed []
    exact ⟨c', k', ⟨some w, ' ' :: c⟩, [], takes_text.2 ⟨rfl, by rw [hlast]; rfl, rfl⟩, htail⟩
  · rintro c' k' ⟨c₁, k₁, hword, htail⟩
    obtain ⟨hrest, -, rfl⟩ := takes_text.1 hword
    obtain ⟨u, rfl, htrim⟩ := trim_of_takes_conditionTail htail
    exact ⟨u, rfl, by rw [htrim, ← List.append_cancel_left hrest, trim_blank_cons]⟩

theorem ifForm_cond {c : Text} (hfeed : '\n' ∉ c) :
    ∃ u, (ifForm.match? ("if ".toList ++ c)).bind (·.get? .cond) = some u ∧ u.trim = c.trim :=
  exists_cond_of_text "if" rfl (by decide) hfeed

theorem elifForm_cond {c : Text} (hfeed : '\n' ∉ c) :
    ∃ u, (elifForm.match? ("elif ".toList ++ c)).bind (·.get? .cond) = some u ∧ u.trim = c.trim :=
  exists_cond_of_text "elif" rfl (by decide) hfeed

theorem elseIfForm_cond {c : Text} (hfeed : '\n' ∉ c) :
    ∃ u, (elseIfForm.match? ("else if ".toList ++ c)).bind (·.get? .cond) = some u ∧
      u.trim = c.trim := by
  refine exists_cond ?_ ?_
  · obtain ⟨c', k', htail⟩ := exists_takes_conditionTail (w := 'f') (by decide) hfeed []
    have hblanks : blanks.Takes ⟨some 'e', ' ' :: ("if".toList ++ ' ' :: c)⟩ []
        ⟨some ' ', "if".toList ++ ' ' :: c⟩ [] :=
      takes_several_char.2 ⟨[' '], by simp, List.forall_mem_singleton.2 (by decide), rfl, rfl, rfl⟩
    exact ⟨c', k', _, _, takes_text.2 ⟨rfl, rfl, rfl⟩, _, _, hblanks, ⟨some 'f', ' ' :: c⟩, _,
      takes_text.2 ⟨rfl, rfl, rfl⟩, htail⟩
  · rintro c' k' ⟨c₁, k₁, hword, c₂, k₂, hblanks, c₃, k₃, hif, htail⟩
    obtain ⟨hrest, -, rfl⟩ := takes_text.1 hword
    obtain ⟨front, hne, hall, hfront, -, rfl⟩ := takes_several_char.1 hblanks
    obtain ⟨hrest₂, -, rfl⟩ := takes_text.1 hif
    obtain ⟨u, rfl, htrim⟩ := trim_of_takes_conditionTail htail
    -- the blanks between the words are one blank, since a letter follows it
    have hwords : ' ' :: 'i' :: 'f' :: ' ' :: c = front ++ ('i' :: 'f' :: c₃.rest) := by
      rw [← show c₂.rest = 'i' :: 'f' :: c₃.rest from hrest₂, ← hfront]
      exact (List.append_right_inj "else".toList).1 hrest
    obtain ⟨a, front, rfl⟩ := List.exists_cons_of_ne_nil hne
    cases front with
    | nil =>
      obtain ⟨-, hc⟩ : ' ' = a ∧ ' ' :: c = c₃.rest := by simpa using hwords
      exact ⟨u, rfl, by rw [htrim, ← hc, trim_blank_cons]⟩
    | cons b front =>
      obtain ⟨-, hb, -⟩ : ' ' = a ∧ 'i' = b ∧ 'f' :: ' ' :: c = front ++ 'i' :: 'f' :: c₃.rest := by
        simpa using hwords
      exact absurd (hall b (by simp)) (by rw [← hb]; decide)

namespace Structured

/-! ## Lines that open a body -/

theorem bracedHeader_opened {header : Text} (h : header.head? ≠ some '\x7d') :
    bracedHeader (opened .braced header) = header.trimRight := by
  have hfront : bracedFront (opened .braced header) = opened .braced header := by
    unfold bracedFront
    split
    · rename_i rest hrest
      cases header with
      | nil => cases hrest
      | cons c header =>
        cases hrest
        exact absurd rfl h
    · rfl
  show (if (bracedFront _).endsIn '\x7b' then Text.trimRight (bracedFront _).dropLast else _) = _
  rw [hfront, opened, if_pos (by simp [Text.endsIn]),
    show header ++ [' ', '\x7b'] = header ++ [' '] ++ ['\x7b'] by simp, List.dropLast_concat,
    Text.trimRight_append (List.forall_mem_singleton.2 (by decide))]

theorem indentedHeader_opened (header : Text) :
    indentedHeader (opened .indented header) = header.trimRight := by
  rw [indentedHeader, opened, if_pos (by simp [Text.endsIn]), List.dropLast_concat]

/-- A text that can be the condition of a clause: something on one line. -/
def isCondition (t : Text) : Bool := !t.trim.isEmpty && !t.contains '\n'

theorem isCondition_iff {t : Text} : isCondition t ↔ t.trim ≠ [] ∧ '\n' ∉ t := by
  simp [isCondition]

theorem trimRight_header (word : Text) {cond : Text} (h : isCondition cond) :
    (word ++ cond).trimRight = word ++ cond.trimRight := by
  refine Text.dropTail_append word ?_
  obtain ⟨front, back, hcond, -, -, htrim⟩ := Text.exists_trim cond
  obtain ⟨c, rest, hne⟩ := List.exists_cons_of_ne_nil (isCondition_iff.1 h).1
  refine ⟨c, ?_, htrim.head c (by rw [hne]; rfl)⟩
  rw [hcond, hne]
  simp

theorem trim_trimRight (t : Text) : t.trimRight.trim = t.trim := by
  obtain ⟨back, ht, hback, -⟩ := Text.exists_trimRight t
  have hnil : ∀ a ∈ ([] : Text), CharClass.isBlank a = true := List.forall_mem_nil _
  conv_rhs => rw [ht]
  simpa using (Text.trim_append hnil hback t.trimRight).symm

theorem not_mem_trimRight {t : Text} (h : '\n' ∉ t) : '\n' ∉ t.trimRight :=
  fun hmem => h ((Text.dropTail_isPrefix _ t).subset hmem)

/-- The condition behind the word of a clause is read as if it had been given by itself. -/
theorem cond_of_header {form : Pattern} {word : Text}
    (hform : ∀ {c : Text}, '\n' ∉ c →
      ∃ u, (form.match? (word ++ c)).bind (·.get? .cond) = some u ∧ u.trim = c.trim)
    {cond : Text} (h : isCondition cond) :
    ∃ u, (form.match? (word ++ cond).trimRight).bind (·.get? .cond) = some u ∧
      Condition.read u = Condition.read cond := by
  obtain ⟨u, hu, htrim⟩ := hform (not_mem_trimRight (isCondition_iff.1 h).2)
  rw [trimRight_header _ h]
  exact ⟨u, hu, Condition.read_congr (htrim.trans (trim_trimRight cond))⟩

/-! ## Words of loops -/

/-- The words with which the header of a loop begins. -/
def loopWords : List String := ["for", "foreach", "while", "loop"]

theorem loops_begin (language : Language) : ∀ p ∈ language.dialect.loops,
    ∃ w ∈ loopWords, ∃ q, p.1 = seq (text w) q := by
  have hfor : ∀ q, ∃ w ∈ loopWords, ∃ q', seq (text "for") q = seq (text w) q' :=
    fun q => ⟨"for", by decide, q, rfl⟩
  have hforeach : ∀ q, ∃ w ∈ loopWords, ∃ q', seq (text "foreach") q = seq (text w) q' :=
    fun q => ⟨"foreach", by decide, q, rfl⟩
  have hwhile : ∀ q, ∃ w ∈ loopWords, ∃ q', seq (text "while") q = seq (text w) q' :=
    fun q => ⟨"while", by decide, q, rfl⟩
  have hloop : ∀ q, ∃ w ∈ loopWords, ∃ q', seq (text "loop") q = seq (text w) q' :=
    fun q => ⟨"loop", by decide, q, rfl⟩
  refine List.forall_iff_forall_mem.1 ?_
  cases language with
  | c => exact ⟨hfor _, hwhile _⟩
  | csharp => exact ⟨hfor _, hforeach _, hwhile _⟩
  | go => exact ⟨hfor _, hfor _, hfor _, hfor _⟩
  | rust => exact ⟨hfor _, hfor _, hloop _, hwhile _⟩
  | java | cpp | typescript | javascript | python | sql => exact ⟨hfor _, hfor _, hwhile _⟩

/-- The header of a loop begins with a word of loops. -/
theorem loop_begins {language : Language} {header : Text} {head : Loop}
    (h : loop? language.dialect header = some head) :
    ∃ w ∈ loopWords, ∃ rest, header = w.toList ++ rest := by
  obtain ⟨⟨f, form⟩, hmatch, -⟩ := Option.map_eq_some_iff.1 h
  obtain ⟨p, hp, hf⟩ := mem_of_firstMatch? hmatch
  obtain ⟨w, hw, q, rfl⟩ := loops_begin language (p, form) hp
  obtain ⟨c, k, hword, -⟩ := takes_of_match? hf
  exact ⟨w, hw, c.rest, (takes_text.1 hword).1⟩

/-- The header of a loop begins with a word of loops, whatever white space is behind it. -/
theorem header_begins {language : Language} {header : Text} {head : Loop}
    (h : loop? language.dialect header.trimRight = some head) :
    ∃ w ∈ loopWords, ∃ rest, header = w.toList ++ rest := by
  obtain ⟨w, hw, rest, hrest⟩ := loop_begins h
  obtain ⟨back, hback, -⟩ := Text.exists_trimRight header
  exact ⟨w, hw, rest ++ back, by rw [← List.append_assoc, ← hrest, ← hback]⟩

/-- The words with which the first line of a conditional or a loop begins. -/
def openingWords : List String := "if" :: loopWords

theorem elseForm_of_openingWord : ∀ w ∈ openingWords, ∀ rest,
    elseForm.matchesFront (w.toList ++ rest) = false :=
  List.forall_iff_forall_mem.1
    ⟨fun _ => rfl, fun _ => rfl, fun _ => rfl, fun _ => rfl, fun _ => rfl⟩

theorem ifForm_of_loopWord : ∀ w ∈ loopWords, ∀ rest,
    ifForm.match? (w.toList ++ rest) = none :=
  List.forall_iff_forall_mem.1 ⟨fun _ => rfl, fun _ => rfl, fun _ => rfl, fun _ => rfl⟩

theorem isSkipped_of_openingWord (language : Language) : ∀ w ∈ openingWords, ∀ rest,
    isSkipped language.dialect (w.toList ++ rest) = false := by
  refine List.forall_iff_forall_mem.1 ?_
  cases language
  all_goals exact ⟨fun _ => rfl, fun _ => rfl, fun _ => rfl, fun _ => rfl, fun _ => rfl⟩

end Structured

end StepTrace
