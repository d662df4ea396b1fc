import StepTrace.Proofs.Pattern.Reach
import StepTrace.Proofs.Program.Read
import StepTrace.Proofs.Text.Pieces

/-!
# Sizes of prepared lines

Preparing a snippet makes no line much longer than the snippet. A tab becomes at most `tabWidth`
blanks (`length_of_mem_indentedLines`). Comments are only taken away, and a brace or semicolon by
itself adds at most two characters to another line (`length_of_mem_bracedLines`).

An indented line is a part of one line of the snippet. So a further clause lacks its condition only
if its line says nothing but the word of the clause (`IndentedLine.IsMalformed.isBare`).
-/

namespace StepTrace

open Pattern

/-! ## Comments and tabs -/

namespace Text

theorem length_expandTabsFrom_le {width : Nat} (hw : 0 < width) :
    ∀ (t : Text) (column : Nat), (expandTabsFrom width column t).length ≤ width * t.length
  | [], _ => Nat.zero_le _
  | c :: t, column => by
    rw [expandTabsFrom, List.length_cons, Nat.mul_succ]
    split_ifs
    · have hrest := length_expandTabsFrom_le hw t (column + (width - column % width))
      simp only [List.length_append, List.length_replicate]
      omega
    · have hrest := length_expandTabsFrom_le hw t 0
      simp only [List.length_cons]
      omega
    · have hrest := length_expandTabsFrom_le hw t (column + 1)
      simp only [List.length_cons]
      omega

theorem mem_expandTabsFrom {width : Nat} {a : Char} :
    ∀ (t : Text) (column : Nat), a ∈ expandTabsFrom width column t → a ∈ t ∨ a = ' '
  | [], _, h => nomatch h
  | c :: t, column, h => by
    rw [expandTabsFrom] at h
    split_ifs at h
    · rcases List.mem_append.1 h with h | h
      · exact Or.inr (List.eq_of_mem_replicate h)
      · exact (mem_expandTabsFrom t _ h).imp_left (List.mem_cons_of_mem c)
    · rcases List.mem_cons.1 h with rfl | h
      · exact Or.inl (by simp)
      · exact (mem_expandTabsFrom t _ h).imp_left (List.mem_cons_of_mem c)
    · rcases List.mem_cons.1 h with rfl | h
      · exact Or.inl (by simp)
      · exact (mem_expandTabsFrom t _ h).imp_left (List.mem_cons_of_mem c)

theorem uncommentedFrom_isPrefix (marker : Text) :
    ∀ (t : Text) (q : Quotation), uncommentedFrom marker q t <+: t
  | [], _ => List.prefix_refl _
  | c :: t, q => by
    rw [uncommentedFrom]
    split_ifs
    · exact List.nil_prefix
    · exact List.cons_prefix_cons.2 ⟨rfl, uncommentedFrom_isPrefix marker t _⟩

theorem length_uncommentedBlocksFrom_le :
    ∀ (t : Text) (skip : Nat), (uncommentedBlocksFrom skip t).length ≤ t.length
  | [], _ => Nat.zero_le _
  | _ :: t, skip + 1 => Nat.le_succ_of_le (length_uncommentedBlocksFrom_le t skip)
  | c :: t, 0 => by
    rw [uncommentedBlocksFrom]
    split
    · exact Nat.le_succ_of_le (length_uncommentedBlocksFrom_le t _)
    · exact Nat.succ_le_succ (length_uncommentedBlocksFrom_le t 0)

end Text

theorem withoutComments_isPrefix : ∀ (markers : List Text) (t : Text),
    withoutComments markers t <+: t
  | [], t => List.prefix_refl t
  | marker :: markers, t =>
    (withoutComments_isPrefix markers (t.uncommented marker)).trans
      (Text.uncommentedFrom_isPrefix marker t .outside)

/-! ## Indented lines -/

/-- An indented line is the front of a line of the snippet, with its tabs expanded and trimmed. -/
theorem mem_indentedLines {d : Dialect} {source : Text} {line : IndentedLine}
    (h : line ∈ indentedLines d source) : ∃ raw ∈ source.lines, ∃ t : Text,
      t <+: raw.expandTabs tabWidth ∧ line.text = t.trim := by
  obtain ⟨raw, hraw, hline⟩ := List.mem_filterMap.1 h
  simp only [indentedLine?] at hline
  split_ifs at hline
  cases hline
  exact ⟨raw, hraw, _, withoutComments_isPrefix d.comments _, rfl⟩

theorem length_of_mem_indentedLines {d : Dialect} {source : Text} {line : IndentedLine}
    (h : line ∈ indentedLines d source) : line.text.length ≤ tabWidth * source.length := by
  obtain ⟨raw, hraw, t, ht, heq⟩ := mem_indentedLines h
  calc line.text.length ≤ t.length := heq ▸ t.trim_isInfix.length_le
    _ ≤ (raw.expandTabs tabWidth).length := ht.length_le
    _ ≤ tabWidth * raw.length := Text.length_expandTabsFrom_le (by decide) raw 0
    _ ≤ tabWidth * source.length := Nat.mul_le_mul_left _ (Text.infix_of_mem_lines hraw).length_le

theorem no_feed_of_mem_indentedLines {d : Dialect} {source : Text} {line : IndentedLine}
    (h : line ∈ indentedLines d source) : '\n' ∉ line.text := by
  obtain ⟨raw, hraw, t, ht, heq⟩ := mem_indentedLines h
  intro hfeed
  rw [heq] at hfeed
  have hmem : '\n' ∈ raw.expandTabs tabWidth := ht.subset (t.trim_isInfix.subset hfeed)
  rcases Text.mem_expandTabsFrom raw 0 hmem with hmem | hblank
  · have hend := Text.not_isLineEnd_of_mem_lines hraw '\n' hmem
    revert hend
    decide
  · revert hblank
    decide

theorem indentedHeader_isPrefix (t : Text) : indentedHeader t <+: t := by
  unfold indentedHeader
  split_ifs
  · exact (Text.dropTail_isPrefix _ _).trans (List.dropLast_prefix t)
  · exact List.prefix_refl t

/-! ## Clauses without a condition -/

theorem get?_cond_of_elifForm {t : Text} {f : Found} (h : elifForm.match? t = some f) :
    (f.get? .cond).isSome := by
  obtain ⟨_, _, -, _, _, ⟨-, rfl, rfl⟩, _, k, -, c, k', ⟨_, -, rfl⟩, _, _, ⟨-, -, hk⟩, -, hend⟩ :=
    takes_of_match? h
  rw [Found.get?, hend, hk]
  rfl

/-- Whatever stands behind the word of a further clause and a blank is a condition. -/
theorem elifForm_blank {rest : Text} (hfeed : '\n' ∉ rest) :
    ((elifForm.match? ("elif".toList ++ ' ' :: rest)).bind (·.get? .cond)).isSome := by
  have hword : (text "elif").Takes ⟨none, "elif".toList ++ ' ' :: rest⟩ []
      ⟨some 'f', ' ' :: rest⟩ [] := takes_text.2 ⟨rfl, rfl, rfl⟩
  have hedge : (⟨some 'f', ' ' :: rest⟩ : Cursor).atWordEdge = true := by
    show (CharClass.isWord 'f' != CharClass.isWord ' ') = true
    decide
  have hgap : gap.Takes ⟨some 'f', ' ' :: rest⟩ [] ⟨some 'f', ' ' :: rest⟩ [] :=
    takes_many_char.2 ⟨[], by simp⟩
  have hcond : filled.Takes ⟨some 'f', ' ' :: rest⟩ []
      ⟨(' ' :: rest).getLast?.or (some 'f'), []⟩ [] := by
    refine takes_several_char.2 ⟨' ' :: rest, by simp, fun a ha => ?_, by simp, rfl, rfl⟩
    rcases List.mem_cons.1 ha with rfl | ha
    · decide
    · simpa using fun h : a = '\n' => hfeed (h ▸ ha)
  have hmatch : (elifForm.match? ("elif".toList ++ ' ' :: rest)).isSome :=
    isSome_match? ⟨_, _, hword, _, _, ⟨hedge, rfl, rfl⟩, _, _, hgap, _, _, ⟨_, hcond, rfl⟩, _, _,
      ⟨Or.inl rfl, rfl, rfl⟩, rfl, rfl⟩
  obtain ⟨f, hf⟩ := Option.isSome_iff_exists.1 hmatch
  rw [hf, Option.bind_some]
  exact get?_cond_of_elifForm hf

namespace IndentedLine

/-- The line says nothing but the word of a further clause, blanks and a colon. -/
def IsBare (line : IndentedLine) : Prop :=
  ∃ blanks : Text, blanks ≠ [] ∧ (∀ c ∈ blanks, CharClass.isBlank c = true) ∧
    line.text = "elif".toList ++ blanks ++ [':']

/-- A further clause lacks its condition only if its line says nothing else. -/
theorem IsMalformed.isBare {line : IndentedLine} (h : line.IsMalformed) (hfeed : '\n' ∉ line.text) :
    line.IsBare := by
  obtain ⟨hbegins, hnone⟩ := h
  obtain ⟨rest, hrest⟩ := List.isPrefixOf_iff_prefix.1 hbegins
  have htext : line.text = "elif".toList ++ ' ' :: rest := hrest.symm
  -- A condition is found in the header as soon as a blank stands behind the word.
  have hheader : ∀ more, indentedHeader line.text ≠ "elif".toList ++ ' ' :: more := by
    intro more hmore
    have hmore' : '\n' ∉ more := fun hmem => hfeed <| by
      refine (indentedHeader_isPrefix line.text).subset ?_
      rw [hmore]
      simp [hmem]
    have hsome := elifForm_blank hmore'
    rw [← hmore] at hsome
    rw [furtherCondition?] at hnone
    simp [hnone] at hsome
  by_cases hcolon : line.text.endsIn ':'
  · obtain rfl | ⟨front, c, rfl⟩ := List.eq_nil_or_concat rest
    · exact absurd (htext ▸ hcolon) (by decide)
    · have hend : line.text = elifBeginning ++ front ++ [c] := by
        rw [← hrest, List.concat_eq_append, List.append_assoc]
      have hc : c = ':' := by
        rw [hend, Text.endsIn, List.getLast?_concat] at hcolon
        simpa using hcolon
      by_cases hblank : ∀ a ∈ front, CharClass.isBlank a = true
      · refine ⟨' ' :: front, by simp, fun a ha => ?_, by rw [hend, hc]; rfl⟩
        rcases List.mem_cons.1 ha with rfl | ha
        · decide
        · exact hblank a ha
      · refine absurd ?_ (hheader (Text.trimRight front))
        rw [indentedHeader, if_pos hcolon, hend, List.dropLast_concat, Text.trimRight,
          Text.dropTail_append elifBeginning (by simpa using hblank)]
        rfl
  · exact absurd (by rw [indentedHeader, if_neg hcolon, htext]) (hheader rest)

end IndentedLine

/-! ## Braced lines -/

namespace Cutter

theorem length_of_mem_flushed {k : Cutter} {st : Text} (h : st ∈ k.flushed) :
    st.length ≤ k.reversed.length := by
  simp only [flushed] at h
  split_ifs at h
  · cases h
  · obtain rfl := List.mem_singleton.1 h
    exact k.current.trim_isInfix.length_le.trans_eq (List.length_reverse ..)

/-- A character adds at most itself to what is known and to what it completes. -/
theorem length_step_le (k : Cutter) (c : Char) :
    (∀ st ∈ (k.step c).1, st.length ≤ k.reversed.length + 1) ∧
      (k.step c).2.reversed.length ≤ k.reversed.length + 1 := by
  have hcut : ∀ st ∈ (k.push c).flushed, st.length ≤ k.reversed.length + 1 :=
    fun st h => length_of_mem_flushed h
  unfold step
  split_ifs
  · simp [push]
  · simp [push]
  · simp [push]
  · simp [push]
  · exact ⟨hcut, Nat.zero_le _⟩
  · simp [push]
  · refine ⟨fun st h => ?_, Nat.zero_le _⟩
    rcases List.mem_append.1 h with h | h
    · exact Nat.le_succ_of_le (length_of_mem_flushed h)
    · obtain rfl := List.mem_singleton.1 h
      simp
  · exact ⟨hcut, Nat.zero_le _⟩
  · simp [push]

end Cutter

theorem length_of_mem_statementsFrom {st : Text} : ∀ (t : Text) (k : Cutter),
    st ∈ statementsFrom k t → st.length ≤ k.reversed.length + t.length
  | [], _, h => Cutter.length_of_mem_flushed h
  | c :: t, k, h => by
    obtain ⟨hdone, hkept⟩ := k.length_step_le c
    rw [List.length_cons]
    rcases List.mem_append.1 h with h | h
    · have := hdone st h
      omega
    · have := length_of_mem_statementsFrom t (k.step c).2 h
      omega

theorem length_of_mem_attachSemicolons {bound : Nat} (hbound : 2 ≤ bound) :
    ∀ {ts : List Text}, (∀ t ∈ ts, t.length ≤ bound) →
      ∀ t ∈ attachSemicolons ts, t.length ≤ bound := by
  intro ts
  fun_induction attachSemicolons ts with
  | case1 rest ih =>
    intro h t ht
    rcases List.mem_cons.1 ht with rfl | ht
    · exact hbound
    · exact ih (fun t ht => h t (by simp [ht])) t ht
  | case2 t rest _ ih =>
    intro h u hu
    rcases List.mem_cons.1 hu with rfl | hu
    · exact h u (by simp)
    · exact ih (fun t ht => h t (by simp [ht])) u hu
  | case3 => exact fun _ _ h => nomatch h

theorem length_of_mem_joinBraces {bound : Nat} :
    ∀ {ts : List Text}, (∀ t ∈ ts, t.length ≤ bound) →
      ∀ t ∈ joinBraces ts, t.length ≤ bound + 2 := by
  intro ts
  fun_induction joinBraces ts with
  | case1 => exact fun _ _ h => nomatch h
  | case2 t => exact fun h u hu => Nat.le_add_right_of_le (h u hu)
  | case3 t next rest _ ih =>
    intro h u hu
    rcases List.mem_cons.1 hu with rfl | hu
    · have := h t (by simp)
      simp only [List.length_append, List.length_cons, List.length_nil]
      omega
    · exact ih (fun t ht => h t (by simp [ht])) u hu
  | case4 t next rest _ ih =>
    intro h u hu
    rcases List.mem_cons.1 hu with rfl | hu
    · exact Nat.le_add_right_of_le (h u (by simp))
    · exact ih (fun t ht => h t (by simp at ht ⊢; tauto)) u hu

theorem length_of_mem_bracedLines {d : Dialect} {source line : Text}
    (h : line ∈ bracedLines d source) : line.length ≤ source.length + 4 := by
  have hstatement : ∀ t ∈ source.lines.flatMap (bracedStatements d.comments),
      t.length ≤ source.length + 2 := by
    intro t ht
    obtain ⟨raw, hraw, ht⟩ := List.mem_flatMap.1 ht
    simp only [bracedStatements] at ht
    split_ifs at ht
    · cases ht
    · refine length_of_mem_attachSemicolons (by omega) (fun st hst => ?_) t ht
      have hlen := length_of_mem_statementsFrom _ _ hst
      have htrim := (Text.trim_isInfix (withoutComments d.comments raw.uncommentedBlocks)).length_le
      have hcomments := (withoutComments_isPrefix d.comments raw.uncommentedBlocks).length_le
      have hblocks : raw.uncommentedBlocks.length ≤ raw.length :=
        Text.length_uncommentedBlocksFrom_le raw 0
      have hraw := (Text.infix_of_mem_lines hraw).length_le
      have hstart : Cutter.start.reversed.length = 0 := rfl
      omega
  exact length_of_mem_joinBraces hstatement line h

/-- A line without the brace that closes the block before it. -/
def bracedFront : Text → Text
  | '\x7d' :: rest => Text.trimLeft rest
  | t => t

theorem bracedHeader_isPrefix (t : Text) : bracedHeader t <+: bracedFront t := by
  have h : bracedHeader t = if (bracedFront t).endsIn '\x7b' then
    Text.trimRight (bracedFront t).dropLast else bracedFront t := rfl
  rw [h]
  split_ifs
  · exact (Text.dropTail_isPrefix _ _).trans (List.dropLast_prefix _)
  · exact List.prefix_refl _

theorem bracedFront_isSuffix (t : Text) : bracedFront t <:+ t := by
  unfold bracedFront
  split
  · exact (List.dropWhile_suffix _).trans (List.suffix_cons _ _)
  · exact List.suffix_refl _

theorem length_bracedHeader_le (t : Text) : (bracedHeader t).length ≤ t.length :=
  (bracedHeader_isPrefix t).length_le.trans (bracedFront_isSuffix t).length_le

end StepTrace
