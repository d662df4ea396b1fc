import StepTrace.Language
import StepTrace.Proofs.Pattern.Context
import StepTrace.Proofs.Text.Trim

/-!
# Languages of longer snippets

A snippet is of the first language whose mark occurs in it. When lines are added in front of a
snippet or behind it, the snippet stands in the longer one set off by white space (`Text.SetOff`),
and every mark that occurs in a text occurs where the text is set off (`Language.survives_mark`).
Nine of the ten marks look at the characters that they take and at the edges of words. The tenth
also looks for a colon at the end of a line, where the white space that was trimmed is back.

So with more lines the language can only be an earlier one (`rank_detect_le`).
-/

namespace StepTrace

open CharClass Pattern

/-! ## Texts set off by white space -/

/-- A text stands in a larger one with white space before it, and with white space behind it up to
the end of the line. -/
def Text.SetOff (t u : Text) : Prop :=
  ∃ before space behind, u = before ++ (t ++ (space ++ behind)) ∧
    (∀ c ∈ before.getLast?, isBlank c = true) ∧ (∀ c ∈ space, isBlank c = true) ∧
    ∀ c ∈ behind.head?, c = '\n'

namespace Text

variable {s : Text}

theorem SetOff.refl (t : Text) : SetOff t t :=
  ⟨[], [], [], by simp, by simp, by simp, by simp⟩

theorem SetOff.ne_nil {t u : Text} (h : t.SetOff u) (hne : t ≠ []) : u ≠ [] := by
  obtain ⟨before, space, behind, rfl, -⟩ := h
  simp [hne]

/-- Between two texts the white space stays. -/
theorem exists_trim_append {t : Text} (hs : s.trim ≠ []) (ht : t.trim ≠ []) :
    ∃ back front, (s ++ '\n' :: t).trim = s.trim ++ (back ++ '\n' :: front ++ t.trim) ∧
      (∀ c ∈ back, isBlank c = true) ∧ ∀ c ∈ front, isBlank c = true := by
  obtain ⟨front, back, hsplit, hfront, hback, htrim⟩ := exists_trim s
  obtain ⟨front', back', hsplit', hfront', hback', htrim'⟩ := exists_trim t
  have hcore : s ++ '\n' :: t =
      front ++ (s.trim ++ (back ++ '\n' :: front' ++ t.trim)) ++ back' := by
    conv_lhs => rw [hsplit, hsplit']
    simp
  rw [hcore, trim_eq hfront hback' (isTrimmed_append htrim htrim' hs ht _)]
  exact ⟨back, front', rfl, hback, hfront'⟩

/-- A snippet in front of further lines. -/
theorem setOff_append_lines (hs : s.trim ≠ []) (t : Text) :
    SetOff s.trim (s ++ '\n' :: t).trim := by
  by_cases ht : t.trim = []
  · have hblank : ∀ c ∈ '\n' :: t, isBlank c = true :=
      List.forall_mem_cons.2 ⟨rfl, List.all_eq_true.1 (trim_eq_nil_iff.1 ht)⟩
    rw [trim_append_blanks hblank]
    exact SetOff.refl _
  · obtain ⟨back, front, htrim, hback, -⟩ := exists_trim_append hs ht
    rw [htrim]
    exact ⟨[], back, '\n' :: (front ++ t.trim), by simp, by simp, hback, by simp⟩

/-- A snippet behind further lines. -/
theorem setOff_lines_append (hs : s.trim ≠ []) (t : Text) :
    SetOff s.trim (t ++ '\n' :: s).trim := by
  by_cases ht : t.trim = []
  · have hblank : ∀ c ∈ t ++ ['\n'], isBlank c = true :=
      List.forall_mem_append.2 ⟨List.all_eq_true.1 (trim_eq_nil_iff.1 ht), by decide⟩
    rw [List.append_cons, trim_blanks_append hblank]
    exact SetOff.refl _
  · obtain ⟨back, front, htrim, -, hfront⟩ := exists_trim_append ht hs
    rw [htrim]
    refine ⟨t.trim ++ back ++ '\n' :: front, [], [], by simp, fun c hc => ?_, by simp, by simp⟩
    rw [List.getLast?_append, List.getLast?_cons, Option.some_or, ← List.getLast?_cons] at hc
    have hblank : ∀ c ∈ '\n' :: front, isBlank c = true := List.forall_mem_cons.2 ⟨rfl, hfront⟩
    exact hblank c (List.mem_of_getLast? hc)

end Text

/-! ## Patterns that survive -/

/-- A pattern occurs wherever a text in which it occurs is set off. -/
def Pattern.Survives (p : Pattern) : Prop :=
  ∀ t u : Text, t.SetOff u → p.occursIn t = true → p.occursIn u = true

namespace Pattern

theorem isLocal.survives {p : Pattern} (h : p.isLocal true = true) : p.Survives := by
  rintro t u ⟨before, space, behind, rfl, hbefore, hspace, hbehind⟩
  refine isLocal.occursIn_append h fun _ => ⟨?_, ?_⟩
  · cases hlast : before.getLast? with
    | none => rfl
    | some a => exact not_isWord_of_isBlank (hbefore a hlast)
  · cases space with
    | cons a space => exact not_isWord_of_isBlank (hspace a List.mem_cons_self)
    | nil =>
      cases behind with
      | nil => rfl
      | cons a behind =>
        obtain rfl := hbehind a rfl
        rfl

theorem Survives.any : ∀ {ps : List Pattern}, (∀ p ∈ ps, p.Survives) → (any ps).Survives
  | [], _ => by
    intro t u _ hoccurs
    obtain ⟨front, back, c, k, -, hnot, -⟩ := occursIn_iff.1 hoccurs
    exact absurd ⟨_, _, rfl, rfl⟩ hnot
  | [p], h => h p List.mem_cons_self
  | p :: q :: rest, h => by
    intro t u hoff hoccurs
    have hrest : (Pattern.any (q :: rest)).Survives :=
      Survives.any fun r hr => h r (List.mem_cons_of_mem p hr)
    rcases occursIn_alt.1 hoccurs with hp | hq
    · exact occursIn_alt.2 (Or.inl (h p List.mem_cons_self t u hoff hp))
    · exact occursIn_alt.2 (Or.inr (hrest t u hoff hq))

/-- A colon at the end of a line. -/
theorem takes_colon_iff {c : Cursor} {k : Captures} :
    (∃ c' k', (all [text ":", gap, lineEnd]).Takes c k c' k') ↔
      ∃ blanks rest, c.rest = ':' :: (blanks ++ rest) ∧ (∀ a ∈ blanks, isBlank a = true) ∧
        rest.head?.all (· == '\n') = true := by
  constructor
  · rintro ⟨c', k', c₁, k₁, hcolon, c₂, k₂, hgap, c₃, k₃, ⟨hend, -⟩, -⟩
    obtain ⟨hrest, -, -⟩ := takes_text.1 hcolon
    obtain ⟨blanks, hblanks, hrest', -, -⟩ := takes_many_char.1 hgap
    exact ⟨blanks, c₂.rest, by rw [hrest, hrest']; rfl, hblanks, hend⟩
  · rintro ⟨blanks, rest, hrest, hblanks, hend⟩
    refine ⟨⟨blanks.getLast?.or (some ':'), rest⟩, k, ⟨some ':', blanks ++ rest⟩, k, ?_, _, k, ?_,
      _, k, ⟨hend, rfl, rfl⟩, rfl, rfl⟩
    · exact takes_text.2 ⟨hrest, rfl, rfl⟩
    · exact takes_many_char.2 ⟨blanks, hblanks, rfl, rfl, rfl⟩

theorem survives_colon : (all [text ":", gap, lineEnd]).Survives := by
  rintro t u ⟨before, space, behind, rfl, -, hspace, hbehind⟩ hoccurs
  obtain ⟨front, back, c, k, rfl, htakes⟩ := occursIn_iff.1 hoccurs
  obtain ⟨blanks, rest, hback, hblanks, hend⟩ := takes_colon_iff.1 ⟨c, k, htakes⟩
  suffices hin : ∃ blanks' rest', back ++ (space ++ behind) = ':' :: (blanks' ++ rest') ∧
      (∀ a ∈ blanks', isBlank a = true) ∧ rest'.head?.all (· == '\n') = true by
    obtain ⟨c', k', htakes'⟩ :=
      @takes_colon_iff ⟨(before ++ front).getLast?, back ++ (space ++ behind)⟩ [] |>.2 hin
    exact occursIn_iff.2 ⟨before ++ front, back ++ (space ++ behind), c', k', by simp, htakes'⟩
  obtain rfl : back = ':' :: (blanks ++ rest) := hback
  cases rest with
  | nil =>
    -- the colon ends the text, so the line goes on with the white space that was cut off
    refine ⟨blanks ++ space, behind, by simp, fun a ha => ?_, ?_⟩
    · exact (List.mem_append.1 ha).elim (hblanks a) (hspace a)
    · cases behind with
      | nil => rfl
      | cons a behind => simp [hbehind a rfl]
  | cons a rest => exact ⟨blanks, a :: rest ++ (space ++ behind), by simp, hblanks, hend⟩

end Pattern

/-- Every mark of a language survives. -/
theorem Language.survives_mark (l : Language) : l.mark.Survives := by
  cases l with
  | python =>
    refine Survives.any fun p hp => ?_
    simp only [List.mem_cons, List.not_mem_nil, or_false] at hp
    rcases hp with rfl | rfl | rfl | rfl | rfl | rfl
    case inr.inr.inr.inr.inr => exact survives_colon
    all_goals exact isLocal.survives (by decide +kernel)
  | _ => exact isLocal.survives (by decide +kernel)

/-! ## The rank of a snippet -/

/-- The short names of the verdicts on snippets that are not blank, the most telling first. -/
def Verdict.ids : List Text := Language.ranked.map Language.id ++ [Verdict.unknown.id]

theorem Verdict.nodup_ids : Verdict.ids.Nodup := by
  decide +kernel

/-- The place of a verdict among the short names. -/
def Verdict.rank (v : Verdict) : Nat := Verdict.ids.idxOf v.id

section Rank

variable {s : Text}

/-- The place of the first mark that occurs in a snippet. -/
def firstMark (s : Text) : Nat := Language.ranked.findIdx (·.mark.occursIn s.trim)

theorem getElem?_ids_firstMark (hs : s.trim ≠ []) :
    Verdict.ids[firstMark s]? = some (detect s).id := by
  have hsample : ¬s.trim.isEmpty = true := by simpa using hs
  have hfind : Language.ranked.find? (·.mark.occursIn s.trim) = Language.ranked[firstMark s]? :=
    List.find?_eq_getElem?_findIdx
  cases hmark : Language.ranked[firstMark s]? with
  | some l =>
    have hlt : firstMark s < Language.ranked.length := (List.getElem?_eq_some_iff.1 hmark).1
    rw [hmark] at hfind
    rw [Verdict.ids, List.getElem?_append_left (by simpa using hlt), List.getElem?_map, hmark]
    simp only [detect, if_neg hsample, hfind]
    rfl
  | none =>
    have hlen : firstMark s = Language.ranked.length :=
      Nat.le_antisymm List.findIdx_le_length (List.getElem?_eq_none_iff.1 hmark)
    rw [hmark] at hfind
    rw [Verdict.ids, hlen, List.getElem?_append_right (by simp)]
    simp only [detect, if_neg hsample, hfind, List.length_map, Nat.sub_self]
    rfl

theorem rank_detect (hs : s.trim ≠ []) : (detect s).rank = firstMark s := by
  obtain ⟨hi, hid⟩ := List.getElem?_eq_some_iff.1 (getElem?_ids_firstMark hs)
  rw [Verdict.rank, ← hid, Verdict.nodup_ids.idxOf_getElem]

/-- The marks of a snippet are marks of every text in which it is set off. -/
theorem rank_detect_le {u : Text} (hs : s.trim ≠ []) (h : s.trim.SetOff u.trim) :
    (detect u).rank ≤ (detect s).rank := by
  rw [rank_detect hs, rank_detect (h.ne_nil hs)]
  exact List.findIdx_le_findIdx fun l _ hl => l.survives_mark _ _ h hl

end Rank

/-- With more lines in front or behind, a snippet that is not blank is of the same language or of an
earlier one. -/
theorem rank_detect_append_le {s : Text} (hs : s.isEmptyOrBlank = false) (t : Text) :
    (detect (s ++ '\n' :: t)).rank ≤ (detect s).rank ∧
    (detect (t ++ '\n' :: s)).rank ≤ (detect s).rank ∧
    (detect s).rank < Verdict.ids.length := by
  have hne : s.trim ≠ [] := by
    intro hnil
    rw [Text.trim_eq_nil_iff.1 hnil] at hs
    cases hs
  refine ⟨rank_detect_le hne (Text.setOff_append_lines hne t),
    rank_detect_le hne (Text.setOff_lines_append hne t), ?_⟩
  rw [rank_detect hne]
  exact (List.getElem?_eq_some_iff.1 (getElem?_ids_firstMark hne)).1

-- without the line feed the edge of a word may be lost
example : detect "elif".toList = .known .python ∧ detect "elifs".toList = .unknown := by
  decide +kernel

/-- A snippet whose only mark is a colon at its end, before and behind a class of another
language. -/
theorem rank_detect_append_le_colon :
    let s := "loop:  ".toList
    let t := "public class A".toList
    (detect s).id = "python".toList ∧ (detect (s ++ '\n' :: "x".toList)).id = "python".toList ∧
    (detect (t ++ '\n' :: s)).id = "java".toList ∧
    (detect (s ++ '\n' :: t)).rank ≤ (detect s).rank ∧
    (detect (t ++ '\n' :: s)).rank ≤ (detect s).rank ∧
    (detect s).rank < Verdict.ids.length := by
  intro s t
  refine ⟨by decide +kernel, by decide +kernel, by decide +kernel, ?_⟩
  exact rank_detect_append_le (by decide +kernel) t

end StepTrace
