import StepTrace.Proofs.Number.Numeral

/-!
# Names

A name is a letter or an underscore with word characters behind it (`Text.isName`). The name in
front of a text ends where no word character follows (`Text.name?_eq_some_iff`).
-/

namespace StepTrace

open CharClass

theorem CharClass.toNat_of_isNameStart {c : Char} (h : isNameStart c = true) :
    c.toNat < 0x80 ∧ 0x39 < c.toNat := by
  rw [isNameStart, Bool.or_eq_true, beq_iff_eq] at h
  rcases h with h | rfl
  · rcases Bool.or_eq_true_iff.1 h with hupper | hlower
    · obtain ⟨hlow, hhigh⟩ := of_decide_eq_true hupper
      have hlow : 65 ≤ c.toNat := UInt32.le_iff_toNat_le.1 hlow
      have hhigh : c.toNat ≤ 90 := UInt32.le_iff_toNat_le.1 hhigh
      omega
    · obtain ⟨hlow, hhigh⟩ := Bool.and_eq_true_iff.1 hlower
      have hlow : 97 ≤ c.toNat := UInt32.le_iff_toNat_le.1 (of_decide_eq_true hlow)
      have hhigh : c.toNat ≤ 122 := UInt32.le_iff_toNat_le.1 (of_decide_eq_true hhigh)
      omega
  · decide

theorem CharClass.isWord_of_isNameStart {c : Char} (h : isNameStart c = true) :
    isWord c = true := by
  rw [isWord, if_pos (toNat_of_isNameStart h).1, Char.isAlphanum]
  rw [isNameStart] at h
  cases hc : c.isAlpha with
  | true => rfl
  | false =>
    rw [hc, Bool.false_or] at h
    rw [h, Bool.or_true]

theorem CharClass.not_isDecimal_of_isNameStart {c : Char} (h : isNameStart c = true) :
    isDecimal c = false := by
  obtain ⟨hlow, hhigh⟩ := toNat_of_isNameStart h
  rw [isDecimal, digitValue?, if_pos hlow, if_neg (by omega)]
  rfl

namespace Text

/-- A name: a letter or an underscore, and word characters behind it. -/
def isName : Text → Bool
  | [] => false
  | c :: t => isNameStart c && t.all isWord

variable {t name rest : Text}

theorem isName_ne_nil (h : name.isName) : name ≠ [] := by
  rintro rfl
  cases h

theorem isWord_of_mem_isName (h : name.isName) {c : Char} (hc : c ∈ name) : isWord c = true := by
  cases name with
  | nil => cases hc
  | cons d name =>
    obtain ⟨hd, hname⟩ := Bool.and_eq_true_iff.1 h
    rcases List.mem_cons.1 hc with rfl | hc
    · exact isWord_of_isNameStart hd
    · exact List.all_eq_true.1 hname c hc

/-- A character that is not one of words is in no name. -/
theorem not_mem_of_isName (h : name.isName) {c : Char} (hc : isWord c = false) : c ∉ name := by
  intro hmem
  rw [isWord_of_mem_isName h hmem] at hc
  cases hc

theorem isName_eq_false_of_mem {c : Char} (h : c ∈ t) (hc : isWord c = false) :
    t.isName = false := by
  rw [Bool.eq_false_iff]
  exact fun hname => not_mem_of_isName hname hc h

theorem not_isBlank_of_isName (h : name.isName) : ∀ c ∈ name, isBlank c = false := by
  intro c hc
  rw [Bool.eq_false_iff]
  exact fun hblank => not_mem_of_isName h (not_isWord_of_isBlank hblank) hc

/-- The name in front of a text ends where no word character follows. -/
theorem name?_eq_some_iff : t.name? = some (name, rest) ↔
    t = name ++ rest ∧ name.isName ∧ ∀ c ∈ rest.head?, isWord c = false := by
  cases t with
  | nil =>
    refine iff_of_false (nofun) fun ⟨h, hname, _⟩ => ?_
    exact isName_ne_nil hname (List.append_eq_nil_iff.1 h.symm).1
  | cons c t =>
    rw [name?]
    constructor
    · intro h
      split_ifs at h with hc
      cases h
      refine ⟨?_, Bool.and_eq_true_iff.2 ⟨hc, List.all_takeWhile⟩, fun d hd => ?_⟩
      · rw [List.cons_append, List.takeWhile_append_dropWhile]
      · have hnot := List.head?_dropWhile_not isWord t
        rw [Option.mem_def.1 hd] at hnot
        exact hnot
    · rintro ⟨h, hname, hrest⟩
      cases name with
      | nil => cases hname
      | cons d name =>
        rw [List.cons_append] at h
        obtain ⟨rfl, rfl⟩ := List.cons.inj h
        obtain ⟨hc, hall⟩ := Bool.and_eq_true_iff.1 hname
        obtain ⟨htake, hdrop⟩ := span_append (List.all_eq_true.1 hall) hrest
        rw [if_pos hc, htake, hdrop]

theorem after?_eq_some_iff : ∀ {front t : Text}, after? front t = some rest ↔ t = front ++ rest
  | [], t => by simp [after?]
  | f :: front, [] => by simp [after?]
  | f :: front, c :: t => by
    rw [after?, List.cons_append, List.cons.injEq]
    split_ifs with hc
    · rw [after?_eq_some_iff]
      exact ⟨fun h => ⟨hc.symm, h⟩, fun h => h.2⟩
    · exact iff_of_false (nofun) fun h => hc h.1.symm

theorem before?_eq_some_iff {back : Text} : before? back t = some rest ↔ t = rest ++ back := by
  rw [before?, Option.map_eq_some_iff]
  constructor
  · rintro ⟨u, hu, rfl⟩
    have h := congrArg List.reverse (after?_eq_some_iff.1 hu)
    rwa [List.reverse_reverse, List.reverse_append, List.reverse_reverse] at h
  · rintro rfl
    refine ⟨rest.reverse, after?_eq_some_iff.2 ?_, List.reverse_reverse rest⟩
    rw [List.reverse_append]

end Text

end StepTrace
