import StepTrace.Proofs.Pattern.Reach
import StepTrace.Proofs.Text.Name

/-!
# From texts to texts

A pattern leads from texts of one kind to texts of another if what it leaves of a text of the first
kind is of the second (`Pattern.Leads`). Such facts are put together along the pattern, and a
pattern that leads to no text at all declines the texts of that kind (`Pattern.Declines`): it does
not match them.

Most of the parts of a pattern matter only for the characters that they do not take. A pattern
spares a character (`Pattern.spares`) if no class in it has the character, and then it stays before
the first place with that character (`Pattern.exists_of_spares`).
-/

namespace StepTrace

open CharClass

namespace Pattern

/-! ## Leading -/

/-- What the pattern leaves of a text of the first kind is of the second. -/
def Leads (p : Pattern) (A B : Text → Prop) : Prop :=
  ∀ ⦃c k c' k'⦄, p.Takes c k c' k' → A c.rest → B c'.rest

/-- The pattern takes nothing of a text of the kind. -/
abbrev Declines (p : Pattern) (A : Text → Prop) : Prop := p.Leads A fun _ => False

section Leading

variable {p q : Pattern} {A B C : Text → Prop}

theorem Leads.seq (hp : p.Leads A B) (hq : q.Leads B C) : (seq p q).Leads A C := by
  rintro c k c' k' ⟨c₁, k₁, h₁, h₂⟩ ha
  exact hq h₂ (hp h₁ ha)

/-- Behind a pattern that declines nothing matters. -/
theorem Leads.first (hp : p.Declines A) : (Pattern.seq p q).Leads A B := by
  rintro c k c' k' ⟨c₁, k₁, h₁, -⟩ ha
  exact (hp h₁ ha).elim

theorem Leads.alt (hp : p.Leads A B) (hq : q.Leads A B) : (alt p q).Leads A B := by
  rintro c k c' k' (h | h) ha
  · exact hp h ha
  · exact hq h ha

theorem Leads.capture (hp : p.Leads A B) (slot : Slot) : (capture slot p).Leads A B := by
  rintro c k c' k' ⟨k₁, h, -⟩ ha
  exact hp h ha

theorem declines_char {accepts : Char → Bool}
    (h : ∀ {a t}, A (a :: t) → accepts a = false) : (char accepts).Declines A := by
  rintro c k c' k' ⟨a, haccepts, hrest, -⟩ ha
  rw [hrest] at ha
  exact Bool.false_ne_true ((h ha).symm.trans haccepts)

theorem declines_text {s : String} {first : Char} (hfirst : s.toList.head? = some first)
    (h : ∀ {t}, ¬A (first :: t)) : (text s).Declines A := by
  intro c k c' k' htakes ha
  obtain ⟨rest, hs⟩ := List.head?_eq_some_iff.1 hfirst
  rw [(takes_text.1 htakes).1, hs] at ha
  exact h ha

theorem match?_eq_none {t : Text} (hp : p.Declines A) (ht : A t) : p.match? t = none :=
  Option.eq_none_iff_forall_ne_some.2 fun _ hf => hp (takes_of_match? hf) ht

theorem firstMatch?_eq_none {α : Type} {ps : List (Pattern × α)} {t : Text}
    (h : ∀ p ∈ ps, p.1.match? t = none) : firstMatch? ps t = none :=
  List.findSome?_eq_none_iff.2 fun p hp => Option.map_eq_none_iff.2 (h p hp)

end Leading

/-! ## Sparing -/

/-- No class of the pattern has the character. -/
def spares (a : Char) : Pattern → Bool
  | char accepts => !accepts a
  | seq first second => first.spares a && second.spares a
  | alt first second => first.spares a && second.spares a
  | many _ round => round.spares a
  | capture _ body => body.spares a
  | _ => true

/-- What lies between two places does not have the character. -/
def Spares (a : Char) (reach : Reach) : Prop :=
  ∀ ⦃c k c' k'⦄, reach c k c' k' → ∃ front : Text, a ∉ front ∧ c.rest = front ++ c'.rest

section Sparing

variable {a : Char} {reach reach' : Reach}

theorem Spares.stay : Spares a Reach.stay := by
  rintro c k c' k' ⟨rfl, rfl⟩
  exact ⟨[], List.not_mem_nil, rfl⟩

theorem Spares.trans (h : Spares a reach) (h' : Spares a reach') :
    Spares a fun c k c' k' => ∃ c₁ k₁, reach c k c₁ k₁ ∧ reach' c₁ k₁ c' k' := by
  rintro c k c' k' ⟨c₁, k₁, h₁, h₂⟩
  obtain ⟨front, hfront, hrest⟩ := h h₁
  obtain ⟨front', hfront', hrest'⟩ := h' h₂
  refine ⟨front ++ front', ?_, by rw [hrest, hrest', List.append_assoc]⟩
  rw [List.mem_append, not_or]
  exact ⟨hfront, hfront'⟩

theorem Spares.upTo (h : Spares a reach) : ∀ bound, Spares a (reach.upTo bound)
  | 0 => Spares.stay
  | bound + 1 => by
    rintro c k c' k' (hr | hr)
    · exact Spares.trans h (Spares.upTo h bound) hr
    · exact Spares.stay hr

theorem spares_takes : ∀ p : Pattern, p.spares a = true → Spares a p.Takes
  | nothing, _ => Spares.stay
  | char accepts, h => by
    rintro c k c' k' ⟨b, hb, hrest, -⟩
    refine ⟨[b], fun hmem => ?_, hrest⟩
    rw [← List.mem_singleton.1 hmem] at hb
    simp [spares, hb] at h
  | seq first second, h => by
    obtain ⟨hfirst, hsecond⟩ := Bool.and_eq_true_iff.1 h
    exact (spares_takes first hfirst).trans (spares_takes second hsecond)
  | alt first second, h => by
    obtain ⟨hfirst, hsecond⟩ := Bool.and_eq_true_iff.1 h
    rintro c k c' k' (ht | ht)
    · exact spares_takes first hfirst ht
    · exact spares_takes second hsecond ht
  | many _ round, h => fun c _ _ _ ht => (spares_takes round h).upTo c.rest.length ht
  | capture slot body, h => by
    rintro c k c' k' ⟨k₁, ht, -⟩
    exact spares_takes body h ht
  | notAhead _, _ => fun _ _ _ _ ht => Spares.stay ht.2
  | wordEdge, _ => fun _ _ _ _ ht => Spares.stay ht.2
  | textEnd, _ => fun _ _ _ _ ht => Spares.stay ht.2
  | lineEnd, _ => fun _ _ _ _ ht => Spares.stay ht.2

/-- A text before a character ends behind what does not have the character. -/
theorem exists_of_append_cons {front before rest back : Text} (hfront : a ∉ front)
    (h : before ++ a :: back = front ++ rest) :
    ∃ left : Text, before = front ++ left ∧ rest = left ++ a :: back := by
  rcases List.append_eq_append_iff.1 h with ⟨middle, rfl, hback⟩ | ⟨left, hbefore, hrest⟩
  · cases middle with
    | nil => exact ⟨[], by simp, hback.symm⟩
    | cons c middle =>
      obtain ⟨rfl, -⟩ := List.cons.inj hback
      exact absurd (by simp) hfront
  · exact ⟨left, hbefore, hrest⟩

/-- A pattern that spares a character stays before it. -/
theorem exists_of_spares {p : Pattern} (h : p.spares a = true) {c c' : Cursor} {k k' : Captures}
    (htakes : p.Takes c k c' k') {before back : Text} (hrest : c.rest = before ++ a :: back) :
    ∃ front left : Text, before = front ++ left ∧ c'.rest = left ++ a :: back := by
  obtain ⟨front, hfront, hsplit⟩ := spares_takes p h htakes
  obtain ⟨left, hbefore, hleft⟩ := exists_of_append_cons hfront (hrest.symm.trans hsplit)
  exact ⟨front, left, hbefore, hleft⟩

end Sparing

/-! ## Names -/

theorem takes_name {c k c' k'} : name.Takes c k c' k' ↔
    ∃ x : Text, x.isName = true ∧ c.rest = x ++ c'.rest ∧
      c'.previous = x.getLast?.or c.previous ∧ k' = k := by
  refine ⟨?_, ?_⟩
  · rintro ⟨c₁, k₁, ⟨a, ha, hrest, hprev, rfl⟩, h⟩
    obtain ⟨front, hall, hrest', hprev', rfl⟩ := takes_many_char.1 h
    refine ⟨a :: front, ?_, by rw [hrest, hrest', List.cons_append], ?_, rfl⟩
    · rw [Text.isName, ha, Bool.true_and, List.all_eq_true]
      exact hall
    · rw [hprev', hprev, getLast?_cons_or]
  · rintro ⟨x, hx, hrest, hprev, rfl⟩
    obtain ⟨a, front, rfl⟩ := List.exists_cons_of_ne_nil (Text.isName_ne_nil hx)
    obtain ⟨ha, hall⟩ := Bool.and_eq_true_iff.1 hx
    refine ⟨⟨some a, front ++ c'.rest⟩, k', ⟨a, ha, hrest, rfl, rfl⟩, ?_⟩
    refine takes_many_char.2 ⟨front, List.all_eq_true.1 hall, rfl, ?_, rfl⟩
    rw [hprev, getLast?_cons_or]

end Pattern

end StepTrace
