import Mathlib.Tactic.Common
import StepTrace.Pattern.Basic

/-!
# What patterns reach

The matcher of a pattern tries places in an order. Which places it can hand to its continuation does
not depend on the order, and `Pattern.Takes` says which: it relates a place and the captures there
to the places and captures behind the pattern. The main statement, `Pattern.follows_run`, is that
the matcher goes on exactly where the relation allows, so a match gives a way through the pattern
(`Pattern.takes_of_match?`), and a way through the pattern a match (`Pattern.isSome_match?`).

What a pattern does to a text is then read off the relation: it leaves an end of the text, and
everything it captures is a piece of the text (`Pattern.Takes.isInfix`).
-/

namespace StepTrace

/-- A relation between a place with captures and another one. -/
abbrev Reach := Cursor → Captures → Cursor → Captures → Prop

namespace Reach

/-- Stay where one is. -/
def stay : Reach := fun c k c' k' => c' = c ∧ k' = k

/-- At most `bound` rounds. -/
def upTo (round : Reach) : (bound : Nat) → Reach
  | 0 => stay
  | bound + 1 => fun c k c' k' =>
    (∃ c₁ k₁, round c k c₁ k₁ ∧ upTo round bound c₁ k₁ c' k') ∨ stay c k c' k'

end Reach

/-- A matcher goes on exactly at the places that a relation reaches. -/
structure Follows (matcher : Next → Next) (reach : Reach) : Prop where
  sound : ∀ {next c k f}, matcher next c k = some f → ∃ c' k', reach c k c' k' ∧ next c' k' = some f
  complete : ∀ {next c k c' k'}, reach c k c' k' → (next c' k').isSome → (matcher next c k).isSome

theorem Follows.upTo {round : Next → Next} {reach : Reach} (h : Follows round reach) :
    ∀ bound, Follows (fun next => Pattern.rounds round next bound) (reach.upTo bound)
  | 0 => by
    refine ⟨fun hf => ⟨_, _, ⟨rfl, rfl⟩, hf⟩, fun hr hn => ?_⟩
    obtain ⟨rfl, rfl⟩ := hr
    exact hn
  | bound + 1 => by
    refine ⟨fun hf => ?_, fun hr hn => ?_⟩
    · rcases Option.or_eq_some_iff.1 hf with hf | ⟨-, hf⟩
      · obtain ⟨c₁, k₁, h₁, hf⟩ := h.sound hf
        obtain ⟨c₂, k₂, h₂, hf⟩ := (Follows.upTo h bound).sound hf
        exact ⟨c₂, k₂, Or.inl ⟨c₁, k₁, h₁, h₂⟩, hf⟩
      · exact ⟨_, _, Or.inr ⟨rfl, rfl⟩, hf⟩
    · rw [Pattern.rounds, Option.isSome_or, Bool.or_eq_true]
      rcases hr with ⟨c₁, k₁, h₁, h₂⟩ | ⟨rfl, rfl⟩
      · exact Or.inl (h.complete h₁ ((Follows.upTo h bound).complete h₂ hn))
      · exact Or.inr hn

theorem Follows.lazyUpTo {round : Next → Next} {reach : Reach} (h : Follows round reach) :
    ∀ bound, Follows (fun next => Pattern.lazyRounds round next bound) (reach.upTo bound)
  | 0 => by
    refine ⟨fun hf => ⟨_, _, ⟨rfl, rfl⟩, hf⟩, fun hr hn => ?_⟩
    obtain ⟨rfl, rfl⟩ := hr
    exact hn
  | bound + 1 => by
    refine ⟨fun hf => ?_, fun hr hn => ?_⟩
    · rcases Option.or_eq_some_iff.1 hf with hf | ⟨-, hf⟩
      · exact ⟨_, _, Or.inr ⟨rfl, rfl⟩, hf⟩
      · obtain ⟨c₁, k₁, h₁, hf⟩ := h.sound hf
        obtain ⟨c₂, k₂, h₂, hf⟩ := (Follows.lazyUpTo h bound).sound hf
        exact ⟨c₂, k₂, Or.inl ⟨c₁, k₁, h₁, h₂⟩, hf⟩
    · rw [Pattern.lazyRounds, Option.isSome_or, Bool.or_eq_true]
      rcases hr with ⟨c₁, k₁, h₁, h₂⟩ | ⟨rfl, rfl⟩
      · exact Or.inr (h.complete h₁ ((Follows.lazyUpTo h bound).complete h₂ hn))
      · exact Or.inl hn

namespace Pattern

/-- The places and captures behind a pattern. -/
def Takes : Pattern → Reach
  | nothing => .stay
  | char accepts => fun c k c' k' =>
    ∃ a, accepts a = true ∧ c.rest = a :: c'.rest ∧ c'.previous = some a ∧ k' = k
  | seq first second => fun c k c' k' => ∃ c₁ k₁, first.Takes c k c₁ k₁ ∧ second.Takes c₁ k₁ c' k'
  | alt first second => fun c k c' k' => first.Takes c k c' k' ∨ second.Takes c k c' k'
  | many _ round => fun c => Reach.upTo round.Takes c.rest.length c
  | capture slot body => fun c k c' k' =>
    ∃ k₁, body.Takes c k c' k₁ ∧ k' = (slot, c.taken c') :: k₁
  | notAhead body => fun c k c' k' => (¬∃ c₁ k₁, body.Takes c k c₁ k₁) ∧ Reach.stay c k c' k'
  | wordEdge => fun c k c' k' => c.atWordEdge = true ∧ Reach.stay c k c' k'
  | textEnd => fun c k c' k' => (c.rest = [] ∨ c.rest = ['\n']) ∧ Reach.stay c k c' k'
  | lineEnd => fun c k c' k' => c.rest.head?.all (· == '\n') = true ∧ Reach.stay c k c' k'

/-- A test that stays where it is, as a matcher and as a relation. -/
theorem follows_test {matcher : Next → Next} {test : Cursor → Captures → Prop}
    (h : ∀ next c k, (test c k → matcher next c k = next c k) ∧
      (¬test c k → matcher next c k = none)) :
    Follows matcher fun c k c' k' => test c k ∧ Reach.stay c k c' k' := by
  refine ⟨fun {next c k f} hf => ?_, fun {next c k c' k'} hr hn => ?_⟩
  · by_cases ht : test c k
    · rw [(h next c k).1 ht] at hf
      exact ⟨c, k, ⟨ht, rfl, rfl⟩, hf⟩
    · rw [(h next c k).2 ht] at hf
      cases hf
  · obtain ⟨ht, rfl, rfl⟩ := hr
    rw [(h next c' k').1 ht]
    exact hn

/-- The matcher of a pattern goes on exactly where the relation allows. -/
theorem follows_run : ∀ p : Pattern, Follows p.run p.Takes
  | nothing => by
    refine ⟨fun hf => ⟨_, _, ⟨rfl, rfl⟩, hf⟩, fun hr hn => ?_⟩
    obtain ⟨rfl, rfl⟩ := hr
    exact hn
  | char accepts => by
    refine ⟨fun {next c k f} hf => ?_, fun {next c k c' k'} hr hn => ?_⟩
    · rw [run] at hf
      rcases hrest : c.rest with _ | ⟨a, rest⟩
      · rw [hrest] at hf
        cases hf
      · simp only [hrest] at hf
        split_ifs at hf with ha
        exact ⟨⟨some a, rest⟩, k, ⟨a, ha, hrest, rfl, rfl⟩, hf⟩
    · obtain ⟨a, ha, hrest, hprev, rfl⟩ := hr
      rw [run]
      simp only [hrest, if_pos ha, ← hprev]
      exact hn
  | seq first second => by
    refine ⟨fun hf => ?_, fun hr hn => ?_⟩
    · obtain ⟨c₁, k₁, h₁, hf⟩ := (follows_run first).sound hf
      obtain ⟨c₂, k₂, h₂, hf⟩ := (follows_run second).sound hf
      exact ⟨c₂, k₂, ⟨c₁, k₁, h₁, h₂⟩, hf⟩
    · obtain ⟨c₁, k₁, h₁, h₂⟩ := hr
      exact (follows_run first).complete h₁ ((follows_run second).complete h₂ hn)
  | alt first second => by
    refine ⟨fun hf => ?_, fun hr hn => ?_⟩
    · rcases Option.or_eq_some_iff.1 hf with hf | ⟨-, hf⟩
      · obtain ⟨c', k', h, hf⟩ := (follows_run first).sound hf
        exact ⟨c', k', Or.inl h, hf⟩
      · obtain ⟨c', k', h, hf⟩ := (follows_run second).sound hf
        exact ⟨c', k', Or.inr h, hf⟩
    · rw [run, Option.isSome_or, Bool.or_eq_true]
      exact hr.imp (fun h => (follows_run first).complete h hn)
        fun h => (follows_run second).complete h hn
  | many true round => by
    have h := fun bound => (follows_run round).upTo bound
    exact ⟨fun hf => (h _).sound hf, fun hr hn => (h _).complete hr hn⟩
  | many false round => by
    have h := fun bound => (follows_run round).lazyUpTo bound
    exact ⟨fun hf => (h _).sound hf, fun hr hn => (h _).complete hr hn⟩
  | capture slot body => by
    refine ⟨fun hf => ?_, fun hr hn => ?_⟩
    · obtain ⟨c', k', h, hf⟩ := (follows_run body).sound hf
      exact ⟨c', _, ⟨k', h, rfl⟩, hf⟩
    · obtain ⟨k₁, h, rfl⟩ := hr
      exact (follows_run body).complete h hn
  | notAhead body => by
    refine follows_test fun next c k => ⟨fun ht => if_neg fun hsome => ht ?_, fun ht => if_pos ?_⟩
    · obtain ⟨f, hf⟩ := Option.isSome_iff_exists.1 hsome
      obtain ⟨c', k', h, -⟩ := (follows_run body).sound hf
      exact ⟨c', k', h⟩
    · obtain ⟨c', k', h⟩ := not_not.1 ht
      exact (follows_run body).complete h rfl
  | wordEdge => follows_test fun _ _ _ => ⟨fun ht => if_pos ht, fun ht => if_neg ht⟩
  | textEnd => follows_test fun _ _ _ => ⟨fun ht => if_pos ht, fun ht => if_neg ht⟩
  | lineEnd => follows_test fun _ _ _ => ⟨fun ht => if_pos ht, fun ht => if_neg ht⟩

/-! ## Matches -/

theorem takes_of_match? {p : Pattern} {t : Text} {f : Found} (h : p.match? t = some f) :
    p.Takes ⟨none, t⟩ [] f.stop f.captures := by
  obtain ⟨c', k', htakes, hf⟩ := p.follows_run.sound h
  cases hf
  exact htakes

theorem isSome_match? {p : Pattern} {t : Text} {c : Cursor} {k : Captures}
    (h : p.Takes ⟨none, t⟩ [] c k) : (p.match? t).isSome :=
  p.follows_run.complete h rfl

theorem mem_of_firstMatch? {α : Type} {ps : List (Pattern × α)} {t : Text} {f : Found} {a : α}
    (h : firstMatch? ps t = some (f, a)) : ∃ p, (p, a) ∈ ps ∧ p.match? t = some f := by
  obtain ⟨⟨p, b⟩, hmem, hp⟩ := List.exists_of_findSome?_eq_some h
  obtain ⟨g, hg, heq⟩ := Option.map_eq_some_iff.1 hp
  cases heq
  exact ⟨p, hmem, hg⟩

/-! ## Pieces of a text -/

/-- A pattern leaves an end of the text, and captures pieces of it. -/
def Cuts (reach : Reach) : Prop :=
  ∀ c k c' k', reach c k c' k' →
    c'.rest <:+ c.rest ∧ ∀ x ∈ k', x ∈ k ∨ x.2 <:+: c.rest

theorem Cuts.stay : Cuts Reach.stay := by
  rintro c k c' k' ⟨rfl, rfl⟩
  exact ⟨List.suffix_refl _, fun x hx => Or.inl hx⟩

theorem Cuts.trans {reach reach' : Reach} (h : Cuts reach) (h' : Cuts reach') :
    Cuts fun c k c' k' => ∃ c₁ k₁, reach c k c₁ k₁ ∧ reach' c₁ k₁ c' k' := by
  rintro c k c' k' ⟨c₁, k₁, h₁, h₂⟩
  obtain ⟨hs₁, hk₁⟩ := h _ _ _ _ h₁
  obtain ⟨hs₂, hk₂⟩ := h' _ _ _ _ h₂
  refine ⟨hs₂.trans hs₁, fun x hx => ?_⟩
  rcases hk₂ x hx with hx | hx
  · exact hk₁ x hx
  · exact Or.inr (hx.trans hs₁.isInfix)

theorem Cuts.upTo {reach : Reach} (h : Cuts reach) : ∀ bound, Cuts (reach.upTo bound)
  | 0 => Cuts.stay
  | bound + 1 => by
    rintro c k c' k' (hr | hr)
    · exact Cuts.trans h (Cuts.upTo h bound) _ _ _ _ hr
    · exact Cuts.stay _ _ _ _ hr

theorem cuts_takes : ∀ p : Pattern, Cuts p.Takes
  | nothing => Cuts.stay
  | char accepts => by
    rintro c k c' k' ⟨a, -, hrest, -, rfl⟩
    rw [hrest]
    exact ⟨List.suffix_cons a _, fun x hx => Or.inl hx⟩
  | seq first second => (cuts_takes first).trans (cuts_takes second)
  | alt first second => by
    rintro c k c' k' (h | h)
    · exact cuts_takes first _ _ _ _ h
    · exact cuts_takes second _ _ _ _ h
  | many _ round => fun c _ _ _ h => (cuts_takes round).upTo c.rest.length _ _ _ _ h
  | capture slot body => by
    rintro c k c' k' ⟨k₁, h, rfl⟩
    obtain ⟨hs, hk⟩ := cuts_takes body _ _ _ _ h
    refine ⟨hs, fun x hx => ?_⟩
    rcases List.mem_cons.1 hx with rfl | hx
    · exact Or.inr (List.take_prefix _ _).isInfix
    · exact hk x hx
  | notAhead _ => fun _ _ _ _ h => Cuts.stay _ _ _ _ h.2
  | wordEdge => fun _ _ _ _ h => Cuts.stay _ _ _ _ h.2
  | textEnd => fun _ _ _ _ h => Cuts.stay _ _ _ _ h.2
  | lineEnd => fun _ _ _ _ h => Cuts.stay _ _ _ _ h.2

/-- What a match captures is a piece of the text. -/
theorem isInfix_of_get? {p : Pattern} {t u : Text} {f : Found} {slot : Slot}
    (h : p.match? t = some f) (hu : f.get? slot = some u) : u <:+: t := by
  obtain ⟨front, back, hcaptures, -⟩ := List.lookup_eq_some_iff.1 hu
  have hmem : (slot, u) ∈ f.captures := by simp [hcaptures]
  rcases (p.cuts_takes _ _ _ _ (takes_of_match? h)).2 _ hmem with hnil | hinfix
  · cases hnil
  · exact hinfix

theorem isInfix_getD {p : Pattern} {t : Text} {f : Found} (h : p.match? t = some f) (slot : Slot) :
    f.getD slot <:+: t := by
  unfold Found.getD
  cases hu : f.get? slot with
  | none => exact List.nil_infix
  | some u => exact isInfix_of_get? h hu

/-! ## The common patterns -/

/-- The character before the place behind a row. -/
theorem getLast?_cons_or (a : Char) (front : Text) (previous : Option Char) :
    (a :: front).getLast?.or previous = front.getLast?.or (some a) := by
  cases front <;> simp [List.getLast?_cons]

theorem takes_chars {k k' : Captures} {c' : Cursor} : ∀ {cs : Text} {c : Cursor},
    (all (cs.map fun a => char (· == a))).Takes c k c' k' ↔
      c.rest = cs ++ c'.rest ∧ c'.previous = cs.getLast?.or c.previous ∧ k' = k
  | [], ⟨previous, rest⟩ => by
    refine ⟨?_, ?_⟩
    · rintro ⟨rfl, rfl⟩
      exact ⟨rfl, rfl, rfl⟩
    · rintro ⟨rfl, hprev, rfl⟩
      cases c'
      exact ⟨by simpa using hprev, rfl⟩
  | a :: cs, c => by
    rw [getLast?_cons_or]
    refine ⟨?_, ?_⟩
    · rintro ⟨c₁, k₁, ⟨b, hb, hrest, hprev, rfl⟩, h⟩
      obtain ⟨hrest', hprev', rfl⟩ := takes_chars.1 h
      obtain rfl : b = a := by simpa using hb
      rw [hrest, hrest']
      exact ⟨rfl, by rw [hprev', hprev], rfl⟩
    · rintro ⟨hrest, hprev, rfl⟩
      exact ⟨⟨some a, cs ++ c'.rest⟩, k', ⟨a, by simp, hrest, rfl, rfl⟩,
        takes_chars.2 ⟨rfl, hprev, rfl⟩⟩

theorem takes_text {s : String} {c k c' k'} : (text s).Takes c k c' k' ↔
    c.rest = s.toList ++ c'.rest ∧ c'.previous = s.toList.getLast?.or c.previous ∧ k' = k :=
  takes_chars

/-- Rounds of single characters take a row of them. -/
theorem upTo_char {accepts : Char → Bool} {k k' : Captures} {c' : Cursor} :
    ∀ {bound : Nat} {c : Cursor}, Reach.upTo (char accepts).Takes bound c k c' k' ↔
      ∃ front : Text, front.length ≤ bound ∧ (∀ a ∈ front, accepts a = true) ∧
        c.rest = front ++ c'.rest ∧ c'.previous = front.getLast?.or c.previous ∧ k' = k
  | 0, ⟨previous, rest⟩ => by
    refine ⟨?_, ?_⟩
    · rintro ⟨rfl, rfl⟩
      exact ⟨[], by simp⟩
    · rintro ⟨front, hlen, -, hrest, hprev, rfl⟩
      obtain rfl := List.length_eq_zero_iff.1 (Nat.le_zero.1 hlen)
      cases c'
      exact ⟨by simp_all, rfl⟩
  | bound + 1, ⟨previous, rest⟩ => by
    refine ⟨?_, ?_⟩
    · rintro (⟨c₁, k₁, ⟨a, ha, hrest, hprev, rfl⟩, h⟩ | ⟨rfl, rfl⟩)
      · obtain ⟨front, hlen, hall, hrest', hprev', rfl⟩ := upTo_char.1 h
        refine ⟨a :: front, by simpa using hlen, by simpa [ha] using hall, ?_, ?_, rfl⟩
        · rw [hrest, hrest', List.cons_append]
        · rw [hprev', hprev, getLast?_cons_or]
      · exact ⟨[], by simp⟩
    · rintro ⟨front, hlen, hall, hrest, hprev, rfl⟩
      cases front with
      | nil =>
        cases c'
        exact Or.inr ⟨by simp_all, rfl⟩
      | cons a front =>
        refine Or.inl ⟨⟨some a, front ++ c'.rest⟩, k', ⟨a, hall a (by simp), hrest, rfl, rfl⟩, ?_⟩
        refine upTo_char.2 ⟨front, by simpa using hlen, fun b hb => hall b (by simp [hb]), rfl, ?_,
          rfl⟩
        rw [hprev, getLast?_cons_or]

theorem takes_many_char {greedy : Bool} {accepts : Char → Bool} {c k c' k'} :
    (many greedy (char accepts)).Takes c k c' k' ↔
      ∃ front : Text, (∀ a ∈ front, accepts a = true) ∧ c.rest = front ++ c'.rest ∧
        c'.previous = front.getLast?.or c.previous ∧ k' = k := by
  refine upTo_char.trans ⟨?_, ?_⟩
  · rintro ⟨front, -, h⟩
    exact ⟨front, h⟩
  · rintro ⟨front, hall, hrest, h⟩
    exact ⟨front, by simp [hrest], hall, hrest, h⟩

theorem takes_several_char {accepts : Char → Bool} {c k c' k'} :
    (several (char accepts)).Takes c k c' k' ↔
      ∃ front : Text, front ≠ [] ∧ (∀ a ∈ front, accepts a = true) ∧ c.rest = front ++ c'.rest ∧
        c'.previous = front.getLast?.or c.previous ∧ k' = k := by
  refine ⟨?_, ?_⟩
  · rintro ⟨c₁, k₁, ⟨a, ha, hrest, hprev, rfl⟩, h⟩
    obtain ⟨front, hall, hrest', hprev', rfl⟩ := takes_many_char.1 h
    refine ⟨a :: front, by simp, by simpa [ha] using hall, by rw [hrest, hrest', List.cons_append],
      ?_, rfl⟩
    rw [hprev', hprev, getLast?_cons_or]
  · rintro ⟨front, hne, hall, hrest, hprev, rfl⟩
    obtain ⟨a, front, rfl⟩ := List.exists_cons_of_ne_nil hne
    refine ⟨⟨some a, front ++ c'.rest⟩, k', ⟨a, hall a (by simp), hrest, rfl, rfl⟩, ?_⟩
    refine takes_many_char.2 ⟨front, fun b hb => hall b (by simp [hb]), rfl, ?_, rfl⟩
    rw [hprev, getLast?_cons_or]

end Pattern

end StepTrace
