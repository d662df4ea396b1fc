import StepTrace.Proofs.Pattern.Reach

/-!
# Patterns in a larger text

Most patterns look at nothing but the characters that they take, and some also at the edges of words
(`Pattern.isLocal`). A way through such a pattern is a way through it wherever the text stands in a
larger one, as long as no edge of a word is lost (`Pattern.isLocal.persists`). A pattern occurs in
a text where there is a way through it from some place of the text (`Pattern.occursIn_iff`). So a
local pattern that occurs in a text occurs in every larger one (`Pattern.isLocal.occursIn_append`).
-/

namespace StepTrace

open CharClass

/-- A place of a text as a place of a larger text, which has a character before the text and goes on
behind it. -/
def Cursor.within (before : Option Char) (behind : Text) (c : Cursor) : Cursor :=
  ⟨c.previous.or before, c.rest ++ behind⟩

/-- There is no word character at either side of a text. -/
def Apart (before : Option Char) (behind : Text) : Prop :=
  before.any isWord = false ∧ behind.head?.any isWord = false

theorem Apart.atWordEdge {before : Option Char} {behind : Text} (h : Apart before behind)
    (c : Cursor) : (c.within before behind).atWordEdge = c.atWordEdge := by
  have hprevious : (c.previous.or before).any isWord = c.previous.any isWord := by
    cases c.previous with
    | none => exact h.1
    | some a => rfl
  have hrest : (c.rest ++ behind).head?.any isWord = c.rest.head?.any isWord := by
    cases c.rest with
    | nil => exact h.2
    | cons a rest => rfl
  show ((c.previous.or before).any isWord != (c.rest ++ behind).head?.any isWord) = _
  rw [hprevious, hrest, Cursor.atWordEdge]

/-! ## Ways that stay open -/

/-- What is reached in a text is reached in the larger text. -/
def Reach.Persists (before : Option Char) (behind : Text) (reach : Reach) : Prop :=
  ∀ c k c' k', reach c k c' k' → reach (c.within before behind) k (c'.within before behind) k'

section Persists

variable {before : Option Char} {behind : Text}

theorem Reach.persists_stay : Reach.stay.Persists before behind := by
  rintro c k c' k' ⟨rfl, rfl⟩
  exact ⟨rfl, rfl⟩

theorem Reach.Persists.upTo {round : Reach} (h : round.Persists before behind) :
    ∀ bound, (round.upTo bound).Persists before behind
  | 0 => Reach.persists_stay
  | bound + 1 => by
    rintro c k c' k' (⟨c₁, k₁, h₁, h₂⟩ | hstay)
    · exact Or.inl ⟨_, k₁, h _ _ _ _ h₁, Reach.Persists.upTo h bound _ _ _ _ h₂⟩
    · exact Or.inr (Reach.persists_stay _ _ _ _ hstay)

/-- More rounds may be allowed. -/
theorem Reach.upTo_mono {round : Reach} {m n : Nat} (hmn : m ≤ n) {c k c' k'}
    (h : round.upTo m c k c' k') : round.upTo n c k c' k' := by
  induction m generalizing n c k with
  | zero =>
    cases n with
    | zero => exact h
    | succ n => exact Or.inr h
  | succ m ih =>
    cases n with
    | zero => exact absurd hmn (Nat.not_succ_le_zero m)
    | succ n =>
      rcases h with ⟨c₁, k₁, h₁, h₂⟩ | hstay
      · exact Or.inl ⟨c₁, k₁, h₁, ih (Nat.le_of_succ_le_succ hmn) h₂⟩
      · exact Or.inr hstay

end Persists

namespace Pattern

/-- A pattern looks only at the characters it takes, and at the edges of words if they are allowed.
-/
def isLocal (edges : Bool) : Pattern → Bool
  | nothing => true
  | char _ => true
  | seq first second => first.isLocal edges && second.isLocal edges
  | alt first second => first.isLocal edges && second.isLocal edges
  | many _ round => round.isLocal edges
  | capture _ _ => false
  | notAhead _ => false
  | wordEdge => edges
  | textEnd => false
  | lineEnd => false

/-- The ways through a local pattern stay open in a larger text. -/
theorem isLocal.persists {edges : Bool} {before : Option Char} {behind : Text}
    (hapart : edges = true → Apart before behind) :
    ∀ {p : Pattern}, p.isLocal edges = true → p.Takes.Persists before behind
  | nothing, _ => Reach.persists_stay
  | char accepts, _ => by
    rintro c k c' k' ⟨a, ha, hrest, hprevious, rfl⟩
    refine ⟨a, ha, ?_, ?_, rfl⟩
    · show c.rest ++ behind = a :: (c'.rest ++ behind)
      rw [hrest, List.cons_append]
    · show c'.previous.or before = some a
      rw [hprevious, Option.some_or]
  | seq first second, hlocal => by
    obtain ⟨hfirst, hsecond⟩ := Bool.and_eq_true_iff.1 hlocal
    rintro c k c' k' ⟨c₁, k₁, h₁, h₂⟩
    exact ⟨_, k₁, persists hapart hfirst _ _ _ _ h₁, persists hapart hsecond _ _ _ _ h₂⟩
  | alt first second, hlocal => by
    obtain ⟨hfirst, hsecond⟩ := Bool.and_eq_true_iff.1 hlocal
    rintro c k c' k' (h | h)
    · exact Or.inl (persists hapart hfirst _ _ _ _ h)
    · exact Or.inr (persists hapart hsecond _ _ _ _ h)
  | many _ round, hlocal => by
    intro c k c' k' h
    have hround : round.Takes.Persists before behind := persists hapart hlocal
    have hle : c.rest.length ≤ (c.rest ++ behind).length := by simp
    exact Reach.upTo_mono hle (hround.upTo _ _ _ _ _ h)
  | wordEdge, hlocal => by
    rintro c k c' k' ⟨hedge, hstay⟩
    exact ⟨((hapart hlocal).atWordEdge c).trans hedge, Reach.persists_stay _ _ _ _ hstay⟩

/-! ## Occurrences -/

theorem isSome_matchAt?_iff {p : Pattern} {c : Cursor} :
    (p.matchAt? c).isSome = true ↔ ∃ c' k, p.Takes c [] c' k := by
  constructor
  · intro h
    obtain ⟨f, hf⟩ := Option.isSome_iff_exists.1 h
    obtain ⟨c', k, htakes, -⟩ := p.follows_run.sound hf
    exact ⟨c', k, htakes⟩
  · rintro ⟨c', k, h⟩
    exact p.follows_run.complete h rfl

theorem isSome_searchFrom?_iff {p : Pattern} : ∀ {t : Text} {previous : Option Char},
    (p.searchFrom? previous t).isSome = true ↔ ∃ front back c k, t = front ++ back ∧
      p.Takes ⟨front.getLast?.or previous, back⟩ [] c k
  | [], previous => by
    rw [searchFrom?, isSome_matchAt?_iff]
    constructor
    · rintro ⟨c, k, h⟩
      exact ⟨[], [], c, k, rfl, h⟩
    · rintro ⟨front, back, c, k, ht, h⟩
      obtain ⟨rfl, rfl⟩ := List.append_eq_nil_iff.1 ht.symm
      exact ⟨c, k, h⟩
  | a :: t, previous => by
    rw [searchFrom?, Option.isSome_or, Bool.or_eq_true, isSome_matchAt?_iff, isSome_searchFrom?_iff]
    constructor
    · rintro (⟨c, k, h⟩ | ⟨front, back, c, k, rfl, h⟩)
      · exact ⟨[], a :: t, c, k, rfl, h⟩
      · exact ⟨a :: front, back, c, k, rfl, by rwa [getLast?_cons_or]⟩
    · rintro ⟨front, back, c, k, ht, h⟩
      cases front with
      | nil =>
        obtain rfl : a :: t = back := ht
        exact Or.inl ⟨c, k, h⟩
      | cons b front =>
        obtain ⟨rfl, rfl⟩ := List.cons.inj ht
        exact Or.inr ⟨front, back, c, k, rfl, by rwa [← getLast?_cons_or]⟩

/-- A pattern occurs in a text if there is a way through it from a place of the text. -/
theorem occursIn_iff {p : Pattern} {t : Text} : p.occursIn t = true ↔
    ∃ front back c k, t = front ++ back ∧ p.Takes ⟨front.getLast?, back⟩ [] c k := by
  simp only [occursIn, isSome_searchFrom?_iff, Option.or_none]

theorem occursIn_alt {p q : Pattern} {t : Text} :
    (alt p q).occursIn t = true ↔ p.occursIn t = true ∨ q.occursIn t = true := by
  simp only [occursIn_iff]
  constructor
  · rintro ⟨front, back, c, k, ht, h | h⟩
    · exact Or.inl ⟨front, back, c, k, ht, h⟩
    · exact Or.inr ⟨front, back, c, k, ht, h⟩
  · rintro (⟨front, back, c, k, ht, h⟩ | ⟨front, back, c, k, ht, h⟩)
    · exact ⟨front, back, c, k, ht, Or.inl h⟩
    · exact ⟨front, back, c, k, ht, Or.inr h⟩

/-- A local pattern that occurs in a text occurs in a larger one. -/
theorem isLocal.occursIn_append {edges : Bool} {p : Pattern} (hlocal : p.isLocal edges = true)
    {before t behind : Text} (hapart : edges = true → Apart before.getLast? behind)
    (h : p.occursIn t = true) : p.occursIn (before ++ (t ++ behind)) = true := by
  obtain ⟨front, back, c, k, rfl, htakes⟩ := occursIn_iff.1 h
  refine occursIn_iff.2 ⟨before ++ front, back ++ behind, c.within before.getLast? behind, k,
    by simp, ?_⟩
  rw [List.getLast?_append]
  exact isLocal.persists hapart hlocal _ _ _ _ htakes

/-- A pattern that looks at nothing around it occurs wherever a text in which it occurs stands. -/
theorem isLocal.occursIn_of_isInfix {p : Pattern} (hlocal : p.isLocal false = true) {t u : Text}
    (hpart : t <:+: u) (h : p.occursIn t = true) : p.occursIn u = true := by
  obtain ⟨before, behind, rfl⟩ := hpart
  rw [List.append_assoc]
  exact isLocal.occursIn_append hlocal (by simp) h

end Pattern

end StepTrace
