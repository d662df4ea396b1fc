import StepTrace.Number.Literal
import StepTrace.Proofs.Text.Trim

/-!
# Numerals

A numeral is a numeric literal as it is written: an optional sign, digits with or without a point,
and an optional exponent (`Numeral`). Its parts carry their own conditions, so every numeral is
well formed. Its text is taken apart into its parts again (`Numeral.ofText?_text`), and only the
texts of numerals can be taken apart (`Numeral.exists_of_ofText?`). So the texts that stand for a
number are the numerals with white space around them, and the number is the value of the numeral
(`Number.ofLiteral?_eq_some_iff`).
-/

namespace StepTrace

open CharClass

theorem CharClass.not_isDecimal_of_isBlank {c : Char} (h : isBlank c = true) :
    isDecimal c = false := by
  have hall : ∀ n ∈ codes blankRanges, isDecimal (Char.ofNat n) = false := by decide +kernel
  rw [← Char.ofNat_toNat c]
  exact hall c.toNat (mem_codes h)

/-- The characters in front that satisfy a property end where one does not. -/
theorem Text.span_append {p : Char → Bool} {a b : Text} (ha : ∀ c ∈ a, p c = true)
    (hb : ∀ c ∈ b.head?, p c = false) :
    (a ++ b).takeWhile p = a ∧ (a ++ b).dropWhile p = b := by
  rw [List.takeWhile_append_of_pos ha, List.dropWhile_append_of_pos ha]
  cases b with
  | nil => simp
  | cons c b => simp [hb c rfl]

/-! ## Signs -/

/-- An optional sign. -/
inductive Sign where
  | absent
  | plus
  | minus
deriving DecidableEq, Repr

namespace Sign

/-- The text of a sign. -/
def text : Sign → Text
  | absent => []
  | plus => ['+']
  | minus => ['-']

/-- The sign of a negative number. -/
def isMinus : Sign → Bool
  | minus => true
  | _ => false

theorem sign_text (g : Sign) {t : Text} (h : ∀ c ∈ t.head?, c ≠ '+' ∧ c ≠ '-') :
    Literal.sign (g.text ++ t) = (g.isMinus, t) := by
  cases g with
  | absent =>
    rw [text, List.nil_append]
    unfold Literal.sign
    split
    · exact absurd rfl (h '-' rfl).2
    · exact absurd rfl (h '+' rfl).1
    · rfl
  | plus => rfl
  | minus => rfl

theorem exists_of_sign (t : Text) :
    ∃ g : Sign, t = g.text ++ (Literal.sign t).2 ∧ (Literal.sign t).1 = g.isMinus := by
  unfold Literal.sign
  split
  · exact ⟨minus, rfl, rfl⟩
  · exact ⟨plus, rfl, rfl⟩
  · exact ⟨absent, rfl, rfl⟩

end Sign

/-! ## Exponents -/

/-- The exponent of a literal as it is written. -/
structure Exponent where
  mark : Char
  sign : Sign
  digits : Text
  isMark : mark = 'e' ∨ mark = 'E'
  isDigits : ∀ c ∈ digits, isDecimal c = true
  filled : digits ≠ []

namespace Exponent

/-- The text of an exponent. -/
def text (e : Exponent) : Text := e.mark :: (e.sign.text ++ e.digits)

/-- The number that an exponent stands for. -/
def value (e : Exponent) : Int :=
  if e.sign.isMinus then -(Literal.value e.digits : Int) else Literal.value e.digits

theorem sign_digits (e : Exponent) :
    Literal.sign (e.sign.text ++ e.digits) = (e.sign.isMinus, e.digits) := by
  refine Sign.sign_text e.sign fun c hc => ⟨?_, ?_⟩
  all_goals
    rintro rfl
    exact absurd (e.isDigits _ (List.mem_of_head? hc)) (by decide)

theorem not_isDecimal_mark (e : Exponent) : isDecimal e.mark = false := by
  rcases e.isMark with h | h <;> rw [h] <;> decide

theorem exponent?_text (o : Option Exponent) :
    Literal.exponent? (o.elim [] text) = some (o.map value) := by
  cases o with
  | none => rfl
  | some e =>
    have hdigits : e.digits ≠ [] ∧ e.digits.all isDecimal :=
      ⟨e.filled, List.all_eq_true.2 e.isDigits⟩
    simp only [Option.elim_some, text, Literal.exponent?, e.isMark, if_true, e.sign_digits]
    rw [if_pos hdigits]
    rfl

/-- Only a mark can begin an exponent. -/
theorem exponent?_eq_none {c : Char} (h : ¬(c = 'e' ∨ c = 'E')) (t : Text) :
    Literal.exponent? (c :: t) = none := by
  rw [Literal.exponent?, if_neg h]

theorem exists_of_exponent? {t : Text} {x : Option Int} (h : Literal.exponent? t = some x) :
    ∃ o : Option Exponent, t = o.elim [] text ∧ x = o.map value := by
  cases t with
  | nil =>
    cases h
    exact ⟨none, rfl, rfl⟩
  | cons c t =>
    obtain ⟨g, ht, hg⟩ := Sign.exists_of_sign t
    rw [Literal.exponent?] at h
    generalize Literal.sign t = parts at ht hg h
    obtain ⟨negative, digits⟩ := parts
    dsimp only at ht hg h
    subst ht hg
    split_ifs at h with hmark hdigits
    all_goals
      cases h
      refine ⟨some ⟨c, g, digits, hmark, List.all_eq_true.1 hdigits.2, hdigits.1⟩, rfl, ?_⟩
      simp [value, *]

end Exponent

/-! ## Numerals -/

/-- A numeric literal as it is written. -/
structure Numeral where
  sign : Sign
  /-- The digits before the point. -/
  whole : Text
  /-- The digits after the point, if there is a point. -/
  fraction : Option Text
  exponent : Option Exponent
  isDigits : ∀ c ∈ whole ++ fraction.getD [], isDecimal c = true
  filled : whole ++ fraction.getD [] ≠ []

namespace Numeral

/-- The digits and the point. -/
def mantissa (n : Numeral) : Text := n.whole ++ n.fraction.elim [] ('.' :: ·)

/-- The text of the exponent. -/
def tail (n : Numeral) : Text := n.exponent.elim [] Exponent.text

/-- The text of a numeral. -/
def text (n : Numeral) : Text := n.sign.text ++ (n.mantissa ++ n.tail)

/-- The parts of a numeral. -/
def literal (n : Numeral) : Literal :=
  ⟨n.sign.isMinus, n.whole, n.fraction, n.exponent.map Exponent.value⟩

/-- The number that a numeral stands for: a whole number of at most 310 characters as it is, and
any other numeral rounded to a double. -/
def value (n : Numeral) : Number :=
  if n.fraction = none ∧ n.exponent = none ∧ n.text.length ≤ Number.longestExact then
    Number.normalize (.int n.literal.toInt)
  else Number.normalize (.float n.literal.toDouble)

section Characters

variable (n : Numeral)

theorem isDecimal_of_mem_whole {c : Char} (h : c ∈ n.whole) : isDecimal c = true :=
  n.isDigits c (List.mem_append_left _ h)

theorem isDecimal_of_mem_fraction {f : Text} (hf : n.fraction = some f) {c : Char} (h : c ∈ f) :
    isDecimal c = true := by
  refine n.isDigits c (List.mem_append_right _ ?_)
  rw [hf]
  exact h

theorem mem_mantissa {c : Char} (h : c ∈ n.mantissa) : isDecimal c = true ∨ c = '.' := by
  rcases List.mem_append.1 h with h | h
  · exact Or.inl (n.isDecimal_of_mem_whole h)
  · cases hf : n.fraction with
    | none =>
      rw [hf] at h
      cases h
    | some f =>
      rw [hf] at h
      rcases List.mem_cons.1 h with h | h
      · exact Or.inr h
      · exact Or.inl (n.isDecimal_of_mem_fraction hf h)

theorem mantissa_ne_nil : n.mantissa ≠ [] := by
  intro h
  obtain ⟨hwhole, hfraction⟩ := List.append_eq_nil_iff.1 h
  cases hf : n.fraction with
  | none => exact n.filled (by rw [hwhole, hf]; rfl)
  | some f =>
    rw [hf] at hfraction
    cases hfraction

theorem mem_tail {c : Char} (h : c ∈ n.tail) :
    isDecimal c = true ∨ c = 'e' ∨ c = 'E' ∨ c = '+' ∨ c = '-' := by
  cases he : n.exponent with
  | none =>
    rw [tail, he] at h
    cases h
  | some e =>
    rw [tail, he] at h
    rcases List.mem_cons.1 h with rfl | h
    · rcases e.isMark with h | h <;> simp [h]
    · rcases List.mem_append.1 h with h | h
      · cases hs : e.sign <;> simp_all [Sign.text]
      · exact Or.inl (e.isDigits c h)

/-- The characters of a numeral. -/
theorem mem_text {c : Char} (h : c ∈ n.text) :
    isDecimal c = true ∨ c ∈ ['.', 'e', 'E', '+', '-'] := by
  rcases List.mem_append.1 h with h | h
  · cases hs : n.sign <;> simp_all [Sign.text]
  · rcases List.mem_append.1 h with h | h
    · exact (n.mem_mantissa h).imp_right (by simp_all)
    · exact (n.mem_tail h).imp_right (by simp_all)

theorem not_mem_text {c : Char} (hdigit : isDecimal c = false)
    (hmark : c ∉ ['.', 'e', 'E', '+', '-']) : c ∉ n.text := by
  intro h
  rcases n.mem_text h with hc | hc
  · rw [hdigit] at hc
    cases hc
  · exact hmark hc

theorem not_isBlank_of_mem {c : Char} (h : c ∈ n.text) : isBlank c = false := by
  rw [Bool.eq_false_iff]
  intro hblank
  rcases n.mem_text h with h | h
  · rw [not_isDecimal_of_isBlank hblank] at h
    cases h
  · have hall : ∀ c ∈ ['.', 'e', 'E', '+', '-'], isBlank c = false := by decide
    rw [hall c h] at hblank
    cases hblank

theorem text_ne_nil : n.text ≠ [] := by simp [text, n.mantissa_ne_nil]

theorem isTrimmed_text : Text.IsTrimmed n.text :=
  ⟨fun _ h => n.not_isBlank_of_mem (List.mem_of_head? h),
    fun _ h => n.not_isBlank_of_mem (List.mem_of_getLast? h)⟩

/-- Behind the sign comes a digit or the point. -/
theorem head?_mantissa {rest : Text} {c : Char} (h : c ∈ (n.mantissa ++ rest).head?) :
    isDecimal c = true ∨ c = '.' := by
  obtain ⟨x, mantissa, hx⟩ := List.exists_cons_of_ne_nil n.mantissa_ne_nil
  rw [hx] at h
  cases h
  exact n.mem_mantissa (hx ▸ List.mem_cons_self)

theorem head?_text {c : Char} (h : c ∈ n.text.head?) :
    isDecimal c = true ∨ c ∈ ['+', '-', '.'] := by
  rw [text] at h
  cases hs : n.sign with
  | absent =>
    rw [hs] at h
    exact (n.head?_mantissa h).imp_right (by simp_all)
  | plus =>
    rw [hs] at h
    cases h
    exact Or.inr (by decide)
  | minus =>
    rw [hs] at h
    cases h
    exact Or.inr (by decide)

theorem head?_tail {c : Char} (h : c ∈ n.tail.head?) : isDecimal c = false ∧ c ≠ '.' := by
  cases he : n.exponent with
  | none =>
    rw [tail, he] at h
    cases h
  | some e =>
    rw [tail, he] at h
    cases h
    refine ⟨e.not_isDecimal_mark, ?_⟩
    rcases e.isMark with h | h <;> rw [h] <;> decide

end Characters

/-! ## Taking numerals apart -/

/-- The sign and the digits in front of a text are taken off, and what is behind them has to be an
exponent. -/
theorem ofText?_append (n : Numeral) {rest : Text}
    (hrest : ∀ c ∈ rest.head?, isDecimal c = false ∧ c ≠ '.') :
    Literal.ofText? (n.sign.text ++ (n.mantissa ++ rest)) =
      (Literal.exponent? rest).map (⟨n.sign.isMinus, n.whole, n.fraction, ·⟩) := by
  have hsign : Literal.sign (n.sign.text ++ (n.mantissa ++ rest)) =
      (n.sign.isMinus, n.mantissa ++ rest) := by
    refine Sign.sign_text n.sign fun c hc => ⟨?_, ?_⟩
    all_goals
      rintro rfl
      rcases n.head?_mantissa hc with h | h <;> exact absurd h (by decide)
  have hwhole : ∀ c ∈ n.whole, isDecimal c = true := fun c => n.isDecimal_of_mem_whole
  have hbehind : ∀ c ∈ rest.head?, isDecimal c = false := fun c hc => (hrest c hc).1
  unfold Literal.ofText?
  rw [hsign]
  dsimp only
  cases hf : n.fraction with
  | none =>
    have hne : n.whole ≠ [] := by
      have hfilled := n.filled
      rwa [hf, Option.getD_none, List.append_nil] at hfilled
    obtain ⟨htake, hdrop⟩ := Text.span_append hwhole hbehind
    rw [mantissa, hf, Option.elim_none, List.append_nil, htake, hdrop]
    split
    · exact absurd rfl (hrest '.' rfl).2
    · rw [if_neg hne]
  | some f =>
    have hdigits : ∀ c ∈ f, isDecimal c = true := fun c => n.isDecimal_of_mem_fraction hf
    have hne : ¬(n.whole = [] ∧ f = []) := by
      rintro ⟨hw, rfl⟩
      exact n.filled (by rw [hw, hf]; rfl)
    obtain ⟨htake, hdrop⟩ := Text.span_append hwhole
      (b := '.' :: (f ++ rest)) (fun c hc => by cases hc; decide)
    obtain ⟨htake', hdrop'⟩ := Text.span_append hdigits hbehind
    rw [mantissa, hf, Option.elim_some, List.append_assoc, List.cons_append, htake, hdrop]
    split
    · rename_i behind heq
      obtain rfl : f ++ rest = behind := (List.cons.inj heq).2
      rw [htake', hdrop', if_neg hne]
    · rename_i hpoint
      exact absurd rfl (hpoint (f ++ rest))

/-- A numeral is taken apart into its parts. -/
theorem ofText?_text (n : Numeral) : Literal.ofText? n.text = some n.literal := by
  rw [text, n.ofText?_append fun c hc => n.head?_tail hc, tail, Exponent.exponent?_text]
  rfl

/-- Only numerals can be taken apart. -/
theorem exists_of_ofText? {t : Text} {l : Literal} (h : Literal.ofText? t = some l) :
    ∃ n : Numeral, n.text = t ∧ n.literal = l := by
  obtain ⟨g, ht, hg⟩ := Sign.exists_of_sign t
  unfold Literal.ofText? at h
  generalize Literal.sign t = parts at ht hg h
  obtain ⟨negative, body⟩ := parts
  dsimp only at ht hg h
  subst ht hg
  have hwhole : ∀ c ∈ body.takeWhile isDecimal, isDecimal c = true :=
    fun c hc => List.mem_takeWhile_imp hc
  have hbody : body.takeWhile isDecimal ++ body.dropWhile isDecimal = body :=
    List.takeWhile_append_dropWhile
  split at h
  · rename_i rest hrest
    have hfraction : ∀ c ∈ rest.takeWhile isDecimal, isDecimal c = true :=
      fun c hc => List.mem_takeWhile_imp hc
    split_ifs at h with hempty
    obtain ⟨x, hx, rfl⟩ := Option.map_eq_some_iff.1 h
    obtain ⟨o, ho, rfl⟩ := Exponent.exists_of_exponent? hx
    refine ⟨⟨g, body.takeWhile isDecimal, some (rest.takeWhile isDecimal), o, ?_, ?_⟩, ?_, rfl⟩
    · intro c hc
      exact (List.mem_append.1 hc).elim (hwhole c) (hfraction c)
    · simpa using hempty
    · rw [text, mantissa, tail, ← ho]
      simp only [Option.elim_some, List.append_assoc, List.cons_append,
        List.takeWhile_append_dropWhile]
      rw [← hrest, hbody]
  · rename_i rest hrest
    split_ifs at h with hempty
    obtain ⟨x, hx, rfl⟩ := Option.map_eq_some_iff.1 h
    obtain ⟨o, ho, rfl⟩ := Exponent.exists_of_exponent? hx
    refine ⟨⟨g, body.takeWhile isDecimal, none, o, ?_, ?_⟩, ?_, rfl⟩
    · intro c hc
      exact hwhole c (by simpa using hc)
    · simpa using hempty
    · rw [text, mantissa, tail, ← ho]
      simp only [Option.elim_none, List.append_nil]
      rw [hbody]

theorem value_eq (n : Numeral) :
    n.value =
      if n.literal.isWhole ∧ n.text.length ≤ Number.longestExact then
        Number.normalize (.int n.literal.toInt)
      else Number.normalize (.float n.literal.toDouble) := by
  simp only [value, literal, Literal.isWhole, Bool.and_eq_true, Option.isNone_iff_eq_none,
    Option.map_eq_none_iff, and_assoc]

end Numeral

/-- A text stands for a number if it is a numeral with white space around it. -/
theorem Number.ofLiteral?_eq_some_iff {t : Text} {x : Number} :
    ofLiteral? t = some x ↔ ∃ n : Numeral, n.text = t.trim ∧ n.value = x := by
  constructor
  · intro h
    obtain ⟨l, hl, rfl⟩ := Option.map_eq_some_iff.1 h
    obtain ⟨n, hn, rfl⟩ := Numeral.exists_of_ofText? hl
    exact ⟨n, hn, by rw [n.value_eq, hn]⟩
  · rintro ⟨n, hn, rfl⟩
    rw [ofLiteral?, ← hn, n.ofText?_text, Option.map_some, ← n.value_eq]

theorem Number.ofLiteral?_trim (t : Text) : ofLiteral? t.trim = ofLiteral? t := by
  rw [ofLiteral?, ofLiteral?, Text.trim_trim]

/-- A literal has only digits and the marks of numerals in it. -/
theorem Number.ofLiteral?_eq_none_of_mem {t : Text} {c : Char} (h : c ∈ t.trim)
    (hdigit : isDecimal c = false) (hmark : c ∉ ['.', 'e', 'E', '+', '-']) :
    ofLiteral? t = none := by
  rw [Option.eq_none_iff_forall_ne_some]
  intro x hx
  obtain ⟨n, hn, -⟩ := ofLiteral?_eq_some_iff.1 hx
  exact n.not_mem_text hdigit hmark (hn ▸ h)

theorem Number.ofLiteral?_text (n : Numeral) : ofLiteral? n.text = some n.value :=
  ofLiteral?_eq_some_iff.2 ⟨n, n.isTrimmed_text.trim_eq.symm, rfl⟩

end StepTrace
