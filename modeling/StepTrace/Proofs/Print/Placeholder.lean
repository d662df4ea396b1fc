import StepTrace.Print.Placeholder
import StepTrace.Proofs.Print.Faults
import StepTrace.Proofs.Print.Literal

/-!
# Templates with percent placeholders

Read once from left to right, a template is a row of marks (`marks`): pairs of percent signs, slots
for arguments, and other characters. One pass puts the arguments into the slots in order and shows a
pair as one percent sign (`onePass`).

The arguments are not filled in that way. The text is searched again for each of them, and it goes
to the first placeholder of the text as it then is. This is its own slot if the text before the slot
holds no placeholder (`firstPlaceholder?_slot`). If this is so for each argument (`Undisturbed`),
they all go to their slots (`fill_written`). A placeholder before a slot is part of a text that is
shown for an argument, or the second percent sign of a pair and what follows it.

In the end any two percent signs side by side become one. These are the pairs of the template unless
single percent signs meet, and then one of the two is lost (`count_halved_written`). So the text is
the one of a single pass exactly if there are no such meetings (`formatted_eq_onePass_iff`).
-/

namespace StepTrace

namespace Text

/-- Replacing does not change the number of a character that it neither removes nor adds. -/
theorem count_replaceFrom {c : Char} {old new : Text} (hne : old ≠ []) (hold : c ∉ old)
    (hnew : c ∉ new) : ∀ (t : Text) (skip : Nat), c ∉ t.take skip →
      (replaceFrom old new skip t).count c = t.count c
  | [], skip, _ => by rw [replaceFrom]
  | d :: t, skip + 1, h => by
    rw [List.take_succ_cons, List.mem_cons, not_or] at h
    rw [replaceFrom, count_replaceFrom hne hold hnew t skip h.2,
      List.count_cons_of_ne (Ne.symm h.1)]
  | d :: t, 0, _ => by
    rw [replaceFrom]
    split_ifs with hbegins
    · obtain ⟨u, hu⟩ := List.isPrefixOf_iff_prefix.1 hbegins
      cases old with
      | nil => exact absurd rfl hne
      | cons e old =>
        rw [List.cons_append] at hu
        obtain ⟨rfl, rfl⟩ := List.cons.inj hu
        rw [List.mem_cons, not_or] at hold
        have hskip : c ∉ (old ++ u).take ((e :: old).length - 1) := by
          rw [show (e :: old).length - 1 = old.length from rfl, List.take_left]
          exact hold.2
        rw [List.count_append, List.count_eq_zero.2 hnew, Nat.zero_add,
          count_replaceFrom hne (by simpa using hold) hnew _ _ hskip,
          List.count_cons_of_ne (Ne.symm hold.1)]
    · rw [List.count_cons, List.count_cons, count_replaceFrom hne hold hnew t 0 (by simp)]

theorem count_replace {c : Char} {old new : Text} (hne : old ≠ []) (hold : c ∉ old)
    (hnew : c ∉ new) (t : Text) : (replace old new t).count c = t.count c :=
  count_replaceFrom hne hold hnew t 0 (by simp)

end Text

namespace Print

open CharClass

/-! ## Slots -/

/-- The letters that end a placeholder. -/
def slotLetters : Text := "dsfiuvc".toList

/-- A placeholder: the digits of a precision, at most two, and a letter. -/
@[ext]
structure Slot where
  digits : Text
  letter : Char
  length_digits_le : digits.length ≤ 2
  isDecimal_digits : digits.all isDecimal = true
  letter_mem : letter ∈ slotLetters

/-- A precision as it is written: nothing, or a point and its digits. -/
def precisionText (digits : Text) : Text := if digits = [] then [] else '.' :: digits

/-- The digits of the precision that a text begins with. -/
def precisionDigits : Text → Text
  | '.' :: t => (t.take 2).takeWhile isDecimal
  | _ => []

theorem precisionDigits_of_ne {t : Text} (h : ∀ u, t ≠ '.' :: u) : precisionDigits t = [] := by
  unfold precisionDigits
  split
  · exact absurd rfl (h _)
  · rfl

theorem length_precisionDigits_le (t : Text) : (precisionDigits t).length ≤ 2 := by
  unfold precisionDigits
  split
  · exact (List.takeWhile_prefix _).length_le.trans (List.length_take_le _ _)
  · exact Nat.zero_le _

theorem isDecimal_precisionDigits (t : Text) : (precisionDigits t).all isDecimal = true := by
  unfold precisionDigits
  split
  · exact List.all_takeWhile
  · rfl

theorem precisionText_begins (t : Text) : precisionText (precisionDigits t) <+: t := by
  unfold precisionText
  split_ifs with h
  · exact List.nil_prefix
  · unfold precisionDigits at h ⊢
    split at h
    · exact List.cons_prefix_cons.2 ⟨rfl, (List.takeWhile_prefix _).trans (List.take_prefix _ _)⟩
    · exact absurd rfl h

/-- What follows the precision that a text begins with. -/
def afterPrecision (t : Text) : Text := t.drop (precisionText (precisionDigits t)).length

theorem precisionText_append (t : Text) :
    precisionText (precisionDigits t) ++ afterPrecision t = t :=
  List.prefix_iff_eq_append.1 (precisionText_begins t)

namespace Slot

/-- The precision, if there is one. -/
def precision (p : Slot) : Option Nat :=
  if p.digits = [] then none else some (Literal.value p.digits)

/-- What stands behind the percent sign. -/
def behind (p : Slot) : Text := precisionText p.digits ++ [p.letter]

/-- A placeholder as it is written. -/
def text (p : Slot) : Text := '%' :: p.behind

/-- The placeholder that a text behind a percent sign begins with. -/
def at? (t : Text) : Option Slot :=
  match afterPrecision t with
  | [] => none
  | letter :: _ =>
    if h : letter ∈ slotLetters then
      some ⟨precisionDigits t, letter, length_precisionDigits_le t, isDecimal_precisionDigits t, h⟩
    else none

theorem letter_ne (p : Slot) : p.letter ≠ '.' ∧ p.letter ≠ '%' ∧ isDecimal p.letter = false := by
  have hall : ∀ c ∈ slotLetters, c ≠ '.' ∧ c ≠ '%' ∧ isDecimal c = false := by decide
  exact hall _ p.letter_mem

theorem not_percent_mem_behind (p : Slot) : '%' ∉ p.behind := by
  have hdigits : '%' ∉ p.digits := fun h => by
    have hdecimal := List.all_eq_true.1 p.isDecimal_digits _ h
    exact absurd hdecimal (by decide)
  have hletter : '%' ≠ p.letter := Ne.symm p.letter_ne.2.1
  rw [behind, precisionText]
  split_ifs
  · simpa using hletter
  · simp [hdigits, hletter]

theorem precisionDigits_behind (p : Slot) (rest : Text) :
    precisionDigits (p.behind ++ rest) = p.digits := by
  have hletter := p.letter_ne
  obtain ⟨digits, letter, hlength, hdigits, hmem⟩ := p
  dsimp only at hletter hlength hdigits ⊢
  match digits with
  | [] => exact precisionDigits_of_ne fun u h => hletter.1 (List.cons.inj h).1
  | [d] =>
    have hd : isDecimal d = true := by simpa using hdigits
    show [d, letter].takeWhile isDecimal = [d]
    simp [hd, hletter.2.2]
  | [d, e] =>
    have hde : isDecimal d = true ∧ isDecimal e = true := by simpa using hdigits
    show [d, e].takeWhile isDecimal = [d, e]
    simp [hde.1, hde.2]
  | d :: e :: f :: digits => simp at hlength

theorem afterPrecision_behind (p : Slot) (rest : Text) :
    afterPrecision (p.behind ++ rest) = p.letter :: rest := by
  rw [afterPrecision, precisionDigits_behind, behind, List.append_assoc, List.drop_left]
  rfl

theorem at?_eq_some_iff {t : Text} {p : Slot} : at? t = some p ↔ p.behind <+: t := by
  constructor
  · intro h
    rw [at?] at h
    split at h
    · cases h
    · rename_i letter rest hrest
      split_ifs at h with hletter
      obtain rfl := Option.some.inj h
      refine ⟨rest, ?_⟩
      rw [behind, List.append_assoc]
      exact (congrArg _ hrest.symm).trans (precisionText_append t)
  · rintro ⟨rest, rfl⟩
    rw [at?, afterPrecision_behind]
    dsimp only
    rw [dif_pos p.letter_mem]
    exact congrArg some (Slot.ext (p.precisionDigits_behind rest) rfl)

end Slot

/-- A placeholder is a precision and a letter. -/
theorem placeholderAt?_eq (t : Text) :
    placeholderAt? t = (Slot.at? t).map fun p => (p.precision, t.drop p.behind.length) := by
  unfold placeholderAt?
  split
  rename_i precision rest hread
  have hparts : precision = (if precisionDigits t = [] then none
      else some (Literal.value (precisionDigits t))) ∧ rest = afterPrecision t := by
    split at hread
    · rename_i u
      change (if (precisionDigits ('.' :: u)).isEmpty = true then (none, '.' :: u) else
        (some (Literal.value (precisionDigits ('.' :: u))),
          u.drop (precisionDigits ('.' :: u)).length)) = (precision, rest) at hread
      simp only [List.isEmpty_iff] at hread
      rw [afterPrecision, precisionText]
      split_ifs at hread ⊢ <;> obtain ⟨rfl, rfl⟩ := Prod.mk.inj hread <;> exact ⟨rfl, rfl⟩
    · rename_i hpoint
      rw [afterPrecision, precisionDigits_of_ne hpoint]
      obtain ⟨rfl, rfl⟩ := Prod.mk.inj hread
      exact ⟨rfl, rfl⟩
  obtain ⟨rfl, rfl⟩ := hparts
  rw [Slot.at?]
  cases hrest : afterPrecision t with
  | nil => rfl
  | cons letter rest =>
    have hcontains : "dsfiuvc".toList.contains letter = true ↔ letter ∈ slotLetters :=
      List.contains_iff_mem
    dsimp only
    by_cases hletter : letter ∈ slotLetters
    · rw [if_pos (hcontains.2 hletter), dif_pos hletter, Option.map_some, Slot.behind,
        List.length_append, ← List.drop_drop]
      show _ = some (_, (afterPrecision t).drop 1)
      rw [hrest]
      rfl
    · rw [if_neg fun h => hletter (hcontains.1 h), dif_neg hletter]
      rfl

theorem placeholderAt?_behind (p : Slot) (rest : Text) :
    placeholderAt? (p.behind ++ rest) = some (p.precision, rest) := by
  rw [placeholderAt?_eq, Slot.at?_eq_some_iff.2 (List.prefix_append _ _), Option.map_some,
    List.drop_left]

theorem placeholderAt?_eq_none_iff {t : Text} :
    placeholderAt? t = none ↔ ∀ p : Slot, ¬p.behind <+: t := by
  rw [placeholderAt?_eq, Option.map_eq_none_iff, Option.eq_none_iff_forall_ne_some]
  exact forall_congr' fun p => not_congr Slot.at?_eq_some_iff

/-- A percent sign behind a text does not complete a placeholder. -/
theorem placeholderAt?_append_percent {t : Text} (h : placeholderAt? t = none) (u : Text) :
    placeholderAt? (t ++ '%' :: u) = none := by
  rw [placeholderAt?_eq_none_iff] at h ⊢
  rintro p hp
  rcases Nat.lt_or_ge t.length p.behind.length with hlt | hge
  · have hpercent : t ++ ['%'] <+: p.behind :=
      List.prefix_of_prefix_length_le ⟨u, by simp⟩ hp (by simpa using Nat.succ_le_of_lt hlt)
    exact p.not_percent_mem_behind (hpercent.subset (by simp))
  · exact h p (List.prefix_of_prefix_length_le hp (List.prefix_append _ _) hge)

/-- If there is no placeholder before a slot, the slot is the first one. -/
theorem firstPlaceholder?_slot : ∀ {before : Text}, firstPlaceholder? before = none →
    ∀ (p : Slot) (rest : Text),
      firstPlaceholder? (before ++ (p.text ++ rest)) = some (before, p.precision, rest)
  | [], _, p, rest => by
    show firstPlaceholder? ('%' :: (p.behind ++ rest)) = _
    rw [firstPlaceholder?, if_pos rfl, placeholderAt?_behind]
  | c :: before, h, p, rest => by
    rw [firstPlaceholder?] at h
    rw [List.cons_append, firstPlaceholder?]
    split at h
    · cases h
    · rename_i hhere
      have hnone :
          (if c = '%' then placeholderAt? (before ++ (p.text ++ rest)) else none) = none := by
        split_ifs at hhere ⊢
        · exact placeholderAt?_append_percent hhere _
        · rfl
      rw [hnone]
      dsimp only
      rw [firstPlaceholder?_slot (Option.map_eq_none_iff.1 h) p rest]
      rfl

/-! ## Marks -/

/-- A character, or two percent signs that stand for one. -/
inductive Sign where
  | char (c : Char)
  | pair

/-- What a template is made of. -/
inductive Mark where
  | sign (c : Sign)
  | slot (p : Slot)

namespace Mark

/-- A mark as it is written. -/
def written : Mark → Text
  | .sign (.char c) => [c]
  | .sign .pair => ['%', '%']
  | .slot p => p.text

/-- A mark as it is shown. -/
def shown : Mark → Text
  | .sign (.char c) => [c]
  | .sign .pair => ['%']
  | .slot p => p.text

/-- The mark that a text with a first character begins with. -/
def first (c : Char) (t : Text) : Mark :=
  if c = '%' then
    if t.head? = some '%' then .sign .pair
    else match Slot.at? t with
      | some p => .slot p
      | none => .sign (.char '%')
  else .sign (.char c)

theorem first_begins (c : Char) (t : Text) : (first c t).written <+: c :: t := by
  unfold first
  split_ifs with hc hpair
  · obtain ⟨u, rfl⟩ := List.head?_eq_some_iff.1 hpair
    exact ⟨u, by rw [hc]; rfl⟩
  · rw [hc]
    split
    · rename_i p hp
      exact List.cons_prefix_cons.2 ⟨rfl, Slot.at?_eq_some_iff.1 hp⟩
    · exact ⟨t, rfl⟩
  · exact ⟨t, rfl⟩

theorem length_written_pos : ∀ m : Mark, 0 < m.written.length
  | .sign (.char _) | .sign .pair | .slot _ => Nat.succ_pos _

end Mark

/-- The marks of a text, after passing over `skip` characters of the last one. -/
def marksFrom : Nat → Text → List Mark
  | _, [] => []
  | skip + 1, _ :: t => marksFrom skip t
  | 0, c :: t => Mark.first c t :: marksFrom ((Mark.first c t).written.length - 1) t

/-- The marks of a template, read once from left to right. -/
def marks (t : Text) : List Mark := marksFrom 0 t

/-- A row of marks as it is written. -/
def written (ms : List Mark) : Text := ms.flatMap Mark.written

/-- A row of marks as it is shown. -/
def shown (ms : List Mark) : Text := ms.flatMap Mark.shown

theorem written_cons (m : Mark) (ms : List Mark) :
    written (m :: ms) = m.written ++ written ms := rfl

theorem shown_cons (m : Mark) (ms : List Mark) : shown (m :: ms) = m.shown ++ shown ms := rfl

theorem written_marksFrom : ∀ (t : Text) (skip : Nat), written (marksFrom skip t) = t.drop skip
  | [], skip => by rw [marksFrom, List.drop_nil]; rfl
  | c :: t, skip + 1 => by rw [marksFrom, written_marksFrom t skip, List.drop_succ_cons]
  | c :: t, 0 => by
    have hbegins := List.prefix_iff_eq_append.1 (Mark.first_begins c t)
    rw [← Nat.sub_add_cancel (Mark.first c t).length_written_pos, List.drop_succ_cons] at hbegins
    rw [marksFrom, written_cons, written_marksFrom t]
    exact hbegins

/-- Nothing of a template is lost. -/
theorem written_marks (t : Text) : written (marks t) = t := written_marksFrom t 0

/-! ## One pass -/

/-- Put arguments into slots, in order and as long as there are any. The slots behind stay. -/
def inserted (s : Store) : List Text → List Mark → Except Fault (List Mark)
  | [], ms => .ok ms
  | _ :: _, [] => .ok []
  | arg :: args, .sign c :: ms => (inserted s (arg :: args) ms).map (.sign c :: ·)
  | arg :: args, .slot p :: ms => do
    let text ← filling s p.precision arg
    (inserted s args ms).map (text.map (.sign ∘ .char) ++ ·)

/-- One pass over a template. Each argument goes to its own slot, a pair is shown as one percent
sign, marks for line feeds are dropped, and the text is trimmed. -/
def onePass (s : Store) (args : List Text) (template : Text) : Except Fault Text :=
  (inserted s args (marks template)).map fun done => withoutFeeds (shown done)

/-- The marks before a slot, or all of them if there are not so many slots. -/
def beforeSlot : Nat → List Mark → List Mark
  | _, [] => []
  | k, .sign c :: ms => .sign c :: beforeSlot k ms
  | 0, .slot _ :: _ => []
  | k + 1, .slot p :: ms => .slot p :: beforeSlot k ms

/-- Whenever an argument is put in, there is no placeholder before its slot. -/
def Undisturbed (s : Store) (args : List Text) (ms : List Mark) : Prop :=
  ∀ k < args.length, Yields (fun _ => True)
    (fun done => firstPlaceholder? (written done) = none) (inserted s args (beforeSlot k ms))

variable {s : Store}

theorem written_chars_append (t : Text) (ms : List Mark) :
    written (t.map (.sign ∘ .char) ++ ms) = t ++ written ms := by
  rw [written, List.flatMap_append, List.flatMap_map]
  exact congrArg (· ++ written ms) (List.flatMap_singleton' t)

/-- If nothing disturbs the search for the slots, each argument is filled into its own. The text
`before` is what the marks so far have become. -/
theorem fill_written : ∀ (args : List Text) (ms : List Mark) (before : Text),
    (∀ k < args.length, Yields (fun _ => True)
      (fun done => firstPlaceholder? (before ++ written done) = none)
      (inserted s args (beforeSlot k ms))) →
    fill s args (before ++ written ms) =
      (inserted s args ms).map fun done => before ++ written done
  | [], ms, before, _ => by
    rw [fill, inserted]
    rfl
  | arg :: args, [], before, h => by
    have hnone : firstPlaceholder? (before ++ written []) = none := h 0 (Nat.succ_pos _)
    rw [fill, hnone]
    rfl
  | arg :: args, .sign c :: ms, before, h => by
    have hassoc : ∀ ms, before ++ written (.sign c :: ms) =
        before ++ (Mark.sign c).written ++ written ms := fun ms => by
      rw [written_cons, List.append_assoc]
    rw [hassoc, fill_written (arg :: args) ms _ fun k hk => ?_, inserted]
    · cases inserted s (arg :: args) ms with
      | error fault => rfl
      | ok done => exact congrArg Except.ok (hassoc done).symm
    · refine (Yields.map_iff.1 (h k hk)).imp fun done hdone => ?_
      rwa [hassoc] at hdone
  | arg :: args, .slot p :: ms, before, h => by
    have hnone : firstPlaceholder? before = none := by
      have hstart : firstPlaceholder? (before ++ written []) = none := h 0 (Nat.succ_pos _)
      rwa [show before ++ written [] = before from List.append_nil _] at hstart
    rw [fill, written_cons, show (Mark.slot p).written = p.text from rfl,
      firstPlaceholder?_slot hnone, inserted]
    dsimp only
    cases hfilling : filling s p.precision arg with
    | error fault => rfl
    | ok text =>
      have hassoc : ∀ ms, before ++ written (text.map (.sign ∘ .char) ++ ms) =
          before ++ text ++ written ms := fun ms => by
        rw [written_chars_append, List.append_assoc]
      show fill s args (before ++ text ++ written ms) = ((inserted s args ms).map _).map _
      rw [fill_written args ms _ fun k hk => ?_]
      · cases inserted s args ms with
        | error fault => rfl
        | ok done => exact congrArg Except.ok (hassoc done).symm
      · have hlater := h (k + 1) (Nat.succ_lt_succ hk)
        rw [beforeSlot, inserted, hfilling] at hlater
        refine (Yields.map_iff.1 hlater).imp fun done hdone => ?_
        rwa [hassoc] at hdone

/-! ## Percent signs -/

/-- Two percent signs side by side become one. -/
def halved (t : Text) : Text := Text.replace ['%', '%'] ['%'] t

theorem halved_pair (t : Text) : halved ('%' :: '%' :: t) = '%' :: halved t := rfl

theorem halved_cons {c : Char} (h : c ≠ '%') (t : Text) : halved (c :: t) = c :: halved t := by
  have hbegins : List.isPrefixOf ['%', '%'] (c :: t) = false := by
    simp [List.isPrefixOf, Ne.symm h]
  rw [halved, Text.replace, Text.replaceFrom, hbegins]
  rfl

/-- A single percent sign stays if there is none behind it. -/
theorem halved_single {t : Text} (h : t.head? ≠ some '%') :
    halved ('%' :: t) = '%' :: halved t := by
  have hbegins : List.isPrefixOf ['%', '%'] ('%' :: t) = false := by
    cases t with
    | nil => rfl
    | cons c t =>
      have hc : c ≠ '%' := by simpa using h
      simp [List.isPrefixOf, Ne.symm hc]
  rw [halved, Text.replace, Text.replaceFrom, hbegins]
  rfl

theorem halved_append {u : Text} (h : '%' ∉ u) (t : Text) : halved (u ++ t) = u ++ halved t := by
  induction u with
  | nil => rfl
  | cons c u ih =>
    rw [List.mem_cons, not_or] at h
    rw [List.cons_append, halved_cons (Ne.symm h.1), ih h.2, List.cons_append]

/-- How often two single percent signs meet, side by side or with nothing but pairs in between. If
`odd`, there is a single percent sign before, with nothing but pairs in between. -/
def meetings : (odd : Bool) → List Mark → Nat
  | _, [] => 0
  | odd, .sign .pair :: ms => meetings odd ms
  | odd, .sign (.char c) :: ms =>
    if c = '%' then
      if odd then meetings false ms + 1 else meetings true ms
    else meetings false ms
  | odd, .slot _ :: ms => odd.toNat + meetings false ms

/-- A single percent sign, if there is one. -/
def single (odd : Bool) : Text := if odd then ['%'] else []

theorem halved_single_pair (odd : Bool) (t : Text) :
    halved (single odd ++ ('%' :: '%' :: t)) = '%' :: halved (single odd ++ t) := by
  cases odd <;> rfl

theorem halved_single_append (odd : Bool) {u : Text} (hne : u ≠ []) (h : '%' ∉ u) (t : Text) :
    halved (single odd ++ (u ++ t)) = single odd ++ (u ++ halved t) := by
  cases odd with
  | false => exact halved_append h t
  | true =>
    obtain ⟨c, u, rfl⟩ := List.exists_cons_of_ne_nil hne
    rw [List.mem_cons, not_or] at h
    show halved ('%' :: (c :: u ++ t)) = _
    rw [halved_single (by simpa using Ne.symm h.1), halved_append (by simpa using h)]
    rfl

/-- A single percent sign before a slot makes a pair with that of the slot. -/
theorem halved_single_slot (odd : Bool) (p : Slot) (t : Text) :
    halved (single odd ++ (p.text ++ t)) = p.text ++ halved t := by
  have hne : p.behind ≠ [] := List.append_ne_nil_of_right_ne_nil _ (List.cons_ne_nil _ _)
  cases odd with
  | false => exact halved_single_append true hne p.not_percent_mem_behind t
  | true =>
    show halved ('%' :: '%' :: (p.behind ++ t)) = _
    rw [halved_pair, halved_append p.not_percent_mem_behind]
    rfl

theorem halved_written {odd : Bool} {ms : List Mark} (h : meetings odd ms = 0) :
    halved (single odd ++ written ms) = single odd ++ shown ms := by
  induction ms generalizing odd with
  | nil => cases odd <;> rfl
  | cons m ms ih =>
    rw [written_cons, shown_cons]
    match m with
    | .sign .pair =>
      show halved (single odd ++ ('%' :: '%' :: written ms)) = single odd ++ ('%' :: shown ms)
      rw [halved_single_pair, ih h]
      cases odd <;> rfl
    | .sign (.char c) =>
      show halved (single odd ++ ([c] ++ written ms)) = single odd ++ ([c] ++ shown ms)
      rw [meetings] at h
      split_ifs at h with hc hodd
      · obtain rfl : odd = false := by simpa using hodd
        rw [hc]
        exact ih h
      · rw [halved_single_append odd (List.cons_ne_nil _ _) (by simpa using Ne.symm hc)]
        exact congrArg _ (congrArg _ (ih h))
    | .slot p =>
      obtain ⟨rfl, hrest⟩ : odd = false ∧ meetings false ms = 0 := by
        simpa [meetings] using h
      have hshown : halved (written ms) = shown ms := ih hrest
      rw [show (Mark.slot p).written = p.text from rfl, halved_single_slot, hshown]
      rfl

theorem count_single (odd : Bool) : (single odd).count '%' = odd.toNat := by
  cases odd <;> rfl

/-- Halving loses a percent sign wherever two single ones meet. -/
theorem count_halved_written (odd : Bool) (ms : List Mark) :
    (halved (single odd ++ written ms)).count '%' + meetings odd ms =
      (single odd ++ shown ms).count '%' := by
  induction ms generalizing odd with
  | nil => cases odd <;> rfl
  | cons m ms ih =>
    have hodd := ih odd
    have hnone : (halved (written ms)).count '%' + meetings false ms = (shown ms).count '%' :=
      ih false
    rw [written_cons, shown_cons]
    rw [List.count_append, count_single] at hodd ⊢
    match m with
    | .sign .pair =>
      show (halved (single odd ++ ('%' :: '%' :: written ms))).count '%' + meetings odd ms =
        odd.toNat + List.count '%' ('%' :: shown ms)
      rw [halved_single_pair, List.count_cons_self, List.count_cons_self]
      omega
    | .sign (.char c) =>
      show (halved (single odd ++ ([c] ++ written ms))).count '%' + meetings odd _ =
        odd.toNat + List.count '%' (c :: shown ms)
      rw [meetings]
      split_ifs with hc hsingle
      · subst hc hsingle
        show ('%' :: halved (written ms)).count '%' + _ = 1 + _
        rw [List.count_cons_self, List.count_cons_self]
        omega
      · obtain rfl : odd = false := by simpa using hsingle
        rw [hc]
        exact (ih true).trans (Nat.zero_add _).symm
      · rw [halved_single_append odd (List.cons_ne_nil _ _) (by simpa using Ne.symm hc),
          List.count_append, count_single, List.singleton_append, List.count_cons_of_ne hc,
          List.count_cons_of_ne hc]
        omega
    | .slot p =>
      show (halved (single odd ++ (p.text ++ written ms))).count '%' +
        (odd.toNat + meetings false ms) = odd.toNat + (p.text ++ shown ms).count '%'
      rw [halved_single_slot, List.count_append, List.count_append]
      omega

theorem count_withoutFeeds (t : Text) : (withoutFeeds t).count '%' = t.count '%' := by
  rw [withoutFeeds, Text.count_trim (by decide),
    Text.count_replace (by decide) (by decide) (by decide)]

/-- What is shown is the text of the marks exactly if no single percent signs meet. -/
theorem withoutFeeds_halved_iff (ms : List Mark) :
    withoutFeeds (halved (written ms)) = withoutFeeds (shown ms) ↔ meetings false ms = 0 := by
  refine ⟨fun h => ?_, fun h => congrArg withoutFeeds (halved_written h)⟩
  have hcount : (halved (written ms)).count '%' + meetings false ms = (shown ms).count '%' :=
    count_halved_written false ms
  rw [← count_withoutFeeds, h, count_withoutFeeds] at hcount
  omega

/-- A template between quotes with a percent sign in it, and arguments behind it. If nothing
disturbs the search for its slots, the text shown is the one of a single pass exactly if no single
percent signs meet in it. -/
theorem formatted_eq_onePass_iff {args first template : Text} {rest : List Text}
    (hargs : args.arguments = first :: rest) (hfirst : first.unquote? = some template)
    (hpercent : '%' ∈ template) (hslots : Undisturbed s rest (marks template)) :
    (formatted s args = onePass s rest template ↔
        Yields (fun _ => True) (fun done => meetings false done = 0)
          (inserted s rest (marks template))) ∧
      ∀ bound, s.Within bound → bound ≤ Double.largestInt →
        ∃ text, formatted s args = .ok text := by
  refine ⟨?_, fun bound hs hbound => (formatted_yields hs hbound args).exists_ok⟩
  have hfill : fill s rest template = (inserted s rest (marks template)).map written := by
    have hwritten := fill_written rest (marks template) [] hslots
    rwa [List.nil_append, written_marks] at hwritten
  have hformatted : formatted s args =
      (inserted s rest (marks template)).map fun done => withoutFeeds (halved (written done)) := by
    simp only [formatted, hargs, value_of_unquote? hfirst]
    show (if template.contains '%' = true then _ else _) = _
    rw [if_pos (List.contains_iff_mem.2 hpercent), hfill]
    cases inserted s rest (marks template) <;> rfl
  rw [hformatted, onePass]
  cases inserted s rest (marks template) with
  | error fault => exact iff_of_true rfl trivial
  | ok done => exact (Except.ok.injEq _ _).to_iff.trans (withoutFeeds_halved_iff done)

/-- A shown percent sign, a pair, a precision, and a slot without an argument. -/
theorem formatted_eq_onePass_percents :
    let store := Store.empty.insert "x".toList (.num (.int 5))
    let args : Text := "\"%s: %d%% of %.2f, %v\\n\", \"50% off\", 7, x".toList
    let template : Text := "%s: %d%% of %.2f, %v\\n".toList
    let rest : List Text := ["\"50% off\"".toList, "7".toList, "x".toList]
    args.arguments = ('"' :: (template ++ ['"'])) :: rest ∧
      Undisturbed store rest (marks template) ∧
      formatted store args = .ok "50% off: 7% of 5.00, %v".toList := by
  intro store args template rest
  have hargs : args.arguments = ('"' :: (template ++ ['"'])) :: rest := by decide
  have hslots : Undisturbed store rest (marks template) := by
    unfold Undisturbed
    decide +kernel
  refine ⟨hargs, hslots, ?_⟩
  rw [(formatted_eq_onePass_iff hargs (by decide) (by decide) hslots).1.2 (by decide +kernel)]
  decide +kernel

/-- A placeholder shown for an argument takes the next argument, a pair with a letter behind it
takes an argument, and two single percent signs become one. -/
theorem formatted_ne_onePass :
    (formatted .empty "\"%s %d\", \"%d\", 5".toList = .ok "5 %d".toList ∧
        onePass .empty ["\"%d\"".toList, "5".toList] "%s %d".toList = .ok "%d 5".toList) ∧
      (formatted .empty "\"%%d\", 5".toList = .ok "%5".toList ∧
        onePass .empty ["5".toList] "%%d".toList = .ok "%d".toList) ∧
      (formatted .empty "\"%s%\", \"a%\"".toList = .ok "a%".toList ∧
        onePass .empty ["\"a%\"".toList] "%s%".toList = .ok "a%%".toList) := by
  decide +kernel

end Print

end StepTrace
