import StepTrace.Proofs.Expr.Operand
import StepTrace.Proofs.Number.Display
import StepTrace.Proofs.Text.Splitting

/-!
# Lists that are shown and read

A list of numerals between brackets is read as the literals of its items
(`Expr.readList?_numerals`). Between the items there is a comma with a space behind it. A list is
split at the commas alone, and the space goes with the item behind it, whose white space is trimmed.

A short list of whole numbers is shown in this way, so that it is read back from what is shown of it
(`Value.readList?_display`).
-/

namespace StepTrace

open CharClass StepTrace.Expr

/-! ## Numerals in a list -/

theorem Nesting.after_of_isFlat {t : Text} (h : ∀ c ∈ t, isFlat c = true) :
    Nesting.start.after t = .start := by
  induction t with
  | nil => rfl
  | cons c t ih =>
    rw [after, List.foldl_cons, step_of_isFlat (h c List.mem_cons_self) rfl]
    exact ih fun d hd => h d (List.mem_cons_of_mem c hd)

/-- A numeral can be an item of a list. -/
theorem Numeral.isPiece (n : Numeral) : Text.IsPiece [','] n.text where
  trimmed := n.isTrimmed_text.trim_eq
  nonempty := n.text_ne_nil
  closed := Nesting.after_of_isFlat fun _ => isFlat_of_mem_numeral
  free a b h := by
    have hno : ',' ∉ n.text := n.not_mem_text (by decide) (by decide)
    refine absurd ?_ hno
    rw [h]
    simp

/-- A space behind each separator is a space before each further item. -/
theorem Text.joined_spaced (c : Char) (t : Text) (ts : List Text) :
    joined [c, ' '] (t :: ts) = joined [c] (t :: ts.map (' ' :: ·)) := by
  induction ts generalizing t with
  | nil => rfl
  | cons u ts ih =>
    have hfirst : joined [c] ((' ' :: u) :: ts.map (' ' :: ·)) =
        ' ' :: joined [c] (u :: ts.map (' ' :: ·)) :=
      joined_consFirst [c] ' ' (List.cons_ne_nil u _)
    rw [joined_cons _ _ (List.cons_ne_nil u ts), List.map_cons,
      joined_cons _ _ (List.cons_ne_nil _ _), hfirst, ih u]
    simp

theorem Text.prefix_joined (between t : Text) (ts : List Text) :
    t <+: joined between (t :: ts) := by
  cases ts with
  | nil => exact List.prefix_append t []
  | cons u ts =>
    rw [joined_cons _ _ (List.cons_ne_nil u ts), List.append_assoc]
    exact List.prefix_append t _

theorem Text.mem_of_mem_joined {between : Text} {ts : List Text} {c : Char}
    (h : c ∈ joined between ts) : c ∈ between ∨ ∃ t ∈ ts, c ∈ t := by
  induction ts with
  | nil => cases h
  | cons t ts ih =>
    cases ts with
    | nil => exact .inr ⟨t, by simp, by simpa [joined] using h⟩
    | cons u ts =>
      rw [joined_cons _ _ (List.cons_ne_nil u ts), List.mem_append, List.mem_append] at h
      rcases h with (h | h) | h
      · exact .inr ⟨t, List.mem_cons_self, h⟩
      · exact .inl h
      · refine (ih h).imp_right fun hmem => ?_
        obtain ⟨v, hv, hc⟩ := hmem
        exact ⟨v, List.mem_cons_of_mem t hv, hc⟩

namespace Expr

theorem splitTop_numerals (n : Numeral) (ns : List Numeral) :
    Text.splitTop [','] (Text.joined ", ".toList ((n :: ns).map Numeral.text)) =
      (n :: ns).map Numeral.text := by
  have hblank : ∀ c ∈ [' '], isBlank c = true := by decide
  have htrim : ∀ m : Numeral, Text.trim (' ' :: m.text) = m.text := fun m =>
    (Text.trim_blanks_append hblank m.text).trans m.isTrimmed_text.trim_eq
  have hpieces : (n.text :: (ns.map Numeral.text).map (' ' :: ·)).map Text.trim =
      (n :: ns).map Numeral.text := by
    simp [htrim, n.isTrimmed_text.trim_eq]
  show Text.splitTop [','] (Text.joined [',', ' '] (n.text :: ns.map Numeral.text)) = _
  rw [Text.joined_spaced, Text.splitTop_joined_char (by decide) (List.cons_ne_nil _ _), hpieces]
  intro p hp
  obtain ⟨m, -, hm⟩ := List.mem_map.1 (hpieces ▸ List.mem_map_of_mem (f := Text.trim) hp)
  exact hm ▸ m.isPiece

/-- The items of a list of numerals are its literals. -/
theorem readItems_numerals (ns : List Numeral) :
    readItems (Text.joined ", ".toList (ns.map Numeral.text)) =
      (ns.map Numeral.value).map .literal := by
  cases ns with
  | nil => rfl
  | cons n ns =>
    have hfilled : Text.isEmptyOrBlank (Text.joined ", ".toList ((n :: ns).map Numeral.text)) =
        false := by
      obtain ⟨c, hc⟩ := List.exists_mem_of_ne_nil n.text n.text_ne_nil
      rw [Text.isEmptyOrBlank, List.all_eq_false]
      refine ⟨c, (Text.prefix_joined _ n.text _).subset hc, ?_⟩
      rw [n.not_isBlank_of_mem hc]
      exact Bool.false_ne_true
    rw [readItems, hfilled, if_neg Bool.false_ne_true, splitTop_numerals, List.map_map,
      List.map_map]
    exact List.map_congr_left fun m _ => operand_of_literal (Number.ofLiteral?_text m)

/-- A list of numerals between brackets is read as the list of its literals. -/
theorem readList?_numerals (ns : List Numeral) :
    readList? (Value.bracketed (ns.map Numeral.text)) =
      some ((ns.map Numeral.value).map .literal) := by
  have hline : '\n' ∉ Text.joined ", ".toList (ns.map Numeral.text) := by
    intro h
    rcases Text.mem_of_mem_joined h with h | ⟨t, ht, h⟩
    · exact absurd h (by decide)
    · obtain ⟨n, -, rfl⟩ := List.mem_map.1 ht
      exact n.not_mem_text (by decide) (by decide) h
  have htrim : Text.IsTrimmed (Value.bracketed (ns.map Numeral.text)) :=
    Text.isTrimmed_enclosed (by decide) (by decide) _
  have hinner : Text.between? '[' ']' (Value.bracketed (ns.map Numeral.text)) =
      some (Text.joined ", ".toList (ns.map Numeral.text)) := Text.between?_eq_some_iff.2 rfl
  rw [readList?, htrim.trim_eq, hinner, ← readItems_numerals]
  exact if_neg (by simpa using hline)

theorem evalAll_literals (s : Store) (numbers : List Number) :
    evalAll s (numbers.map .literal) = .ok numbers := by
  have hmap : evalAll s (numbers.map .literal) = numbers.mapM pure := List.mapM_map ..
  rw [hmap, List.mapM_pure, List.map_id']
  rfl

end Expr

/-! ## Lists of whole numbers -/

/-- A short list of whole numbers that are not too large is read back from what is shown of it. -/
theorem Value.readList?_display {items : List Int} (hlen : items.length ≤ wholeListLimit)
    (h : ∀ n ∈ items, n.natAbs ≤ Double.largestInt) (s : Store) :
    ∃ es, readList? (display (.list (items.map fun n => .num (.int n)))) = some es ∧
      evalAll s es = .ok (items.map .int) := by
  have hitems : (items.map fun n => Value.num (.int n)).map displayItem =
      (items.map Numeral.ofInt).map Numeral.text := by
    rw [List.map_map, List.map_map]
    refine List.map_congr_left fun n hn => ?_
    rw [Function.comp_apply, Function.comp_apply, displayItem, Number.display_int (h n hn)]
  have hvalues : (items.map Numeral.ofInt).map Numeral.value = items.map .int := by
    rw [List.map_map]
    refine List.map_congr_left fun n hn => ?_
    rw [Function.comp_apply, Numeral.value_ofInt (h n hn)]
  refine ⟨(items.map .int).map .literal, ?_, evalAll_literals s _⟩
  rw [display, displayList, if_pos (by rwa [List.length_map, List.length_map]), hitems,
    readList?_numerals, hvalues]

end StepTrace
