import StepTrace.Proofs.Source.Cutting

/-!
# Cutting a line keeps its characters

The statements of a line hold all characters of the line that are not blank, each once and in order.
A quotation is not cut either: if every statement is scanned by itself, each of these characters is
met at the point of the scan at which it is met on the line (`flatMap_inked_statements`). So the
statements have the same code as the line, up to white space, and the same braces in it
(`statements_keep`).

The cutter goes on at a character in one of three ways: it keeps the character, it completes a
statement with it, or it completes a statement before a closing brace and makes the brace one of its
own (`Cutter.step_cases`). In each of them what is completed and what is kept are together what was
kept before and the character.
-/

namespace StepTrace

open CharClass

namespace Text

/-- The characters that are not blank, each with the point of the scan at which it is met. -/
def inkedFrom : Quotation → Text → List (Quotation × Char)
  | _, [] => []
  | q, c :: t => if isBlank c then inkedFrom (q.step c) t else (q, c) :: inkedFrom (q.step c) t

@[inherit_doc inkedFrom]
def inked (t : Text) : List (Quotation × Char) := inkedFrom .outside t

theorem inkedFrom_append : ∀ (a b : Text) (q : Quotation),
    inkedFrom q (a ++ b) = inkedFrom q a ++ inkedFrom (a.foldl Quotation.step q) b
  | [], _, _ => rfl
  | c :: a, b, q => by
    rw [List.cons_append, inkedFrom, inkedFrom, inkedFrom_append a b, List.foldl_cons]
    split_ifs <;> rfl

theorem inked_append (a b : Text) :
    inked (a ++ b) = a.inked ++ inkedFrom (a.foldl Quotation.step .outside) b :=
  inkedFrom_append a b .outside

theorem inkedFrom_blanks : ∀ {t : Text} (q : Quotation), (∀ c ∈ t, isBlank c = true) →
    inkedFrom q t = []
  | [], _, _ => rfl
  | c :: t, q, h => by
    rw [inkedFrom, if_pos (h c (by simp)), inkedFrom_blanks _ fun c hc => h c (by simp [hc])]

/-- White space opens no quotation. -/
theorem foldl_step_blanks : ∀ {t : Text}, (∀ c ∈ t, isBlank c = true) →
    t.foldl Quotation.step .outside = .outside
  | [], _ => rfl
  | c :: t, h => by
    have hstep : Quotation.step .outside c = .outside := by
      rw [Quotation.step, not_isQuote_of_isBlank (h c (by simp))]
      rfl
    rw [List.foldl_cons, hstep, foldl_step_blanks fun c hc => h c (by simp [hc])]

theorem inked_trim (t : Text) : t.trim.inked = t.inked := by
  obtain ⟨front, back, ht, hfront, hback, -⟩ := exists_trim t
  conv_rhs => rw [ht, inked, List.append_assoc, inkedFrom_append, inkedFrom_append,
    inkedFrom_blanks _ hfront, inkedFrom_blanks _ hback, foldl_step_blanks hfront, List.append_nil]
  rfl

theorem map_inkedFrom : ∀ (t : Text) (q : Quotation),
    (inkedFrom q t).map Prod.snd = t.withoutBlanks
  | [], _ => rfl
  | c :: t, q => by
    have ih := map_inkedFrom t (q.step c)
    unfold withoutBlanks at ih ⊢
    rw [inkedFrom, List.filter_cons, ← ih]
    cases isBlank c <;> rfl

/-- Which characters are code is seen from the point of the scan at which they are met. -/
theorem filterMap_inkedFrom : ∀ (t : Text) (q : Quotation),
    (inkedFrom q t).filterMap (fun x => if x.1.isCode x.2 then some x.2 else none) =
      (codeFrom q t).withoutBlanks
  | [], _ => rfl
  | c :: t, q => by
    have ih := filterMap_inkedFrom t (q.step c)
    unfold withoutBlanks at ih ⊢
    rw [inkedFrom, codeFrom]
    cases hblank : isBlank c <;> cases hcode : q.isCode c <;> simp [hblank, hcode, ih]

theorem filter_isBrace_withoutBlanks (t : Text) :
    t.withoutBlanks.filter (fun c => c == '\x7b' || c == '\x7d') =
      t.filter (fun c => c == '\x7b' || c == '\x7d') := by
  rw [withoutBlanks, List.filter_filter]
  refine List.filter_congr fun c _ => ?_
  rw [Bool.and_eq_left_iff_imp]
  intro hc
  rcases Bool.or_eq_true_iff.1 hc with hc | hc <;>
  · obtain rfl := beq_iff_eq.1 hc
    decide

end Text

/-! ## One character -/

namespace Cutter

/-- What a character does: it is kept, or it is kept and completes a statement, or it is a closing
brace, which completes the statement before it and is one itself. -/
theorem step_cases (k : Cutter) (c : Char) : (k.step c).2.quotation = k.quotation.step c ∧
    ((k.step c).1 = [] ∧ (k.step c).2.current = k.current ++ [c] ∨
      (k.step c).1 = (k.push c).flushed ∧ (k.step c).2.current = [] ∨
      c = '\x7d' ∧ k.quotation = .outside ∧ (k.step c).1 = k.flushed ++ [[c]] ∧
        (k.step c).2.current = []) := by
  have hpush := current_push k c
  unfold step
  split_ifs with hcode _ _ _ _ hclosing
  · exact ⟨rfl, Or.inl ⟨rfl, hpush⟩⟩
  · exact ⟨rfl, Or.inl ⟨rfl, hpush⟩⟩
  · exact ⟨rfl, Or.inl ⟨rfl, hpush⟩⟩
  · exact ⟨rfl, Or.inl ⟨rfl, hpush⟩⟩
  · exact ⟨rfl, Or.inr (Or.inl ⟨rfl, rfl⟩)⟩
  · exact ⟨rfl, Or.inl ⟨rfl, hpush⟩⟩
  · have houtside : k.quotation = .outside := by
      have hcode : k.quotation.isCode c = true := by simpa using hcode
      rw [Quotation.isCode, Bool.and_eq_true, beq_iff_eq] at hcode
      exact hcode.1
    subst hclosing
    exact ⟨by rw [houtside]; rfl, Or.inr (Or.inr ⟨rfl, houtside, rfl, rfl⟩)⟩
  · exact ⟨rfl, Or.inr (Or.inl ⟨rfl, rfl⟩)⟩
  · exact ⟨rfl, Or.inl ⟨rfl, hpush⟩⟩

variable {k : Cutter}

theorem flatMap_inked_flushed (k : Cutter) : k.flushed.flatMap Text.inked = k.current.inked := by
  rw [← Text.inked_trim k.current, flushed]
  split_ifs with hempty
  · rw [List.isEmpty_iff.1 hempty]
    rfl
  · exact List.flatMap_singleton ..

/-- What a character completes and what is kept after it are what was kept before and the
character. -/
theorem Sound.inked_step (h : k.Sound) (c : Char) :
    (k.step c).1.flatMap Text.inked ++ (k.step c).2.current.inked =
      Text.inked (k.current ++ [c]) := by
  obtain ⟨-, ⟨hdone, hkept⟩ | ⟨hdone, hkept⟩ | ⟨rfl, houtside, hdone, hkept⟩⟩ := step_cases k c
  · rw [hdone, hkept]
    rfl
  · rw [hdone, hkept, flatMap_inked_flushed, current_push]
    exact List.append_nil _
  · rw [hdone, hkept, List.flatMap_append, flatMap_inked_flushed, Text.inked_append, h.quotation,
      houtside]
    exact List.append_nil _

theorem flatMap_inked_statementsFrom : ∀ (t : Text) {k : Cutter}, k.Sound →
    (statementsFrom k t).flatMap Text.inked = Text.inked (k.current ++ t)
  | [], k, _ => by
    rw [List.append_nil]
    exact flatMap_inked_flushed k
  | c :: t, k, h => by
    have hsound := (h.step c).2
    have hstep := h.inked_step c
    have hquotation := (step_cases k c).1
    have hrest := flatMap_inked_statementsFrom t hsound
    rw [Text.inked_append, hsound.quotation, hquotation] at hrest
    calc (statementsFrom k (c :: t)).flatMap Text.inked
        = (k.step c).1.flatMap Text.inked ++
            (statementsFrom (k.step c).2 t).flatMap Text.inked := List.flatMap_append
      _ = Text.inked (k.current ++ [c]) ++ Text.inkedFrom (k.quotation.step c) t := by
          rw [hrest, ← hstep, List.append_assoc]
      _ = Text.inked (k.current ++ c :: t) := by
          rw [List.append_cons k.current c t, Text.inked_append _ t, List.foldl_append,
            h.quotation]
          rfl

end Cutter

/-! ## A whole line -/

theorem flatMap_inked_attachSemicolons (ts : List Text) :
    (attachSemicolons ts).flatMap Text.inked = ts.flatMap Text.inked := by
  fun_induction attachSemicolons ts with
  | case1 rest ih =>
    rw [List.flatMap_cons, List.flatMap_cons, List.flatMap_cons, ih, ← List.append_assoc]
    rfl
  | case2 t rest _ ih => rw [List.flatMap_cons, List.flatMap_cons, ih]
  | case3 => rfl

/-- The statements of a line hold its characters, each at the point of the scan at which it is met
on the line. -/
theorem flatMap_inked_statements (t : Text) : (statements t).flatMap Text.inked = t.inked := by
  rw [statements, flatMap_inked_attachSemicolons]
  exact Cutter.flatMap_inked_statementsFrom t Cutter.sound_start

/-- There is something in a text, and no white space around it. -/
def Text.IsFilled (t : Text) : Prop := t ≠ [] ∧ t.trim = t

theorem Cutter.isFilled_of_mem_flushed {k : Cutter} {t : Text} (h : t ∈ k.flushed) :
    t.IsFilled := by
  simp only [flushed] at h
  split_ifs at h with hempty
  · cases h
  · rw [List.mem_singleton.1 h]
    exact ⟨fun hnil => hempty (List.isEmpty_iff.2 hnil), Text.trim_trim _⟩

theorem isFilled_of_mem_statementsFrom : ∀ {t : Text} {k : Cutter},
    ∀ s ∈ statementsFrom k t, s.IsFilled
  | [], _, _, hs => Cutter.isFilled_of_mem_flushed hs
  | c :: t, k, s, hs => by
    have hs : s ∈ (k.step c).1 ++ statementsFrom (k.step c).2 t := hs
    rcases List.mem_append.1 hs with hs | hs
    · obtain ⟨-, ⟨hdone, -⟩ | ⟨hdone, -⟩ | ⟨rfl, -, hdone, -⟩⟩ := Cutter.step_cases k c
      · rw [hdone] at hs
        cases hs
      · exact Cutter.isFilled_of_mem_flushed (hdone ▸ hs)
      · rcases List.mem_append.1 (hdone ▸ hs) with hs | hs
        · exact Cutter.isFilled_of_mem_flushed hs
        · rw [List.mem_singleton.1 hs]
          exact ⟨by decide, by decide⟩
    · exact isFilled_of_mem_statementsFrom s hs

theorem isFilled_of_mem_attachSemicolons {ts : List Text} (h : ∀ t ∈ ts, t.IsFilled) :
    ∀ t ∈ attachSemicolons ts, t.IsFilled := by
  fun_induction attachSemicolons ts with
  | case1 rest ih =>
    refine List.forall_mem_cons.2 ⟨⟨by decide, by decide⟩, ih fun t ht => h t (by simp [ht])⟩
  | case2 t rest _ ih =>
    exact List.forall_mem_cons.2 ⟨h t (by simp), ih fun t ht => h t (by simp [ht])⟩
  | case3 => exact h

/-- Cutting a line loses, doubles and reorders nothing. The statements are trimmed and not empty.
They hold the characters of the line and the code of the line, up to white space, and the braces in
its code. Every character is inside of the same quotation as on the line. -/
theorem statements_keep (t : Text) :
    (∀ s ∈ statements t, s ≠ [] ∧ s.trim = s) ∧
    Text.withoutBlanks (statements t).flatten = t.withoutBlanks ∧
    Text.withoutBlanks ((statements t).flatMap Text.code) = t.code.withoutBlanks ∧
    (statements t).flatMap Text.inked = t.inked ∧
    ((statements t).flatMap Text.code).filter (fun c => c == '\x7b' || c == '\x7d') =
      t.code.filter (fun c => c == '\x7b' || c == '\x7d') := by
  have hinked := flatMap_inked_statements t
  have hcode : Text.withoutBlanks ((statements t).flatMap Text.code) = t.code.withoutBlanks := by
    rw [Text.code, ← Text.filterMap_inkedFrom, ← Text.inked, ← hinked, List.filterMap_flatMap,
      Text.withoutBlanks, List.filter_flatMap]
    exact congrArg ((statements t).flatMap ·) (funext fun s => (Text.filterMap_inkedFrom s _).symm)
  refine ⟨isFilled_of_mem_attachSemicolons isFilled_of_mem_statementsFrom, ?_, hcode, hinked, ?_⟩
  · rw [← Text.map_inkedFrom t .outside, ← Text.inked, ← hinked, List.map_flatMap,
      Text.withoutBlanks, List.filter_flatten, ← List.flatMap_def]
    exact congrArg ((statements t).flatMap ·) (funext fun s => (Text.map_inkedFrom s _).symm)
  · rw [← Text.filter_isBrace_withoutBlanks, hcode, Text.filter_isBrace_withoutBlanks]

/-- Braces and semicolons in quotations stay in their statement, also where the quotation is never
closed. -/
example : statements "a = \";\x7d\"; \x7d ; b = 'c; ".toList =
    ["a = \";\x7d\";".toList, "\x7d;".toList, "b = 'c;".toList] := by
  decide

end StepTrace
