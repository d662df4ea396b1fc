import StepTrace.Proofs.Expr.Formula
import StepTrace.Proofs.Pattern.Leads
import StepTrace.Proofs.Program.LoopHeaders

/-!
# Assignments

An assignment of something that begins with a name is read as the plain binding in every dialect
(`Statement.read_assignment`). All dialects have that form, but it comes last, and the forms before
it have to decline.

They do because of what stands before the equals sign, which is a name and white space. An update or
a step has another mark there. A declaration has a bracket or another mark, or a second name behind
white space, or a bracket right behind the sign (`lists_decline`, `declarations_decline`).
-/

namespace StepTrace

open CharClass Pattern

/-! ## What stands before a mark -/

/-- A name and white space before a mark. -/
def BeforeMark (mark : Char) (rest t : Text) : Prop :=
  ∃ word gap : Text, (∀ c ∈ word, isWord c = true) ∧ (∀ c ∈ gap, isBlank c = true) ∧
    t = word ++ gap ++ mark :: rest

/-- White space before a mark. -/
def InGap (mark : Char) (rest t : Text) : Prop :=
  ∃ gap : Text, (∀ c ∈ gap, isBlank c = true) ∧ t = gap ++ mark :: rest

/-- White space before a name. -/
def BeforeName (t : Text) : Prop :=
  ∃ (gap : Text) (first : Char) (rest : Text), (∀ c ∈ gap, isBlank c = true) ∧
    isNameStart first = true ∧ t = gap ++ first :: rest

section Declining

variable {mark : Char} {p : Pattern} {rest : Text} {B : Text → Prop}

theorem leads_beforeMark (h : p.spares mark = true) :
    p.Leads (BeforeMark mark rest) (BeforeMark mark rest) := by
  rintro c k c' k' htakes ⟨word, gap, hword, hgap, hrest⟩
  obtain ⟨front, left, hsplit, hleft⟩ := exists_of_spares h htakes hrest
  rw [hleft]
  rcases List.append_eq_append_iff.1 hsplit with ⟨middle, rfl, rfl⟩ | ⟨word', rfl, rfl⟩
  · exact ⟨[], left, List.forall_mem_nil _, (List.forall_mem_append.1 hgap).2, rfl⟩
  · exact ⟨word', gap, (List.forall_mem_append.1 hword).2, hgap, rfl⟩

theorem leads_inGap (h : p.spares mark = true) :
    p.Leads (InGap mark rest) (InGap mark rest) := by
  rintro c k c' k' htakes ⟨gap, hgap, hrest⟩
  obtain ⟨front, left, rfl, hleft⟩ := exists_of_spares h htakes hrest
  exact ⟨left, (List.forall_mem_append.1 hgap).2, hleft⟩

/-- The parts in front that spare the mark stay before it. -/
theorem Pattern.Leads.skip {ps : List Pattern} (count : Nat)
    (h : (ps.take count).all (spares mark) = true)
    (hp : (all (ps.drop count)).Leads (BeforeMark mark rest) B) :
    (all ps).Leads (BeforeMark mark rest) B := by
  induction ps generalizing count with
  | nil => simpa using hp
  | cons p ps ih =>
    cases count with
    | zero => exact hp
    | succ count =>
      obtain ⟨hfirst, hps⟩ := Bool.and_eq_true_iff.1 h
      exact (leads_beforeMark hfirst).seq (ih count hps hp)

/-- Characters that are not of words lead out of the name. -/
theorem leads_several {accepts : Char → Bool} (hword : ∀ c, isWord c = true → accepts c = false)
    (hmark : accepts mark = false) :
    (several (char accepts)).Leads (BeforeMark mark rest) (InGap mark rest) := by
  rintro c k c' k' htakes ⟨word, gap, hw, hgap, hrest⟩
  obtain ⟨front, hne, hfront, hsplit, -⟩ := takes_several_char.1 htakes
  have hnot : mark ∉ front := fun hmem => by
    rw [hfront _ hmem] at hmark
    cases hmark
  obtain ⟨left, hbefore, hleft⟩ := exists_of_append_cons hnot (hrest.symm.trans hsplit)
  obtain ⟨a, front, rfl⟩ := List.exists_cons_of_ne_nil hne
  cases word with
  | nil =>
    rw [List.nil_append] at hbefore
    rw [hbefore] at hgap
    exact ⟨left, (List.forall_mem_append.1 hgap).2, hleft⟩
  | cons b word =>
    obtain ⟨rfl, -⟩ := List.cons.inj hbefore
    have haccepts := hfront b List.mem_cons_self
    rw [hword b (hw b List.mem_cons_self)] at haccepts
    cases haccepts

theorem not_isBlank_of_isWord {c : Char} (h : isWord c = true) : isBlank c = false :=
  Bool.eq_false_iff.2 fun hblank => by
    rw [not_isWord_of_isBlank hblank] at h
    cases h

theorem leads_blanks : blanks.Leads (BeforeMark '=' rest) (InGap '=' rest) :=
  leads_several (fun _ => not_isBlank_of_isWord) (by decide)

theorem not_isNameStart_of_isBlank {c : Char} (h : isBlank c = true) : isNameStart c = false :=
  Bool.eq_false_iff.2 fun hstart => by
    have hword := isWord_of_isNameStart hstart
    rw [not_isWord_of_isBlank h] at hword
    cases hword

/-- There is no name behind the white space. -/
theorem declines_name : name.Declines (InGap '=' rest) := by
  refine Leads.first (declines_char fun {a t} => ?_)
  rintro ⟨gap, hgap, h⟩
  cases gap with
  | nil =>
    obtain ⟨rfl, -⟩ := List.cons.inj h
    decide
  | cons b gap =>
    obtain ⟨rfl, -⟩ := List.cons.inj h
    exact not_isNameStart_of_isBlank (hgap a List.mem_cons_self)

/-- No other mark stands before the mark. -/
theorem not_beforeMark_cons {a : Char} {t : Text} (hword : isWord a = false)
    (hblank : isBlank a = false) (hother : a ≠ mark) : ¬BeforeMark mark rest (a :: t) := by
  rintro ⟨word, gap, hw, hgap, h⟩
  cases word with
  | cons b word =>
    obtain ⟨rfl, -⟩ := List.cons.inj h
    rw [hw a List.mem_cons_self] at hword
    cases hword
  | nil =>
    cases gap with
    | cons b gap =>
      obtain ⟨rfl, -⟩ := List.cons.inj h
      rw [hgap a List.mem_cons_self] at hblank
      cases hblank
    | nil => exact hother (List.cons.inj h).1

theorem declines_other {s : String} {other : Char} (hs : s.toList.head? = some other)
    (hword : isWord other = false) (hblank : isBlank other = false) (hother : other ≠ mark) :
    (text s).Declines (BeforeMark mark rest) :=
  declines_text hs (not_beforeMark_cons hword hblank hother)

theorem leads_sign (h : BeforeName rest) : (text "=").Leads (BeforeMark '=' rest) BeforeName := by
  rintro c k c' k' htakes ⟨word, gap, hword, hgap, hrest⟩
  have hsplit : word ++ gap ++ '=' :: rest = ([] : Text) ++ '=' :: c'.rest :=
    hrest.symm.trans (takes_text.1 htakes).1
  have hnot : '=' ∉ word ++ gap := by
    rw [List.mem_append, not_or]
    exact ⟨fun h => absurd (hword _ h) (by decide), fun h => absurd (hgap _ h) (by decide)⟩
  rwa [← (append_cons_inj_of_not_mem hnot List.not_mem_nil hsplit).2]

theorem leads_gap : gap.Leads BeforeName BeforeName := by
  rintro c k c' k' htakes ⟨gap, first, rest, hgap, hfirst, hrest⟩
  obtain ⟨front, hfront, hsplit, -⟩ := takes_many_char.1 htakes
  have hnot : first ∉ front := fun hmem => by
    rw [not_isNameStart_of_isBlank (hfront _ hmem)] at hfirst
    cases hfirst
  obtain ⟨left, rfl, hleft⟩ := exists_of_append_cons hnot (hrest.symm.trans hsplit)
  exact ⟨left, first, rest, (List.forall_mem_append.1 hgap).2, hfirst, hleft⟩

theorem declines_bracket : (text "[").Declines BeforeName := by
  refine declines_text rfl fun {t} => ?_
  rintro ⟨gap, first, rest, hgap, hfirst, h⟩
  cases gap with
  | nil =>
    obtain ⟨rfl, -⟩ := List.cons.inj h
    exact absurd hfirst (by decide)
  | cons b gap =>
    obtain ⟨rfl, -⟩ := List.cons.inj h
    exact absurd (hgap '[' List.mem_cons_self) (by decide)

theorem BeforeName.head?_ne (h : BeforeName rest) : rest.head? ≠ some '=' := by
  obtain ⟨gap, first, rest, hgap, hfirst, rfl⟩ := h
  intro hhead
  cases gap with
  | nil =>
    cases hhead
    exact absurd hfirst (by decide)
  | cons b gap =>
    cases hhead
    exact absurd (hgap '=' List.mem_cons_self) (by decide)

/-- There is nothing but a name behind the sign. -/
theorem declines_behind (hrest : BeforeName rest) (hp : p.Declines BeforeName)
    {ps : List Pattern} : (all (text "=" :: gap :: p :: ps)).Declines (BeforeMark '=' rest) :=
  (leads_sign hrest).seq (leads_gap.seq (.first hp))

/-- There is no second name before the sign. -/
theorem declines_second {slot : Slot} {ps : List Pattern} :
    (all (blanks :: capture slot name :: ps)).Declines (BeforeMark '=' rest) :=
  leads_blanks.seq (.first (declines_name.capture slot))

theorem letBinding_declines {ps : List Pattern} :
    (all (Dialect.letBinding :: ps)).Declines (BeforeMark '=' rest) :=
  .first ((leads_beforeMark rfl).seq (leads_blanks.seq
    ((leads_inGap rfl).seq (.first (declines_name.capture _)))))

/-- No dialect takes the text for the declaration of a list. -/
theorem lists_decline (language : Language) (hrest : BeforeName rest) :
    ∀ p ∈ language.dialect.lists, p.1.Declines (BeforeMark '=' rest) := by
  have harray : Dialect.array.Declines (BeforeMark '=' rest) := .skip 2 rfl declines_second
  have hmark : ∀ {s : String} {mark : Char} {ps : List Pattern}, s.toList.head? = some mark →
      mark = '[' ∨ mark = '<' → (all (text s :: ps)).Declines (BeforeMark '=' rest) := by
    rintro s mark ps hs (rfl | rfl) <;> exact .first (declines_other hs rfl rfl (by decide))
  cases language with
  | python | sql =>
    exact List.forall_mem_singleton.2
      (.skip 2 rfl (declines_behind hrest (.first declines_bracket)))
  | javascript | typescript =>
    exact List.forall_mem_singleton.2
      (.skip 4 rfl (declines_behind hrest (.first declines_bracket)))
  | go => exact List.forall_mem_singleton.2 (.skip 4 rfl (declines_behind hrest declines_bracket))
  | java => exact List.forall_mem_singleton.2 (.skip 3 rfl (.first (hmark rfl (.inl rfl))))
  | c => exact List.forall_mem_singleton.2 harray
  | cpp =>
    exact List.forall_mem_cons.2
      ⟨.skip 4 rfl (hmark rfl (.inr rfl)), List.forall_mem_singleton.2 harray⟩
  | csharp =>
    exact List.forall_mem_cons.2
      ⟨.skip 1 rfl declines_second, List.forall_mem_singleton.2 (.skip 1 rfl declines_second)⟩
  | rust =>
    exact List.forall_mem_cons.2
      ⟨letBinding_declines, List.forall_mem_singleton.2 letBinding_declines⟩

/-- No dialect takes the text for a declaration, and all have the plain binding behind them. -/
theorem declarations_decline (language : Language) (rest : Text) :
    ∃ ps, language.dialect.bindings = ps ++ [(Dialect.plainBinding, false)] ∧
      ∀ p ∈ ps, p.1.Declines (BeforeMark '=' rest) := by
  have htyped : Dialect.typedBinding.Declines (BeforeMark '=' rest) := by
    refine .skip 4 rfl ((leads_several (fun c hc => ?_) (by decide)).seq
      (.first (declines_name.capture _)))
    have hstar : c ≠ '*' := fun h => absurd (h ▸ hc) (by decide)
    have hand : c ≠ '&' := fun h => absurd (h ▸ hc) (by decide)
    simp [not_isBlank_of_isWord hc, hstar, hand]
  cases language with
  | python | sql => exact ⟨[], rfl, List.forall_mem_nil _⟩
  | java | c | cpp | csharp => exact ⟨[(_, _)], rfl, List.forall_mem_singleton.2 htyped⟩
  | javascript | typescript =>
    exact ⟨[(_, _)], rfl, List.forall_mem_singleton.2
      (((leads_beforeMark rfl).seq leads_blanks).seq (.first (declines_name.capture _)))⟩
  | rust => exact ⟨[(_, _)], rfl, List.forall_mem_singleton.2 letBinding_declines⟩
  | go =>
    exact ⟨[(_, _), (_, _)], rfl, List.forall_mem_cons.2
      ⟨.skip 2 rfl (.first (declines_other rfl rfl rfl (by decide))),
        List.forall_mem_singleton.2 (.skip 1 rfl declines_second)⟩⟩

end Declining

/-! ## What the forms find -/

/-- A name, white space and something else behind them can be told apart in one way only. -/
theorem eq_of_word_gap {w w' g g' t t' : Text} (hw : ∀ c ∈ w, isWord c = true)
    (hw' : ∀ c ∈ w', isWord c = true) (hg : ∀ c ∈ g, isBlank c = true)
    (hg' : ∀ c ∈ g', isBlank c = true)
    (ht : ∀ c ∈ t.head?, isWord c = false ∧ isBlank c = false)
    (ht' : ∀ c ∈ t'.head?, isWord c = false ∧ isBlank c = false)
    (h : w ++ (g ++ t) = w' ++ (g' ++ t')) : w = w' ∧ t = t' := by
  have hhead : ∀ {g t : Text}, (∀ c ∈ g, isBlank c = true) →
      (∀ c ∈ t.head?, isWord c = false ∧ isBlank c = false) →
      ∀ c ∈ (g ++ t).head?, isWord c = false := by
    intro g t hg ht c hc
    cases g with
    | nil => exact (ht c hc).1
    | cons b g =>
      cases hc
      exact not_isWord_of_isBlank (hg c List.mem_cons_self)
  obtain ⟨hword, hrest⟩ := Text.span_append hw (hhead hg ht)
  obtain ⟨hword', hrest'⟩ := Text.span_append hw' (hhead hg' ht')
  have hsame : g ++ t = g' ++ t' := hrest.symm.trans ((congrArg _ h).trans hrest')
  have hend := (Text.span_append hg fun c hc => (ht c hc).2).2
  have hend' := (Text.span_append hg' fun c hc => (ht' c hc).2).2
  exact ⟨hword.symm.trans ((congrArg _ h).trans hword'),
    hend.symm.trans ((congrArg _ hsame).trans hend')⟩

section Finding

variable {q : Pattern} {x : Identifier} {g : Gap} {slot : Slot} {t : Text} {c c' : Cursor}
  {k k' : Captures}

/-- The whole name is captured before a mark. -/
theorem takes_named (ht : ∀ a ∈ t.head?, isWord a = false ∧ isBlank a = false)
    (hq : ∀ {c₁ k₁}, q.Takes c₁ k₁ c' k' →
      ∀ a ∈ c₁.rest.head?, isWord a = false ∧ isBlank a = false)
    (hrest : c.rest = x.text ++ (g.text ++ t))
    (h : (seq (capture slot name) (seq gap q)).Takes c k c' k') :
    ∃ c₁, c₁.rest = t ∧ q.Takes c₁ ((slot, x.text) :: k) c' k' := by
  obtain ⟨c₁, _, ⟨_, hname, rfl⟩, c₂, _, hgap, hlast⟩ := h
  obtain ⟨y, hy, hsplit, -, rfl⟩ := takes_name.1 hname
  obtain ⟨front, hfront, hsplit', -, rfl⟩ := takes_many_char.1 hgap
  have hsame : x.text ++ (g.text ++ t) = y ++ (front ++ c₂.rest) := by
    rw [← hrest, hsplit, hsplit']
  obtain ⟨rfl, hend⟩ := eq_of_word_gap (fun _ => Text.isWord_of_mem_isName x.isName)
    (fun _ => Text.isWord_of_mem_isName hy) g.blank hfront ht (hq hlast) hsame
  rw [Cursor.taken_eq hsplit] at hlast
  exact ⟨c₂, hend.symm, hlast⟩

theorem exists_takes_named (slot : Slot) (hrest : c.rest = x.text ++ (g.text ++ t))
    (hq : ∀ previous, ∃ c' k', q.Takes ⟨previous, t⟩ ((slot, x.text) :: k) c' k') :
    ∃ c' k', (seq (capture slot name) (seq gap q)).Takes c k c' k' := by
  obtain ⟨c', k', hlast⟩ := hq (g.text.getLast?.or (x.text.getLast?.or c.previous))
  have hname : (capture slot name).Takes c k ⟨x.text.getLast?.or c.previous, g.text ++ t⟩
      ((slot, x.text) :: k) :=
    ⟨k, takes_name.2 ⟨x.text, x.isName, hrest, rfl, rfl⟩, by rw [Cursor.taken_eq hrest]⟩
  exact ⟨c', k', _, _, hname, _, _, takes_many_char.2 ⟨g.text, g.blank, rfl, rfl, rfl⟩, hlast⟩

/-- White space and something behind it, up to the end. -/
def toEnd (slot : Slot) : Pattern := seq gap (seq (capture slot filled) (seq textEnd nothing))

/-- What is captured up to the end is all but white space. -/
theorem takes_toEnd (hfeed : '\n' ∉ c.rest) (h : (toEnd slot).Takes c k c' k') :
    ∃ u : Text, u.trim = c.rest.trim ∧ k' = (slot, u) :: k := by
  obtain ⟨c₁, _, hgap, c₂, _, ⟨_, hfilled, rfl⟩, c₃, _, ⟨hend, rfl, rfl⟩, -, rfl⟩ := h
  obtain ⟨front, hfront, hsplit, -, rfl⟩ := takes_many_char.1 hgap
  obtain ⟨u, -, -, hsplit', -, rfl⟩ := takes_several_char.1 hfilled
  have hnil : c₃.rest = [] := eq_nil_of_textEnd hfeed
    (hsplit.trans (by rw [hsplit', List.append_assoc])) hend
  rw [hnil, List.append_nil] at hsplit'
  refine ⟨u, ?_, ?_⟩
  · rw [hsplit, hsplit', Text.trim_blanks_append hfront]
  · rw [Cursor.taken_eq (hsplit'.trans (by rw [hnil, List.append_nil]))]

theorem exists_takes_toEnd (slot : Slot) (hne : t ≠ []) (hfeed : '\n' ∉ t)
    (hrest : c.rest = g.text ++ t) : ∃ c' k', (toEnd slot).Takes c k c' k' := by
  have hgap : gap.Takes c k ⟨g.text.getLast?.or c.previous, t⟩ k :=
    takes_many_char.2 ⟨g.text, g.blank, hrest, rfl, rfl⟩
  have hfilled : ∀ previous, filled.Takes ⟨previous, t⟩ k ⟨t.getLast?.or previous, []⟩ k := by
    refine fun _ => takes_several_char.2 ⟨t, hne, fun a ha => ?_, by simp, rfl, rfl⟩
    have hline : a ≠ '\n' := fun heq => hfeed (heq ▸ ha)
    simpa using hline
  exact ⟨_, _, _, _, hgap, _, _, ⟨_, hfilled _, rfl⟩, _, _, ⟨Or.inl rfl, rfl, rfl⟩, rfl, rfl⟩

/-- A pattern has one way only through the front of a text. It does not begin like a name. -/
structure Finds (q : Pattern) (t rest : Text) (found : Captures) : Prop where
  way : ∀ previous k, ∃ c' : Cursor, c'.rest = rest ∧ q.Takes ⟨previous, t⟩ k c' (found ++ k)
  only : ∀ {c k c' k'}, c.rest = t → q.Takes c k c' k' → c'.rest = rest ∧ k' = found ++ k
  mark : ∀ {c k c' k'}, q.Takes c k c' k' → ∃ a t, c.rest = a :: t ∧ a ∈ '=' :: "+-*/".toList

/-- Marks are neither of words nor white space. -/
theorem not_isWord_of_mem_marks {a : Char} (h : a ∈ '=' :: "+-*/".toList) :
    isWord a = false ∧ isBlank a = false := by
  have hall : ∀ a ∈ '=' :: "+-*/".toList, isWord a = false ∧ isBlank a = false := by decide
  exact hall a h

theorem Finds.head? {found : Captures} {rest : Text} (hq : Finds q t rest found) :
    ∀ a ∈ t.head?, isWord a = false ∧ isBlank a = false := by
  obtain ⟨c', -, htakes⟩ := hq.way none []
  obtain ⟨a, rest, rfl, ha⟩ := hq.mark htakes
  rintro _ ⟨⟩
  exact not_isWord_of_mem_marks ha

theorem Finds.head?_of_takes {r : Pattern} {found : Captures} {rest : Text}
    (hq : Finds q t rest found) (h : (seq q r).Takes c k c' k') :
    ∀ a ∈ c.rest.head?, isWord a = false ∧ isBlank a = false := by
  obtain ⟨_, _, hmark, -⟩ := h
  obtain ⟨a, rest, hrest, ha⟩ := hq.mark hmark
  rw [hrest]
  rintro _ ⟨⟩
  exact not_isWord_of_mem_marks ha

/-- A name, a mark and an expression up to the end are found as they are. -/
theorem exists_match? {p : Pattern} {behind : Gap} {e : Text} {found : Captures}
    (hp : ∀ {c k c' k'}, p.Takes c k c' k' ↔
      (seq (capture .name name) (seq gap (seq q (toEnd .expr)))).Takes c k c' k')
    (hq : Finds q t (behind.text ++ e) found) (hne : e ≠ []) (hfeed : '\n' ∉ e)
    (htrim : e.IsTrimmed) :
    ∃ (f : Found) (v : Text), p.match? (x.text ++ (g.text ++ t)) = some f ∧
      f.captures = (.expr, v) :: (found ++ [(.name, x.text)]) ∧ v.trim = e := by
  have hsome : (p.match? (x.text ++ (g.text ++ t))).isSome := by
    obtain ⟨c', k', htakes⟩ := exists_takes_named (q := seq q (toEnd .expr)) (k := [])
      (c := ⟨none, x.text ++ (g.text ++ t)⟩) .name rfl fun previous => by
        obtain ⟨c₁, hc₁, hmark⟩ := hq.way previous [(.name, x.text)]
        obtain ⟨c', k', hend⟩ := exists_takes_toEnd (k := found ++ [(.name, x.text)]) .expr hne
          hfeed hc₁
        exact ⟨c', k', _, _, hmark, hend⟩
    exact isSome_match? (hp.2 htakes)
  obtain ⟨f, hf⟩ := Option.isSome_iff_exists.1 hsome
  obtain ⟨c₁, hc₁, c₂, _, hmark, hend⟩ :=
    takes_named hq.head? hq.head?_of_takes rfl (hp.1 (takes_of_match? hf))
  obtain ⟨hrest, rfl⟩ := hq.only hc₁ hmark
  obtain ⟨v, hv, hcaptures⟩ := takes_toEnd
    (by simp [hrest, behind.oneLine, hfeed] : '\n' ∉ c₂.rest) hend
  refine ⟨f, v, hf, hcaptures, ?_⟩
  rw [hv, hrest, Text.trim_blanks_append behind.blank, htrim.trim_eq]

end Finding

/-- The sign of the long form, which is not doubled. -/
theorem finds_sign {rest : Text} (hrest : rest.head? ≠ some '=') :
    Finds bindSign ('=' :: rest) rest [] where
  way previous k := by
    refine ⟨⟨some '=', rest⟩, rfl, _, _, takes_text.2 ⟨rfl, rfl, rfl⟩, ?_, rfl, rfl⟩
    rintro ⟨c, k, htakes⟩
    refine hrest ?_
    rw [show rest = '=' :: c.rest from (takes_text.1 htakes).1]
    rfl
  only {c k c' k'} hc htakes := by
    obtain ⟨c₁, _, hsign, -, rfl, rfl⟩ := htakes
    obtain ⟨hrest₁, -, rfl⟩ := takes_text.1 hsign
    exact ⟨(List.cons.inj (hc.symm.trans hrest₁)).2.symm, rfl⟩
  mark {c k c' k'} htakes := by
    obtain ⟨c₁, _, hsign, -⟩ := htakes
    exact ⟨'=', _, (takes_text.1 hsign).1, by decide⟩

/-! ## Reading -/

namespace Statement

theorem body_eq {t : Text} (h : t.IsTrimmed) (hlast : t.getLast? ≠ some ';') : body t = t := by
  have hdrop : t.dropTail (· == ';') = t := by
    rw [Text.dropTail, List.dropWhile_eq_self_iff.2 fun hpos hsemi => hlast ?_,
      List.reverse_reverse]
    rw [← List.head?_reverse, List.head?_eq_getElem?, List.getElem?_eq_getElem hpos,
      beq_iff_eq.1 hsemi]
  rw [body, h.trim_eq, hdrop, h.trim_eq]

theorem body_append {a b : Text} (ha : a.IsTrimmed) (hb : b.IsTrimmed) (hane : a ≠ [])
    (hbne : b ≠ []) (hlast : b.getLast? ≠ some ';') (middle : Text) :
    body (a ++ (middle ++ b)) = a ++ (middle ++ b) := by
  refine body_eq (Text.isTrimmed_append ha hb hane hbne middle) fun h => hlast ?_
  obtain ⟨c, hc⟩ := Option.ne_none_iff_exists'.1 (mt List.getLast?_eq_none_iff.1 hbne)
  rwa [← List.append_assoc, List.getLast?_append, hc, Option.some_or, ← hc] at h

/-- An assignment of something that begins with a name is read as the plain binding. -/
theorem read_assignment (language : Language) {line rest e : Text} {f : Found}
    (hline : BeforeMark '=' rest line) (hrest : BeforeName rest) (hbody : body line = line)
    (hf : Dialect.plainBinding.match? line = some f) (he : f.get? .expr = some e) :
    read language.dialect line =
      .bind (f.getD .name) (readSource language.dialect e) false := by
  have hupdate : updateForm.match? line = none := by
    refine match?_eq_none (.skip 2 rfl (.first (.capture ?_ _))) hline
    refine declines_char fun {a t} h => Bool.eq_false_iff.2 fun ha => ?_
    obtain ⟨hword, hblank⟩ := not_isWord_of_mem_marks (List.mem_cons_of_mem '=' (by simpa using ha))
    refine not_beforeMark_cons hword hblank ?_ h
    rintro rfl
    exact absurd ha (by decide)
  have hmarker : stepMarker.Declines (BeforeMark '=' rest) :=
    (Leads.alt (declines_other rfl rfl rfl (by decide))
      (declines_other rfl rfl rfl (by decide))).capture _
  have hstep : firstMatch? stepForms line = none :=
    firstMatch?_eq_none (List.forall_mem_cons.2
      ⟨match?_eq_none (.skip 2 rfl (.first hmarker)) hline,
        List.forall_mem_singleton.2 (match?_eq_none (.first hmarker) hline)⟩)
  have hlists : firstMatch? language.dialect.lists line = none :=
    firstMatch?_eq_none fun p hp => match?_eq_none (lists_decline language hrest p hp) hline
  obtain ⟨ps, hps, hdecline⟩ := declarations_decline language rest
  have hbinding : firstMatch? language.dialect.bindings line = some (f, false) := by
    have hnone : firstMatch? ps line = none :=
      firstMatch?_eq_none fun p hp => match?_eq_none (hdecline p hp) hline
    rw [firstMatch?] at hnone
    rw [hps, firstMatch?, List.findSome?_append, hnone, Option.none_or]
    exact firstMatch?_cons_of_some (p := (Dialect.plainBinding, false)) hf
  simp only [read, hbody, update?, hupdate, step?, hstep, list?, hlists, binding?, hbinding, he,
    Option.map_none, Option.map_some]
  rfl

end Statement

end StepTrace
