import StepTrace.Proofs.Source.Lines
import StepTrace.Proofs.Structured.Tree
import StepTrace.Source.Brace

/-!
# The braces of structured programs

In a braced dialect every body of a structured program is written between a line that ends in a
brace and a line with a closing brace (`Block.bracedLines`). `Block.Placed` says where the parts of
a structured program stand among all lines and that the braces of each body match.

The braces are matched by one scan over all lines with a stack. Over the lines of a structured
program it leaves the stack as it was, changes the matches of these lines only, and matches the
braces of each body (`Block.places_bracedLines`). This needs that the quotations in a header are
closed in it, since in an open quotation the brace at the end of the header is no code, and that its
own braces match.
-/

namespace StepTrace

/-! ## Code of a header -/

namespace Text

/-- The braces in some code are matched, once those that are open before it are closed. -/
def bracesClose : (depth : Nat) → List Char → Bool
  | depth, [] => depth == 0
  | depth, c :: code =>
    if c = '\x7b' then bracesClose (depth + 1) code
    else if c = '\x7d' then depth != 0 && bracesClose (depth - 1) code
    else bracesClose depth code

/-- The braces in the code of a text are matched. -/
def closesBraces (t : Text) : Bool := bracesClose 0 t.code

theorem codeFrom_append : ∀ (a b : Text) (q : Quotation),
    codeFrom q (a ++ b) = codeFrom q a ++ codeFrom (a.foldl Quotation.step q) b
  | [], _, _ => rfl
  | c :: a, b, q => by
    rw [List.cons_append, codeFrom, codeFrom, codeFrom_append a b, List.foldl_cons]
    split_ifs <;> rfl

/-- The code of a text has no brace. -/
def isBraceless (t : Text) : Bool := t.code.all fun c => c != '\x7b' && c != '\x7d'

/-- Every quotation that is opened in a text is closed in it. -/
def closesQuotes (t : Text) : Bool := t.foldl Quotation.step .outside == .outside

theorem closesQuotes_iff {t : Text} :
    t.closesQuotes ↔ t.foldl Quotation.step .outside = .outside := by
  simp [closesQuotes]

theorem code_append {a : Text} (h : a.closesQuotes) (b : Text) :
    code (a ++ b) = code a ++ code b := by
  rw [code, codeFrom_append, closesQuotes_iff.1 h]
  rfl

theorem isBraceless_append {a b : Text} (h : a.closesQuotes) (ha : a.isBraceless)
    (hb : b.isBraceless) : isBraceless (a ++ b) := by
  unfold isBraceless at ha hb ⊢
  rw [code_append h, List.all_append, ha, hb]
  rfl

theorem closesBraces_of_isBraceless {t : Text} (h : t.isBraceless) : t.closesBraces := by
  unfold isBraceless at h
  unfold closesBraces
  generalize t.code = code at h
  induction code with
  | nil => rfl
  | cons c code ih =>
    simp only [List.all_cons, Bool.and_eq_true, bne_iff_ne] at h
    rw [bracesClose, if_neg h.1.1, if_neg h.1.2]
    exact ih h.2

theorem closesQuotes_append {a b : Text} (ha : a.closesQuotes) (hb : b.closesQuotes) :
    closesQuotes (a ++ b) := by
  rw [closesQuotes_iff, List.foldl_append, closesQuotes_iff.1 ha, closesQuotes_iff.1 hb]

end Text

theorem BraceMap.get?_cons_of_ne {line close k : Nat} {m : BraceMap} (h : k ≠ line) :
    BraceMap.get? ((line, close) :: m) k = m.get? k := by
  rw [BraceMap.get?, List.lookup_cons, beq_false_of_ne h]
  rfl

namespace BraceScan

variable (s : BraceScan) (index : Nat)

theorem lines_append (a b : List Text) :
    s.lines index (a ++ b) = (s.lines index a).lines (index + a.length) b := by
  induction a generalizing s index with
  | nil => rfl
  | cons line a ih =>
    rw [List.cons_append, lines, lines, ih, List.length_cons, Nat.add_right_comm, Nat.add_assoc]

theorem line_of_isBraceless {t : Text} (h : t.isBraceless) : s.line index t = s := by
  unfold Text.isBraceless at h
  unfold line
  generalize t.code = code at h
  induction code with
  | nil => rfl
  | cons c code ih =>
    simp only [List.all_cons, Bool.and_eq_true, bne_iff_ne] at h
    rw [List.foldl_cons, step, if_neg h.1.1, if_neg h.1.2]
    exact ih h.2

/-- Matched braces on a line leave the stack and change the match of this line only. -/
theorem foldl_of_bracesClose (stack : List Nat) : ∀ (code : List Char) (depth : Nat)
    (closed : BraceMap), Text.bracesClose depth code →
    ∃ closed' : BraceMap, code.foldl (step index) ⟨List.replicate depth index ++ stack, closed⟩ =
        ⟨stack, closed'⟩ ∧ ∀ k, k ≠ index → closed'.get? k = closed.get? k
  | [], depth, closed, h => by
    rw [Text.bracesClose, beq_iff_eq] at h
    subst h
    exact ⟨closed, rfl, fun _ _ => rfl⟩
  | c :: code, depth, closed, h => by
    rw [Text.bracesClose] at h
    rw [List.foldl_cons, step]
    split_ifs at h ⊢ with hopen hclose
    · exact foldl_of_bracesClose stack code (depth + 1) closed h
    · cases depth with
      | zero => cases h
      | succ depth =>
        obtain ⟨closed', hscan, hget⟩ :=
          foldl_of_bracesClose stack code depth ((index, index) :: closed) h
        exact ⟨closed', hscan, fun k hk => (hget k hk).trans (BraceMap.get?_cons_of_ne hk)⟩
    · exact foldl_of_bracesClose stack code depth closed h

/-- The line of a header opens one brace. -/
theorem line_opened {header : Text} (hbraces : header.closesBraces)
    (hquotes : header.closesQuotes) :
    ∃ closed : BraceMap,
      s.line index (Structured.opened .braced header) = ⟨index :: s.stack, closed⟩ ∧
        ∀ k, k ≠ index → closed.get? k = s.closed.get? k := by
  obtain ⟨closed, hscan, hget⟩ :=
    foldl_of_bracesClose index s.stack header.code 0 s.closed hbraces
  refine ⟨closed, ?_, hget⟩
  rw [line, Structured.opened, Text.code_append hquotes, List.foldl_append]
  exact congrArg (List.foldl (step index) · ['\x7b']) hscan

/-- A line with a closing brace closes the one that was opened last. -/
theorem line_closing {stack : List Nat} {first : Nat} (h : s.stack = first :: stack) :
    s.line index ['\x7d'] = ⟨stack, (first, index) :: s.closed⟩ := by
  show step index s '\x7d' = _
  rw [step, if_neg (by decide), if_pos rfl, h]

/-- Between two states of the scan only the matches of some lines may have changed. There they make
something true that depends on these matches only. -/
structure Places (P : BraceMap → Prop) (first stop : Nat) (s s' : BraceScan) : Prop where
  le : first ≤ stop
  stack : s'.stack = s.stack
  elsewhere : ∀ k, k < first ∨ stop ≤ k → s'.closed.get? k = s.closed.get? k
  linked : ∀ m : BraceMap, (∀ k, first ≤ k → k < stop → m.get? k = s'.closed.get? k) → P m

namespace Places

variable {P Q : BraceMap → Prop} {s s₁ s₂ : BraceScan} {i j k : Nat}

theorem imp (h : Places P i j s s₁) (hPQ : ∀ m, P m → Q m) : Places Q i j s s₁ :=
  ⟨h.le, h.stack, h.elsewhere, fun m hm => hPQ m (h.linked m hm)⟩

theorem trans (h : Places P i j s s₁) (h' : Places Q j k s₁ s₂) :
    Places (fun m => P m ∧ Q m) i k s s₂ where
  le := h.le.trans h'.le
  stack := h'.stack.trans h.stack
  elsewhere l hl := by
    have hij := h.le
    have hjk := h'.le
    rw [h'.elsewhere l (by omega), h.elsewhere l (by omega)]
  linked m hm := by
    have hij := h.le
    have hjk := h'.le
    refine ⟨h.linked m fun l hl hlj => ?_, h'.linked m fun l hl => hm l (by omega)⟩
    rw [hm l hl (by omega), h'.elsewhere l (Or.inl hlj)]

end Places

end BraceScan

namespace Structured

/-! ## Lines -/

/-- A body between its braces. -/
def enclosed (line : Text) (body : List Text) : List Text := line :: (body ++ [['\x7d']])

theorem add_length_enclosed (first : Nat) (line : Text) (body : List Text) :
    first + (enclosed line body).length = first + 1 + body.length + 1 := by
  simp only [enclosed, List.length_cons, List.length_append, List.length_nil]
  omega

mutual

/-- The lines of a structured program in a braced dialect. -/
def Block.bracedLines : Block → List Text
  | .done => []
  | .leaf text rest => text :: rest.bracedLines
  | .branch cond body further rest =>
    enclosed (ifLine .braced cond) body.bracedLines ++ (further.bracedLines ++ rest.bracedLines)
  | .loop header _ body rest =>
    enclosed (loopLine .braced header) body.bracedLines ++ rest.bracedLines

/-- The lines of some further clauses in a braced dialect. -/
def Clauses.bracedLines : Clauses → List Text
  | .none => []
  | .clause cond body next =>
    enclosed (furtherLine .braced cond) body.bracedLines ++ next.bracedLines
  | .otherwise body => enclosed (elseLine .braced) body.bracedLines

end

/-! ## Places -/

section Placed

variable (lines : List Text) (braces : BraceMap)

mutual

/-- A structured program stands on the lines from an index up to another one, and the braces of its
bodies match. -/
def Block.Placed : Block → (first stop : Nat) → Prop
  | .done, first, stop => first = stop
  | .leaf text rest, first, stop =>
    lines[first]? = some text ∧ rest.Placed (first + 1) stop
  | .branch cond body further rest, first, stop =>
    ∃ close next, lines[first]? = some (ifLine .braced cond) ∧ braces.get? first = some close ∧
      body.Placed (first + 1) close ∧ lines[close]? = some ['\x7d'] ∧
      further.Placed (close + 1) next ∧ rest.Placed next stop
  | .loop header _ body rest, first, stop =>
    ∃ close, lines[first]? = some (loopLine .braced header) ∧ braces.get? first = some close ∧
      body.Placed (first + 1) close ∧ lines[close]? = some ['\x7d'] ∧
      rest.Placed (close + 1) stop

/-- Some further clauses stand on the lines from an index up to another one. -/
def Clauses.Placed : Clauses → (first stop : Nat) → Prop
  | .none, first, stop => first = stop
  | .clause cond body next, first, stop =>
    ∃ close, lines[first]? = some (furtherLine .braced cond) ∧ braces.get? first = some close ∧
      body.Placed (first + 1) close ∧ lines[close]? = some ['\x7d'] ∧
      next.Placed (close + 1) stop
  | .otherwise body, first, stop =>
    ∃ close, lines[first]? = some (elseLine .braced) ∧ braces.get? first = some close ∧
      body.Placed (first + 1) close ∧ lines[close]? = some ['\x7d'] ∧ close + 1 = stop

end

end Placed

/-- Code without braces, and headers that close their quotations and their braces. -/
def scanRules : Rules where
  leaf t := t.isBraceless
  cond t := t.isBraceless && t.closesQuotes
  loop header _ := header.closesBraces && header.closesQuotes

section Scan

variable {lines : List Text}

/-- A body between its braces: its header is matched with the line that closes it. -/
theorem places_enclosed {header : Text} {body : List Text} {P : BraceMap → Prop} {first : Nat}
    (hbraces : header.closesBraces) (hquotes : header.closesQuotes)
    (hat : StandsAt lines first (enclosed (opened .braced header) body))
    (hbody : ∀ s : BraceScan,
      s.Places P (first + 1) (first + 1 + body.length) (s.lines (first + 1) body))
    (s : BraceScan) :
    s.Places (fun m => lines[first]? = some (opened .braced header) ∧
        m.get? first = some (first + 1 + body.length) ∧ P m ∧
        lines[first + 1 + body.length]? = some ['\x7d'])
      first (first + 1 + body.length + 1)
      (s.lines first (enclosed (opened .braced header) body)) := by
  obtain ⟨closed, hopen, hclosed⟩ := BraceScan.line_opened s first hbraces hquotes
  have hinner := hbody ⟨first :: s.stack, closed⟩
  have hscan : s.lines first (enclosed (opened .braced header) body) =
      ⟨s.stack, (first, first + 1 + body.length) ::
        (BraceScan.lines ⟨first :: s.stack, closed⟩ (first + 1) body).closed⟩ := by
    rw [enclosed, BraceScan.lines, hopen, BraceScan.lines_append, BraceScan.lines,
      BraceScan.line_closing _ _ hinner.stack, BraceScan.lines]
  rw [hscan]
  refine ⟨by omega, rfl, fun k hk => ?_, fun m hm => ⟨hat.head, ?_, ?_, hat.tail.right.head⟩⟩
  · have hne : k ≠ first := by omega
    rw [BraceMap.get?_cons_of_ne hne, hinner.elsewhere k (by omega), hclosed k hne]
  · rw [hm first (Nat.le_refl _) (by omega)]
    exact List.lookup_cons_self
  · refine hinner.linked m fun k hk hlt => ?_
    rw [hm k (by omega) (by omega), BraceMap.get?_cons_of_ne (by omega)]

theorem closes_word {cond : Text} (h : scanRules.cond cond) (word : Text)
    (hword : word.closesQuotes ∧ word.isBraceless) :
    Text.closesBraces (word ++ cond) ∧ Text.closesQuotes (word ++ cond) := by
  obtain ⟨hbraces, hquotes⟩ := Bool.and_eq_true_iff.1 h
  exact ⟨Text.closesBraces_of_isBraceless (Text.isBraceless_append hword.1 hword.2 hbraces),
    Text.closesQuotes_append hword.1 hquotes⟩

mutual

/-- Over the lines of a structured program the scan places it. -/
theorem Block.places_bracedLines : ∀ (b : Block) {first stop : Nat}, b.follows scanRules →
    StandsAt lines first b.bracedLines → first + b.bracedLines.length = stop → ∀ s : BraceScan,
    s.Places (fun m => b.Placed lines m first stop) first stop (s.lines first b.bracedLines)
  | .done, first, stop, _, _, hstop, s => by
    subst hstop
    exact ⟨Nat.le_refl _, rfl, fun _ _ => rfl, fun _ _ => by rw [Block.Placed]; rfl⟩
  | .leaf text rest, first, stop, hfollows, hat, hstop, s => by
    rw [Block.follows, Bool.and_eq_true] at hfollows
    rw [Block.bracedLines] at hat hstop ⊢
    rw [List.length_cons] at hstop
    have hrest := rest.places_bracedLines hfollows.2 hat.tail (by omega : _ = stop) s
    rw [BraceScan.lines, BraceScan.line_of_isBraceless s first hfollows.1]
    have hle := hrest.le
    refine ⟨by omega, hrest.stack, fun k hk => hrest.elsewhere k (by omega), fun m hm => ?_⟩
    rw [Block.Placed]
    exact ⟨hat.head, hrest.linked m fun k hk => hm k (by omega)⟩
  | .branch cond body further rest, first, stop, hfollows, hat, hstop, s => by
    simp only [Block.follows, Bool.and_eq_true] at hfollows
    obtain ⟨⟨⟨hcond, hbody⟩, hfurther⟩, hrest⟩ := hfollows
    obtain ⟨hbraces, hquotes⟩ := closes_word hcond "if ".toList (by decide)
    rw [Block.bracedLines] at hat hstop ⊢
    have hfurtherAt := hat.right
    rw [List.length_append, ← Nat.add_assoc, add_length_enclosed, List.length_append] at hstop
    rw [add_length_enclosed] at hfurtherAt
    rw [BraceScan.lines_append, add_length_enclosed, BraceScan.lines_append]
    have henclosed := places_enclosed hbraces hquotes hat.left
      (body.places_bracedLines hbody hat.left.tail.left rfl) s
    have hclauses := further.places_bracedLines hfurther hfurtherAt.left rfl
    have hbehind := rest.places_bracedLines hrest hfurtherAt.right (by omega : _ = stop)
    refine ((henclosed.trans (hclauses _)).trans (hbehind _)).imp ?_
    rintro m ⟨⟨⟨hline, hget, hbody, hclose⟩, hclauses⟩, hbehind⟩
    rw [Block.Placed]
    exact ⟨_, _, hline, hget, hbody, hclose, hclauses, hbehind⟩
  | .loop header head body rest, first, stop, hfollows, hat, hstop, s => by
    simp only [Block.follows, Bool.and_eq_true] at hfollows
    obtain ⟨⟨hloop, hbody⟩, hrest⟩ := hfollows
    obtain ⟨hbraces, hquotes⟩ := Bool.and_eq_true_iff.1 hloop
    rw [Block.bracedLines] at hat hstop ⊢
    have hrestAt := hat.right
    rw [List.length_append, ← Nat.add_assoc, add_length_enclosed] at hstop
    rw [add_length_enclosed] at hrestAt
    rw [BraceScan.lines_append, add_length_enclosed]
    have henclosed := places_enclosed hbraces hquotes hat.left
      (body.places_bracedLines hbody hat.left.tail.left rfl) s
    have hbehind := rest.places_bracedLines hrest hrestAt hstop
    refine (henclosed.trans (hbehind _)).imp ?_
    rintro m ⟨⟨hline, hget, hbody, hclose⟩, hbehind⟩
    rw [Block.Placed]
    exact ⟨_, hline, hget, hbody, hclose, hbehind⟩

/-- Over the lines of some further clauses the scan places them. -/
theorem Clauses.places_bracedLines : ∀ (c : Clauses) {first stop : Nat}, c.follows scanRules →
    StandsAt lines first c.bracedLines → first + c.bracedLines.length = stop → ∀ s : BraceScan,
    s.Places (fun m => c.Placed lines m first stop) first stop (s.lines first c.bracedLines)
  | .none, first, stop, _, _, hstop, s => by
    subst hstop
    exact ⟨Nat.le_refl _, rfl, fun _ _ => rfl, fun _ _ => by rw [Clauses.Placed]; rfl⟩
  | .clause cond body next, first, stop, hfollows, hat, hstop, s => by
    simp only [Clauses.follows, Bool.and_eq_true] at hfollows
    obtain ⟨⟨hcond, hbody⟩, hnext⟩ := hfollows
    obtain ⟨hbraces, hquotes⟩ := closes_word hcond "else if ".toList (by decide)
    rw [Clauses.bracedLines] at hat hstop ⊢
    have hnextAt := hat.right
    rw [List.length_append, ← Nat.add_assoc, add_length_enclosed] at hstop
    rw [add_length_enclosed] at hnextAt
    rw [BraceScan.lines_append, add_length_enclosed]
    have henclosed := places_enclosed hbraces hquotes hat.left
      (body.places_bracedLines hbody hat.left.tail.left rfl) s
    have hbehind := next.places_bracedLines hnext hnextAt hstop
    refine (henclosed.trans (hbehind _)).imp ?_
    rintro m ⟨⟨hline, hget, hbody, hclose⟩, hbehind⟩
    rw [Clauses.Placed]
    exact ⟨_, hline, hget, hbody, hclose, hbehind⟩
  | .otherwise body, first, stop, hfollows, hat, hstop, s => by
    rw [Clauses.follows] at hfollows
    rw [Clauses.bracedLines] at hat hstop ⊢
    rw [add_length_enclosed] at hstop
    subst hstop
    refine (places_enclosed (by decide) (by decide) hat
      (body.places_bracedLines hfollows hat.tail.left rfl) s).imp ?_
    rintro m ⟨hline, hget, hbody, hclose⟩
    rw [Clauses.Placed]
    exact ⟨_, hline, hget, hbody, hclose, rfl⟩

end

end Scan

end Structured

end StepTrace
