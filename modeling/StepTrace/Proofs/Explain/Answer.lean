import StepTrace.Explain.Answer
import StepTrace.Proofs.Expr.Lists
import StepTrace.Proofs.Pattern.Context
import StepTrace.Proofs.Program.Walk
import StepTrace.Proofs.Run.Faults

/-!
# There is a text to show

Every text that is shown says something, and says that something is missing if the snippet looks
incomplete (`Tells`). Both are properties of a piece of the text, so they are inherited by all texts
around it (`Tells.of_isInfix`), and it is enough to find the piece: the opening of the local answer,
the notice, the answer itself, or the summary.

The local answer shows what the snippet prints, so there is none for a snippet without a trace. A
blank answer about such a snippet cannot be replaced, and a failure whose message is an object of
JSON with a number that is too long cannot be shown. These are all cases without a text
(`Unanswered`, `explanation_tells`). Which snippets have no trace is known: a fault ends their run,
or a clause that closes itself (`Dialect.MayStop`). The summary needs no trace, so after a failure
with a plain message there is always a text.
-/

namespace StepTrace

theorem Label.text_isInfix_write {l : Locale} {label : Label} {value : String}
    (h : .text value ∈ label.template l) (args : List (Text × Text)) :
    value.toList <:+: label.write l args := by
  obtain ⟨front, back, heq⟩ := List.append_of_mem h
  refine ⟨Template.fillWith front args, Template.fillWith back args, ?_⟩
  simp [write, heq, Template.fillWith]

/-- A message that does not look like an object of JSON can be shown. -/
theorem Failure.exists_shown {failure : Failure}
    (h : failure.message.trim.startsWith ['\x7b'] = false) (l : Locale) :
    ∃ shown, failure.shown l = .ok shown := by
  unfold shown
  dsimp only
  split
  · exact ⟨_, rfl⟩
  · rw [showMessage, if_neg (by simp [h])]
    split
    · exact ⟨_, rfl⟩
    · exact ⟨_, rfl⟩

/-! ## Snippets without a trace -/

/-- Why a snippet in a dialect has no trace: a fault of the dialect, or a further clause that closes
itself. -/
inductive Dialect.MayStop (d : Dialect) (source : Text) : Stop → Prop
  | fault {cause : Fault} (h : d.MayFault source cause) : MayStop d source (.fault cause)
  | stalled {index : Nat} (hbraced : d.layout = .braced)
      (h : (BracedSource.ofLines (bracedLines d source)).ClosesItself index) :
      MayStop d source .stalled

theorem Dialect.mayStop_stalled {d : Dialect} {limits : Limits} {source : Text}
    (h : d.trace limits source = .stalled) : d.MayStop source .stalled := by
  cases hlayout : d.layout with
  | indented =>
    -- an indented program walks ahead, so no discipline has to let it stall
    have hobeys : (Program.read d source).1.Obeys (.lenient False) := by
      rw [Program.read, hlayout]
      refine Program.ofIndented_obeys (fun t => (Condition.read t).obeys_lenient) fun line _ => ?_
      exact ⟨⟨(Statement.read d line.text).obeys_lenient, fun head _ => head.obeys_lenient⟩,
        fun _ hstop => by cases hstop⟩
    have hout := Dialect.trace_obeys limits hobeys trivial
    rw [h] at hout
    exact (hout rfl).elim
  | braced =>
    by_contra hnot
    refine BracedSource.trace_ne_stalled (fun index hself => hnot ?_) hlayout rfl limits h
    exact .stalled hlayout hself

theorem Outcome.eq_fault_of_mapTrace {f : List Entry → List Entry} {o : Outcome} {cause : Fault}
    (h : o.mapTrace f = .fault cause) : o = .fault cause := by
  cases o <;> cases h
  rfl

theorem Outcome.eq_stalled_of_mapTrace {f : List Entry → List Entry} {o : Outcome}
    (h : o.mapTrace f = .stalled) : o = .stalled := by
  cases o <;> cases h
  rfl

theorem mayFault_of_buildTrace {limits : Limits} {dialect source : Text} {cause : Fault}
    (hsize : source.length < 2 ^ 63) (h : buildTrace limits dialect source = .fault cause) :
    (Dialect.ofId dialect).MayFault source cause := by
  unfold buildTrace at h
  split_ifs at h
  exact Dialect.mayFault_of_trace hsize (Outcome.eq_fault_of_mapTrace h)

theorem mayStop_of_buildTrace {limits : Limits} {dialect source : Text}
    (h : buildTrace limits dialect source = .stalled) :
    (Dialect.ofId dialect).MayStop source .stalled := by
  unfold buildTrace at h
  split_ifs at h
  exact Dialect.mayStop_stalled (Outcome.eq_stalled_of_mapTrace h)

namespace Explain

/-! ## Texts that tell -/

/-- A text says something, and says that something is missing if it has to. -/
structure Tells (incomplete : Bool) (t : Text) : Prop where
  filled : t.isEmptyOrBlank = false
  notice : incomplete = true → missingWords.occursIn t = true

theorem isLocal_missingWords : missingWords.isLocal false = true := by
  decide +kernel

theorem Tells.of_isInfix {incomplete : Bool} {t u : Text} (h : Tells incomplete t)
    (hpart : t <:+: u) : Tells incomplete u where
  filled := by
    obtain ⟨c, hc, hblank⟩ := List.all_eq_false.1 h.filled
    exact List.all_eq_false.2 ⟨c, hpart.subset hc, hblank⟩
  notice hincomplete :=
    Pattern.isLocal.occursIn_of_isInfix isLocal_missingWords hpart (h.notice hincomplete)

section Texts

variable (l : Locale) (dialect code prompt : Text)

/-- A label tells what one of its texts tells. -/
theorem tells_write {l : Locale} {label : Label} {incomplete : Bool} (i : Nat) {value : String}
    (h : (label.template l)[i]? = some (.text value)) (htells : Tells incomplete value.toList)
    (args : List (Text × Text)) : Tells incomplete (label.write l args) :=
  htells.of_isInfix (Label.text_isInfix_write (List.mem_of_getElem? h) args)

theorem tells_withNotice (incomplete : Bool) (answer : Text) :
    Tells incomplete (withNotice l answer) := by
  have hnotice : Tells incomplete (Label.incompleteNotice.write l []) := by
    cases l <;> exact tells_write 0 rfl ⟨by decide +kernel, fun _ => by decide +kernel⟩ []
  refine hnotice.of_isInfix ?_
  rw [withNotice, List.append_assoc]
  exact (List.prefix_append _ _).isInfix

theorem tells_opening (incomplete : Bool) (args : List (Text × Text)) :
    Tells incomplete
      ((if incomplete then Label.answerIncomplete else .answerBasic).write l args) := by
  cases incomplete <;> cases l <;>
    exact tells_write 2 rfl ⟨by decide +kernel, by decide +kernel⟩ args

theorem tells_summary : Tells false (summary l code) := by
  have hcount : ∀ args, Tells false (Label.localActiveLines.write l args) := by
    cases l <;> exact tells_write 0 rfl ⟨by decide +kernel, by decide +kernel⟩
  exact (hcount _).of_isInfix (Text.prefix_joined _ _ _).isInfix

/-! ## Answers -/

theorem output_eq_error_iff {stop : Stop} : output l dialect code = .error stop ↔
    (∃ cause, buildTrace .usual dialect code = .fault cause ∧ stop = .fault cause) ∨
      buildTrace .usual dialect code = .stalled ∧ stop = .stalled := by
  unfold output
  cases buildTrace .usual dialect code with
  | trace entries => cases hout : finalOutput entries <;> simp [hout]
  | fault cause => simp [eq_comm]
  | stalled => simp [eq_comm]

theorem localAnswer_eq_error_iff {incomplete : Bool} {stop : Stop} :
    localAnswer l incomplete dialect code prompt = .error stop ↔
      output l dialect code = .error stop := by
  cases hout : output l dialect code with
  | error stop' =>
    rw [localAnswer, hout]
    rfl
  | ok shown =>
    rw [localAnswer, hout]
    constructor <;> intro h <;> cases h

theorem tells_localAnswer {incomplete : Bool} {text : Text}
    (h : localAnswer l incomplete dialect code prompt = .ok text) : Tells incomplete text := by
  obtain ⟨shown, -, hanswer⟩ := bind_eq_ok.1 h
  cases hanswer
  exact (tells_opening l incomplete _).of_isInfix (Text.prefix_joined _ _ _).isInfix

theorem settle_of_blank {answer : Text} (h : answer.isEmptyOrBlank = true) :
    settle l dialect code prompt answer =
      localAnswer l (looksIncomplete code dialect) dialect code prompt := by
  simp [settle, Text.trim_eq_nil_iff.2 h]

theorem settle_of_filled {answer : Text} (h : answer.isEmptyOrBlank = false) :
    ∃ text, settle l dialect code prompt answer = .ok text ∧
      Tells (looksIncomplete code dialect) text := by
  have hne : answer.trim ≠ [] := by
    rw [Ne, Text.trim_eq_nil_iff, h]
    exact Bool.false_ne_true
  have hfilled : answer.trim.isEmptyOrBlank = false := by
    rwa [← Text.trim_trim, Ne, Text.trim_eq_nil_iff, Bool.not_eq_true] at hne
  have hsettle : settle l dialect code prompt answer =
      if looksIncomplete code dialect && !missingWords.occursIn answer.trim
      then .ok (withNotice l answer.trim) else .ok answer.trim :=
    if_neg (by simpa using hne)
  rw [hsettle]
  by_cases hsilent : (looksIncomplete code dialect && !missingWords.occursIn answer.trim) = true
  · exact ⟨_, if_pos hsilent, tells_withNotice l _ _⟩
  · refine ⟨_, if_neg hsilent, hfilled, fun hincomplete => ?_⟩
    simpa [hincomplete] using hsilent

end Texts

/-! ## What is shown -/

/-- There is no text to show for what came back: a blank answer about a snippet without a trace, or
a failure whose message cannot be shown. -/
inductive Unanswered (l : Locale) (dialect code : Text) : Response → Stop → Prop
  | fault {value : Option Text} {cause : Fault}
      (hblank : Text.isEmptyOrBlank (value.getD []) = true)
      (h : buildTrace .usual dialect code = .fault cause) :
      Unanswered l dialect code (.answer value) (.fault cause)
  | stalled {value : Option Text} (hblank : Text.isEmptyOrBlank (value.getD []) = true)
      (h : buildTrace .usual dialect code = .stalled) :
      Unanswered l dialect code (.answer value) .stalled
  | unread {failure : Failure} {cause : Fault} (h : failure.shown l = .error cause) :
      Unanswered l dialect code (.failed failure) (.fault cause)

/-- An answer that says something, or a failure with a plain message. -/
def Response.isPlain : Response → Bool
  | .answer value => !Text.isEmptyOrBlank (value.getD [])
  | .failed failure => !failure.message.trim.startsWith ['\x7b']

theorem Unanswered.not_isPlain {l : Locale} {dialect code : Text} {response : Response}
    {stop : Stop} (h : Unanswered l dialect code response stop) : ¬response.isPlain = true := by
  intro hplain
  cases h with
  | fault hblank =>
    rw [Response.isPlain, hblank] at hplain
    cases hplain
  | stalled hblank =>
    rw [Response.isPlain, hblank] at hplain
    cases hplain
  | unread hshown =>
    rw [Response.isPlain, Bool.not_eq_true'] at hplain
    obtain ⟨shown, hok⟩ := Failure.exists_shown hplain l
    cases hok.symm.trans hshown

section Explanation

variable (l : Locale) (given code prompt : Text)

/-- After a failure the message is shown in front of a text that does not need a trace. -/
theorem exists_explanation_failed (failure : Failure) :
    ∃ text, Tells (looksIncomplete code (dialectOr given code)) text ∧
      explanation l given code prompt (.failed failure) =
        ((failure.shown l).mapError Stop.fault).map fun shown =>
          Label.aiError.write l [] ++ ['\n'] ++ shown.plain ++ paragraph ++ text := by
  obtain ⟨text, hsettle, htells⟩ :=
    settle_of_filled l (dialectOr given code) code prompt (tells_summary l code).filled
  refine ⟨text, htells, ?_⟩
  simp only [explanation, hsettle]
  cases failure.shown l <;> rfl

variable {l given code prompt}

theorem tells_explanation {response : Response} {text : Text}
    (h : explanation l given code prompt response = .ok text) :
    Tells (looksIncomplete code (dialectOr given code)) text := by
  cases response with
  | answer value =>
    replace h : settle l (dialectOr given code) code prompt (value.getD []) = .ok text := h
    cases hblank : Text.isEmptyOrBlank (value.getD []) with
    | true =>
      rw [settle_of_blank _ _ _ _ hblank] at h
      exact tells_localAnswer _ _ _ _ h
    | false =>
      obtain ⟨text', hsettle, htells⟩ :=
        settle_of_filled l (dialectOr given code) code prompt hblank
      cases hsettle.symm.trans h
      exact htells
  | failed failure =>
    obtain ⟨text', htells, hfailed⟩ := exists_explanation_failed l given code prompt failure
    rw [hfailed] at h
    cases hshown : failure.shown l with
    | error cause =>
      rw [hshown] at h
      cases h
    | ok shown =>
      rw [hshown] at h
      cases h
      exact htells.of_isInfix (List.suffix_append _ _).isInfix

theorem explanation_eq_error_iff {response : Response} {stop : Stop} :
    explanation l given code prompt response = .error stop ↔
      Unanswered l (dialectOr given code) code response stop := by
  cases response with
  | answer value =>
    show settle l (dialectOr given code) code prompt (value.getD []) = .error stop ↔ _
    cases hblank : Text.isEmptyOrBlank (value.getD []) with
    | true =>
      rw [settle_of_blank _ _ _ _ hblank, localAnswer_eq_error_iff, output_eq_error_iff]
      constructor
      · rintro (⟨cause, h, rfl⟩ | ⟨h, rfl⟩)
        · exact .fault hblank h
        · exact .stalled hblank h
      · rintro (⟨-, h⟩ | ⟨-, h⟩)
        · exact Or.inl ⟨_, h, rfl⟩
        · exact Or.inr ⟨h, rfl⟩
    | false =>
      obtain ⟨text, hsettle, -⟩ := settle_of_filled l (dialectOr given code) code prompt hblank
      rw [hsettle]
      constructor
      · intro h
        cases h
      · rintro (⟨htrue, -⟩ | ⟨htrue, -⟩)
        all_goals
          rw [hblank] at htrue
          cases htrue
  | failed failure =>
    obtain ⟨text, -, hfailed⟩ := exists_explanation_failed l given code prompt failure
    rw [hfailed]
    constructor
    · intro h
      cases hshown : failure.shown l with
      | error cause =>
        rw [hshown] at h
        cases h
        exact .unread hshown
      | ok shown =>
        rw [hshown] at h
        cases h
    · intro h
      cases h with
      | unread hshown =>
        rw [hshown]
        rfl

end Explanation

/-- Every text that is shown says something, and says that something is missing if the snippet looks
incomplete. There is no text in exactly two cases: for a blank answer about a snippet without a
trace, and for a failure whose message cannot be shown. So there is one for every answer that says
something and for every failure with a plain message. A blank answer goes without a text only for
one of the reasons that leave a snippet of the dialect without a trace. -/
theorem explanation_tells (l : Locale) (given code prompt : Text) (response : Response) :
    (∀ text, explanation l given code prompt response = .ok text →
      text.isEmptyOrBlank = false ∧
      (looksIncomplete code (dialectOr given code) = true → missingWords.occursIn text = true)) ∧
    (∀ stop, explanation l given code prompt response = .error stop ↔
      Unanswered l (dialectOr given code) code response stop) ∧
    (response.isPlain = true → ∃ text, explanation l given code prompt response = .ok text) ∧
    ∀ value stop, response = .answer value → code.length < 2 ^ 63 →
      explanation l given code prompt response = .error stop →
      (Dialect.ofId (dialectOr given code)).MayStop code stop := by
  refine ⟨fun text h => ?_, fun stop => explanation_eq_error_iff, fun hplain => ?_, ?_⟩
  · exact ⟨(tells_explanation h).filled, (tells_explanation h).notice⟩
  · cases hresult : explanation l given code prompt response with
    | ok text => exact ⟨text, rfl⟩
    | error stop => exact absurd hplain (explanation_eq_error_iff.1 hresult).not_isPlain
  · rintro value stop rfl hsize hresult
    cases explanation_eq_error_iff.1 hresult with
    | fault _ h => exact .fault (mayFault_of_buildTrace hsize h)
    | stalled _ h => exact mayStop_of_buildTrace h

/-- About a snippet without a trace there is a text with the notice after a failure, and a blank
answer goes without a text because of the clause that lacks its condition. -/
theorem explanation_tells_bare_clause :
    let code := "if x > 1:\n  y = 1\nelif :".toList
    let failed := Response.failed ⟨"Request timed out.".toList, none⟩
    (∃ text, explanation .english [] code [] failed = .ok text ∧
      text.isEmptyOrBlank = false ∧ missingWords.occursIn text = true) ∧
    explanation .english [] code [] (.answer none) = .error (.fault .noCondition) ∧
    (Dialect.ofId (dialectOr [] code)).MayStop code (.fault .noCondition) := by
  intro code failed
  obtain ⟨htells, -, hplain, -⟩ := explanation_tells .english [] code [] failed
  obtain ⟨-, hfails, -, hstops⟩ := explanation_tells .english [] code [] (.answer none)
  obtain ⟨text, htext⟩ := hplain (by decide +kernel)
  have hnone : explanation .english [] code [] (.answer none) = .error (.fault .noCondition) :=
    (hfails _).2 (.fault rfl (Outcome.eq_fault (by decide +kernel)))
  exact ⟨⟨text, htext, (htells text htext).1, (htells text htext).2 (by decide +kernel)⟩, hnone,
    hstops none _ rfl (by decide +kernel) hnone⟩

/-- A blank answer cannot be replaced for a snippet with a clause that lacks its condition, and for
one with a clause that closes itself. -/
theorem explanation_fails_bare_clause :
    explanation .english "python".toList "if x > 1:\n  y = 1\nelif :\n  z = 2".toList "why".toList
      (.answer (some [])) = .error (.fault .noCondition) ∧
    explanation .english "c".toList
      "if (x == 0) \x7b\n\x7d\nelse if (f(\x7b\x7d) > 1) \x7b\ny = 1;".toList "why".toList
      (.answer none) = .error .stalled := by
  constructor
  · exact explanation_eq_error_iff.2 (.fault rfl (Outcome.eq_fault (by decide +kernel)))
  · exact explanation_eq_error_iff.2 (.stalled rfl (Outcome.eq_stalled (by decide +kernel)))

end Explain

end StepTrace
