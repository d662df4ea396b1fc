import StepTrace.Print.Style
import StepTrace.Proofs.Expr.Normal

/-!
# Faults of printing

Whatever a print call shows is made of expressions, which have no fault if all variables are within
a bound. In three styles there are holes for arguments, and a hole whose key is made of digit
characters without a place value is the only fault of printing (`PrintStyle.render_yields`). In
particular no number is too large to be written with a set number of places.
-/

namespace StepTrace

/-- The styles with holes for arguments. -/
def PrintStyle.fillsHoles : PrintStyle → Bool
  | .formatWords | .holes | .composite => true
  | _ => false

namespace Print

section Rendering

variable {bound : Nat} {s : Store} {allowed : Fault → Prop}
variable (hs : s.Within bound) (hbound : bound ≤ Double.largestInt)

include hs hbound

/-! ## Arguments -/

theorem value_yields (t : Text) : Yields allowed (fun _ => True) (value s t) := by
  unfold value Argument.read
  dsimp only
  cases t.trim.unquote? with
  | some text => exact trivial
  | none =>
    dsimp only
    cases hlist : Expr.readList? t.trim with
    | some items =>
      have hitems : ∀ e ∈ items, e.IsNormal := Expr.readList?_isNormal hlist
      exact (Expr.evalAll_yields hs hbound hitems).bind fun _ _ => trivial
    | none =>
      dsimp only [Argument.render]
      cases s.get? t.trim with
      | some v => exact trivial
      | none => exact (Expr.eval_yields hs hbound (Expr.read_isNormal _)).bind fun _ _ => trivial

theorem values_yields (ts : List Text) : Yields allowed (fun _ => True) (values s ts) :=
  (Yields.mapM fun t _ => value_yields hs hbound t).imp fun _ _ => trivial

theorem concatenated_yields (atLeast : Nat) (t : Text) :
    Yields allowed (fun _ => True) (concatenated atLeast s t) := by
  unfold concatenated
  dsimp only
  split_ifs
  · exact (values_yields hs hbound _).bind fun _ _ => trivial
  · exact value_yields hs hbound t

theorem words_yields (args : Text) : Yields allowed (fun _ => True) (words s args) :=
  (Yields.mapM fun t _ => concatenated_yields hs hbound 2 t).bind fun _ _ => trivial

theorem stream_yields (chain : Text) : Yields allowed (fun _ => True) (stream s chain) :=
  (values_yields hs hbound _).bind fun _ _ => trivial

/-! ## Holes -/

theorem holeValue_yields (key : Text) : Yields allowed (fun _ => True) (holeValue s key) := by
  unfold holeValue
  cases s.get? key with
  | some v => exact trivial
  | none => exact (Expr.eval_yields hs hbound (Expr.read_isNormal key)).bind fun _ _ => trivial

theorem interpolated_yields (form : HoleForm) (template : Text) :
    Yields allowed (fun _ => True) (interpolated form s template) := by
  refine (Yields.mapM (Q := fun _ => True) fun piece _ => ?_).bind fun _ _ => trivial
  cases piece with
  | char c => exact trivial
  | hole content whole => exact holeValue_yields hs hbound _

theorem fillHole_yields (hkey : ∀ key, allowed (.notAnIndex key)) (args : List Text) (taken : Nat)
    (content whole : Text) :
    Yields allowed (fun _ => True) (fillHole s args taken content whole) := by
  have hrequest : Yields allowed (fun _ => True) (Request.ofKey (holeKey content)) := by
    unfold Request.ofKey
    split_ifs
    · exact trivial
    · exact trivial
    · exact trivial
    · exact hkey _
    · exact trivial
  refine hrequest.bind fun request _ => ?_
  cases request with
  | next =>
    dsimp only
    cases args[taken]? with
    | some arg => exact (value_yields hs hbound arg).bind fun _ _ => trivial
    | none => exact trivial
  | argument index =>
    dsimp only
    cases args[index]? with
    | some arg => exact (value_yields hs hbound arg).bind fun _ _ => trivial
    | none => exact trivial
  | missing => exact trivial
  | expression key => exact (value_yields hs hbound key).bind fun _ _ => trivial

theorem fillHoles_yields (hkey : ∀ key, allowed (.notAnIndex key)) (args : List Text) :
    ∀ (pieces : List Piece) (taken : Nat),
      Yields allowed (fun _ => True) (fillHoles s args taken pieces)
  | [], _ => trivial
  | .char _ :: rest, taken =>
    (fillHoles_yields hkey args rest taken).bind fun _ _ => trivial
  | .hole content whole :: rest, taken =>
    (fillHole_yields hs hbound hkey args taken content whole).bind fun filled _ =>
      (fillHoles_yields hkey args rest filled.2).bind fun _ _ => trivial

theorem composed_yields (hkey : ∀ key, allowed (.notAnIndex key)) (args : Text) :
    Yields allowed (fun _ => True) (composed s args) := by
  unfold composed
  cases args.arguments with
  | nil => exact trivial
  | cons first rest =>
    dsimp only
    cases first.unquote? with
    | some template =>
      exact (fillHoles_yields hs hbound hkey rest _ 0).bind fun _ _ => trivial
    | none => exact words_yields hs hbound args

/-! ## Placeholders -/

omit hs hbound in
theorem withPlaces_yields (count : Nat) {n : Number} (hn : n.IsNormal) :
    Yields allowed (fun _ => True) (withPlaces count n) := by
  unfold withPlaces
  obtain ⟨x, hx⟩ := Option.isSome_iff_exists.1 hn.toDouble?
  rw [hx]
  cases x <;> exact trivial

theorem filling_yields (precision : Option Nat) (arg : Text) :
    Yields allowed (fun _ => True) (filling s precision arg) := by
  unfold filling
  cases precision with
  | none => exact value_yields hs hbound arg
  | some count =>
    dsimp only
    split_ifs
    · exact value_yields hs hbound arg
    · refine (Expr.eval_yields hs hbound (Expr.read_isNormal arg)).bind fun n hn => ?_
      exact withPlaces_yields count hn

theorem fill_yields : ∀ (args : List Text) (t : Text),
    Yields allowed (fun _ => True) (fill s args t)
  | [], _ => trivial
  | arg :: rest, t => by
    rw [fill]
    cases firstPlaceholder? t with
    | none => exact trivial
    | some found => exact (filling_yields hs hbound _ arg).bind fun _ _ => fill_yields rest _

theorem formatted_yields (args : Text) : Yields allowed (fun _ => True) (formatted s args) := by
  unfold formatted
  cases args.arguments with
  | nil => exact trivial
  | cons first rest =>
    refine (value_yields hs hbound first).bind fun template _ => ?_
    split_ifs
    · exact (fill_yields hs hbound rest template).bind fun _ _ => trivial
    · exact (values_yields hs hbound rest).bind fun _ _ => trivial

/-! ## Styles -/

theorem formatWords_yields (hkey : ∀ key, allowed (.notAnIndex key)) (args : Text) :
    Yields allowed (fun _ => True) (formatWords s args) := by
  refine (Yields.mapM (Q := fun _ => True) fun arg _ => ?_).bind fun _ _ => trivial
  unfold formatPhrase
  cases afterLetter? arg with
  | some literal => exact interpolated_yields hs hbound _ _
  | none =>
    dsimp only
    cases formatCall.match? arg with
    | some found => exact composed_yields hs hbound hkey _
    | none => exact concatenated_yields hs hbound 2 arg

theorem templateWords_yields (args : Text) :
    Yields allowed (fun _ => True) (templateWords s args) := by
  refine (Yields.mapM (Q := fun _ => True) fun arg _ => ?_).bind fun _ _ => trivial
  unfold templatePhrase
  split
  · exact interpolated_yields hs hbound _ _
  · exact concatenated_yields hs hbound 2 arg

theorem composite_yields (hkey : ∀ key, allowed (.notAnIndex key)) (args : Text) :
    Yields allowed (fun _ => True) (composite s args) := by
  unfold composite
  cases args.arguments with
  | nil => exact words_yields hs hbound args
  | cons first rest =>
    dsimp only
    split_ifs
    · exact interpolated_yields hs hbound _ _
    · exact composed_yields hs hbound hkey args
    · exact concatenated_yields hs hbound 1 first
    · exact words_yields hs hbound args

end Rendering

end Print

/-- The only fault of printing is a key that is no number, in the styles with holes for arguments.
-/
theorem PrintStyle.render_yields {bound : Nat} {s : Store} {allowed : Fault → Prop}
    (hs : s.Within bound) (hbound : bound ≤ Double.largestInt) (style : PrintStyle) (args : Text)
    (hkey : style.fillsHoles → ∀ key, allowed (.notAnIndex key)) :
    Yields allowed (fun _ => True) (style.render s args) := by
  cases style with
  | words => exact Print.words_yields hs hbound args
  | formatWords => exact Print.formatWords_yields hs hbound (hkey rfl) args
  | templateWords => exact Print.templateWords_yields hs hbound args
  | sum => exact Print.concatenated_yields hs hbound 1 args
  | value => exact Print.value_yields hs hbound args
  | placeholders => exact Print.formatted_yields hs hbound args
  | holes => exact Print.composed_yields hs hbound (hkey rfl) args
  | stream => exact Print.stream_yields hs hbound args
  | composite => exact Print.composite_yields hs hbound (hkey rfl) args

end StepTrace
