import Mathlib.Tactic.Common
import StepTrace.Fault

/-!
# Results that may be faults

What a computation gives is described by the faults it may end in and by a property of its result
otherwise (`Yields`). Such descriptions are put together along the computation.
-/

namespace StepTrace

theorem bind_eq_ok {x : Except ε α} {f : α → Except ε β} {b : β} :
    x >>= f = .ok b ↔ ∃ a, x = .ok a ∧ f a = .ok b := by
  cases x with
  | error e =>
    refine ⟨fun h => ?_, fun ⟨_, h, _⟩ => ?_⟩ <;> cases h
  | ok a =>
    refine ⟨fun h => ⟨a, rfl, h⟩, fun ⟨_, h, hb⟩ => ?_⟩
    cases h
    exact hb

/-- The result has a property, or it is a fault that is allowed. -/
def Yields (allowed : Fault → Prop) (P : α → Prop) : Except Fault α → Prop
  | .ok a => P a
  | .error f => allowed f

instance {allowed : Fault → Prop} {P : α → Prop} [DecidablePred allowed] [DecidablePred P] :
    DecidablePred (Yields allowed P)
  | .ok a => inferInstanceAs (Decidable (P a))
  | .error f => inferInstanceAs (Decidable (allowed f))

namespace Yields

variable {allowed : Fault → Prop} {P : α → Prop} {Q : β → Prop}

theorem imp {R : α → Prop} {x : Except Fault α} (hx : Yields allowed P x) (h : ∀ a, P a → R a) :
    Yields allowed R x := by
  cases x with
  | ok a => exact h a hx
  | error f => exact hx

theorem of_ok {x : Except Fault α} (h : ∀ a, x = .ok a → P a) : Yields (fun _ => True) P x := by
  cases x with
  | ok a => exact h a rfl
  | error f => exact trivial

theorem pure {a : α} (h : P a) : Yields allowed P (Pure.pure a) := h

theorem bind {x : Except Fault α} {f : α → Except Fault β} (hx : Yields allowed P x)
    (hf : ∀ a, P a → Yields allowed Q (f a)) : Yields allowed Q (x >>= f) := by
  cases x with
  | ok a => exact hf a hx
  | error e => exact hx

theorem exists_ok {x : Except Fault α} (h : Yields (fun _ => False) P x) : ∃ a, x = .ok a := by
  cases x with
  | ok a => exact ⟨a, rfl⟩
  | error f => exact h.elim

theorem map_iff {f : α → β} {x : Except Fault α} :
    Yields allowed Q (x.map f) ↔ Yields allowed (fun a => Q (f a)) x := by
  cases x <;> rfl

/-- A row of results, each with the property. -/
theorem mapM {f : α → Except Fault β} : ∀ {l : List α}, (∀ a ∈ l, Yields allowed Q (f a)) →
    Yields allowed (fun bs => bs.length = l.length ∧ ∀ b ∈ bs, Q b) (l.mapM f)
  | [], _ => ⟨rfl, fun _ h => nomatch h⟩
  | a :: l, h => by
    rw [List.mapM_cons]
    refine (h a (by simp)).bind fun b hb => ?_
    refine (mapM fun a ha => h a (by simp [ha])).bind fun bs hbs => ?_
    refine ⟨congrArg Nat.succ hbs.1, fun c hc => ?_⟩
    rcases List.mem_cons.1 hc with rfl | hc
    · exact hb
    · exact hbs.2 c hc

end Yields

end StepTrace
