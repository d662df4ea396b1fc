import Mathlib.Tactic.Common
import StepTrace.Store

/-!
# Names and values of a store

Binding a name gives it the value and leaves all other names alone (`Store.get?_insert`). The order
of the names is kept: a new name comes last (`Store.names_insert`).
-/

namespace StepTrace.Store

theorem mem_of_find? {name : Text} {value : Value} :
    ∀ {bindings : List (Text × Value)}, find? name bindings = some value →
      (name, value) ∈ bindings
  | (n, v) :: rest, h => by
    rw [find?] at h
    split_ifs at h with hn
    · cases h
      rw [hn]
      exact List.mem_cons_self
    · exact List.mem_cons_of_mem _ (mem_of_find? h)

theorem mem_names_of_get? {s : Store} {name : Text} {value : Value}
    (h : s.get? name = some value) : name ∈ s.names :=
  List.mem_map_of_mem (mem_of_find? h)

theorem find?_bind (name n : Text) (value : Value) (bindings : List (Text × Value)) :
    find? n (bind name value bindings) = if n = name then some value else find? n bindings := by
  induction bindings with
  | nil => simp [bind, find?, eq_comm]
  | cons b rest ih =>
    obtain ⟨m, v⟩ := b
    by_cases hm : m = name
    · subst hm
      by_cases hn : n = m
      · simp [bind, find?, hn]
      · simp [bind, find?, hn, Ne.symm hn]
    · rw [bind, if_neg hm, find?, find?, ih]
      by_cases hn : m = n
      · subst hn
        simp [hm]
      · simp [hn]

theorem map_fst_bind (name : Text) (value : Value) (bindings : List (Text × Value)) :
    (bind name value bindings).map Prod.fst =
      if name ∈ bindings.map Prod.fst then bindings.map Prod.fst
      else bindings.map Prod.fst ++ [name] := by
  induction bindings with
  | nil => rfl
  | cons b rest ih =>
    obtain ⟨m, v⟩ := b
    by_cases hm : m = name
    · simp [bind, hm]
    · have hm' : name ≠ m := Ne.symm hm
      simp only [bind, if_neg hm, List.map_cons, ih, List.mem_cons, hm', false_or]
      split_ifs <;> rfl

theorem get?_insert (s : Store) (name n : Text) (value : Value) :
    (s.insert name value).get? n = if n = name then some value else s.get? n :=
  find?_bind name n value s.bindings

@[simp] theorem get?_insert_self (s : Store) (name : Text) (value : Value) :
    (s.insert name value).get? name = some value := by
  rw [get?_insert, if_pos rfl]

theorem get?_insert_of_ne (s : Store) {name n : Text} (value : Value) (h : n ≠ name) :
    (s.insert name value).get? n = s.get? n := by
  rw [get?_insert, if_neg h]

/-- A name that is new comes last, and all others keep their places. -/
theorem names_insert (s : Store) (name : Text) (value : Value) :
    (s.insert name value).names = if name ∈ s.names then s.names else s.names ++ [name] :=
  map_fst_bind name value s.bindings

theorem names_prefix_insert (s : Store) (name : Text) (value : Value) :
    s.names <+: (s.insert name value).names := by
  rw [names_insert]
  split_ifs
  · exact List.prefix_refl _
  · exact List.prefix_append _ _

end StepTrace.Store
