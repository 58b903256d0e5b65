import Mathlib.Data.List.Basic

/-!
# Loops that stop at the first error

What is known of a computation in `Except` when it has succeeded, and which error it ends with
otherwise.
-/

namespace Sequence

universe u v w

variable {Error : Type u} {State : Type v} {Item Entry : Type w}

theorem bind_eq_ok {Value Value' : Type v} {x : Except Error Value}
    {f : Value → Except Error Value'} {b : Value'} :
    (x >>= f) = .ok b ↔ ∃ a, x = .ok a ∧ f a = .ok b := by
  cases x with
  | error e =>
    constructor
    · intro h
      cases h
    · rintro ⟨a,ha,-⟩
      cases ha
  | ok a =>
    constructor
    · exact fun h => ⟨a,rfl,h⟩
    · rintro ⟨a',ha',h⟩
      cases ha'
      exact h

theorem foldlM_ok_induction {step : State → Item → Except Error State} {P : State → Prop}
    (hstep : ∀ s x t, P s → step s x = .ok t → P t) {xs : List Item} {s t : State} (hs : P s)
    (h : xs.foldlM step s = .ok t) : P t := by
  induction xs generalizing s with
  | nil =>
    cases h
    exact hs
  | cons x xs ih =>
    rw [List.foldlM_cons] at h
    obtain ⟨u,hu,h⟩ := bind_eq_ok.mp h
    exact ih (hstep s x u hs hu) h

/-- A loop whose turns put entries into a state puts those of all its items, in their order. -/
theorem foldlM_ok_puts {step : State → Item → Except Error State} (put : State → Entry → State)
    (entries : Item → List Entry) (Good : Item → Prop)
    (hstep : ∀ s x t, step s x = .ok t → Good x ∧ t = (entries x).foldl put s) {xs : List Item}
    {s t : State} (h : xs.foldlM step s = .ok t) :
    (∀ x ∈ xs, Good x) ∧ t = (xs.flatMap entries).foldl put s := by
  induction xs generalizing s with
  | nil =>
    cases h
    exact ⟨by simp,rfl⟩
  | cons x xs ih =>
    rw [List.foldlM_cons] at h
    obtain ⟨u,hu,h⟩ := bind_eq_ok.mp h
    obtain ⟨hgood,rfl⟩ := hstep s x u hu
    obtain ⟨hall,rfl⟩ := ih h
    rw [List.forall_mem_cons,List.flatMap_cons,List.foldl_append]
    exact ⟨⟨hgood,hall⟩,rfl⟩

def failure {Value : Type v} : Except Error Value → Option Error
  | .ok _ => none
  | .error e => some e

theorem failure_ok {Value : Type v} (a : Value) : failure (.ok a : Except Error Value) = none := rfl

theorem failure_bind {Value Value' : Type v} {x : Except Error Value}
    {f : Value → Except Error Value'} {second : Option Error}
    (hsecond : ∀ a, x = .ok a → failure (f a) = second) :
    failure (x >>= f) = (failure x).or second := by
  cases x with
  | error e => rfl
  | ok a => exact hsecond a rfl

theorem findSome?_cons_or {Value : Type v} (f : Item → Option Value) (x : Item) (xs : List Item) :
    (x :: xs).findSome? f = (f x).or (xs.findSome? f) := by
  rw [List.findSome?_cons]
  cases f x <;> rfl

/-- A loop whose turns fail by their items alone ends with the error of the first item that has
one. -/
theorem failure_foldlM {step : State → Item → Except Error State} {fails : Item → Option Error}
    (hstep : ∀ s x, failure (step s x) = fails x) (xs : List Item) (s : State) :
    failure (xs.foldlM step s) = xs.findSome? fails := by
  induction xs generalizing s with
  | nil => rfl
  | cons x xs ih =>
    rw [List.foldlM_cons,failure_bind (fun t _ => ih t),hstep,findSome?_cons_or]

theorem findSome?_flatMap {Value : Type v} (entries : Item → List Entry) (f : Entry → Option Value)
    (xs : List Item) :
    (xs.flatMap entries).findSome? f = xs.findSome? (fun x => (entries x).findSome? f) := by
  induction xs with
  | nil => rfl
  | cons x xs ih =>
    rw [List.flatMap_cons,List.findSome?_append,ih,findSome?_cons_or]

end Sequence
