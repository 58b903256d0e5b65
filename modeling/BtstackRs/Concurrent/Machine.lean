import Mathlib.Data.List.Induction
import Mathlib.Logic.Relation

/-!
# Machines and their runs

A machine is a partial step function over actions. Runs are restricted by a predicate on
the action and the state in which it is taken, so that "every run in which no thread does X"
is the same notion as "every run".
-/

namespace Concurrent

universe u v

/-- A labelled transition system given by an executable partial step function. -/
structure Machine (State : Type u) (Action : Type v) where
  step : State → Action → Option State

namespace Machine

variable {State : Type u} {Action : Type v} (M : Machine State Action)

/-- Execute a list of actions; `none` as soon as one of them is not enabled. -/
def run (s : State) : List Action → Option State
  | [] => some s
  | a :: as =>
      match M.step s a with
      | none => none
      | some t => run t as

def StepBy (allow : State → Action → Prop) (s t : State) : Prop :=
  ∃ a, allow s a ∧ M.step s a = some t

def Steps (allow : State → Action → Prop) : State → State → Prop :=
  Relation.ReflTransGen (M.StepBy allow)

def anyAction : State → Action → Prop := fun _ _ => True

variable {M}

theorem Steps.refl {allow : State → Action → Prop} (s : State) : M.Steps allow s s :=
  Relation.ReflTransGen.refl

theorem Steps.tail {allow : State → Action → Prop} {s t u : State} {a : Action}
    (h : M.Steps allow s t) (ha : allow t a) (ht : M.step t a = some u) : M.Steps allow s u :=
  Relation.ReflTransGen.tail h ⟨a,ha,ht⟩

theorem Steps.head {allow : State → Action → Prop} {s t u : State} {a : Action}
    (ha : allow s a) (ht : M.step s a = some t) (h : M.Steps allow t u) : M.Steps allow s u :=
  Relation.ReflTransGen.head ⟨a,ha,ht⟩ h

theorem Steps.trans {allow : State → Action → Prop} {s t u : State}
    (h : M.Steps allow s t) (h' : M.Steps allow t u) : M.Steps allow s u :=
  Relation.ReflTransGen.trans h h'

theorem Steps.mono {allow allow' : State → Action → Prop} {s t : State}
    (hsub : ∀ s a, allow s a → allow' s a) (h : M.Steps allow s t) : M.Steps allow' s t :=
  Relation.ReflTransGen.mono (fun _ _ ⟨a,ha,ht⟩ => ⟨a,hsub _ _ ha,ht⟩) _ _ h

theorem Steps.any {allow : State → Action → Prop} {s t : State} (h : M.Steps allow s t) :
    M.Steps anyAction s t :=
  h.mono (fun _ _ _ => trivial)

theorem Steps.invariant {allow : State → Action → Prop} {Inv : State → Prop} {s t : State}
    (h : M.Steps allow s t) (hs : Inv s)
    (hstep : ∀ s a t, Inv s → allow s a → M.step s a = some t → Inv t) : Inv t := by
  induction h with
  | refl => exact hs
  | tail _ hlast ih =>
    obtain ⟨a,ha,ht⟩ := hlast
    exact hstep _ a _ ih ha ht

/-- The states of all allowed runs that start in an initial state. -/
def ReachableBy (M : Machine State Action) (init : State → Prop)
    (allow : State → Action → Prop) (t : State) : Prop :=
  ∃ s, init s ∧ M.Steps allow s t

theorem ReachableBy.steps {init : State → Prop} {allow : State → Action → Prop} {s t : State}
    (hs : M.ReachableBy init allow s) (h : M.Steps allow s t) : M.ReachableBy init allow t := by
  obtain ⟨s₀,hinit,hrun⟩ := hs
  exact ⟨s₀,hinit,hrun.trans h⟩

theorem ReachableBy.any {init : State → Prop} {allow : State → Action → Prop} {s : State}
    (hs : M.ReachableBy init allow s) : M.ReachableBy init anyAction s := by
  obtain ⟨s₀,hinit,hrun⟩ := hs
  exact ⟨s₀,hinit,hrun.any⟩

/-- Induction over the reachable states. A step is taken in a reachable state, so that the
invariants established before are at hand. -/
theorem ReachableBy.invariant {init : State → Prop} {allow : State → Action → Prop}
    {Inv : State → Prop} {t : State} (ht : M.ReachableBy init allow t)
    (hinit : ∀ s, init s → Inv s)
    (hstep : ∀ s a t, M.ReachableBy init allow s → Inv s → allow s a → M.step s a = some t →
      Inv t) : Inv t := by
  obtain ⟨s₀,hs₀,hrun⟩ := ht
  induction hrun with
  | refl => exact hinit _ hs₀
  | tail hpre hlast ih =>
    obtain ⟨a,ha,hnext⟩ := hlast
    exact hstep _ a _ ⟨s₀,hs₀,hpre⟩ ih ha hnext

/-- Execute a list of actions that all pass a check where they are taken. -/
def runWhere (M : Machine State Action) (check : State → Action → Bool) (s : State) :
    List Action → Option State
  | [] => some s
  | a :: as =>
      if check s a then
        match M.step s a with
        | none => none
        | some t => runWhere M check t as
      else none

theorem run_concat {s t u : State} {as : List Action} {a : Action} (h : M.run s as = some t)
    (ha : M.step t a = some u) : M.run s (as ++ [a]) = some u := by
  induction as generalizing s with
  | nil =>
    cases h
    simp [run,ha]
  | cons b bs ih =>
    rw [run] at h
    rw [List.cons_append,run]
    split at h
    · cases h
    · exact ih h

/-- The run of these actions from `s` goes through a state with `P`. -/
def Passes (M : Machine State Action) (P : State → Prop) (s : State) (as : List Action) : Prop :=
  ∃ before after t, as = before ++ after ∧ M.run s before = some t ∧ P t

theorem passes_of_run {P : State → Prop} {s t : State} {as : List Action}
    (h : M.run s as = some t) (ht : P t) : M.Passes P s as :=
  ⟨as,[],t,(List.append_nil as).symm,h,ht⟩

theorem Passes.concat {P : State → Prop} {s : State} {as : List Action} (h : M.Passes P s as)
    (a : Action) : M.Passes P s (as ++ [a]) := by
  obtain ⟨before,after,t,rfl,ht,hP⟩ := h
  exact ⟨before,after ++ [a],t,List.append_assoc before after [a],ht,hP⟩

theorem runWhere_concat {check : State → Action → Bool} {s u : State} {as : List Action}
    {a : Action} (h : M.runWhere check s (as ++ [a]) = some u) :
    ∃ t, M.runWhere check s as = some t ∧ check t a = true ∧ M.step t a = some u := by
  induction as generalizing s with
  | nil =>
    rw [List.nil_append,runWhere] at h
    split at h
    · rename_i hcheck
      split at h
      · cases h
      · rename_i v hv
        cases h
        exact ⟨s,rfl,hcheck,hv⟩
    · cases h
  | cons b bs ih =>
    rw [List.cons_append,runWhere] at h
    rw [runWhere]
    split at h
    · rename_i hcheck
      split at h
      · cases h
      · rw [if_pos hcheck]
        exact ih h
    · cases h

theorem runWhere_induction {check : State → Action → Bool} {s u : State}
    {P : List Action → State → Prop} (hnil : P [] s)
    (hconcat : ∀ as t a u, M.runWhere check s as = some t → P as t → check t a = true →
      M.step t a = some u → P (as ++ [a]) u)
    {as : List Action} (h : M.runWhere check s as = some u) : P as u := by
  induction as using List.reverseRecOn generalizing u with
  | nil =>
    cases h
    exact hnil
  | append_singleton as a ih =>
    obtain ⟨t,ht,hcheck,hstep⟩ := runWhere_concat h
    exact hconcat as t a u ht (ih ht) hcheck hstep

theorem runWhere_true (s : State) (as : List Action) :
    M.runWhere (fun _ _ => true) s as = M.run s as := by
  induction as generalizing s with
  | nil => rfl
  | cons a as ih =>
    rw [runWhere,run,if_pos rfl]
    cases M.step s a with
    | none => rfl
    | some t => exact ih t

/-- Induction over any executed list of actions. -/
theorem run_induction {s u : State} {P : List Action → State → Prop} (hnil : P [] s)
    (hconcat : ∀ as t a u, M.run s as = some t → P as t → M.step t a = some u → P (as ++ [a]) u)
    {as : List Action} (h : M.run s as = some u) : P as u := by
  rw [← runWhere_true] at h
  apply runWhere_induction hnil _ h
  intro as t a u ht hP _ hstep
  rw [runWhere_true] at ht
  exact hconcat as t a u ht hP hstep

theorem steps_of_runWhere {check : State → Action → Bool} {s t : State} {as : List Action}
    (h : M.runWhere check s as = some t) : M.Steps (fun s a => check s a = true) s t := by
  induction as generalizing s with
  | nil =>
    cases h
    exact Steps.refl _
  | cons a as ih =>
    rw [runWhere] at h
    split at h
    · rename_i hcheck
      split at h
      · cases h
      · rename_i u hu
        exact Steps.head hcheck hu (ih h)
    · cases h

theorem steps_of_run {s t : State} {as : List Action} (h : M.run s as = some t) :
    M.Steps (fun _ a => a ∈ as) s t := by
  induction as generalizing s with
  | nil =>
    cases h
    exact Steps.refl _
  | cons a as ih =>
    rw [run] at h
    split at h
    · cases h
    · rename_i u hu
      exact Steps.head (List.mem_cons_self) hu
        ((ih h).mono (fun _ _ hm => List.mem_cons_of_mem _ hm))

end Machine

end Concurrent
