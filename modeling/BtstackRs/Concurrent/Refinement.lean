import BtstackRs.Concurrent.Machine

/-!
# Refinement by histories

A machine that keeps a history of what it does refines a specification when the history, read as
actions of the specification, is one of its runs, and the specification ends in the state that the
abstraction makes of the machine's. A step may add any number of actions to the history, none
included.
-/

namespace Concurrent

universe u v w x

namespace Machine

variable {State : Type u} {Action : Type v} {Spec : Type w} {Label : Type x}
  {M : Machine State Action} {N : Machine Spec Label}

theorem run_append {s t : State} {as : List Action} (h : M.run s as = some t)
    (bs : List Action) : M.run s (as ++ bs) = M.run t bs := by
  induction as generalizing s with
  | nil =>
    cases h
    rfl
  | cons a as ih =>
    rw [run] at h
    rw [List.cons_append,run]
    split at h
    · cases h
    · exact ih h

theorem run_split {s u : State} {as bs : List Action} (h : M.run s (as ++ bs) = some u) :
    ∃ t, M.run s as = some t ∧ M.run t bs = some u := by
  induction as generalizing s with
  | nil => exact ⟨s,rfl,h⟩
  | cons a as ih =>
    rw [List.cons_append,run] at h
    rw [run]
    split at h
    · cases h
    · exact ih h

/-- What the history has of a state, and what the state is to the specification, agree. -/
def Explained (N : Machine Spec Label) (t₀ : Spec) (observe : State → List Label)
    (abstract : State → Spec) (s : State) : Prop :=
  N.run t₀ (observe s) = some (abstract s)

theorem Explained.step {t₀ : Spec} {observe : State → List Label} {abstract : State → Spec}
    {s s' : State} (h : Explained N t₀ observe abstract s) {new : List Label}
    (hnew : observe s' = observe s ++ new) (hrun : N.run (abstract s) new = some (abstract s')) :
    Explained N t₀ observe abstract s' := by
  rw [Explained,hnew,run_append h,hrun]

/-- A simulation step by step is a refinement of all runs. -/
theorem ReachableBy.explained {init : State → Prop} {allow : State → Action → Prop} {t₀ : Spec}
    {observe : State → List Label} {abstract : State → Spec} {s : State}
    (h : M.ReachableBy init allow s)
    (hinit : ∀ s, init s → observe s = [] ∧ abstract s = t₀)
    (hstep : ∀ s a s', M.ReachableBy init allow s → allow s a → M.step s a = some s' →
      ∃ new, observe s' = observe s ++ new ∧ N.run (abstract s) new = some (abstract s')) :
    Explained N t₀ observe abstract s := by
  apply h.invariant
  · intro s hs
    obtain ⟨hobserve,habstract⟩ := hinit s hs
    rw [Explained,hobserve,habstract]
    rfl
  · intro s a s' hreach hs hallow hnext
    obtain ⟨new,hnew,hrun⟩ := hstep s a s' hreach hallow hnext
    exact hs.step hnew hrun

end Machine

end Concurrent
