import BtstackRs.Concurrent.Machine

/-!
# What runs cost

Steps of a run are weighed, and weights are added up along it. A potential pays for steps before
they are taken: if no step costs more than what it takes from the potential and what somebody
else pays for it, the whole run costs no more than the potential at its start and all payments.
-/

namespace Concurrent

universe u v

namespace Machine

variable {State : Type u} {Action : Type v} (M : Machine State Action)

def cost (weight : State → Action → State → Nat) (s : State) : List Action → Nat
  | [] => 0
  | a :: as =>
      match M.step s a with
      | none => 0
      | some t => weight s a t + cost weight t as

variable {M}

theorem cost_concat (weight : State → Action → State → Nat) {s t u : State} {as : List Action}
    {a : Action} (h : M.run s as = some t) (ha : M.step t a = some u) :
    M.cost weight s (as ++ [a]) = M.cost weight s as + weight t a u := by
  induction as generalizing s with
  | nil =>
    cases h
    simp [cost,ha]
  | cons b bs ih =>
    rw [run] at h
    rw [List.cons_append,cost,cost]
    cases hv : M.step s b with
    | none =>
      rw [hv] at h
      cases h
    | some v =>
      rw [hv] at h
      exact (congrArg (weight s b v + ·) (ih h)).trans (Nat.add_assoc _ _ _).symm

theorem cost_add (weight weight' : State → Action → State → Nat) (s : State) (as : List Action) :
    M.cost (fun s a t => weight s a t + weight' s a t) s as =
      M.cost weight s as + M.cost weight' s as := by
  induction as generalizing s with
  | nil => rfl
  | cons a as ih =>
    simp only [cost]
    split
    · rfl
    · rename_i t ht
      simp only [ih t]
      omega

/-- A run in which a mark that never falls stands still costs no more than it started with and
was paid. The potential is a relation, since it need not be there once the mark has risen. -/
theorem cost_le_of_potential {mark : State → Nat} {potential : State → Nat → Prop}
    {weight paid : State → Action → State → Nat}
    (hmono : ∀ s a t, M.step s a = some t → mark s ≤ mark t)
    (hstep : ∀ s a t n, potential s n → M.step s a = some t → mark t ≤ mark s →
      ∃ m, potential t m ∧ weight s a t + m ≤ n + paid s a t)
    {s t : State} {as : List Action} {n : Nat} (hs : potential s n) (hrun : M.run s as = some t)
    (hstill : mark t ≤ mark s) :
    ∃ m, potential t m ∧ M.cost weight s as + m ≤ n + M.cost paid s as := by
  have hphase : mark s ≤ mark t ∧ (mark t ≤ mark s →
      ∃ m, potential t m ∧ M.cost weight s as + m ≤ n + M.cost paid s as) := by
    clear hstill
    refine run_induction (P := fun as t => mark s ≤ mark t ∧ (mark t ≤ mark s →
      ∃ m, potential t m ∧ M.cost weight s as + m ≤ n + M.cost paid s as)) ?_ ?_ hrun
    · exact ⟨Nat.le_refl _,fun _ => ⟨n,hs,by simp [cost]⟩⟩
    · intro as t a u hrun ih ha
      have hrise := hmono t a u ha
      refine ⟨Nat.le_trans ih.1 hrise,fun hstill => ?_⟩
      obtain ⟨m,hm,hle⟩ := ih.2 (Nat.le_trans hrise hstill)
      obtain ⟨m',hm',hle'⟩ := hstep t a u m hm ha (Nat.le_trans hstill ih.1)
      refine ⟨m',hm',?_⟩
      rw [cost_concat weight hrun ha,cost_concat paid hrun ha]
      omega
  exact hphase.2 hstill

end Machine

end Concurrent
