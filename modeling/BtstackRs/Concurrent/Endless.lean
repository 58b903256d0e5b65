import BtstackRs.Concurrent.Machine

/-!
# Endless runs

A run that goes on for ever, in which the machine may also stand still. That something happens
on it in the end is shown by a rank: a number that drops with every step that is not a pause.
-/

namespace Concurrent

universe u v

namespace Machine

variable {State : Type u} {Action : Type v} {M : Machine State Action}
  {allow : State → Action → Prop}

/-- An infinite run of allowed steps and pauses. -/
def Endless (M : Machine State Action) (allow : State → Action → Prop) (s : Nat → State) : Prop :=
  ∀ n, s (n+1) = s n ∨ M.StepBy allow (s n) (s (n+1))

theorem Endless.steps {s : Nat → State} (h : M.Endless allow s) (n : Nat) :
    M.Steps allow (s 0) (s n) := by
  induction n with
  | zero => exact .refl _
  | succ n ih =>
    rcases h n with hsame | hstep
    · rwa [hsame]
    · exact Relation.ReflTransGen.tail ih hstep

theorem Endless.mono {allow' : State → Action → Prop} {s : Nat → State}
    (hsub : ∀ s a, allow s a → allow' s a) (h : M.Endless allow s) : M.Endless allow' s :=
  fun n => (h n).imp_right fun ⟨a,ha,ht⟩ => ⟨a,hsub _ _ ha,ht⟩

theorem Endless.after {s t : State} {u : Nat → State} (h : M.Endless allow u)
    (hrun : M.Steps allow s t) (ht : u 0 = t) :
    ∃ (v : Nat → State) (N : Nat), v 0 = s ∧ (∀ n, v (N+n) = u n) ∧ M.Endless allow v := by
  induction hrun using Relation.ReflTransGen.head_induction_on with
  | refl => exact ⟨u,0,ht,fun n => by rw [Nat.zero_add],h⟩
  | @head s s' hstep _ ih =>
    obtain ⟨v,N,hstart,hlater,hv⟩ := ih
    refine ⟨fun n => Nat.casesOn n s v,N+1,rfl,?_,?_⟩
    · intro n
      rw [Nat.add_right_comm]
      exact hlater n
    · intro n
      cases n with
      | zero =>
        right
        show M.StepBy allow s (v 0)
        rwa [hstart]
      | succ n => exact hv n

theorem endless_of_steps {s t : State} (h : M.Steps allow s t) :
    ∃ (u : Nat → State) (N : Nat), u 0 = s ∧ (∀ n, N ≤ n → u n = t) ∧ M.Endless allow u := by
  obtain ⟨u,N,hstart,hlater,hrun⟩ := Endless.after (u := fun _ => t) (fun _ => .inl rfl) h rfl
  refine ⟨u,N,hstart,fun n hn => ?_,hrun⟩
  rw [← hlater (n-N),Nat.add_sub_cancel' hn]

end Machine

section Ranks

variable {n : Nat}

private theorem rank_le_of_le {rank : Nat → Nat} (h : ∀ m, n ≤ m → rank (m+1) ≤ rank m)
    {m k : Nat} (hn : n ≤ m) (hk : m ≤ k) : rank k ≤ rank m := by
  induction hk with
  | refl => exact Nat.le_refl _
  | step hk ih => exact Nat.le_trans (h _ (Nat.le_trans hn hk)) ih

/-- A rank that drops whenever there is no pause leads to the goal, unless the pauses go on for
ever. -/
theorem reaches_of_rank (rank : Nat → Nat) (goal pauses : Nat → Prop)
    (hstep : ∀ m, n ≤ m → ¬goal m →
      goal (m+1) ∨ rank (m+1) < rank m ∨ (pauses m ∧ rank (m+1) = rank m))
    (hmoves : ∀ m, n ≤ m → ¬goal m → ∃ k, m ≤ k ∧ ¬pauses k) : ∃ m, n ≤ m ∧ goal m := by
  by_contra hnever
  have hgoal : ∀ m, n ≤ m → ¬goal m := fun m hm h => hnever ⟨m,hm,h⟩
  have hdrop : ∀ m, n ≤ m → rank (m+1) < rank m ∨ (pauses m ∧ rank (m+1) = rank m) := by
    intro m hm
    exact (hstep m hm (hgoal m hm)).resolve_left (hgoal (m+1) (by omega))
  have hle : ∀ m, n ≤ m → rank (m+1) ≤ rank m := by
    intro m hm
    rcases hdrop m hm with hlt | ⟨-,heq⟩
    · exact Nat.le_of_lt hlt
    · exact Nat.le_of_eq heq
  have hnone : ∀ r m, n ≤ m → rank m = r → False := by
    intro r
    induction r using Nat.strongRecOn with
    | ind r ih =>
      intro m hm hr
      obtain ⟨k,hk,hmoves⟩ := hmoves m hm (hgoal m hm)
      have hbefore := rank_le_of_le hle hm hk
      rcases hdrop k (by omega) with hlt | ⟨hpause,-⟩
      · exact ih (rank (k+1)) (by omega) (k+1) (by omega) rfl
      · exact hmoves hpause
  exact hnone (rank n) n (Nat.le_refl n) rfl

theorem exists_change {α : Type u} {f : Nat → α} {k : Nat} (hk : n ≤ k) (h : f k ≠ f n) :
    ∃ m, n ≤ m ∧ f (m+1) ≠ f m := by
  by_contra hnever
  have hsame : ∀ m, n ≤ m → f m = f n := by
    intro m hm
    induction hm with
    | refl => rfl
    | step hm ih => exact (not_not.mp (fun hne => hnever ⟨_,hm,hne⟩)).trans ih
  exact h (hsame k hk)

end Ranks

end Concurrent
