import Mathlib.Logic.Relation

/-!
# Waiting without cycles

`waits a b` says that agent `a` cannot proceed before agent `b` does something. A rank that
decreases along every wait rules out cycles of any length, and leaves at the end of every
chain of waits an agent that waits for nobody.
-/

namespace Concurrent

universe u

variable {Agent : Type u} {waits : Agent → Agent → Prop}

def WaitCycle (waits : Agent → Agent → Prop) : Prop := ∃ a, Relation.TransGen waits a a

theorem rank_lt_of_transGen {rank : Agent → Nat} (h : ∀ a b, waits a b → rank b < rank a)
    {a b : Agent} (hab : Relation.TransGen waits a b) : rank b < rank a := by
  induction hab with
  | single hab => exact h _ _ hab
  | tail _ hbc ih => exact Nat.lt_trans (h _ _ hbc) ih

/-- Ranked waiting has no cycle. -/
theorem not_waitCycle_of_rank {rank : Agent → Nat}
    (h : ∀ a b, waits a b → rank b < rank a) : ¬ WaitCycle waits := by
  rintro ⟨a,hcycle⟩
  exact Nat.lt_irrefl _ (rank_lt_of_transGen h hcycle)

theorem exists_not_waiting_of_rank {rank : Agent → Nat}
    (h : ∀ a b, waits a b → rank b < rank a) (a : Agent) :
    ∃ b, Relation.ReflTransGen waits a b ∧ ∀ c, ¬ waits b c := by
  induction hr : rank a using Nat.strongRecOn generalizing a with
  | ind n ih =>
    by_cases hstuck : ∃ b, waits a b
    · obtain ⟨b,hab⟩ := hstuck
      obtain ⟨c,hbc,hc⟩ := ih (rank b) (hr ▸ h a b hab) b rfl
      exact ⟨c,Relation.ReflTransGen.head hab hbc,hc⟩
    · exact ⟨a,Relation.ReflTransGen.refl,fun c hc => hstuck ⟨c,hc⟩⟩

end Concurrent
