import BtstackRs.Concurrent.Endless

/-!
# What leads to what

A progress argument goes through phases: whenever one thing holds, another holds in the end.
Within a phase a rank drops, or a step that can be taken again and again is taken. What is said of a
moment of an endless run is a predicate on its number.
-/

namespace Concurrent

universe u

/-- Whenever `P` holds, `Q` holds then or later. -/
def LeadsTo (P Q : Nat → Prop) : Prop := ∀ n, P n → ∃ m, n ≤ m ∧ Q m

namespace LeadsTo

variable {P Q : Nat → Prop}

theorem of_lasting (hlasts : ∀ m, P m → ¬Q m → P (m+1) ∨ Q (m+1))
    (hnever : ∀ n, (∀ m, n ≤ m → P m ∧ ¬Q m) → False) : LeadsTo P Q := by
  intro n hn
  by_contra hgoal
  have hnot : ∀ m, n ≤ m → ¬Q m := fun m hm hQ => hgoal ⟨m,hm,hQ⟩
  apply hnever n
  intro m hm
  refine ⟨?_,hnot m hm⟩
  induction hm with
  | refl => exact hn
  | step hm ih => exact (hlasts _ ih (hnot _ hm)).resolve_right (hnot _ (Nat.le_succ_of_le hm))

/-- What stays as it is until a step is taken gets to that step, if a step that could be taken for
ever is taken. -/
theorem of_fair {taken : Nat → Prop} (hstays : ∀ m, P m → ¬taken m → P (m+1))
    (hfair : ∀ n, (∀ m, n ≤ m → P m) → ∃ m, n ≤ m ∧ taken m) :
    LeadsTo P (fun m => P m ∧ taken m) := by
  apply of_lasting
  · exact fun m hP hnot => .inl (hstays m hP fun htaken => hnot ⟨hP,htaken⟩)
  · intro n hlasts
    obtain ⟨m,hm,htaken⟩ := hfair n fun m hm => (hlasts m hm).1
    exact (hlasts m hm).2 ⟨(hlasts m hm).1,htaken⟩

/-- A phase: as long as it lasts a rank drops or there is a pause, and the pauses end. -/
theorem of_rank (rank : Nat → Nat) (pauses : Nat → Prop)
    (hstep : ∀ m, P m → ¬Q m →
      Q (m+1) ∨ P (m+1) ∧ (rank (m+1) < rank m ∨ (pauses m ∧ rank (m+1) = rank m)))
    (hmoves : ∀ m, P m → ¬Q m → ∃ k, m ≤ k ∧ ¬pauses k) : LeadsTo P Q := by
  apply of_lasting
  · exact fun m hP hQ => (hstep m hP hQ).symm.imp_left And.left
  · intro n hlasts
    obtain ⟨m,hm,hQ⟩ := reaches_of_rank (n := n) rank Q pauses
      (fun m hm hQ => (hstep m (hlasts m hm).1 hQ).imp_right And.right)
      (fun m hm hQ => hmoves m (hlasts m hm).1 hQ)
    exact (hlasts m hm).2 hQ

theorem of_change {α : Type u} (f : Nat → α)
    (hstep : ∀ m, P m → ¬Q m → Q (m+1) ∨ P (m+1) ∧ f (m+1) = f m)
    (hmoves : ∀ m, P m → ¬Q m → ∃ k, m ≤ k ∧ f (k+1) ≠ f k) : LeadsTo P Q := by
  apply of_rank (fun _ => 0) (fun m => f (m+1) = f m)
  · exact fun m hP hQ => (hstep m hP hQ).imp_right (And.imp_right fun hsame => .inr ⟨hsame,rfl⟩)
  · exact hmoves

end LeadsTo

theorem reaches_of_grows {f : Nat → Nat} {bound n : Nat}
    (hgrows : ∀ m, n ≤ m → f m < bound → ∃ k, m ≤ k ∧ f m < f k) : ∃ m, n ≤ m ∧ bound ≤ f m := by
  have hreaches : ∀ gap m, n ≤ m → bound - f m = gap → ∃ k, n ≤ k ∧ bound ≤ f k := by
    intro gap
    induction gap using Nat.strongRecOn with
    | ind gap ih =>
      intro m hm hgap
      by_cases hbound : bound ≤ f m
      · exact ⟨m,hm,hbound⟩
      · obtain ⟨k,hk,hlt⟩ := hgrows m hm (Nat.not_le.mp hbound)
        exact ih (bound - f k) (by omega) k (Nat.le_trans hm hk) rfl
  exact hreaches _ n (Nat.le_refl n) rfl

end Concurrent
