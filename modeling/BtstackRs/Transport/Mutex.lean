import BtstackRs.Transport.Step

/-!
# The mutex

The guard of `STATE` lives exactly as long as one block. The thread that holds the mutex is in
such a block, with nothing called from it, and no other thread is in one.
-/

namespace BtstackRs.Transport

open Concurrent

def Frame.holdsGuard : Frame → Nat
  | .locked _ => 1
  | _ => 0

structure MutexOwned (σ : System) : Prop where
  guards : Pool.total Frame.holdsGuard σ.threads = if σ.mutex.isSome then 1 else 0
  owner : ∀ t, σ.mutex = some t →
    ∃ th s rest, σ.threads[t]? = some th ∧ th.stack = .locked s :: rest

inductive MutexMove (σ : System) (t : Nat) (d : Delta) : Prop where
  | taken (s s' : Section) (hfree : σ.mutex = none) (htop : d.top = [.lock s])
      (htop' : d.top' = [.locked s']) (hmutex : d.mutex = some t)
  | released (s : Section) (htop : d.top = [.locked s])
      (htop' : Pool.stackWeight Frame.holdsGuard d.top' = 0) (hmutex : d.mutex = none)
  | kept (htop : Pool.stackWeight Frame.holdsGuard d.top = 0)
      (htop' : Pool.stackWeight Frame.holdsGuard d.top' = 0) (hmutex : d.mutex = σ.mutex)

theorem Move.mutexMove {σ : System} {t : Nat} {c : Choice} {role : Role} {rest : List Frame}
    {d : Delta} (h : Move σ t c role rest d) : MutexMove σ t d := by
  cases h with
  | lock s hfree => exact .taken s s hfree rfl rfl rfl
  | sectionGoto s state g hsection => exact .released s rfl (by cases hsection <;> rfl) rfl
  | sectionRet s state result hsection => exact .released s rfl rfl rfl
  | spawn l pc => exact .kept rfl (by cases pc <;> rfl) rfl
  | _ => exact .kept rfl rfl rfl

private theorem not_locked_of_kept {σ : System} {t : Nat} {c : Choice} {role : Role}
    {rest : List Frame} {d : Delta} (h : Move σ t c role rest d)
    (htop : Pool.stackWeight Frame.holdsGuard d.top = 0) {s : Section} {rest' : List Frame} :
    d.top ++ rest ≠ .locked s :: rest' := by
  intro heq
  cases htop' : d.top with
  | cons f fs =>
    rw [htop'] at heq htop
    simp only [List.cons_append,List.cons.injEq] at heq
    rw [heq.1] at htop
    simp [Frame.holdsGuard] at htop
  | nil =>
    rw [htop',List.nil_append] at heq
    subst heq
    cases h with
    | call op s hchoice hcan henters => cases hcan
    | callRet op result hchoice hcan henter => cases hcan
    | reader kind l link r hrole hrest hlink hreader hquiet => cases hrest
    | readerDeliver kind l link r data hrole hrest hlink hreader hdata => cases hrest
    | writer l link link' hrole hrest hlink hwriter hquiet => cases hrest
    | writerAcknowledge l link link' hrole hrest hlink hwriter hack => cases hrest
    | _ => cases htop'

theorem mutexOwned_moves {σ σ' : System} {a : Action} (hσ : MutexOwned σ) (h : Moves σ a σ') :
    MutexOwned σ' := by
  obtain ⟨th,rest,d,hthread,hstack,hmove⟩ := h
  have hsum := total_apply Frame.holdsGuard hthread hstack
  have hguards := hσ.guards
  have hle := Pool.stackWeight_le_total Frame.holdsGuard hthread
  rw [hstack,Pool.stackWeight_append] at hle
  cases hmove.mutexMove with
  | taken s s' hfree htop htop' hmutex =>
    have hnone : Pool.total Frame.holdsGuard σ.threads = 0 := by
      rw [hguards,hfree]
      rfl
    simp only [htop,htop',Pool.stackWeight_cons,Pool.stackWeight_nil,Frame.holdsGuard] at hsum
    constructor
    · rw [show (σ.apply a.thread rest d).mutex = d.mutex from rfl,hmutex]
      change _ = 1
      omega
    · intro t ht
      obtain rfl : a.thread = t := by simpa [System.apply,hmutex] using ht
      exact ⟨_,s',rest,getElem?_apply_self rest d hthread,by simp [htop']⟩
  | released s htop htop' hmutex =>
    have hone : Pool.total Frame.holdsGuard σ.threads ≤ 1 := by
      rw [hguards]
      split <;> decide
    simp only [htop,htop',Pool.stackWeight_cons,Pool.stackWeight_nil,Frame.holdsGuard] at hsum hle
    constructor
    · rw [show (σ.apply a.thread rest d).mutex = d.mutex from rfl,hmutex]
      change _ = 0
      omega
    · intro t ht
      simp [System.apply,hmutex] at ht
  | kept htop htop' hmutex =>
    constructor
    · simp only [System.apply,hmutex] at hsum ⊢
      omega
    · intro t ht
      rw [show (σ.apply a.thread rest d).mutex = d.mutex from rfl,hmutex] at ht
      obtain ⟨th₀,s,rest₀,hth₀,hstack₀⟩ := hσ.owner t ht
      have hne : t ≠ a.thread := by
        rintro rfl
        rw [hthread] at hth₀
        cases hth₀
        exact not_locked_of_kept hmove htop (hstack.symm.trans hstack₀)
      exact ⟨th₀,s,rest₀,getElem?_apply_ne rest d hne hth₀,hstack₀⟩

theorem Reachable.mutexOwned {σ : System} (h : Reachable σ) : MutexOwned σ := by
  apply h.invariant
  · intro clients handler
    exact ⟨total_initial _ clients handler,fun t ht => by cases ht⟩
  · exact fun σ a σ' _ hσ hmoves => mutexOwned_moves hσ hmoves

theorem MutexOwned.eq_of_locked {σ : System} (hσ : MutexOwned σ) {t : Nat}
    {th : Thread Role Frame} (hthread : σ.threads[t]? = some th) {s : Section}
    (hlocked : .locked s ∈ th.stack) : σ.mutex = some t := by
  have hguards := hσ.guards
  have hle := Pool.le_total Frame.holdsGuard hthread hlocked
  simp only [Frame.holdsGuard] at hle
  cases howner : σ.mutex with
  | none =>
    rw [hguards,howner] at hle
    simp at hle
  | some u =>
    obtain ⟨thu,su,restu,hthu,hstacku⟩ := hσ.owner u howner
    by_cases hu : u = t
    · rw [hu]
    · have hmem : Frame.locked su ∈ thu.stack := by simp [hstacku]
      have htwo := Pool.add_le_total Frame.holdsGuard hthread hthu hu hlocked hmem
      rw [hguards,howner] at htwo
      simp [Frame.holdsGuard] at htwo

end BtstackRs.Transport
