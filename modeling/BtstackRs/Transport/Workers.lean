import BtstackRs.Transport.Emission

/-!
# Worker threads

The record of a link names the three threads that were spawned for it. A worker is in its loop or
in a call of `emit_packet` from it; everything else on its stack was called by the handler. A
worker that has returned takes no further step.
-/

namespace BtstackRs.Transport

open Concurrent

def IsWorker (threads : Pool Role Frame) (w : Nat) : Prop :=
  ∃ role, threads.HasRole w role ∧ role ≠ .client

theorem hasRole_apply {σ : System} {t : Nat} {th : Thread Role Frame} (rest : List Frame)
    (d : Delta) (hthread : σ.threads[t]? = some th) {w : Nat} {role : Role}
    (h : σ.threads.HasRole w role) : (σ.apply t rest d).threads.HasRole w role := by
  obtain ⟨th',hth',hrole⟩ := h
  by_cases hw : w = t
  · subst hw
    rw [hthread] at hth'
    cases hth'
    exact ⟨_,getElem?_apply_self rest d hthread,hrole⟩
  · exact ⟨th',getElem?_apply_ne rest d hw hth',hrole⟩

theorem hasRole_step {σ σ' : System} {a : Action} (hstep : machine.step σ a = some σ') {t : Nat}
    {role : Role} (h : σ.threads.HasRole t role) : σ'.threads.HasRole t role := by
  obtain ⟨th,rest,d,hthread,hstack,hmove⟩ := step_moves hstep
  exact hasRole_apply rest d hthread h

private theorem hasRole_spawned {σ : System} (t : Nat) (rest : List Frame) {d : Delta}
    {role : Role} (hspawned : d.spawned = [role]) :
    (σ.apply t rest d).threads.HasRole σ.threads.length role :=
  ⟨{ role := role, stack := [] },by simp [System.apply,hspawned],rfl⟩

def ActiveTransport.workers (active : ActiveTransport) : List Nat :=
  active.readerThreads ++ [active.writerThread]

/-- The threads of a record are the workers of its link, one of each kind. -/
structure ActiveTransport.Recorded (threads : Pool Role Frame) (active : ActiveTransport) :
    Prop where
  readers : ∃ eventThread aclThread, active.readerThreads = [eventThread,aclThread] ∧
    threads.HasRole eventThread (.reader .event active.link) ∧
    threads.HasRole aclThread (.reader .acl active.link)
  writer : threads.HasRole active.writerThread (.writer active.link)

def SpawnPc.Recorded (threads : Pool Role Frame) (l : Nat) : SpawnPc → Prop
  | event => True
  | acl eventThread => threads.HasRole eventThread (.reader .event l)
  | writer eventThread aclThread =>
      threads.HasRole eventThread (.reader .event l) ∧ threads.HasRole aclThread (.reader .acl l)

def Section.Recorded (threads : Pool Role Frame) : Section → Prop
  | .openStore active => active.Recorded threads
  | _ => True

def Frame.Recorded (threads : Pool Role Frame) : Frame → Prop
  | .lock s | .locked s => s.Recorded threads
  | .openSpawn l pc => pc.Recorded threads l
  | .closeStop active | .closeJoinWriter active => active.Recorded threads
  | .closeJoinReaders active remaining =>
      active.Recorded threads ∧ ∀ w ∈ remaining, w ∈ active.readerThreads
  | _ => True

section Mono

variable {threads threads' : Pool Role Frame}
  (hmono : ∀ {w role}, threads.HasRole w role → threads'.HasRole w role)
include hmono

theorem ActiveTransport.Recorded.mono {active : ActiveTransport}
    (h : active.Recorded threads) : active.Recorded threads' := by
  obtain ⟨⟨eventThread,aclThread,hthreads,hevent,hacl⟩,hwriter⟩ := h
  exact ⟨⟨eventThread,aclThread,hthreads,hmono hevent,hmono hacl⟩,hmono hwriter⟩

theorem SpawnPc.Recorded.mono {l : Nat} {pc : SpawnPc} (h : pc.Recorded threads l) :
    pc.Recorded threads' l := by
  cases pc with
  | event => trivial
  | acl eventThread => exact hmono h
  | writer eventThread aclThread => exact ⟨hmono h.1,hmono h.2⟩

theorem Frame.Recorded.mono {f : Frame} (h : f.Recorded threads) : f.Recorded threads' := by
  cases f with
  | lock s | locked s =>
    cases s with
    | openStore active => exact ActiveTransport.Recorded.mono hmono h
    | _ => trivial
  | openSpawn l pc => exact SpawnPc.Recorded.mono hmono h
  | closeStop active => exact ActiveTransport.Recorded.mono hmono h
  | closeJoinReaders active remaining => exact ⟨ActiveTransport.Recorded.mono hmono h.1,h.2⟩
  | closeJoinWriter active => exact ActiveTransport.Recorded.mono hmono h
  | _ => trivial

end Mono

theorem ActiveTransport.Recorded.isWorker {threads : Pool Role Frame} {active : ActiveTransport}
    (h : active.Recorded threads) {w : Nat} (hw : w ∈ active.workers) : IsWorker threads w := by
  obtain ⟨⟨eventThread,aclThread,hthreads,hevent,hacl⟩,hwriter⟩ := h
  simp only [workers,hthreads,List.cons_append,List.nil_append,List.mem_cons,List.not_mem_nil,
    or_false] at hw
  obtain rfl | rfl | rfl := hw
  · exact ⟨_,hevent,by simp⟩
  · exact ⟨_,hacl,by simp⟩
  · exact ⟨_,hwriter,by simp⟩

structure WellRecorded (σ : System) : Prop where
  frames : ∀ (t : Nat) th f, σ.threads[t]? = some th → f ∈ th.stack → f.Recorded σ.threads
  active : ∀ active, σ.state.active = some active → active.Recorded σ.threads

private theorem move_recorded {σ : System} {t : Nat} {c : Choice} {role : Role}
    {rest : List Frame} {d : Delta} (h : Move σ t c role rest d) {threads' : Pool Role Frame}
    (hmono : ∀ {w role}, σ.threads.HasRole w role → threads'.HasRole w role)
    (hspawned : ∀ role, d.spawned = [role] → threads'.HasRole σ.threads.length role)
    (htop : ∀ g ∈ d.top, g.Recorded σ.threads)
    (hactive : ∀ active, σ.state.active = some active → active.Recorded σ.threads) {f : Frame}
    (hf : f ∈ d.top') : f.Recorded threads' := by
  have hkept : f.Recorded σ.threads → f.Recorded threads' := fun h => h.mono hmono
  cases h with
  | lock s hfree =>
    cases List.mem_singleton.mp hf
    have hlock : (Frame.lock s).Recorded σ.threads := htop _ (List.mem_singleton_self _)
    exact hkept hlock
  | sectionGoto s state g hsection =>
    cases List.mem_singleton.mp hf
    cases hsection with
    | closeTake active h => exact hkept (hactive active h)
    | _ => trivial
  | spawn l pc =>
    cases List.mem_singleton.mp hf
    have hspawn : (Frame.openSpawn l pc).Recorded σ.threads := htop _ (List.mem_singleton_self _)
    have hpc : pc.Recorded threads' l := SpawnPc.Recorded.mono hmono hspawn
    have hnew := hspawned _ rfl
    cases pc with
    | event => exact hnew
    | acl eventThread => exact ⟨hpc,hnew⟩
    | writer eventThread aclThread => exact ⟨⟨_,_,rfl,hpc.1,hpc.2⟩,hnew⟩
  | stop active link hlink =>
    cases List.mem_singleton.mp hf
    have hstop : (Frame.closeStop active).Recorded σ.threads := htop _ (List.mem_singleton_self _)
    exact hkept ⟨hstop,fun w hw => hw⟩
  | joinedReaders active =>
    cases List.mem_singleton.mp hf
    have hjoin : (Frame.closeJoinReaders active []).Recorded σ.threads :=
      htop _ (List.mem_singleton_self _)
    exact hkept hjoin.1
  | joinReader active v ws hfinished =>
    cases List.mem_singleton.mp hf
    have hjoin : (Frame.closeJoinReaders active (v :: ws)).Recorded σ.threads :=
      htop _ (List.mem_singleton_self _)
    obtain ⟨hrecorded,hremaining⟩ := hjoin
    exact hkept ⟨hrecorded,fun w hw => hremaining w (List.mem_cons_of_mem _ hw)⟩
  | openingClaim pc endpoints packet =>
    simp only [List.mem_cons,List.not_mem_nil,or_false] at hf
    obtain rfl | rfl := hf <;> trivial
  | call op s hchoice hcan henters =>
    cases List.mem_singleton.mp hf
    cases henters <;> trivial
  | sectionRet | openingFail | joinWriter | sendRet | leave | callRet | reader | writer => cases hf
  | _ =>
    cases List.mem_singleton.mp hf
    trivial

theorem wellRecorded_moves {σ σ' : System} {a : Action} (hσ : WellRecorded σ)
    (h : Moves σ a σ') : WellRecorded σ' := by
  obtain ⟨th,rest,d,hthread,hstack,hmove⟩ := h
  have hmono : ∀ {w role}, σ.threads.HasRole w role →
      (σ.apply a.thread rest d).threads.HasRole w role := fun h => hasRole_apply rest d hthread h
  have htop : ∀ g ∈ d.top, g.Recorded σ.threads := fun g hg =>
    hσ.frames a.thread th g hthread (by rw [hstack]; exact List.mem_append_left _ hg)
  constructor
  · intro t th' f hth' hf
    rcases mem_stack_apply hthread hstack hth' hf with ⟨_,_,hf⟩ | ⟨th₀,hth₀,_,hf⟩
    · exact move_recorded hmove hmono (fun role h => hasRole_spawned _ rest h) htop hσ.active hf
    · exact (hσ.frames t th₀ f hth₀ hf).mono hmono
  · intro active hactive
    have hold : σ.state.active = some active →
        active.Recorded (σ.apply a.thread rest d).threads :=
      fun h => (hσ.active active h).mono hmono
    cases hmove with
    | sectionGoto s state g hsection =>
      cases hsection with
      | closeTake taken h => cases hactive
      | _ => exact hold hactive
    | sectionRet s state result hsection =>
      cases hsection with
      | openStore stored =>
        cases hactive
        have hrecorded : active.Recorded σ.threads := htop _ (List.mem_singleton_self _)
        exact hrecorded.mono hmono
      | _ => exact hold hactive
    | _ => exact hold hactive

theorem Reachable.wellRecorded {σ : System} (h : Reachable σ) : WellRecorded σ := by
  apply h.invariant
  · intro clients handler
    constructor
    · intro t th f hth hf
      rw [(initial_thread hth).2] at hf
      cases hf
    · intro active hactive
      cases hactive
  · exact fun σ a σ' _ hσ hmoves => wellRecorded_moves hσ hmoves

end BtstackRs.Transport
