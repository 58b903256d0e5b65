import BtstackRs.Concurrent.Waiting
import BtstackRs.Transport.Mutex
import BtstackRs.Transport.Workers

/-!
# Waiting

A thread waits for the mutex or for a thread it joins; nothing else in the transport blocks until
another thread acts. The holder of the mutex never waits. A join only ever waits for a worker,
so the only cycles there can be run through a `transport_close` on a worker thread.
-/

namespace BtstackRs.Transport

open Concurrent

inductive Waits (σ : System) : Nat → Nat → Prop where
  | state (t owner : Nat) (th : Thread Role Frame) (s : Section) (rest : List Frame)
      (hthread : σ.threads[t]? = some th) (hstack : th.stack = .lock s :: rest)
      (hmutex : σ.mutex = some owner) : Waits σ t owner
  | joinReader (t w : Nat) (th : Thread Role Frame) (active : ActiveTransport) (ws : List Nat)
      (rest : List Frame) (hthread : σ.threads[t]? = some th)
      (hstack : th.stack = .closeJoinReaders active (w :: ws) :: rest)
      (hrunning : σ.finished w = false) : Waits σ t w
  | joinWriter (t : Nat) (th : Thread Role Frame) (active : ActiveTransport) (rest : List Frame)
      (hthread : σ.threads[t]? = some th) (hstack : th.stack = .closeJoinWriter active :: rest)
      (hrunning : σ.finished active.writerThread = false) : Waits σ t active.writerThread

def System.waitsFor (σ : System) (t : Nat) : Option Nat :=
  match σ.threads[t]? with
  | none => none
  | some th =>
      match th.stack with
      | .lock _ :: _ => σ.mutex
      | .closeJoinReaders _ (w :: _) :: _ => if σ.finished w then none else some w
      | .closeJoinWriter active :: _ =>
          if σ.finished active.writerThread then none else some active.writerThread
      | _ => none

theorem waits_iff {σ : System} {t u : Nat} : Waits σ t u ↔ σ.waitsFor t = some u := by
  constructor
  · intro h
    cases h with
    | state owner th s rest hthread hstack hmutex => simp [System.waitsFor,hthread,hstack,hmutex]
    | joinReader w th active ws rest hthread hstack hrunning =>
      simp [System.waitsFor,hthread,hstack,hrunning]
    | joinWriter th active rest hthread hstack hrunning =>
      simp [System.waitsFor,hthread,hstack,hrunning]
  · intro h
    unfold System.waitsFor at h
    split at h
    · cases h
    · rename_i th hthread
      split at h
      · rename_i s rest hstack
        exact .state t u th s rest hthread hstack h
      · rename_i active w ws rest hstack
        split at h
        · cases h
        · rename_i hrunning
          cases h
          exact .joinReader t u th active ws rest hthread hstack (by simpa using hrunning)
      · rename_i active rest hstack
        split at h
        · cases h
        · rename_i hrunning
          cases h
          exact .joinWriter t th active rest hthread hstack (by simpa using hrunning)
      · cases h

theorem Waits.blocked {σ : System} {t u : Nat} (h : Waits σ t u) (c : Choice) :
    machine.step σ ⟨t,c⟩ = none := by
  cases h with
  | state owner th s rest hthread hstack hmutex =>
    simp [machine,System.step,hthread,hstack,System.frameStep,hmutex]
  | joinReader w th active ws rest hthread hstack hrunning =>
    simp [machine,System.step,hthread,hstack,System.frameStep,hrunning]
  | joinWriter th active rest hthread hstack hrunning =>
    simp [machine,System.step,hthread,hstack,System.frameStep,hrunning]

private theorem link_of_mentions {σ : System} (h : WellScoped σ) {t : Nat}
    {th : Thread Role Frame} {f : Frame} {rest : List Frame} (hthread : σ.threads[t]? = some th)
    (hstack : th.stack = f :: rest) {l : Nat} (hmentions : f.mentions l = 1) :
    ∃ link, σ.links[l]? = some link := by
  have hlt : l < σ.links.length := by
    by_contra hge
    have hle := Pool.le_total (Frame.mentions l) hthread (by rw [hstack]; exact List.mem_cons_self)
    rw [h.frames l (Nat.not_lt.mp hge),hmentions] at hle
    omega
  exact ⟨_,List.getElem?_eq_getElem hlt⟩

/-- A thread in a call that no scheduling lets go on waits for some thread. -/
theorem waits_of_blocked {σ : System} (h : Reachable σ) {t : Nat} {th : Thread Role Frame}
    {f : Frame} {rest : List Frame} (hthread : σ.threads[t]? = some th)
    (hstack : th.stack = f :: rest) (hblocked : machine.step σ ⟨t,.go⟩ = none) :
    ∃ u, Waits σ t u := by
  simp only [machine,System.step,hthread,hstack] at hblocked
  cases f with
  | lock s =>
    cases hmutex : σ.mutex with
    | none => simp [System.frameStep,hmutex] at hblocked
    | some owner => exact ⟨owner,.state t owner th s rest hthread hstack hmutex⟩
  | closeStop active =>
    obtain ⟨link,hlink⟩ := link_of_mentions h.wellScoped hthread hstack (if_pos rfl)
    simp [System.frameStep,hlink] at hblocked
  | send call handles pc =>
    obtain ⟨link,hlink⟩ := link_of_mentions h.wellScoped hthread hstack (if_pos rfl)
    simp [System.frameStep,hlink] at hblocked
  | closeJoinReaders active remaining =>
    cases remaining with
    | nil => simp [System.frameStep] at hblocked
    | cons w ws =>
      have hrunning : σ.finished w = false := by simpa [System.frameStep] using hblocked
      exact ⟨w,.joinReader t w th active ws rest hthread hstack hrunning⟩
  | closeJoinWriter active =>
    have hrunning : σ.finished active.writerThread = false := by
      simpa [System.frameStep] using hblocked
    exact ⟨_,.joinWriter t th active rest hthread hstack hrunning⟩
  | _ => simp [System.frameStep] at hblocked

/-- A `transport_close` on a worker thread is about to take the record of an open transport. -/
def System.closesOnWorker (σ : System) (a : Action) : Bool :=
  match σ.threads[a.thread]? with
  | none => false
  | some th =>
      match th.stack with
      | .locked .closeTake :: _ => σ.state.active.isSome && th.role != .client
      | _ => false

/-- Open transports are not closed on worker threads. -/
def ClosesOnClient (σ : System) (a : Action) : Prop := (!σ.closesOnWorker a) = true

def Frame.closes : Frame → Bool
  | .closeStop _ | .closeJoinReaders _ _ | .closeJoinWriter _ => true
  | _ => false

def ClosersAreClients (σ : System) : Prop :=
  ∀ (t : Nat) th f, σ.threads[t]? = some th → f ∈ th.stack → f.closes → th.role = .client

private theorem move_closes {σ : System} {t : Nat} {c : Choice} {role : Role} {rest : List Frame}
    {d : Delta} (h : Move σ t c role rest d) {f : Frame} (hf : f ∈ d.top') (hcloses : f.closes) :
    (∃ g ∈ d.top, g.closes) ∨ (d.top = [.locked .closeTake] ∧ σ.state.active.isSome) := by
  cases h with
  | sectionGoto s state g hsection =>
    cases List.mem_singleton.mp hf
    cases hsection with
    | closeTake active hactive => exact .inr ⟨rfl,by rw [hactive]; rfl⟩
    | _ => cases hcloses
  | stop | joinedReaders | joinReader => exact .inl ⟨_,List.mem_singleton_self _,rfl⟩
  | spawn l pc =>
    cases List.mem_singleton.mp hf
    cases pc <;> cases hcloses
  | openingClaim pc endpoints packet =>
    simp only [List.mem_cons,List.not_mem_nil,or_false] at hf
    obtain rfl | rfl := hf <;> cases hcloses
  | sectionRet | openingFail | joinWriter | sendRet | leave | callRet | reader | writer => cases hf
  | _ =>
    cases List.mem_singleton.mp hf
    cases hcloses

theorem closersAreClients_moves {σ σ' : System} {a : Action} (hσ : ClosersAreClients σ)
    (hallow : ClosesOnClient σ a) (h : Moves σ a σ') : ClosersAreClients σ' := by
  obtain ⟨th,rest,d,hthread,hstack,hmove⟩ := h
  intro t th' f hth' hf hcloses
  rcases mem_stack_apply hthread hstack hth' hf with ⟨_,hrole,hf⟩ | ⟨th₀,hth₀,hrole,hf⟩
  · rw [hrole]
    obtain ⟨g,hg,hg'⟩ | ⟨htop,hactive⟩ := move_closes hmove hf hcloses
    · exact hσ a.thread th g hthread (by rw [hstack]; exact List.mem_append_left _ hg) hg'
    · simpa [ClosesOnClient,System.closesOnWorker,hthread,hstack,htop,hactive] using hallow
  · rw [← hrole]
    exact hσ t th₀ f hth₀ hf hcloses

/-- Joiners wait for workers, which may wait for the mutex, whose holder does not wait. -/
def Frame.waitRank : Frame → Nat
  | .lock _ => 1
  | .closeJoinReaders _ _ | .closeJoinWriter _ => 2
  | _ => 0

def waitRank (σ : System) (t : Nat) : Nat :=
  match σ.threads[t]? with
  | none => 0
  | some th => (th.stack.head?).elim 0 Frame.waitRank

private theorem waitRank_eq {σ : System} {t : Nat} {th : Thread Role Frame} {f : Frame}
    {rest : List Frame} (hthread : σ.threads[t]? = some th) (hstack : th.stack = f :: rest) :
    waitRank σ t = f.waitRank := by
  simp [waitRank,hthread,hstack]

private theorem waitRank_worker {σ : System} (hclosers : ClosersAreClients σ) {w : Nat}
    (hw : IsWorker σ.threads w) : waitRank σ w < 2 := by
  obtain ⟨_,⟨th,hthread,rfl⟩,hrole⟩ := hw
  cases hstack : th.stack with
  | nil => simp [waitRank,hthread,hstack]
  | cons f rest =>
    rw [waitRank_eq hthread hstack]
    have hopen : f.closes ≠ true :=
      fun hcloses => hrole (hclosers w th f hthread (by rw [hstack]; exact List.mem_cons_self)
        hcloses)
    cases f with
    | closeJoinReaders active remaining => exact absurd rfl hopen
    | closeJoinWriter active => exact absurd rfl hopen
    | _ => simp [Frame.waitRank]

theorem Waits.waitRank_lt {σ : System} (hmutex : MutexOwned σ) (hrecorded : WellRecorded σ)
    (hclosers : ClosersAreClients σ) {t u : Nat} (h : Waits σ t u) :
    waitRank σ u < waitRank σ t := by
  cases h with
  | state owner th s rest hthread hstack howner =>
    obtain ⟨th',s',rest',hthread',hstack'⟩ := hmutex.owner u howner
    rw [waitRank_eq hthread hstack,waitRank_eq hthread' hstack']
    exact Nat.zero_lt_one
  | joinReader w th active ws rest hthread hstack hrunning =>
    rw [waitRank_eq hthread hstack]
    have hjoin : (Frame.closeJoinReaders active (u :: ws)).Recorded σ.threads :=
      hrecorded.frames t th _ hthread (by rw [hstack]; exact List.mem_cons_self)
    obtain ⟨hactive,hremaining⟩ := hjoin
    have hworker := hremaining u List.mem_cons_self
    exact waitRank_worker hclosers (hactive.isWorker (List.mem_append_left _ hworker))
  | joinWriter th active rest hthread hstack hrunning =>
    rw [waitRank_eq hthread hstack]
    have hactive : (Frame.closeJoinWriter active).Recorded σ.threads :=
      hrecorded.frames t th _ hthread (by rw [hstack]; exact List.mem_cons_self)
    exact waitRank_worker hclosers
      (hactive.isWorker (List.mem_append_right _ (List.mem_singleton_self _)))

/-- As long as a `transport_close` on a worker thread finds nothing to close, no set of threads
wait for one another, and every chain of waits ends at a thread that waits for nobody. -/
theorem no_waitCycle {σ : System} (h : machine.ReachableBy Initial ClosesOnClient σ) :
    ¬ WaitCycle (Waits σ) ∧
      ∀ t, ∃ u, Relation.ReflTransGen (Waits σ) t u ∧ ∀ v, ¬ Waits σ u v := by
  have hreach : Reachable σ := h.any
  have hclosers : ClosersAreClients σ := by
    apply h.invariant
    · rintro _ ⟨clients,handler,rfl⟩ t th f hth hf
      rw [(initial_thread hth).2] at hf
      cases hf
    · exact fun σ a σ' _ hσ hallow hstep => closersAreClients_moves hσ hallow (step_moves hstep)
  have hrank : ∀ t u, Waits σ t u → waitRank σ u < waitRank σ t :=
    fun t u hwaits => hwaits.waitRank_lt hreach.mutexOwned hreach.wellRecorded hclosers
  exact ⟨not_waitCycle_of_rank hrank,exists_not_waiting_of_rank hrank⟩

/-- A client closes and waits for the event reader, which polls a silent device. -/
theorem no_waitCycle_joining : ∃ σ, Waits σ 0 1 ∧ ¬ WaitCycle (Waits σ) ∧
    ∀ t, ∃ u, Relation.ReflTransGen (Waits σ) t u ∧ ∀ v, ¬ Waits σ u v := by
  have hrun : ((machine.runWhere (fun σ a => !σ.closesOnWorker a) (System.initial 1 none)
      (openRun 0 dongle dongleInterface [] ++ Action.by 1 [.go] ++
        Action.by 0 [.call .transportClose,.go,.go,.go])).bind fun σ => σ.waitsFor 0) =
      some 1 := rfl
  obtain ⟨σ,hσ,hwaits⟩ := Option.bind_eq_some_iff.mp hrun
  have hreach : machine.ReachableBy Initial ClosesOnClient σ :=
    ⟨_,⟨1,none,rfl⟩,Machine.steps_of_runWhere hσ⟩
  exact ⟨σ,waits_iff.mpr hwaits,no_waitCycle hreach⟩

/-- The event reader delivers an event, and the handler closes the transport: the reader joins
itself. -/
theorem closeInDelivery_joinsItself : ∃ σ,
    machine.run (System.initial 1 (some 7))
      (openRun 0 dongle dongleInterface [.go,.go] ++
        Action.by 1 [.go,.completion ⟨.ok,[14]⟩,.go,.go,.go,.go,.call .transportClose,
          .go,.go,.go]) = some σ ∧
    Waits σ 1 1 := by
  have hrun : ((machine.run (System.initial 1 (some 7))
      (openRun 0 dongle dongleInterface [.go,.go] ++
        Action.by 1 [.go,.completion ⟨.ok,[14]⟩,.go,.go,.go,.go,.call .transportClose,
          .go,.go,.go])).bind fun σ => σ.waitsFor 1) = some 1 := rfl
  obtain ⟨σ,hσ,hwaits⟩ := Option.bind_eq_some_iff.mp hrun
  exact ⟨σ,hσ,waits_iff.mpr hwaits⟩

end BtstackRs.Transport
