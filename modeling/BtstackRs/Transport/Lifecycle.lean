import BtstackRs.Transport.Nesting
import BtstackRs.Transport.Ownership

/-!
# Opening and closing in turn

When the calls of `transport_open` and `transport_close` do not overlap, each of them finds the
transport as the one before left it. Whenever a worker has been spawned and has not returned, it
is listed in the record in `STATE` or in the call that is creating or closing that record.
-/

namespace BtstackRs.Transport

open Concurrent

def Fn.isLifecycle : Fn → Bool
  | .transportOpen | .transportClose => true
  | _ => false

def Frame.lifecycle (f : Frame) : Nat := if f.fn.isLifecycle then 1 else 0

def System.lifecycleCalls (σ : System) : Nat := Pool.total Frame.lifecycle σ.threads

/-- A call of `transport_open` or `transport_close` starts when no other one is in progress. -/
def System.callsInTurn (σ : System) (a : Action) : Bool :=
  match a.choice with
  | .call op => !op.fn.isLifecycle || σ.lifecycleCalls == 0
  | _ => true

def InTurn (σ : System) (a : Action) : Prop := σ.callsInTurn a = true

/-- The states of the runs in which the transport is opened and closed in turn. -/
def ReachableInTurn (σ : System) : Prop := machine.ReachableBy Initial InTurn σ

theorem ReachableInTurn.reachable {σ : System} (h : ReachableInTurn σ) : Reachable σ := h.any

theorem ReachableInTurn.invariant {Inv : System → Prop} {σ : System} (h : ReachableInTurn σ)
    (hinit : ∀ clients handler, Inv (System.initial clients handler))
    (hmoves : ∀ σ a σ', ReachableInTurn σ → Inv σ → InTurn σ a → Moves σ a σ' → Inv σ') :
    Inv σ := by
  apply Machine.ReachableBy.invariant h
  · rintro _ ⟨clients,handler,rfl⟩
    exact hinit clients handler
  · exact fun σ a σ' hreach hinv hallow hstep => hmoves σ a σ' hreach hinv hallow (step_moves hstep)

private theorem enters_fn {op : ApiCall} {s : Section} (h : Enters op s) : s.fn = op.fn := by
  cases h <;> rfl

private theorem move_lifecycle {σ : System} {t : Nat} {c : Choice} {role : Role}
    {rest : List Frame} {d : Delta} (h : Move σ t c role rest d) (hallow : InTurn σ ⟨t,c⟩) :
    Pool.stackWeight Frame.lifecycle d.top' ≤ Pool.stackWeight Frame.lifecycle d.top ∨
      (σ.lifecycleCalls = 0 ∧ Pool.stackWeight Frame.lifecycle d.top' ≤ 1) := by
  cases h with
  | sectionGoto s state g hsection => cases hsection <;> exact .inl (Nat.le_refl _)
  | spawn l pc => cases pc <;> exact .inl (Nat.le_refl _)
  | call op s hchoice hcan henters =>
    subst hchoice
    have hfn := enters_fn henters
    simp only [InTurn,System.callsInTurn,Bool.or_eq_true,Bool.not_eq_true',beq_iff_eq] at hallow
    rcases hallow with hother | hnone
    · simp [Frame.lifecycle,Frame.fn,hfn,hother]
    · refine .inr ⟨hnone,?_⟩
      simp only [Pool.stackWeight_cons,Pool.stackWeight_nil,Frame.lifecycle]
      split <;> decide
  | sectionRet | openingFail | joinWriter | sendRet | leave => exact .inl (Nat.zero_le _)
  | _ => exact .inl (Nat.le_refl _)

theorem ReachableInTurn.lifecycleCalls_le_one {σ : System} (h : ReachableInTurn σ) :
    σ.lifecycleCalls ≤ 1 := by
  apply h.invariant
  · intro clients handler
    rw [System.lifecycleCalls,total_initial]
    exact Nat.zero_le 1
  · rintro σ a _ _ hσ hallow ⟨th,rest,d,hthread,hstack,hmove⟩
    have hsum := total_apply Frame.lifecycle hthread hstack
    unfold System.lifecycleCalls at hσ ⊢
    obtain hle | ⟨hnone,hle⟩ := move_lifecycle hmove hallow
    · omega
    · unfold System.lifecycleCalls at hnone
      omega

def Frame.closing : Frame → Nat
  | .closeStop _ | .closeJoinReaders _ _ | .closeJoinWriter _ => 1
  | _ => 0

def Section.detached : Section → Nat
  | .openStore _ => 1
  | _ => 0

def Frame.detached : Frame → Nat
  | .lock s | .locked s => s.detached
  | .opening _ | .openCreate _ | .openSpawn _ _ => 1
  | f => f.closing

theorem Frame.detached_le_lifecycle (f : Frame) : f.detached ≤ f.lifecycle := by
  cases f with
  | lock s | locked s => cases s <;> simp [detached,Section.detached,lifecycle,fn,Section.fn,
      Fn.isLifecycle]
  | _ => simp [detached,closing,lifecycle,fn,Fn.isLifecycle]

theorem Frame.closing_le_detached (f : Frame) : f.closing ≤ f.detached := by
  cases f <;> simp [detached,closing]

private theorem move_detached {σ : System} {t : Nat} {c : Choice} {role : Role}
    {rest : List Frame} {d : Delta} (h : Move σ t c role rest d) :
    (d.state.active = σ.state.active ∧
        Pool.stackWeight Frame.detached d.top' ≤ Pool.stackWeight Frame.detached d.top) ∨
      d.state.active = none ∨
      (Pool.stackWeight Frame.detached d.top = 1 ∧
        Pool.stackWeight Frame.detached d.top' = 0) := by
  cases h with
  | sectionGoto s state g hsection =>
    cases hsection with
    | openCheck hclosed => exact .inr (.inl hclosed)
    | closeTake active hactive => exact .inr (.inl rfl)
    | _ => exact .inl ⟨rfl,Nat.le_refl _⟩
  | sectionRet s state result hsection =>
    cases hsection with
    | openStore active => exact .inr (.inr ⟨rfl,rfl⟩)
    | _ => exact .inl ⟨rfl,Nat.zero_le _⟩
  | spawn l pc => cases pc <;> exact .inl ⟨rfl,Nat.le_refl _⟩
  | call op s hchoice hcan henters => cases henters <;> exact .inl ⟨rfl,Nat.le_refl _⟩
  | openingFail | joinWriter => exact .inl ⟨rfl,Nat.zero_le _⟩
  | _ => exact .inl ⟨rfl,Nat.le_refl _⟩

theorem ReachableInTurn.active_of_detached {σ : System} (h : ReachableInTurn σ)
    (hdetached : 0 < Pool.total Frame.detached σ.threads) : σ.state.active = none := by
  revert hdetached
  apply h.invariant
  · intro clients handler _
    rfl
  · rintro σ a _ hreach hσ _ ⟨th,rest,d,hthread,hstack,hmove⟩ hdetached
    have hsum := total_apply Frame.detached hthread hstack
    have hone : Pool.total Frame.detached σ.threads ≤ 1 :=
      Nat.le_trans (Pool.total_mono Frame.detached_le_lifecycle _) hreach.lifecycleCalls_le_one
    obtain ⟨hsame,hle⟩ | hnone | ⟨htop,htop'⟩ := move_detached hmove
    · exact hsame.trans (hσ (by omega))
    · exact hnone
    · omega

/-- How an event changes whether the last successful `transport_open` has not been followed by a
`transport_close`. -/
def openAfter (isOpen : Bool) : Event → Bool
  | .returned _ .transportOpen result => if result = some 0 then true else isOpen
  | .returned _ .transportClose _ => false
  | _ => isOpen

def opened (log : List Event) : Bool := log.foldl openAfter false

theorem opened_append (log events : List Event) :
    opened (log ++ events) = events.foldl openAfter (opened log) := by
  rw [opened,List.foldl_append,← opened]

private theorem move_opened {σ : System} {t : Nat} {c : Choice} {role : Role}
    {rest : List Frame} {d : Delta} (h : Move σ t c role rest d)
    (hclosing : 0 < Pool.stackWeight Frame.closing d.top → σ.state.active = none) :
    0 < Pool.stackWeight Frame.closing d.top' ∨
      (∀ isOpen, d.state.active.isSome = d.events.foldl openAfter isOpen) ∨
      (Pool.stackWeight Frame.closing d.top = 0 ∧ d.state.active = σ.state.active ∧
        ∀ isOpen, d.events.foldl openAfter isOpen = isOpen) := by
  cases h with
  | sectionGoto s state g hsection =>
    cases hsection with
    | closeTake active hactive => exact .inl Nat.one_pos
    | _ => exact .inr (.inr ⟨rfl,rfl,fun _ => rfl⟩)
  | sectionRet s state result hsection =>
    cases hsection with
    | openCheck active hactive =>
      refine .inr (.inl fun isOpen => ?_)
      rw [hactive]
      rfl
    | openStore active => exact .inr (.inl fun _ => rfl)
    | closeTake hclosed =>
      refine .inr (.inl fun isOpen => ?_)
      rw [hclosed]
      rfl
    | _ => exact .inr (.inr ⟨rfl,rfl,fun _ => rfl⟩)
  | stop | joinedReaders | joinReader => exact .inl Nat.one_pos
  | joinWriter active hfinished =>
    refine .inr (.inl fun isOpen => ?_)
    rw [hclosing Nat.one_pos]
    rfl
  | callRet op result hchoice hcan henter =>
    refine .inr (.inr ⟨rfl,rfl,fun isOpen => ?_⟩)
    cases op <;> first | rfl | cases henter
  | _ => exact .inr (.inr ⟨rfl,rfl,fun _ => rfl⟩)

/-- Unless a close is in progress, the record is there as the log says. -/
theorem ReachableInTurn.active_isSome {σ : System} (h : ReachableInTurn σ)
    (hclosing : Pool.total Frame.closing σ.threads = 0) :
    σ.state.active.isSome = opened σ.log := by
  revert hclosing
  apply h.invariant
  · intro clients handler _
    rfl
  · rintro σ a _ hreach hσ _ ⟨th,rest,d,hthread,hstack,hmove⟩ hclosing
    have hsum := total_apply Frame.closing hthread hstack
    have hle := Pool.stackWeight_le_total Frame.closing hthread
    rw [hstack,Pool.stackWeight_append] at hle
    have htop : 0 < Pool.stackWeight Frame.closing d.top → σ.state.active = none := by
      intro hpos
      have hmono := Pool.total_mono Frame.closing_le_detached σ.threads
      exact hreach.active_of_detached (by omega)
    change d.state.active.isSome = opened (σ.log ++ d.events)
    rw [opened_append]
    obtain hpos | hset | ⟨hzero,hsame,hevents⟩ := move_opened hmove htop
    · omega
    · exact hset _
    · rw [hsame,hevents]
      exact hσ (by omega)

def SpawnPc.workers : SpawnPc → List Nat
  | event => []
  | acl eventThread => [eventThread]
  | writer eventThread aclThread => [eventThread,aclThread]

def Section.workers : Section → List Nat
  | .openStore active => active.workers
  | _ => []

def Frame.workers : Frame → List Nat
  | .lock s | .locked s => s.workers
  | .openSpawn _ pc => pc.workers
  | .closeStop active => active.workers
  | .closeJoinReaders active remaining => remaining ++ [active.writerThread]
  | .closeJoinWriter active => [active.writerThread]
  | _ => []

def TransportState.workers (state : TransportState) : List Nat :=
  state.active.elim [] ActiveTransport.workers

def System.Lists (σ : System) (w : Nat) : Prop :=
  w ∈ σ.state.workers ∨ ∃ (t : Nat), ∃ th f, σ.threads[t]? = some th ∧ f ∈ th.stack ∧ w ∈ f.workers

private theorem move_workers {σ : System} {t : Nat} {c : Choice} {role : Role}
    {rest : List Frame} {d : Delta} (h : Move σ t c role rest d)
    (hdetached : 0 < Pool.stackWeight Frame.detached d.top → σ.state.active = none) {w : Nat}
    (hw : w ∈ σ.state.workers ∨ ∃ f ∈ d.top, w ∈ f.workers) :
    w ∈ d.state.workers ∨ (∃ f ∈ d.top', w ∈ f.workers) ∨ σ.finished w = true := by
  have hkept : w ∈ d.state.workers ∨ (∃ f ∈ d.top', w ∈ f.workers) →
      w ∈ d.state.workers ∨ (∃ f ∈ d.top', w ∈ f.workers) ∨ σ.finished w = true := by
    intro h
    exact h.imp_right .inl
  cases h with
  | sectionGoto s state g hsection =>
    apply hkept
    cases hsection with
    | closeTake active hactive =>
      simpa [TransportState.workers,hactive,Frame.workers,Section.workers] using hw
    | _ => simpa [TransportState.workers,Frame.workers,Section.workers] using hw
  | sectionRet s state result hsection =>
    apply hkept
    cases hsection with
    | openStore active =>
      have hactive := hdetached Nat.one_pos
      simpa [hactive,TransportState.workers,Frame.workers,Section.workers] using hw
    | _ => simpa [TransportState.workers,Frame.workers,Section.workers] using hw
  | spawn l pc =>
    rcases hw with hw | hw
    · exact .inl hw
    · refine .inr (.inl ⟨_,List.mem_singleton_self _,?_⟩)
      cases pc with
      | event => simp [Frame.workers,SpawnPc.workers] at hw
      | acl eventThread =>
        simp only [List.mem_singleton,exists_eq_left,Frame.workers,SpawnPc.workers] at hw
        simp [SpawnPc.after,Frame.workers,SpawnPc.workers,hw]
      | writer eventThread aclThread =>
        simp only [exists_eq_left,Frame.workers,SpawnPc.workers,List.mem_cons,List.not_mem_nil,
          or_false] at hw
        simp only [SpawnPc.after,Frame.workers,Section.workers,ActiveTransport.workers,
          List.cons_append,List.nil_append,List.mem_cons]
        omega
  | joinReader active v ws hfinished =>
    rcases hw with hw | ⟨f,hf,hw⟩
    · exact .inl hw
    · cases List.mem_singleton.mp hf
      rcases List.mem_cons.mp hw with rfl | hw
      · exact .inr (.inr hfinished)
      · exact .inr (.inl ⟨_,List.mem_singleton_self _,hw⟩)
  | joinWriter active hfinished =>
    rcases hw with hw | ⟨f,hf,hw⟩
    · exact .inl hw
    · cases List.mem_singleton.mp hf
      cases List.mem_singleton.mp hw
      exact .inr (.inr hfinished)
  | call op s hchoice hcan henters => exact .inl (by simpa using hw)
  | create endpoints => exact hkept (by simpa [Frame.workers,SpawnPc.workers] using hw)
  | _ => exact hkept (by simpa [Frame.workers,Section.workers,ActiveTransport.workers] using hw)

private theorem move_spawned {σ : System} {t : Nat} {c : Choice} {role : Role}
    {rest : List Frame} {d : Delta} (h : Move σ t c role rest d) (hspawned : d.spawned ≠ []) :
    ∃ f ∈ d.top', σ.threads.length ∈ f.workers := by
  cases h with
  | spawn l pc =>
    refine ⟨_,List.mem_singleton_self _,?_⟩
    cases pc <;>
      simp [SpawnPc.after,Frame.workers,SpawnPc.workers,Section.workers,ActiveTransport.workers]
  | _ => exact absurd rfl hspawned

theorem ReachableInTurn.finished_or_lists {σ : System} (h : ReachableInTurn σ) {w : Nat}
    (hw : IsWorker σ.threads w) : σ.finished w = true ∨ σ.Lists w := by
  revert w
  apply h.invariant
  · rintro clients handler w ⟨role,⟨th,hth,rfl⟩,hrole⟩
    exact absurd (initial_thread hth).1 hrole
  · rintro σ a _ hreach hσ _ ⟨th,rest,d,hthread,hstack,hmove⟩ w ⟨role,⟨th',hth',hrole'⟩,hrole⟩
    have hmoves : Moves σ a (σ.apply a.thread rest d) := .intro th rest d hthread hstack hmove
    have hself := getElem?_apply_self rest d hthread
    have hpushed : (∃ f ∈ d.top', w ∈ f.workers) → (σ.apply a.thread rest d).Lists w := by
      rintro ⟨f,hf,hwf⟩
      exact .inr ⟨a.thread,_,f,hself,List.mem_append_left _ hf,hwf⟩
    -- A worker that was there before the step.
    have hold : IsWorker σ.threads w →
        (σ.apply a.thread rest d).finished w = true ∨ (σ.apply a.thread rest d).Lists w := by
      intro hworker
      have hdetached : 0 < Pool.stackWeight Frame.detached d.top → σ.state.active = none := by
        intro hpos
        have hle := Pool.stackWeight_le_total Frame.detached hthread
        rw [hstack,Pool.stackWeight_append] at hle
        exact hreach.active_of_detached (by omega)
      have htop : (w ∈ σ.state.workers ∨ ∃ f ∈ d.top, w ∈ f.workers) →
          (σ.apply a.thread rest d).finished w = true ∨ (σ.apply a.thread rest d).Lists w := by
        intro hlisted
        obtain hstate | hframe | hfinished := move_workers hmove hdetached hlisted
        · exact .inr (.inl hstate)
        · exact .inr (hpushed hframe)
        · exact .inl (finished_moves hmoves hfinished)
      obtain hfinished | hstate | ⟨u,thu,f,hthu,hf,hwf⟩ := hσ hworker
      · exact .inl (finished_moves hmoves hfinished)
      · exact htop (.inl hstate)
      · by_cases hu : u = a.thread
        · subst hu
          rw [hthread] at hthu
          cases hthu
          rw [hstack] at hf
          rcases List.mem_append.mp hf with hf | hf
          · exact htop (.inr ⟨f,hf,hwf⟩)
          · exact .inr (.inr ⟨a.thread,_,f,hself,List.mem_append_right _ hf,hwf⟩)
        · exact .inr (.inr ⟨u,thu,f,getElem?_apply_ne rest d hu hthu,hf,hwf⟩)
    obtain ⟨rfl,th₀,hth₀,rfl⟩ | ⟨_,hsame⟩ | ⟨hnew,_,hspawned⟩ := getElem?_apply_cases hth'
    · exact hold ⟨role,⟨th₀,hth₀,hrole'⟩,hrole⟩
    · exact hold ⟨role,⟨th',hsame,hrole'⟩,hrole⟩
    · have hne : d.spawned ≠ [] := by
        intro hnil
        simp [hnil] at hspawned
      have hlength : d.spawned.length ≤ 1 := by cases hmove <;> simp
      have hindex := (List.getElem?_eq_some_iff.mp hspawned).1
      obtain rfl : w = σ.threads.length := by omega
      exact .inr (hpushed (move_spawned hmove hne))

theorem Frame.workers_of_lifecycle {f : Frame} (h : f.lifecycle = 0) : f.workers = [] := by
  cases f with
  | lock s | locked s =>
    cases s with
    | openStore active => simp [lifecycle,fn,Section.fn,Fn.isLifecycle] at h
    | _ => rfl
  | openSpawn | closeStop | closeJoinReaders | closeJoinWriter =>
    simp [lifecycle,fn,Fn.isLifecycle] at h
  | _ => rfl

theorem ActiveTransport.Recorded.nodup {threads : Pool Role Frame} {active : ActiveTransport}
    (h : active.Recorded threads) : active.workers.Nodup ∧ active.workers.length = 3 := by
  obtain ⟨⟨eventThread,aclThread,hthreads,hevent,hacl⟩,hwriter⟩ := h
  have hne : ∀ {w w' role role'}, threads.HasRole w role → threads.HasRole w' role' →
      role ≠ role' → w ≠ w' := by
    rintro w _ role role' hw hw' hroles rfl
    exact hroles (hw.unique hw')
  have heventAcl := hne hevent hacl (by simp)
  have heventWriter := hne hevent hwriter (by simp)
  have haclWriter := hne hacl hwriter (by simp)
  simp [workers,hthreads,heventAcl,heventWriter,haclWriter]

theorem Reachable.active_unfinished {σ : System} (h : Reachable σ) {active : ActiveTransport}
    (hactive : σ.state.active = some active) {w : Nat} (hw : w ∈ active.workers) :
    σ.finished w = false := by
  have hlink := List.getElem?_eq_getElem (h.wellScoped.active active hactive)
  have hrunning := h.active_running hactive hlink
  obtain ⟨⟨eventThread,aclThread,hthreads,hevent,hacl⟩,hwriter⟩ :=
    h.wellRecorded.active active hactive
  have hreader : ∀ {w kind}, σ.threads.HasRole w (.reader kind active.link) →
      σ.finished w = false := by
    rintro w kind ⟨th,hth,hrole⟩
    have hpc := (hrunning.readers_stream kind).not_exited
    simp [System.finished,hth,hrole,hlink,hpc]
  simp only [ActiveTransport.workers,hthreads,List.cons_append,List.nil_append,List.mem_cons,
    List.not_mem_nil,or_false] at hw
  obtain rfl | rfl | rfl := hw
  · exact hreader hevent
  · exact hreader hacl
  · obtain ⟨th,hth,hrole⟩ := hwriter
    simp [System.finished,hth,hrole,hlink,hrunning.writer_runs]

theorem ReachableInTurn.workers_iff {σ : System} (h : ReachableInTurn σ)
    (hboundary : σ.lifecycleCalls = 0) (w : Nat) :
    (IsWorker σ.threads w ∧ σ.finished w = false) ↔ w ∈ σ.state.workers := by
  constructor
  · rintro ⟨hworker,hrunning⟩
    obtain hfinished | hstate | ⟨t,th,f,hth,hf,hw⟩ := h.finished_or_lists hworker
    · rw [hfinished] at hrunning
      cases hrunning
    · exact hstate
    · have hle := Pool.le_total Frame.lifecycle hth hf
      have hzero : f.lifecycle = 0 := Nat.le_zero.mp (Nat.le_trans hle (Nat.le_of_eq hboundary))
      rw [Frame.workers_of_lifecycle hzero] at hw
      cases hw
  · intro hw
    unfold TransportState.workers at hw
    cases hactive : σ.state.active with
    | none => simp [hactive] at hw
    | some active =>
      rw [hactive,Option.elim_some] at hw
      exact ⟨(h.reachable.wellRecorded.active active hactive).isWorker hw,
        h.reachable.active_unfinished hactive hw⟩

end BtstackRs.Transport
