import BtstackRs.Concurrent.History
import BtstackRs.Gatt.Runtime

/-!
# Handles and their loop threads

What a handle does depends on nothing but itself, whatever is done to the other handles: its own
events tell where it is. In particular `loop_thread` is empty from the first operation on, and an
operation only comes past its join when the loop thread has ended.
-/

namespace BtstackRs.Gatt

open Concurrent

def Event.handle : Event → Option Nat
  | refused _ => none
  | activated h | init h _ | spawned h | exited h _ | called h _ | triggerExit h | deinit h _
  | deactivated h | returned h _ _ => some h

/-- The events of one handle. -/
def eventsOf (h : Nat) (log : List Event) : List Event := about Event.handle h log

theorem Does.handle {h : Nat} {r : BtstackRuntime} {e : Effect} (hdoes : Does h r e) :
    ∀ event ∈ e.events, event.handle = some h := by
  intro event hevent
  cases hdoes with
  | take op hpc hthread =>
    simp only [List.mem_cons] at hevent
    obtain rfl | hevent := hevent
    · rfl
    · split at hevent
      · cases hevent
      · rw [List.mem_singleton.mp hevent]
        rfl
  | passed op hpc hloop hop => cases hevent
  | _ =>
    simp only [List.mem_cons,List.not_mem_nil,or_false] at hevent
    obtain rfl | rfl := hevent <;> rfl

/-- Every run of the process. -/
def Reached (p : Process) : Prop := lifecycle.Steps Machine.anyAction {} p

theorem Reached.of_run {as : List Action} {p : Process} (h : lifecycle.run {} as = some p) :
    Reached p :=
  (Machine.steps_of_run h).any

def Numbered (p : Process) : Prop :=
  ∀ h, p.handles.length ≤ h → eventsOf h p.log = []

theorem Reached.numbered {p : Process} (h : Reached p) : Numbered p := by
  apply Machine.Steps.invariant h
  · intro h hle
    rfl
  · intro q a q' hq _ hstep
    cases lifecycle_steps hstep with
    | refused hactive =>
      intro h hle
      rw [eventsOf,about_append_of_ne _ _ (by simp [Event.handle])]
      exact hq h hle
    | activated hactive =>
      intro h hle
      simp only [List.length_append,List.length_singleton] at hle
      have hne : q.handles.length ≠ h := by omega
      rw [eventsOf,about_append_of_ne _ _ (by simp [Event.handle,hne])]
      exact hq h (by omega)
    | own h' c r e hhandle hdo =>
      intro h hle
      have hlt := (List.getElem?_eq_some_iff.mp hhandle).1
      simp only [Process.apply,List.length_set] at hle
      have hother : ∀ event ∈ e.events, event.handle ≠ some h := by
        intro event hevent
        rw [(BtstackRuntime.does_of_step hdo).handle event hevent]
        simp only [ne_eq,Option.some.injEq]
        omega
      rw [Process.apply,eventsOf,about_append_of_ne _ _ hother]
      exact hq h hle

/-- What holds of a handle when it comes into being, and is preserved by its own steps, holds of
every handle in every run. -/
theorem Reached.step_invariant {p : Process} (hreached : Reached p)
    {P : Nat → BtstackRuntime → List Event → Prop}
    (hstart : ∀ h, P h { pc := .starting initCalls } [.activated h])
    (hstep : ∀ h r c e events, P h r events → r.step h c = some e →
      P h e.runtime (events ++ e.events))
    {h : Nat} {r : BtstackRuntime} (hhandle : p.handles[h]? = some r) :
    P h r (eventsOf h p.log) := by
  have hall : Reached p ∧ ∀ h r, p.handles[h]? = some r → P h r (eventsOf h p.log) := by
    apply Machine.Steps.invariant hreached
    · refine ⟨.refl _,fun h r hhandle => ?_⟩
      simp at hhandle
    · rintro q a q' ⟨hq,hP⟩ - hnext
      refine ⟨hq.tail trivial hnext,fun h r hhandle => ?_⟩
      cases lifecycle_steps hnext with
      | refused hactive =>
        rw [eventsOf,about_append_of_ne _ _ (by simp [Event.handle])]
        exact hP h r hhandle
      | activated hactive =>
        simp only [List.getElem?_append] at hhandle
        split at hhandle
        · rename_i hlt
          have hne : q.handles.length ≠ h := by omega
          rw [eventsOf,about_append_of_ne _ _ (by simp [Event.handle,hne])]
          exact hP h r hhandle
        · rename_i hge
          rw [List.getElem?_singleton] at hhandle
          split at hhandle <;> cases hhandle
          have hnew : h = q.handles.length := by omega
          subst hnew
          have hnone : eventsOf q.handles.length q.log = [] := hq.numbered _ (Nat.le_refl _)
          rw [eventsOf] at hnone
          rw [eventsOf,about_append_self _ _ (by simp [Event.handle]),hnone]
          exact hstart _
      | own h' c r' e hhandle' hdo =>
        have hdoes := BtstackRuntime.does_of_step hdo
        simp only [Process.apply,List.getElem?_set] at hhandle
        split at hhandle
        · rename_i heq
          subst heq
          rw [if_pos (List.getElem?_eq_some_iff.mp hhandle').1] at hhandle
          cases hhandle
          rw [Process.apply,eventsOf,about_append_self _ _ hdoes.handle]
          exact hstep h' r' c e _ (hP h' r' hhandle') hdo
        · rename_i hne
          have hother : ∀ event ∈ e.events, event.handle ≠ some h := by
            intro event hevent
            rw [hdoes.handle event hevent]
            simpa using hne
          rw [Process.apply,eventsOf,about_append_of_ne _ _ hother]
          exact hP h r hhandle
  exact hall.2 h r hhandle

theorem Reached.handle_invariant {p : Process} (hreached : Reached p)
    {P : Nat → BtstackRuntime → List Event → Prop}
    (hstart : ∀ h, P h { pc := .starting initCalls } [.activated h])
    (hstep : ∀ h r e events, P h r events → Does h r e → P h e.runtime (events ++ e.events))
    {h : Nat} {r : BtstackRuntime} (hhandle : p.handles[h]? = some r) :
    P h r (eventsOf h p.log) :=
  hreached.step_invariant hstart
    (fun h r _ e events hP hdo => hstep h r e events hP (BtstackRuntime.does_of_step hdo)) hhandle

inductive Coupled : BtstackRuntime → Prop where
  | starting (calls : List InitCall) : Coupled ⟨.starting calls,false,.notSpawned⟩
  | owning (loop : LoopThread) (hloop : loop ≠ .notSpawned) : Coupled ⟨.idle,true,loop⟩
  | joining (op : Op) (loop : LoopThread) (hloop : loop ≠ .notSpawned) :
      Coupled ⟨.joining op,false,loop⟩
  | joined (pc : Pc) (panicked : Bool)
      (hpc : pc = .idle ∨ pc = .dropped ∨ ∃ calls op, pc = .deinitialising calls op) :
      Coupled ⟨pc,false,.ended panicked⟩

theorem Coupled.does {h : Nat} {r : BtstackRuntime} {e : Effect} (hr : Coupled r)
    (hdoes : Does h r e) : Coupled e.runtime := by
  have hafter : ∀ op : Op, op.after = .idle ∨ op.after = .dropped ∨
      ∃ calls op', op.after = .deinitialising calls op' := by
    intro op
    cases op <;> simp [Op.after]
  obtain ⟨pc,thread,loop⟩ := r
  cases hdoes with
  | init call calls hpc =>
    cases hpc
    cases hr with
    | starting => exact .starting calls
    | joined _ _ hpc => simp at hpc
  | spawn hpc => exact .owning .running (by simp)
  | exit panicked hloop =>
    cases hloop
    cases hr with
    | owning => exact .owning _ (by simp)
    | joining op => exact .joining op _ (by simp)
  | take op hpc hthread =>
    cases hpc
    cases hthread
    cases hr with
    | owning loop hloop => exact .joining op loop hloop
  | again hpc hthread =>
    cases hpc
    cases hthread
    exact hr
  | shutdown hpc hthread =>
    cases hpc
    cases hthread
    cases hr with
    | joined _ panicked _ => exact .joined _ panicked (.inr (.inr ⟨_,_,rfl⟩))
  | drop hpc hthread =>
    cases hpc
    cases hthread
    cases hr with
    | joined _ panicked _ => exact .joined _ panicked (.inr (.inl rfl))
  | joined op panicked error hpc hloop hends =>
    cases hpc
    cases hloop
    cases hr with
    | joining => exact .joined _ panicked (hafter op)
    | joined _ _ hpc => simp at hpc
  | passed op hpc hloop hop =>
    cases hpc
    cases hloop
    cases hr with
    | joining => exact .joined _ false (.inr (.inr ⟨_,_,rfl⟩))
    | joined _ _ hpc => simp at hpc
  | deinit call calls op hpc =>
    cases hpc
    cases hr with
    | joined _ panicked _ => exact .joined _ panicked (.inr (.inr ⟨_,_,rfl⟩))
  | deactivate op hpc =>
    cases hpc
    cases hr with
    | joined _ panicked _ => exact .joined _ panicked (hafter op)

theorem Does.exited {h : Nat} {r : BtstackRuntime} {e : Effect} {events : List Event}
    (hr : ∀ panicked, r.loop = .ended panicked ↔ .exited h panicked ∈ events)
    (hcoupled : Coupled r) (hdoes : Does h r e) (panicked : Bool) :
    e.runtime.loop = .ended panicked ↔ .exited h panicked ∈ events ++ e.events := by
  have hsame : e.runtime.loop = r.loop → (∀ q, .exited h q ∉ e.events) →
      (e.runtime.loop = .ended panicked ↔ .exited h panicked ∈ events ++ e.events) := by
    intro hloop hnone
    rw [hloop,hr panicked,List.mem_append]
    simp [hnone panicked]
  cases hdoes with
  | spawn hpc =>
    have hloop : r.loop = .notSpawned := by
      cases hcoupled with
      | starting => rfl
      | owning | joining => cases hpc
      | joined _ _ hjoined =>
        cases hpc
        simp at hjoined
    have hnone := hr panicked
    rw [hloop] at hnone
    simpa using hnone
  | exit q hloop =>
    have hnone := hr panicked
    rw [hloop] at hnone
    have hnot : .exited h panicked ∉ events := fun hmem => by cases hnone.mpr hmem
    simp [hnot,eq_comm]
  | take op hpc hthread =>
    refine hsame rfl fun q => ?_
    cases op <;> simp
  | _ => exact hsame rfl (by simp)

theorem Reached.coupled {p : Process} (hp : Reached p) {h : Nat} {r : BtstackRuntime}
    (hhandle : p.handles[h]? = some r) : Coupled r :=
  hp.handle_invariant (P := fun _ r _ => Coupled r) (fun _ => .starting _)
    (fun _ _ _ _ hr hdoes => hr.does hdoes) hhandle

theorem Reached.exited_iff {p : Process} (hp : Reached p) {h : Nat} {r : BtstackRuntime}
    (hhandle : p.handles[h]? = some r) (panicked : Bool) :
    r.loop = .ended panicked ↔ .exited h panicked ∈ p.log := by
  have hown : Coupled r ∧ ∀ panicked, r.loop = .ended panicked ↔
      .exited h panicked ∈ eventsOf h p.log := by
    apply hp.handle_invariant (P := fun h r events =>
      Coupled r ∧ ∀ panicked, r.loop = .ended panicked ↔ .exited h panicked ∈ events)
    · intro h
      exact ⟨.starting _,by simp⟩
    · rintro h r e events ⟨hcoupled,hr⟩ hdoes
      exact ⟨hcoupled.does hdoes,hdoes.exited hr hcoupled⟩
    · exact hhandle
  have hkey : (Event.exited h panicked).handle = some h := rfl
  rw [hown.2 panicked,eventsOf,mem_about hkey]

/-- The initialisation is done once `start_with_init` is past its calls, and a deinitialisation
that is not in progress has been completed. -/
structure Sequenced (h : Nat) (r : BtstackRuntime) (events : List Event) : Prop where
  init : ∀ call ∈ initCalls, .init h call ∈ events ∨ ∃ calls, r.pc = .starting calls ∧ call ∈ calls
  deinit : ∀ call, .deinit h call ∈ events →
    .deactivated h ∈ events ∨ ∃ calls op, r.pc = .deinitialising calls op

theorem Sequenced.does {h : Nat} {r : BtstackRuntime} {e : Effect} {events : List Event}
    (hr : Sequenced h r events) (hdoes : Does h r e) :
    Sequenced h e.runtime (events ++ e.events) := by
  have hinit : (∀ calls, r.pc ≠ .starting calls) → ∀ call ∈ initCalls,
      .init h call ∈ events ++ e.events ∨
        ∃ calls, e.runtime.pc = .starting calls ∧ call ∈ calls := by
    intro hpc call hcall
    obtain hmem | ⟨calls,hstarting,_⟩ := hr.init call hcall
    · exact .inl (List.mem_append_left _ hmem)
    · exact absurd hstarting (hpc calls)
  have hdeinit : (∀ calls op, r.pc ≠ .deinitialising calls op) →
      (∀ call, .deinit h call ∉ e.events) → ∀ call, .deinit h call ∈ events ++ e.events →
        .deactivated h ∈ events ++ e.events ∨
          ∃ calls op, e.runtime.pc = .deinitialising calls op := by
    intro hpc hnone call hmem
    obtain hmem | hmem := List.mem_append.mp hmem
    · obtain hdone | ⟨calls,op,hin⟩ := hr.deinit call hmem
      · exact .inl (List.mem_append_left _ hdone)
      · exact absurd hin (hpc calls op)
    · exact absurd hmem (hnone call)
  cases hdoes with
  | init call calls hpc =>
    refine ⟨fun call' hcall' => ?_,hdeinit (by simp [hpc]) (by simp)⟩
    obtain hmem | ⟨calls',hstarting,hmem⟩ := hr.init call' hcall'
    · exact .inl (List.mem_append_left _ hmem)
    · rw [hpc] at hstarting
      cases hstarting
      obtain rfl | hmem := List.mem_cons.mp hmem
      · exact .inl (by simp)
      · exact .inr ⟨calls,rfl,hmem⟩
  | spawn hpc =>
    refine ⟨fun call' hcall' => ?_,hdeinit (by simp [hpc]) (by simp)⟩
    obtain hmem | ⟨calls',hstarting,hmem⟩ := hr.init call' hcall'
    · exact .inl (List.mem_append_left _ hmem)
    · rw [hpc] at hstarting
      cases hstarting
      cases hmem
  | exit panicked hloop =>
    constructor
    · intro call hcall
      obtain hmem | hstarting := hr.init call hcall
      · exact .inl (List.mem_append_left _ hmem)
      · exact .inr hstarting
    · intro call hmem
      obtain hdone | hin := hr.deinit call (by simpa using hmem)
      · exact .inl (List.mem_append_left _ hdone)
      · exact .inr hin
  | take op hpc hthread =>
    refine ⟨hinit (by simp [hpc]),hdeinit (by simp [hpc]) fun call => ?_⟩
    cases op <;> simp
  | deinit call calls op hpc =>
    exact ⟨hinit (by simp [hpc]),fun _ _ => .inr ⟨calls,op,rfl⟩⟩
  | deactivate op hpc => exact ⟨hinit (by simp [hpc]),fun _ _ => .inl (by simp)⟩
  | again hpc hthread | shutdown hpc hthread | drop hpc hthread | joined op panicked error hpc
  | passed op hpc => exact ⟨hinit (by simp [hpc]),hdeinit (by simp [hpc]) (by simp)⟩

theorem Reached.sequenced {p : Process} (hp : Reached p) {h : Nat} {r : BtstackRuntime}
    (hhandle : p.handles[h]? = some r) : Sequenced h r p.log := by
  have hown : Sequenced h r (eventsOf h p.log) :=
    hp.handle_invariant (fun _ => ⟨fun call hcall => .inr ⟨_,rfl,hcall⟩,by simp⟩)
      (fun _ _ _ _ hr hdoes => hr.does hdoes) hhandle
  have hmem : ∀ e : Event, e.handle = some h → (e ∈ eventsOf h p.log ↔ e ∈ p.log) :=
    fun e he => mem_about he
  constructor
  · intro call hcall
    rw [← hmem (.init h call) rfl]
    exact hown.init call hcall
  · intro call hdeinit
    rw [← hmem (.deinit h call) rfl] at hdeinit
    rw [← hmem (.deactivated h) rfl]
    exact hown.deinit call hdeinit

end BtstackRs.Gatt
