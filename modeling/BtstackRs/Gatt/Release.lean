import Mathlib.Data.List.Basic
import BtstackRs.Gatt.LoopThread

/-!
# Release

Whether a dropped handle has given its runtime back depends on the operations that were called on
it and on whether its loop thread panicked: each `shutdown` that comes past its join gives the
runtime back once more, and `Drop` calls one only if nothing has taken the loop thread before.
-/

namespace BtstackRs.Gatt

open Concurrent

def Event.callOn (h : Nat) : Event → Option Op
  | called h' op => if h' = h then some op else none
  | _ => none

def callsOf (h : Nat) (log : List Event) : List Op := log.filterMap (Event.callOn h)

theorem callsOf_append (h : Nat) (log new : List Event) :
    callsOf h (log ++ new) = callsOf h log ++ callsOf h new :=
  List.filterMap_append

@[simp] theorem callsOf_nil (h : Nat) : callsOf h [] = [] := rfl

@[simp] theorem callsOf_called (h : Nat) (op : Op) (log : List Event) :
    callsOf h (.called h op :: log) = op :: callsOf h log := by
  simp [callsOf,Event.callOn]

@[simp] theorem callsOf_triggerExit (h h' : Nat) (log : List Event) :
    callsOf h (.triggerExit h' :: log) = callsOf h log := rfl

@[simp] theorem callsOf_returned (h h' : Nat) (op : Op) (error : Option BtstackRuntimeError)
    (log : List Event) : callsOf h (.returned h' op error :: log) = callsOf h log := rfl

/-- The operations with the `shutdown` that `Drop` calls in place of it. -/
def withDrop : List Op → List Op
  | [.drop] => [.shutdown]
  | ops => ops

/-- How many calls of `shutdown` come past their join: the first operation takes the loop thread,
and fails if that has panicked. -/
def passingShutdowns (panicked : Bool) (ops : List Op) : Nat :=
  (if panicked then (withDrop ops).tail else withDrop ops).count .shutdown

theorem withDrop_of_not_mem {ops : List Op} (h : .drop ∉ ops) : withDrop ops = ops := by
  unfold withDrop
  split
  · simp at h
  · rfl

theorem withDrop_concat {ops : List Op} (hne : ops ≠ []) (op : Op) :
    withDrop (ops ++ [op]) = ops ++ [op] := by
  unfold withDrop
  split
  · rename_i heq
    have hlength := congrArg List.length heq
    simp only [List.length_append,List.length_singleton] at hlength
    exact absurd (List.length_eq_zero_iff.mp (by omega)) hne
  · rfl

theorem passingShutdowns_concat (panicked : Bool) {ops : List Op} (hne : ops ≠ [])
    (hdrop : .drop ∉ ops) (op : Op) :
    passingShutdowns panicked (ops ++ [op]) =
      passingShutdowns panicked ops+(if op = .shutdown then 1 else 0) := by
  unfold passingShutdowns
  rw [withDrop_concat hne,withDrop_of_not_mem hdrop,List.tail_append_of_ne_nil hne]
  cases panicked <;> cases op <;> simp

def Pc.made (call : DeinitCall) : Pc → Nat
  | deinitialising calls _ => if call ∈ calls then 0 else 1
  | _ => 0

structure CountsDeinits (h : Nat) (r : BtstackRuntime) (events : List Event) : Prop where
  nodup : ∀ calls op, r.pc = .deinitialising calls op → calls.Nodup
  count_eq : ∀ call, events.count (.deinit h call) =
    events.count (.deactivated h)+r.pc.made call

theorem CountsDeinits.does {h : Nat} {r : BtstackRuntime} {e : Effect} {events : List Event}
    (hr : CountsDeinits h r events) (hdoes : Does h r e) :
    CountsDeinits h e.runtime (events ++ e.events) := by
  have hquiet : (∀ call, .deinit h call ∉ e.events) → .deactivated h ∉ e.events →
      (∀ call, e.runtime.pc.made call = r.pc.made call) →
      (∀ calls op, e.runtime.pc = .deinitialising calls op → calls.Nodup) →
        CountsDeinits h e.runtime (events ++ e.events) := by
    intro hdeinit hdeactivated hmade hnodup
    refine ⟨hnodup,fun call => ?_⟩
    rw [List.count_append,List.count_append,List.count_eq_zero.mpr (hdeinit call),
      List.count_eq_zero.mpr hdeactivated,hmade call,hr.count_eq call]
    rfl
  cases hdoes with
  | deinit call calls op hpc =>
    have hnodup := List.nodup_cons.mp (hr.nodup _ _ hpc)
    refine ⟨fun calls' op' heq => ?_,fun call' => ?_⟩
    · cases heq
      exact hnodup.2
    · have hcount := hr.count_eq call'
      simp only [hpc,Pc.made,List.mem_cons] at hcount
      by_cases hcall : call' = call
      · subst hcall
        simp [hcount,Pc.made,hnodup.1]
      · simp [hcount,Pc.made,hcall,Ne.symm hcall]
  | deactivate op hpc =>
    refine ⟨fun calls' op' heq => ?_,fun call => ?_⟩
    · cases op <;> cases heq
    · have hcount := hr.count_eq call
      simp only [hpc,Pc.made,List.not_mem_nil,if_false] at hcount
      have hafter : op.after.made call = 0 := by cases op <;> rfl
      simp [hcount,hafter]
  | shutdown hpc hthread | passed op hpc =>
    refine hquiet (by simp) (by simp) (fun call => ?_) fun calls op heq => ?_
    · have hmem : call ∈ deinitCalls := by cases call <;> decide
      simp [hpc,Pc.made,hmem]
    · cases heq
      decide
  | take op hpc hthread =>
    refine hquiet ?_ ?_ (fun call => by simp [hpc,Pc.made]) (by simp)
    · intro call
      cases op <;> simp
    · cases op <;> simp
  | joined op panicked error hpc =>
    refine hquiet (by simp) (by simp) (fun call => ?_) fun calls op' heq => ?_
    · cases op <;> simp [hpc,Pc.made,Op.after]
    · cases op <;> cases heq
  | exit panicked hloop => exact hquiet (by simp) (by simp) (fun _ => rfl) hr.nodup
  | init call calls hpc | spawn hpc | again hpc hthread | drop hpc hthread =>
    exact hquiet (by simp) (by simp) (fun call => by simp [hpc,Pc.made]) (by simp)

inductive Tally : BtstackRuntime → List Op → Nat → Prop where
  | starting (calls : List InitCall) : Tally ⟨.starting calls,false,.notSpawned⟩ [] 0
  | owning (loop : LoopThread) : Tally ⟨.idle,true,loop⟩ [] 0
  | joining (op : Op) (loop : LoopThread) : Tally ⟨.joining op,false,loop⟩ [op] 0
  | idle (panicked : Bool) (ops : List Op) (hne : ops ≠ []) (hdrop : .drop ∉ ops) :
      Tally ⟨.idle,false,.ended panicked⟩ ops (passingShutdowns panicked ops)
  | deinitialising (panicked : Bool) (calls : List DeinitCall) (op : Op) (ops : List Op) (n : Nat)
      (hpassing : passingShutdowns panicked ops = n+1)
      (hops : op = .shutdown ∧ ops ≠ [] ∧ .drop ∉ ops ∨ op = .drop) :
      Tally ⟨.deinitialising calls op,false,.ended panicked⟩ ops n
  | dropped (panicked : Bool) (ops : List Op) :
      Tally ⟨.dropped,false,.ended panicked⟩ ops (passingShutdowns panicked ops)

theorem Tally.does {h : Nat} {r : BtstackRuntime} {e : Effect} {ops : List Op} {n : Nat}
    (hr : Tally r ops n) (hdoes : Does h r e) :
    Tally e.runtime (ops ++ callsOf h e.events) (n+e.events.count (.deactivated h)) := by
  obtain ⟨pc,thread,loop⟩ := r
  cases hdoes with
  | init call calls hpc =>
    cases hpc
    cases hr with
    | starting => exact .starting calls
  | spawn hpc =>
    cases hpc
    cases hr with
    | starting => exact .owning .running
  | exit panicked hloop =>
    cases hloop
    cases hr with
    | owning => exact .owning _
    | joining op => exact .joining op _
  | take op hpc hthread =>
    cases hpc
    cases hthread
    cases hr with
    | owning =>
      have hjoining := Tally.joining op loop
      cases op <;> simpa using hjoining
  | again hpc hthread =>
    cases hpc
    cases hthread
    cases hr with
    | idle panicked ops hne hdrop =>
      have hidle := Tally.idle panicked (ops ++ [.join]) (by simp) (by simpa using hdrop)
      rw [passingShutdowns_concat panicked hne hdrop] at hidle
      simpa using hidle
  | shutdown hpc hthread =>
    cases hpc
    cases hthread
    cases hr with
    | idle panicked ops hne hdrop =>
      have hdeinit := Tally.deinitialising panicked deinitCalls .shutdown (ops ++ [.shutdown]) _
        (passingShutdowns_concat panicked hne hdrop .shutdown)
        (.inl ⟨rfl,by simp,by simpa using hdrop⟩)
      simpa using hdeinit
  | drop hpc hthread =>
    cases hpc
    cases hthread
    cases hr with
    | idle panicked ops hne hdrop =>
      have hdropped := Tally.dropped panicked (ops ++ [.drop])
      rw [passingShutdowns_concat panicked hne hdrop] at hdropped
      simpa using hdropped
  | joined op panicked error hpc hloop hends =>
    cases hpc
    cases hloop
    cases hr with
    | joining =>
      cases op with
      | join =>
        have hidle := Tally.idle panicked [.join] (by simp) (by simp)
        cases panicked <;> exact hidle
      | shutdown =>
        obtain hjoin | rfl := hends
        · cases hjoin
        · exact Tally.idle true [.shutdown] (by simp) (by simp)
      | drop =>
        obtain hjoin | rfl := hends
        · cases hjoin
        · exact Tally.dropped true [.drop]
  | passed op hpc hloop hop =>
    cases hpc
    cases hloop
    cases hr with
    | joining =>
      cases op with
      | join => exact absurd rfl hop
      | shutdown =>
        exact Tally.deinitialising false deinitCalls .shutdown [.shutdown] 0 rfl
          (.inl ⟨rfl,by simp,by simp⟩)
      | drop => exact Tally.deinitialising false deinitCalls .drop [.drop] 0 rfl (.inr rfl)
  | deinit call calls op hpc =>
    cases hpc
    cases hr with
    | deinitialising panicked _ _ ops n hpassing hops =>
      rw [show callsOf h [.deinit h call] = [] from rfl,List.append_nil]
      exact .deinitialising panicked calls op ops n hpassing hops
  | deactivate op hpc =>
    cases hpc
    cases hr with
    | deinitialising panicked _ _ ops n hpassing hops =>
      have hcalls : callsOf h [.deactivated h,.returned h op none] = [] := rfl
      have hcount : [Event.deactivated h,.returned h op none].count (.deactivated h) = 1 := by simp
      rw [hcalls,hcount,List.append_nil,← hpassing]
      obtain ⟨rfl,hne,hdrop⟩ | rfl := hops
      · exact .idle panicked ops hne hdrop
      · exact .dropped panicked ops

theorem callsOf_eventsOf (h : Nat) (log : List Event) :
    callsOf h (eventsOf h log) = callsOf h log := by
  rw [callsOf,eventsOf,about,List.filterMap_filter,callsOf]
  apply List.filterMap_congr
  intro e _
  cases e with
  | called h' op => by_cases hh : h' = h <;> simp [Event.callOn,Event.handle,hh]
  | _ =>
    split
    · rfl
    · rfl

theorem Reached.tally {p : Process} (hp : Reached p) {h : Nat} {r : BtstackRuntime}
    (hhandle : p.handles[h]? = some r) :
    Tally r (callsOf h p.log) (p.log.count (.deactivated h)) := by
  have hown : Tally r (callsOf h (eventsOf h p.log))
      ((eventsOf h p.log).count (.deactivated h)) := by
    apply hp.handle_invariant (P := fun h r events =>
      Tally r (callsOf h events) (events.count (.deactivated h))) _ _ hhandle
    · exact fun h => .starting _
    · intro h r e events hr hdoes
      have hnext := hr.does hdoes
      rwa [← callsOf_append,← List.count_append] at hnext
  have hkey : (Event.deactivated h).handle = some h := rfl
  rwa [callsOf_eventsOf,eventsOf,count_about _ hkey] at hown

/-- How often a dropped handle has made each call of its deinitialisation. -/
theorem Reached.count_deinit {p : Process} (hp : Reached p) {h : Nat} {r : BtstackRuntime}
    (hhandle : p.handles[h]? = some r) (hdropped : r.pc = .dropped) :
    p.log.count (.deactivated h) =
        passingShutdowns (p.log.contains (.exited h true)) (callsOf h p.log) ∧
      ∀ call, p.log.count (.deinit h call) = p.log.count (.deactivated h) := by
  constructor
  · have hexited := hp.exited_iff hhandle true
    have htally := hp.tally hhandle
    obtain ⟨pc,thread,loop⟩ := r
    cases hdropped
    generalize callsOf h p.log = ops at htally ⊢
    generalize p.log.count (.deactivated h) = n at htally ⊢
    cases htally with
    | dropped panicked =>
      have hpanicked : p.log.contains (.exited h true) = panicked := by
        rw [Bool.eq_iff_iff,List.contains_iff_mem,← hexited]
        simp
      rw [hpanicked]
  · intro call
    have hown : CountsDeinits h r (eventsOf h p.log) :=
      hp.handle_invariant (P := CountsDeinits)
        (fun _ => ⟨fun _ _ heq => (by cases heq),fun _ => rfl⟩)
        (fun _ _ _ _ hr hdoes => hr.does hdoes) hhandle
    have hcount := hown.count_eq call
    have hkey : (Event.deinit h call).handle = some h := rfl
    have hkey' : (Event.deactivated h).handle = some h := rfl
    rw [eventsOf,count_about _ hkey,count_about _ hkey',hdropped] at hcount
    exact hcount

def StartedSince (log : List Event) (h : Nat) : Prop :=
  ∃ before after h', log = before ++ after ∧ .deactivated h ∈ before ∧ .activated h' ∈ after

def Process.StartSucceeds (p : Process) : Prop :=
  ∃ p', lifecycle.step p .start = some p' ∧ p'.log = p.log ++ [.activated p.handles.length]

/-- The runtime has been deinitialised once, and `RUNTIME_ACTIVE` is not set on its account. -/
structure Released (p : Process) (h : Nat) : Prop where
  deinit_once : ∀ call ∈ deinitCalls, p.log.count (.deinit h call) = 1
  inactive : (p.runtimeActive = false ∧ p.StartSucceeds) ∨ StartedSince p.log h

theorem Process.startSucceeds {p : Process} (h : p.runtimeActive = false) : p.StartSucceeds := by
  refine ⟨p.startWithInit,rfl,?_⟩
  simp [Process.startWithInit,h]

private theorem Does.not_deactivated {h : Nat} {r : BtstackRuntime} {e : Effect}
    (hdoes : Does h r e) (hstores : e.stores = false) (h' : Nat) : .deactivated h' ∉ e.events := by
  cases hdoes with
  | take op hpc hthread => cases op <;> simp
  | deactivate op hpc => cases hstores
  | _ => simp

theorem Reached.startedSince {p : Process} (hp : Reached p) (hactive : p.runtimeActive = true)
    {h : Nat} (hover : .deactivated h ∈ p.log) : StartedSince p.log h := by
  have hall : p.runtimeActive = true → .deactivated h ∈ p.log → StartedSince p.log h := by
    clear hactive hover
    have hextend : ∀ {log : List Event} (new : List Event), StartedSince log h →
        StartedSince (log ++ new) h := by
      rintro log new ⟨before,after,h',rfl,hover,hstarted⟩
      exact ⟨before,after ++ new,h',List.append_assoc _ _ _,hover,List.mem_append_left _ hstarted⟩
    apply Machine.Steps.invariant hp
    · intro hactive
      cases hactive
    · intro q a q' hq _ hstep hactive hover
      cases lifecycle_steps hstep with
      | refused hset => exact hextend _ (hq hset (by simpa using hover))
      | activated hunset =>
        exact ⟨q.log,_,_,rfl,by simpa using hover,List.mem_singleton.mpr rfl⟩
      | own h' c r e hhandle hdo =>
        have hstores : e.stores = false := by
          simp only [Process.apply] at hactive
          split at hactive
          · cases hactive
          · rename_i hstores
            simpa using hstores
        have hnot := (BtstackRuntime.does_of_step hdo).not_deactivated hstores h
        simp only [Process.apply,hstores,List.mem_append] at hactive hover
        exact hextend _ (hq hactive (hover.resolve_right hnot))
  exact hall hactive hover

/-- A dropped handle has given its runtime back if and only if exactly one of its shutdowns, the
one in `Drop` included, has come past its join. -/
theorem released_iff {p : Process} (hp : Reached p) {h : Nat} {r : BtstackRuntime}
    (hhandle : p.handles[h]? = some r) (hdropped : r.pc = .dropped) :
    Released p h ↔
      passingShutdowns (p.log.contains (.exited h true)) (callsOf h p.log) = 1 := by
  obtain ⟨hpassing,hdeinit⟩ := hp.count_deinit hhandle hdropped
  constructor
  · intro hreleased
    have honce := hreleased.deinit_once .hciClose (by decide)
    rw [← hpassing,← hdeinit,honce]
  · intro hone
    rw [← hpassing] at hone
    refine ⟨fun call _ => by rw [hdeinit,hone],?_⟩
    have hover : .deactivated h ∈ p.log := List.count_pos_iff.mp (by omega)
    cases hactive : p.runtimeActive with
    | false => exact .inl ⟨rfl,Process.startSucceeds hactive⟩
    | true => exact .inr (hp.startedSince hactive hover)

/-- A runtime is joined, shut down and dropped. -/
theorem released_iff_shutdown : ∃ p r,
    lifecycle.run {} (startRun 0 ++ Action.on 0 [.call .join,.exit false,.go,.call .shutdown,.go,.go,
      .go,.go,.go,.call .drop]) = some p ∧
    p.handles[0]? = some r ∧ r.pc = .dropped ∧ Released p 0 := by
  have hrun : (lifecycle.run {} (startRun 0 ++ Action.on 0 [.call .join,.exit false,.go,
      .call .shutdown,.go,.go,.go,.go,.go,.call .drop])).map
      (fun p => (p.handles[0]?,passingShutdowns (p.log.contains (.exited 0 true))
        (callsOf 0 p.log))) = some (some ⟨.dropped,false,.ended false⟩,1) := rfl
  obtain ⟨p,hp,hvalues⟩ := Option.map_eq_some_iff.mp hrun
  obtain ⟨hhandle,hone⟩ := Prod.mk.inj hvalues
  exact ⟨p,_,hp,hhandle,rfl,(released_iff (Reached.of_run hp) hhandle rfl).mpr hone⟩

/-- `gatt_counter_main` joins its runtime and drops it: BTstack is never deinitialised, and no
runtime can be started any more. -/
theorem joinedRuntime_leaks : ∃ p r,
    lifecycle.run {} (startRun 0 ++ Action.on 0 [.call .join,.exit false,.go,.call .drop] ++
      [.start]) = some p ∧
    p.handles[0]? = some r ∧ r.pc = .dropped ∧
    (∀ call, .deinit 0 call ∉ p.log) ∧ p.runtimeActive = true ∧
    p.log.getLast? = some (.refused .alreadyStarted) ∧ ¬Released p 0 := by
  have hrun : (lifecycle.run {} (startRun 0 ++
      Action.on 0 [.call .join,.exit false,.go,.call .drop] ++ [.start])).map
      (fun p => (p.handles[0]?,p.runtimeActive,p.log.getLast?,
        deinitCalls.map fun call => p.log.count (.deinit 0 call))) =
      some (some ⟨.dropped,false,.ended false⟩,true,some (.refused .alreadyStarted),
        [0,0,0,0]) := rfl
  obtain ⟨p,hp,hvalues⟩ := Option.map_eq_some_iff.mp hrun
  simp only [Prod.mk.injEq,deinitCalls,List.map_cons,List.map_nil,List.cons.injEq] at hvalues
  obtain ⟨hhandle,hactive,hlast,hclose,hdeinit,hloop,hmemory,_⟩ := hvalues
  refine ⟨p,_,hp,hhandle,rfl,?_,hactive,hlast,fun hreleased => ?_⟩
  · intro call
    rw [← List.count_eq_zero]
    cases call <;> assumption
  · have honce := hreleased.deinit_once .hciClose (by decide)
    rw [hclose] at honce
    cases honce

end BtstackRs.Gatt
