import BtstackRs.Concurrent.Machine

/-!
# The runtime owner

BTstack keeps its memory pools, HCI and run loop in process-wide state. A `BtstackRuntime` handle
initialises that state, runs the loop on a thread of its own, and gives the state back in
`shutdown`. Any number of handles are started, joined, shut down and dropped by any threads; each
handle is used by one of them at a time, since all operations take `&mut self`.
-/

namespace BtstackRs.Gatt

open Concurrent

/-- What `start_with_init` calls. -/
inductive InitCall where
  | btstackMemoryInit
  | btstackRunLoopInit
  | hciInit
  deriving DecidableEq, Repr

def initCalls : List InitCall := [.btstackMemoryInit,.btstackRunLoopInit,.hciInit]

/-- What `shutdown` calls once the loop thread is joined. -/
inductive DeinitCall where
  | hciClose
  | hciDeinit
  | btstackRunLoopDeinit
  | btstackMemoryDeinit
  deriving DecidableEq, Repr

def deinitCalls : List DeinitCall :=
  [.hciClose,.hciDeinit,.btstackRunLoopDeinit,.btstackMemoryDeinit]

/-- The operations on a handle; `drop` ends its life. -/
inductive Op where
  | join
  | shutdown
  | drop
  deriving DecidableEq, Repr

inductive BtstackRuntimeError where
  | alreadyStarted
  | loopThreadPanicked
  deriving DecidableEq, Repr

/-- The run-loop thread, which runs the `init` closure and `btstack_run_loop_execute`. -/
inductive LoopThread where
  | notSpawned
  | running
  | ended (panicked : Bool)
  deriving DecidableEq, Repr

inductive Pc where
  | starting (calls : List InitCall)
  -- In no operation.
  | idle
  -- In `handle.join()` of the operation.
  | joining (op : Op)
  -- In `shutdown`, before these calls and the store to `RUNTIME_ACTIVE`.
  | deinitialising (calls : List DeinitCall) (op : Op)
  | dropped
  deriving DecidableEq, Repr

structure BtstackRuntime where
  pc : Pc
  -- `loop_thread.is_some()`.
  loopThread : Bool := false
  loop : LoopThread := .notSpawned
  deriving DecidableEq, Repr

/-- Handles are numbered in the order in which `RUNTIME_ACTIVE` was taken for them. -/
inductive Event where
  -- `start_with_init` returned this error.
  | refused (error : BtstackRuntimeError)
  -- `RUNTIME_ACTIVE.swap(true)` found `false`.
  | activated (h : Nat)
  | init (h : Nat) (call : InitCall)
  | spawned (h : Nat)
  | exited (h : Nat) (panicked : Bool)
  | called (h : Nat) (op : Op)
  | triggerExit (h : Nat)
  | deinit (h : Nat) (call : DeinitCall)
  -- `RUNTIME_ACTIVE.store(false)`.
  | deactivated (h : Nat)
  | returned (h : Nat) (op : Op) (error : Option BtstackRuntimeError)
  deriving DecidableEq, Repr

/-- The effect of a step on its handle, on the log, and on `RUNTIME_ACTIVE`. -/
structure Effect where
  runtime : BtstackRuntime
  events : List Event
  stores : Bool := false

def Op.after : Op → Pc
  | drop => .dropped
  | _ => .idle

namespace BtstackRuntime

/-- `join` has come to this result, in a call of its own or within `shutdown`. -/
def joined (h : Nat) (r : BtstackRuntime) (op : Op) (error : Option BtstackRuntimeError) :
    BtstackRuntime × List Event :=
  match op,error with
  | .join,error => ({ r with pc := .idle },[.returned h .join error])
  | .shutdown,some e => ({ r with pc := .idle },[.returned h .shutdown (some e)])
  | .drop,some _ => ({ r with pc := .dropped },[.returned h .drop none]) -- `let _ = ...`
  | op,none => ({ r with pc := .deinitialising deinitCalls op },[])

/-- `join` takes the thread out of the handle, if it is still there. -/
def join (h : Nat) (r : BtstackRuntime) (op : Op) : BtstackRuntime × List Event :=
  if r.loopThread then ({ r with loopThread := false, pc := .joining op },[])
  else r.joined h op none

def shutdown (h : Nat) (r : BtstackRuntime) (op : Op) : BtstackRuntime × List Event :=
  let result := r.join h op
  (result.1,.triggerExit h :: result.2)

def drop (h : Nat) (r : BtstackRuntime) : BtstackRuntime × List Event :=
  if r.loopThread then r.shutdown h .drop
  else ({ r with pc := .dropped },[.returned h .drop none])

/-- The first part of a call, up to where it waits or calls BTstack. -/
def call (h : Nat) (r : BtstackRuntime) : Op → BtstackRuntime × List Event
  | .join => r.join h .join
  | .shutdown => r.shutdown h .shutdown
  | .drop => r.drop h

end BtstackRuntime

/-- What a scheduler decides about a handle. -/
inductive Choice where
  | call (op : Op)
  | go
  | exit (panicked : Bool)
  deriving DecidableEq, Repr

def BtstackRuntime.step (h : Nat) (r : BtstackRuntime) : Choice → Option Effect
  | .call op =>
      if r.pc = .idle then
        let result := r.call h op
        some ⟨result.1,.called h op :: result.2,false⟩
      else none
  | .exit panicked =>
      if r.loop = .running then
        some ⟨{ r with loop := .ended panicked },[.exited h panicked],false⟩
      else none
  | .go =>
      match r.pc with
      | .starting (call :: calls) =>
          some ⟨{ r with pc := .starting calls },[.init h call],false⟩
      | .starting [] =>
          some ⟨{ pc := .idle, loopThread := true, loop := .running },[.spawned h],false⟩
      | .joining op =>
          match r.loop with
          | .ended panicked =>
              let result := r.joined h op (if panicked then some .loopThreadPanicked else none)
              some ⟨result.1,result.2,false⟩
          | _ => none
      | .deinitialising (call :: calls) op =>
          some ⟨{ r with pc := .deinitialising calls op },[.deinit h call],false⟩
      | .deinitialising [] op =>
          some ⟨{ r with pc := op.after },[.deactivated h,.returned h op none],true⟩
      | .idle | .dropped => none

structure Process where
  runtimeActive : Bool := false
  handles : List BtstackRuntime := []
  log : List Event := []
  deriving DecidableEq, Repr

inductive Action where
  | start
  | own (h : Nat) (c : Choice)
  deriving DecidableEq, Repr

namespace Process

def apply (p : Process) (h : Nat) (e : Effect) : Process :=
  { runtimeActive := if e.stores then false else p.runtimeActive
    handles := p.handles.set h e.runtime
    log := p.log ++ e.events }

/-- `start_with_init` up to the exchange of `RUNTIME_ACTIVE`. -/
def startWithInit (p : Process) : Process :=
  if p.runtimeActive then { p with log := p.log ++ [.refused .alreadyStarted] }
  else
    { runtimeActive := true
      handles := p.handles ++ [{ pc := .starting initCalls }]
      log := p.log ++ [.activated p.handles.length] }

def step (p : Process) : Action → Option Process
  | .start => some p.startWithInit
  | .own h c =>
      match p.handles[h]? with
      | none => none
      | some r => (r.step h c).map (p.apply h)

end Process

def lifecycle : Machine Process Action := ⟨Process.step⟩

def Action.on (h : Nat) (choices : List Choice) : List Action := choices.map (.own h ·)

def startRun (h : Nat) : List Action := .start :: Action.on h [.go,.go,.go,.go]

/-- The effects that a step can have on its handle. -/
inductive Does (h : Nat) (r : BtstackRuntime) : Effect → Prop where
  | init (call : InitCall) (calls : List InitCall) (hpc : r.pc = .starting (call :: calls)) :
      Does h r ⟨{ r with pc := .starting calls },[.init h call],false⟩
  | spawn (hpc : r.pc = .starting []) :
      Does h r ⟨{ pc := .idle, loopThread := true, loop := .running },[.spawned h],false⟩
  | exit (panicked : Bool) (hloop : r.loop = .running) :
      Does h r ⟨{ r with loop := .ended panicked },[.exited h panicked],false⟩
  | take (op : Op) (hpc : r.pc = .idle) (hthread : r.loopThread = true) :
      Does h r ⟨{ r with loopThread := false, pc := .joining op },
        .called h op :: (if op = .join then [] else [.triggerExit h]),false⟩
  | again (hpc : r.pc = .idle) (hthread : r.loopThread = false) :
      Does h r ⟨{ r with pc := .idle },[.called h .join,.returned h .join none],false⟩
  | shutdown (hpc : r.pc = .idle) (hthread : r.loopThread = false) :
      Does h r ⟨{ r with pc := .deinitialising deinitCalls .shutdown },
        [.called h .shutdown,.triggerExit h],false⟩
  | drop (hpc : r.pc = .idle) (hthread : r.loopThread = false) :
      Does h r ⟨{ r with pc := .dropped },[.called h .drop,.returned h .drop none],false⟩
  | joined (op : Op) (panicked : Bool) (error : Option BtstackRuntimeError)
      (hpc : r.pc = .joining op) (hloop : r.loop = .ended panicked)
      (hends : op = .join ∨ panicked = true) :
      Does h r ⟨{ r with pc := op.after },[.returned h op error],false⟩
  | passed (op : Op) (hpc : r.pc = .joining op) (hloop : r.loop = .ended false)
      (hop : op ≠ .join) :
      Does h r ⟨{ r with pc := .deinitialising deinitCalls op },[],false⟩
  | deinit (call : DeinitCall) (calls : List DeinitCall) (op : Op)
      (hpc : r.pc = .deinitialising (call :: calls) op) :
      Does h r ⟨{ r with pc := .deinitialising calls op },[.deinit h call],false⟩
  | deactivate (op : Op) (hpc : r.pc = .deinitialising [] op) :
      Does h r ⟨{ r with pc := op.after },[.deactivated h,.returned h op none],true⟩

private theorem joined_does {h : Nat} {r : BtstackRuntime} {op : Op} {panicked : Bool}
    (hpc : r.pc = .joining op) (hloop : r.loop = .ended panicked) :
    Does h r ⟨(r.joined h op (if panicked then some .loopThreadPanicked else none)).1,
      (r.joined h op (if panicked then some .loopThreadPanicked else none)).2,false⟩ := by
  cases op with
  | join => exact .joined .join panicked _ hpc hloop (.inl rfl)
  | shutdown =>
    cases panicked with
    | true => exact .joined .shutdown true _ hpc hloop (.inr rfl)
    | false => exact .passed .shutdown hpc hloop (by simp)
  | drop =>
    cases panicked with
    | true => exact .joined .drop true _ hpc hloop (.inr rfl)
    | false => exact .passed .drop hpc hloop (by simp)

private theorem call_does {h : Nat} {r : BtstackRuntime} (hpc : r.pc = .idle) (op : Op) :
    Does h r ⟨(r.call h op).1,.called h op :: (r.call h op).2,false⟩ := by
  cases hthread : r.loopThread with
  | true =>
    have htake := Does.take (h := h) op hpc hthread
    cases op <;>
      simpa [BtstackRuntime.call,BtstackRuntime.join,BtstackRuntime.shutdown,BtstackRuntime.drop,
        hthread] using htake
  | false =>
    cases op with
    | join =>
      simpa [BtstackRuntime.call,BtstackRuntime.join,BtstackRuntime.joined,hthread]
        using Does.again (h := h) hpc hthread
    | shutdown =>
      simpa [BtstackRuntime.call,BtstackRuntime.join,BtstackRuntime.shutdown,
        BtstackRuntime.joined,hthread] using Does.shutdown (h := h) hpc hthread
    | drop =>
      simpa [BtstackRuntime.call,BtstackRuntime.drop,hthread]
        using Does.drop (h := h) hpc hthread

theorem BtstackRuntime.does_of_step {h : Nat} {r : BtstackRuntime} {c : Choice} {e : Effect}
    (hstep : r.step h c = some e) : Does h r e := by
  unfold BtstackRuntime.step at hstep
  cases c with
  | call op =>
    dsimp only at hstep
    split at hstep <;> cases hstep
    rename_i hpc
    exact call_does hpc op
  | exit panicked =>
    dsimp only at hstep
    split at hstep <;> cases hstep
    rename_i hloop
    exact .exit panicked hloop
  | go =>
    dsimp only at hstep
    split at hstep
    · rename_i call calls hpc
      cases hstep
      exact .init call calls hpc
    · rename_i hpc
      cases hstep
      exact .spawn hpc
    · rename_i op hpc
      split at hstep <;> cases hstep
      rename_i panicked hloop
      exact joined_does hpc hloop
    · rename_i call calls op hpc
      cases hstep
      exact .deinit call calls op hpc
    · rename_i op hpc
      cases hstep
      exact .deactivate op hpc
    · cases hstep
    · cases hstep

private theorem joined_events {h : Nat} (r : BtstackRuntime) (op op' : Op)
    (error : Option BtstackRuntimeError) : .called h op' ∉ (r.joined h op error).2 := by
  cases op <;> cases error <;> simp [BtstackRuntime.joined]

private theorem call_events {h : Nat} (r : BtstackRuntime) (op op' : Op) :
    .called h op' ∉ (r.call h op).2 := by
  cases op <;>
    simp only [BtstackRuntime.call,BtstackRuntime.join,BtstackRuntime.shutdown,BtstackRuntime.drop]
  all_goals
    split <;> simp [joined_events]

theorem BtstackRuntime.choice_of_called {h : Nat} {r : BtstackRuntime} {c : Choice} {e : Effect}
    (hstep : r.step h c = some e) {op : Op} (hcalled : .called h op ∈ e.events) :
    c = .call op := by
  unfold BtstackRuntime.step at hstep
  cases c with
  | call op' =>
    dsimp only at hstep
    split at hstep <;> cases hstep
    rcases List.mem_cons.mp hcalled with heq | hmem
    · cases heq
      rfl
    · exact absurd hmem (call_events r op' op)
  | exit panicked =>
    dsimp only at hstep
    split at hstep <;> cases hstep
    simp at hcalled
  | go =>
    dsimp only at hstep
    split at hstep
    · cases hstep
      simp at hcalled
    · cases hstep
      simp at hcalled
    · split at hstep <;> cases hstep
      exact absurd hcalled (joined_events r _ op _)
    all_goals
      cases hstep
      try simp at hcalled

theorem BtstackRuntime.shutdown_events {h : Nat} {r : BtstackRuntime} {e : Effect}
    (hstep : r.step h (.call .shutdown) = some e) :
    ∃ rest, e.events = .called h .shutdown :: .triggerExit h :: rest := by
  unfold BtstackRuntime.step at hstep
  dsimp only at hstep
  split at hstep <;> cases hstep
  exact ⟨_,rfl⟩

/-- What a step of the process can do. -/
inductive Steps (p : Process) : Action → Process → Prop where
  | refused (hactive : p.runtimeActive = true) :
      Steps p .start { p with log := p.log ++ [.refused .alreadyStarted] }
  | activated (hactive : p.runtimeActive = false) :
      Steps p .start
        { runtimeActive := true
          handles := p.handles ++ [{ pc := .starting initCalls }]
          log := p.log ++ [.activated p.handles.length] }
  | own (h : Nat) (c : Choice) (r : BtstackRuntime) (e : Effect) (hhandle : p.handles[h]? = some r)
      (hstep : r.step h c = some e) : Steps p (.own h c) (p.apply h e)

theorem lifecycle_steps {p p' : Process} {a : Action} (hstep : lifecycle.step p a = some p') :
    Steps p a p' := by
  change p.step a = some p' at hstep
  cases a with
  | start =>
    cases hstep
    unfold Process.startWithInit
    split
    · rename_i hactive
      exact .refused hactive
    · rename_i hactive
      exact .activated (by simpa using hactive)
  | own h c =>
    simp only [Process.step] at hstep
    split at hstep
    · cases hstep
    · rename_i r hhandle
      obtain ⟨e,he,rfl⟩ := Option.map_eq_some_iff.mp hstep
      exact .own h c r e hhandle he

end BtstackRs.Gatt
