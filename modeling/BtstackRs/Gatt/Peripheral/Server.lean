import BtstackRs.Gatt.Peripheral.Callbacks

/-!
# The server and BTstack

What threads, the run loop and the owner of the server do to `RUNTIME`, and what BTstack keeps of
it: the pointer to the ATT database, the callback registration while it is pending, and the GAP
calls made so far, the last of which decide what is advertised.

Calls of `start_advertising` and `stop` take a step for the flag and one for the registration, and
so does the drop for its two statements. An update can run as one step, or step by step.
-/

namespace BtstackRs.Gatt.Peripheral

open Sequence Transport Concurrent

/-- Memory that BTstack keeps a pointer to. Servers are numbered by the calls of `new`; what lies in
`RUNTIME` itself has one address. -/
inductive Buffer where
  | profileData (server : Nat)
  | advertisingData (server : Nat)
  | hciEventCb
  | runLoopCallback
  deriving DecidableEq, Repr

inductive Owner where
  | spec
  | runtime
  | nobody
  deriving DecidableEq, Repr

inductive GapCall where
  | setParams (intervalMin intervalMax : UInt16) (advType directAddressType : UInt8)
      (directAddress : Bytes) (channelMap filterPolicy : UInt8)
  | setData (length : UInt8) (data : Buffer)
  | enable (enabled : Bool)
  deriving DecidableEq, Repr

def GapCall.enabled? : GapCall → Option Bool
  | .enable enabled => some enabled
  | _ => none

def GapCall.params? : GapCall → Option GapCall
  | .setParams intervalMin intervalMax advType directAddressType directAddress channelMap
      filterPolicy =>
    some (.setParams intervalMin intervalMax advType directAddressType directAddress channelMap
      filterPolicy)
  | _ => none

/-- `gap_advertisements_set_data`: the length and the retained pointer. -/
def GapCall.data? : GapCall → Option (UInt8 × Buffer)
  | .setData length data => some (length,data)
  | _ => none

/-- The contents of `RUNTIME`. -/
structure Server where
  number : Nat
  state : RuntimeState

/-- An execution of the advertising update: its registration is removed, or it has looked at
`RUNTIME` and these calls are left. -/
inductive Execution where
  | removed
  | issuing (calls : List GapCall)
  deriving DecidableEq, Repr

/-- The calls by which `new` connects itself to BTstack. -/
inductive InitCall where
  | l2capInit
  | smInit
  | attServerInit (profileData : Buffer)
  | attServerRegisterPacketHandler
  | hciAddEventHandler (registration : Buffer)
  deriving DecidableEq, Repr

structure Btstack where
  attDatabase : Option Buffer := none
  initCalls : List InitCall := []
  -- The registration of the advertising update is in the list of the run loop.
  pending : Bool := false
  gapCalls : List GapCall := []

structure World where
  runtime : Option Server := none
  owner : Buffer → Owner := fun _ => .nobody
  -- The number of calls of `new`.
  created : Nat := 0
  btstack : Btstack := {}
  -- Threads between the two steps of `start_advertising` or `stop`.
  callers : List Nat := []
  executing : Option Execution := none
  -- Between the two steps of the drop.
  dropping : Bool := false

namespace World

/-- The effective state of GAP advertising. -/
def advertising (s : World) : Bool := (latest GapCall.enabled? s.btstack.gapCalls).getD false

def requested (s : World) : Bool := s.runtime.any (fun server => server.state.advertisingEnabled)

def retainedData (s : World) : Option Buffer :=
  (latest GapCall.data? s.btstack.gapCalls).map Prod.snd

def remaining (s : World) : List GapCall :=
  match s.executing with
  | some (.issuing calls) => calls
  | _ => []

/-- The caller moves its specification into `new`. -/
def takeSpec (s : World) : World :=
  { s with
    created := s.created+1
    owner := fun b =>
      if b = .profileData s.created ∨ b = .advertisingData s.created then .spec else s.owner b }

/-- `new` returns, and what it has not moved out of the specification is dropped. -/
def dropSpec (s : World) : World :=
  { s with owner := fun b => if s.owner b = .spec then .nobody else s.owner b }

def initCall (s : World) (call : InitCall) : World :=
  { s with btstack := { s.btstack with initCalls := s.btstack.initCalls ++ [call] } }

/-- BTstack keeps the pointer to the ATT database. -/
def attServerInit (s : World) (profileData : Buffer) : World :=
  let s := s.initCall (.attServerInit profileData)
  { s with btstack := { s.btstack with attDatabase := some profileData } }

/-- `RUNTIME = Some(..)`, which moves the advertising configuration. -/
def storeRuntime (s : World) (server : Server) : World :=
  { s with
    runtime := some server
    owner := fun b =>
      if b = .advertisingData server.number ∨ b = .hciEventCb ∨ b = .runLoopCallback then .runtime
      else s.owner b }

def clearRuntime (s : World) : World :=
  { s with
    runtime := none
    owner := fun b => if s.owner b = .runtime then .nobody else s.owner b }

def new (database : Bytes → AttDatabase) (order : IterationOrder UInt16 RuntimeCharacteristic)
    (s : World) (spec : GattPeripheralSpec) : World × Except GattPeripheralError Unit :=
  let number := s.created
  let s := s.takeSpec
  if s.runtime.isSome then (s.dropSpec,.error .serverAlreadyInitialized)
  else
    let s := s.initCall .l2capInit
    let s := s.initCall .smInit
    let s := s.attServerInit (.profileData number)
    let s := s.initCall .attServerRegisterPacketHandler
    match setup database order spec with
    | .error e => (s.dropSpec,.error e)
    | .ok state =>
        let s := s.storeRuntime ⟨number,state⟩
        let s := s.initCall (.hciAddEventHandler .hciEventCb)
        (s.dropSpec,.ok ())

def gapCall (s : World) (call : GapCall) : World :=
  { s with btstack := { s.btstack with gapCalls := s.btstack.gapCalls ++ [call] } }

/-- The registration is already in the list, or is added to it. -/
def executeOnMainThread (s : World) : World :=
  { s with btstack := { s.btstack with pending := true } }

end World

/-- The GAP calls of one execution, with the contents of `RUNTIME` that it finds. -/
def runLoopAdvertisingUpdate : Option Server → List GapCall
  | none => []
  | some server =>
      let advertising := server.state.advertising
      if server.state.advertisingEnabled then
        [.setParams advertising.intervalMin advertising.intervalMax advertising.advType 0
            [0,0,0,0,0,0] advertising.channelMap advertising.filterPolicy,
          .setData (UInt8.ofNat advertising.data.length) (.advertisingData server.number),
          .enable true]
      else [.enable false]

inductive Action where
  | new (spec : GattPeripheralSpec)
  -- The flag update of `start_advertising` or `stop`.
  | setEnabled (thread : Nat) (enabled : Bool)
  -- The registration with which this call ends.
  | register (thread : Nat)
  | update
  | updateStep
  | callback (c : Callback)
  | dropDisable
  | dropClear

namespace World

def updateStep (s : World) : Option World :=
  match s.executing with
  | none =>
      if s.btstack.pending then
        some { s with
          btstack := { s.btstack with pending := false }
          executing := some .removed }
      else none
  | some .removed =>
      some { s with executing := some (.issuing (runLoopAdvertisingUpdate s.runtime)) }
  | some (.issuing []) => some { s with executing := none }
  | some (.issuing (call :: calls)) =>
      some { s.gapCall call with executing := some (.issuing calls) }

/-- The borrow checker keeps calls and the drop of a server apart. -/
def step (database : Bytes → AttDatabase) (order : IterationOrder UInt16 RuntimeCharacteristic)
    (s : World) : Action → Option World
  | .new spec => some (s.new database order spec).1
  | .setEnabled thread enabled =>
      match s.runtime with
      | none => none
      | some server =>
          if thread ∈ s.callers ∨ s.dropping then none
          else some { s with
            runtime :=
              some { server with state := { server.state with advertisingEnabled := enabled } }
            callers := thread :: s.callers }
  | .register thread =>
      if thread ∈ s.callers then
        some { s.executeOnMainThread with callers := s.callers.erase thread }
      else none
  | .update =>
      if s.btstack.pending ∧ s.executing = none then
        some { s with btstack :=
          { s.btstack with
            pending := false
            gapCalls := s.btstack.gapCalls ++ runLoopAdvertisingUpdate s.runtime } }
      else none
  | .updateStep => s.updateStep
  | .callback c =>
      match s.runtime with
      | none => some s
      | some server => some { s with
          runtime := some { server with state := server.state.after c } }
  | .dropDisable =>
      if s.runtime.isSome ∧ s.callers = [] ∧ s.dropping = false then
        some { s.gapCall (.enable false) with dropping := true }
      else none
  | .dropClear => if s.dropping then some { s.clearRuntime with dropping := false } else none

end World

def server (database : Bytes → AttDatabase)
    (order : IterationOrder UInt16 RuntimeCharacteristic) : Machine World Action :=
  ⟨World.step database order⟩

def World.init : World := {}

/-- The calls that `new` makes before the lookups. -/
def World.wired (s : World) (profileData : Buffer) : World :=
  (((s.initCall .l2capInit).initCall .smInit).attServerInit profileData).initCall
    .attServerRegisterPacketHandler

/-- The three ways through `new`. -/
theorem World.new_cases (database : Bytes → AttDatabase)
    (order : IterationOrder UInt16 RuntimeCharacteristic) (s : World) (spec : GattPeripheralSpec) :
    (s.runtime.isSome ∧
      s.new database order spec = (s.takeSpec.dropSpec,.error .serverAlreadyInitialized)) ∨
    (∃ e, s.runtime = none ∧ setup database order spec = .error e ∧
      s.new database order spec =
        ((s.takeSpec.wired (.profileData s.created)).dropSpec,.error e)) ∨
    ∃ state, s.runtime = none ∧ setup database order spec = .ok state ∧
      s.new database order spec = ((((s.takeSpec.wired (.profileData s.created)).storeRuntime
        ⟨s.created,state⟩).initCall (.hciAddEventHandler .hciEventCb)).dropSpec,.ok ()) := by
  cases hruntime : s.runtime with
  | some server =>
    refine .inl ⟨rfl,?_⟩
    simp [World.new,World.takeSpec,hruntime]
  | none =>
    right
    have hfree : s.takeSpec.runtime.isSome = false := by
      rw [World.takeSpec,hruntime]
      rfl
    cases hsetup : setup database order spec with
    | error e =>
      refine .inl ⟨e,rfl,rfl,?_⟩
      simp only [World.new,hfree,hsetup]
      rfl
    | ok state =>
      refine .inr ⟨state,rfl,rfl,?_⟩
      simp only [World.new,hfree,hsetup]
      rfl

/-- Every step, with what has to hold before it and the state that it leaves. -/
inductive Does (database : Bytes → AttDatabase)
    (order : IterationOrder UInt16 RuntimeCharacteristic) (s : World) : Action → World → Prop where
  | new (spec : GattPeripheralSpec) : Does database order s (.new spec) (s.new database order spec).1
  | setEnabled (thread : Nat) (enabled : Bool) (server : Server) (hruntime : s.runtime = some server)
      (hfree : thread ∉ s.callers) (hkept : s.dropping = false) :
      Does database order s (.setEnabled thread enabled) { s with
        runtime := some { server with state := { server.state with advertisingEnabled := enabled } }
        callers := thread :: s.callers }
  | register (thread : Nat) (hcaller : thread ∈ s.callers) :
      Does database order s (.register thread)
        { s.executeOnMainThread with callers := s.callers.erase thread }
  | update (hpending : s.btstack.pending = true) (hidle : s.executing = none) :
      Does database order s .update { s with btstack := { s.btstack with
        pending := false
        gapCalls := s.btstack.gapCalls ++ runLoopAdvertisingUpdate s.runtime } }
  | remove (hpending : s.btstack.pending = true) (hidle : s.executing = none) :
      Does database order s .updateStep { s with
        btstack := { s.btstack with pending := false }
        executing := some .removed }
  | look (hexecuting : s.executing = some .removed) :
      Does database order s .updateStep
        { s with executing := some (.issuing (runLoopAdvertisingUpdate s.runtime)) }
  | issue (call : GapCall) (calls : List GapCall)
      (hexecuting : s.executing = some (.issuing (call :: calls))) :
      Does database order s .updateStep { s.gapCall call with executing := some (.issuing calls) }
  | finish (hexecuting : s.executing = some (.issuing [])) :
      Does database order s .updateStep { s with executing := none }
  | callback (c : Callback) (server : Server) (hruntime : s.runtime = some server) :
      Does database order s (.callback c)
        { s with runtime := some { server with state := server.state.after c } }
  | noServer (c : Callback) (hruntime : s.runtime = none) : Does database order s (.callback c) s
  | dropDisable (server : Server) (hruntime : s.runtime = some server) (hfree : s.callers = [])
      (hkept : s.dropping = false) :
      Does database order s .dropDisable { s.gapCall (.enable false) with dropping := true }
  | dropClear (hdropping : s.dropping = true) :
      Does database order s .dropClear { s.clearRuntime with dropping := false }

variable {database : Bytes → AttDatabase} {order : IterationOrder UInt16 RuntimeCharacteristic}
  {s t : World} {a : Action}

theorem does_of_step (h : (server database order).step s a = some t) : Does database order s a t := by
  change s.step database order a = some t at h
  cases a with
  | new spec =>
    cases h
    exact .new spec
  | setEnabled thread enabled =>
    rw [World.step] at h
    split at h
    · cases h
    · rename_i server hruntime
      split at h
      · cases h
      · rename_i hguard
        rw [not_or] at hguard
        cases h
        exact .setEnabled thread enabled server hruntime hguard.1 (by simpa using hguard.2)
  | register thread =>
    rw [World.step] at h
    split at h
    · rename_i hcaller
      cases h
      exact .register thread hcaller
    · cases h
  | update =>
    rw [World.step] at h
    split at h
    · rename_i hguard
      cases h
      exact .update hguard.1 hguard.2
    · cases h
  | updateStep =>
    rw [World.step,World.updateStep] at h
    split at h
    · rename_i hidle
      split at h
      · rename_i hpending
        cases h
        exact .remove hpending hidle
      · cases h
    · rename_i hexecuting
      cases h
      exact .look hexecuting
    · rename_i hexecuting
      cases h
      exact .finish hexecuting
    · rename_i call calls hexecuting
      cases h
      exact .issue call calls hexecuting
  | callback c =>
    rw [World.step] at h
    split at h
    · rename_i hruntime
      cases h
      exact .noServer c hruntime
    · rename_i server hruntime
      cases h
      exact .callback c server hruntime
  | dropDisable =>
    rw [World.step] at h
    split at h
    · rename_i hguard
      obtain ⟨server,hruntime⟩ := Option.isSome_iff_exists.mp hguard.1
      cases h
      exact .dropDisable server hruntime hguard.2.1 hguard.2.2
    · cases h
  | dropClear =>
    rw [World.step] at h
    split at h
    · rename_i hdropping
      cases h
      exact .dropClear hdropping
    · cases h

private theorem run_issuing (s : World) (calls : List GapCall) :
    (server database order).run { s with executing := some (.issuing calls) }
      (List.replicate (calls.length+1) .updateStep) = some { s with
        btstack := { s.btstack with gapCalls := s.btstack.gapCalls ++ calls }
        executing := none } := by
  induction calls generalizing s with
  | nil =>
    rw [List.append_nil]
    rfl
  | cons call calls ih =>
    have hrest := ih (s.gapCall call)
    rw [World.gapCall,List.append_assoc,List.singleton_append] at hrest
    exact hrest

/-- Without interruption the single steps are the execution that is one step. -/
theorem run_updateStep_eq_update (hidle : s.executing = none) :
    (server database order).run s
        (List.replicate ((runLoopAdvertisingUpdate s.runtime).length+3) .updateStep) =
      (server database order).step s .update := by
  have hfirst : (server database order).step s .updateStep = if s.btstack.pending then
      some { s with
        btstack := { s.btstack with pending := false }
        executing := some .removed }
      else none := by
    show s.updateStep = _
    rw [World.updateStep,hidle]
  have hupdate : (server database order).step s .update = if s.btstack.pending ∧ s.executing = none
      then some { s with btstack := { s.btstack with
        pending := false
        gapCalls := s.btstack.gapCalls ++ runLoopAdvertisingUpdate s.runtime } }
      else none := rfl
  rw [hupdate,List.replicate_succ,Machine.run,hfirst]
  cases hpending : s.btstack.pending with
  | false => simp
  | true =>
    rw [if_pos rfl,if_pos ⟨rfl,hidle⟩]
    have hissuing := @run_issuing database order
      { s with btstack := { s.btstack with pending := false } } (runLoopAdvertisingUpdate s.runtime)
    rw [hidle]
    exact hissuing

end BtstackRs.Gatt.Peripheral
