import BtstackRs.Gatt.Peripheral.Resolution
import BtstackRs.Gatt.Peripheral.Sessions

/-!
# What `new` returns

The two loops of `resolve_characteristics` make their lookups in the order in which services and
characteristics are specified. The error of a rejected specification is that of the first lookup
which finds nothing.
-/

namespace BtstackRs.Gatt.Peripheral

open Sequence Transport Concurrent

/-- A lookup in the ATT database, for a service or within one. -/
inductive Lookup where
  | serviceHandleRange (service : GattUuid)
  | valueHandle (service characteristic : GattUuid)
  | cccHandle (service characteristic : GattUuid)
  deriving DecidableEq, Repr

/-- Every characteristic has a value, and those that can be notified or indicated have a CCC. -/
def GattCharacteristicSpec.lookups (service : GattUuid) (c : GattCharacteristicSpec) :
    List Lookup :=
  .valueHandle service c.uuid ::
    if c.properties.contains .NOTIFY || c.properties.contains .INDICATE then
      [.cccHandle service c.uuid] else []

def GattServiceSpec.lookups (service : GattServiceSpec) : List Lookup :=
  .serviceHandleRange service.uuid ::
    service.characteristics.flatMap (GattCharacteristicSpec.lookups service.uuid)

namespace AttDatabase

/-- The error of a lookup; within a service that is not there it is not made. -/
def missing (database : AttDatabase) : Lookup → Option GattPeripheralError
  | .serviceHandleRange service =>
      if (database.serviceRange service).isNone then some .serviceNotFound else none
  | .valueHandle service characteristic =>
      (database.serviceRange service).bind fun range =>
        if database.valueHandle range characteristic = 0 then some .characteristicNotFound else none
  | .cccHandle service characteristic =>
      (database.serviceRange service).bind fun range =>
        if database.cccHandle range characteristic = 0 then some .characteristicNotFound else none

def rejection (database : AttDatabase) (services : List GattServiceSpec) :
    Option GattPeripheralError :=
  (services.flatMap GattServiceSpec.lookups).findSome? database.missing

variable (database : AttDatabase)

theorem failure_resolveCharacteristic {service : GattUuid} {range : UInt16 × UInt16}
    (hrange : database.serviceRange service = some range)
    (byHandle : Table UInt16 RuntimeCharacteristic) (c : GattCharacteristicSpec) :
    failure (resolveCharacteristic database range byHandle c) =
      (c.lookups service).findSome? database.missing := by
  have hvalue : failure (resolveValueHandle database range.1 range.2 c.uuid) =
      database.missing (.valueHandle service c.uuid) := by
    rw [resolveValueHandle_eq,missing,hrange,Option.bind_some]
    split <;> rfl
  have hccc : failure (resolveCccHandle database range.1 range.2 c.uuid) =
      database.missing (.cccHandle service c.uuid) := by
    rw [resolveCccHandle_eq,missing,hrange,Option.bind_some]
    split <;> rfl
  rw [resolveCharacteristic,GattCharacteristicSpec.lookups,findSome?_cons_or,← hvalue]
  refine failure_bind fun valueHandle _ => ?_
  split
  · rw [List.findSome?_singleton,← hccc]
    cases resolveCccHandle database range.1 range.2 c.uuid <;> rfl
  · rfl

theorem failure_resolveService (byHandle : Table UInt16 RuntimeCharacteristic)
    (service : GattServiceSpec) : failure (resolveService database byHandle service) =
      service.lookups.findSome? database.missing := by
  rw [resolveService,GattServiceSpec.lookups,List.findSome?_cons,resolveServiceHandleRange_eq,
    findSome?_flatMap,missing]
  cases hrange : database.serviceRange service.uuid with
  | none => rfl
  | some range => exact failure_foldlM (database.failure_resolveCharacteristic hrange) _ _

theorem failure_resolveCharacteristics (services : List GattServiceSpec) :
    failure (resolveCharacteristics database services) = database.rejection services := by
  rw [resolveCharacteristics,failure_foldlM database.failure_resolveService,rejection,
    findSome?_flatMap]

end AttDatabase

variable {database : Bytes → AttDatabase} {order : IterationOrder UInt16 RuntimeCharacteristic}

theorem failure_setup (spec : GattPeripheralSpec) :
    failure (setup database order spec) =
      (database spec.profileData).rejection spec.services := by
  rw [setup,← AttDatabase.failure_resolveCharacteristics]
  exact (failure_bind fun characteristics _ => failure_ok _).trans Option.or_none

namespace World

def rejection (database : Bytes → AttDatabase) (s : World) (spec : GattPeripheralSpec) :
    Option GattPeripheralError :=
  if s.runtime.isSome then some .serverAlreadyInitialized
  else (database spec.profileData).rejection spec.services

/-- The calls that `new` makes of BTstack before the lookups. -/
def wiring (number : Nat) : List InitCall :=
  [.l2capInit,.smInit,.attServerInit (.profileData number),.attServerRegisterPacketHandler]

/-- Whatever server there was, and what was requested of it, is left alone. -/
structure SameService (s t : World) : Prop where
  runtime : t.runtime = s.runtime
  gapCalls : t.btstack.gapCalls = s.btstack.gapCalls
  pending : t.btstack.pending = s.btstack.pending
  executing : t.executing = s.executing
  callers : t.callers = s.callers

/-- A server that is not advertising yet, on its own ATT database and with its event handler. -/
structure Serves (s t : World) (state : RuntimeState) : Prop where
  runtime : t.runtime = some ⟨s.created,state⟩
  quiet : state.advertisingEnabled = false
  attDatabase : t.btstack.attDatabase = some (.profileData s.created)
  initCalls : t.btstack.initCalls =
    s.btstack.initCalls ++ wiring s.created ++ [.hciAddEventHandler .hciEventCb]
  gapCalls : t.btstack.gapCalls = s.btstack.gapCalls

/-- `new` ends with the error of the first lookup that fails, and leaves the server that is there,
if any, as it is. Without such a lookup it makes the specified server. What it calls of BTstack
depends on how far it comes. -/
theorem new_outcome (s : World) (spec : GattPeripheralSpec) :
    failure (s.new database order spec).2 = s.rejection database spec ∧
      (∀ e, s.rejection database spec = some e → SameService s (s.new database order spec).1 ∧
        (s.new database order spec).1.btstack.initCalls = s.btstack.initCalls ++
          if s.runtime.isSome then [] else wiring s.created) ∧
      (s.rejection database spec = none → ∃ state, setup database order spec = .ok state ∧
        Serves s (s.new database order spec).1 state) := by
  have hfailure := @failure_setup database order spec
  rcases s.new_cases database order spec with
    ⟨hsome,hnew⟩ | ⟨e,hnone,hsetup,hnew⟩ | ⟨state,hnone,hsetup,hnew⟩
  · have hrejection : s.rejection database spec = some .serverAlreadyInitialized := if_pos hsome
    rw [hrejection,hnew,if_pos hsome,List.append_nil]
    exact ⟨rfl,fun e _ => ⟨⟨rfl,rfl,rfl,rfl,rfl⟩,rfl⟩,fun h => absurd h (Option.some_ne_none _)⟩
  · have hrejection : s.rejection database spec = some e := by
      rw [rejection,hnone,if_neg (by simp),← hfailure,hsetup]
      rfl
    have hcalls : (s.takeSpec.wired (.profileData s.created)).dropSpec.btstack.initCalls =
        s.btstack.initCalls ++ wiring s.created := by
      simp [dropSpec,wired,initCall,attServerInit,takeSpec,wiring]
    rw [hrejection,hnew,hnone,if_neg (by simp)]
    exact ⟨rfl,fun e _ => ⟨⟨rfl,rfl,rfl,rfl,rfl⟩,hcalls⟩,
      fun h => absurd h (Option.some_ne_none _)⟩
  · have hrejection : s.rejection database spec = none := by
      rw [rejection,hnone,← hfailure,hsetup]
      rfl
    rw [hrejection,hnew]
    refine ⟨rfl,fun e h => absurd h.symm (Option.some_ne_none e),fun _ =>
      ⟨state,hsetup,rfl,setup_advertisingEnabled hsetup,rfl,?_,rfl⟩⟩
    simp [dropSpec,storeRuntime,wired,initCall,attServerInit,takeSpec,wiring]

end World

end BtstackRs.Gatt.Peripheral
