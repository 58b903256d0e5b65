import BtstackRs.Gatt.Peripheral.Types
import BtstackRs.Sequence.Fallible

/-!
# Construction of the server's runtime state

Handle resolution against the ATT database, with an error for the first service or
characteristic that is not there, and the lookup tables that `new` derives from its result.
-/

namespace BtstackRs.Gatt.Peripheral

open Sequence Transport

def resolveServiceHandleRange (database : AttDatabase) (uuid : GattUuid) :
    Except GattPeripheralError (UInt16 × UInt16) :=
  let found := match uuid with
    | .uuid16 uuid16 => database.handleRangeForServiceWithUuid16 uuid16
    | .uuid128 uuid128 => database.handleRangeForServiceWithUuid128 uuid128
  match found with
  | none => .error .serviceNotFound
  | some range => .ok range

def resolveValueHandle (database : AttDatabase) (startHandle endHandle : UInt16)
    (uuid : GattUuid) : Except GattPeripheralError UInt16 :=
  let handle := match uuid with
    | .uuid16 uuid16 =>
        database.valueHandleForCharacteristicWithUuid16 startHandle endHandle uuid16
    | .uuid128 uuid128 =>
        database.valueHandleForCharacteristicWithUuid128 startHandle endHandle uuid128
  if handle = 0 then .error .characteristicNotFound else .ok handle

def resolveCccHandle (database : AttDatabase) (startHandle endHandle : UInt16)
    (uuid : GattUuid) : Except GattPeripheralError UInt16 :=
  let handle := match uuid with
    | .uuid16 uuid16 =>
        database.clientConfigurationHandleWithUuid16 startHandle endHandle uuid16
    | .uuid128 uuid128 =>
        database.clientConfigurationHandleWithUuid128 startHandle endHandle uuid128
  if handle = 0 then .error .characteristicNotFound else .ok handle

/-- The body of the inner loop of `resolve_characteristics`. -/
def resolveCharacteristic (database : AttDatabase) (range : UInt16 × UInt16)
    (byHandle : Table UInt16 RuntimeCharacteristic) (characteristic : GattCharacteristicSpec) :
    Except GattPeripheralError (Table UInt16 RuntimeCharacteristic) := do
  let valueHandle ← resolveValueHandle database range.1 range.2 characteristic.uuid
  let cccHandle ←
    (if characteristic.properties.contains .NOTIFY ||
        characteristic.properties.contains .INDICATE then
      (resolveCccHandle database range.1 range.2 characteristic.uuid).map some
    else .ok none)
  return byHandle.insert valueHandle
    { spec := characteristic
      valueHandle := valueHandle
      cccHandle := cccHandle
      value := characteristic.initialValue }

/-- The body of its outer loop. -/
def resolveService (database : AttDatabase) (byHandle : Table UInt16 RuntimeCharacteristic)
    (service : GattServiceSpec) :
    Except GattPeripheralError (Table UInt16 RuntimeCharacteristic) := do
  let range ← resolveServiceHandleRange database service.uuid
  service.characteristics.foldlM (resolveCharacteristic database range) byHandle

def resolveCharacteristics (database : AttDatabase) (services : List GattServiceSpec) :
    Except GattPeripheralError (Table UInt16 RuntimeCharacteristic) :=
  services.foldlM (resolveService database) ∅

/-- The loop of `new` that fills `ccc_to_value_handle` and `notification_enabled`. -/
def cccTables (entries : List ((_ : UInt16) × RuntimeCharacteristic)) :
    Table UInt16 UInt16 × Table UInt16 Bool :=
  entries.foldl (fun tables entry => match entry.2.cccHandle with
    | some cccHandle => (tables.1.insert cccHandle entry.1,tables.2.insert entry.1 false)
    | none => tables) (∅,∅)

/-- The state that `new` leaves in `RUNTIME` when it succeeds. -/
def setup (database : Bytes → AttDatabase) (order : IterationOrder UInt16 RuntimeCharacteristic)
    (spec : GattPeripheralSpec) : Except GattPeripheralError RuntimeState := do
  let characteristics ← resolveCharacteristics (database spec.profileData) spec.services
  let tables := cccTables (order.entries characteristics)
  return { characteristicsByValueHandle := characteristics
           cccToValueHandle := tables.1
           notificationEnabled := tables.2
           connectedHandle := none
           advertisingEnabled := false
           advertising := spec.advertising }

theorem resolveCharacteristic_ok {database : AttDatabase} {range : UInt16 × UInt16}
    {byHandle byHandle' : Table UInt16 RuntimeCharacteristic}
    {characteristic : GattCharacteristicSpec}
    (h : resolveCharacteristic database range byHandle characteristic = .ok byHandle') :
    ∃ valueHandle cccHandle, byHandle' = byHandle.insert valueHandle
      ⟨characteristic,valueHandle,cccHandle,characteristic.initialValue⟩ := by
  rw [resolveCharacteristic] at h
  obtain ⟨valueHandle,-,h⟩ := bind_eq_ok.mp h
  obtain ⟨cccHandle,-,h⟩ := bind_eq_ok.mp h
  cases h
  exact ⟨valueHandle,cccHandle,rfl⟩

/-- What holds of a characteristic as it is entered holds of all that are resolved. -/
theorem resolveCharacteristics_induction {database : AttDatabase} {services : List GattServiceSpec}
    {table : Table UInt16 RuntimeCharacteristic}
    {P : UInt16 → RuntimeCharacteristic → Prop}
    (hinsert : ∀ (characteristic : GattCharacteristicSpec) (valueHandle : UInt16)
      (cccHandle : Option UInt16), P valueHandle
        ⟨characteristic,valueHandle,cccHandle,characteristic.initialValue⟩)
    (h : resolveCharacteristics database services = .ok table) :
    ∀ handle ch, table.lookup handle = some ch → P handle ch := by
  have hstep : ∀ range byHandle characteristic byHandle',
      (∀ handle ch, byHandle.lookup handle = some ch → P handle ch) →
      resolveCharacteristic database range byHandle characteristic = .ok byHandle' →
      ∀ handle ch, byHandle'.lookup handle = some ch → P handle ch := by
    intro range byHandle characteristic byHandle' hbefore hresolve handle ch hch
    obtain ⟨valueHandle,cccHandle,rfl⟩ := resolveCharacteristic_ok hresolve
    by_cases hhandle : handle = valueHandle
    · subst hhandle
      rw [AList.lookup_insert] at hch
      cases hch
      exact hinsert characteristic handle cccHandle
    · rw [AList.lookup_insert_ne hhandle] at hch
      exact hbefore handle ch hch
  refine foldlM_ok_induction (P := fun table => ∀ handle ch, table.lookup handle = some ch →
    P handle ch) ?_ (by simp) h
  intro byHandle service byHandle' hbefore hservice
  rw [resolveService] at hservice
  obtain ⟨range,-,hservice⟩ := bind_eq_ok.mp hservice
  exact foldlM_ok_induction (hstep range) hbefore hservice

private def cccAssign (entry : (_ : UInt16) × RuntimeCharacteristic) : Option (UInt16 × UInt16) :=
  entry.2.cccHandle.map (fun cccHandle => (cccHandle,entry.1))

private def flagAssign (entry : (_ : UInt16) × RuntimeCharacteristic) : Option (UInt16 × Bool) :=
  entry.2.cccHandle.map (fun _ => (entry.1,false))

private theorem cccTables_eq (entries : List ((_ : UInt16) × RuntimeCharacteristic)) :
    cccTables entries = (Table.insertAll cccAssign entries,Table.insertAll flagAssign entries) := by
  induction entries using List.reverseRecOn with
  | nil => rfl
  | append_singleton entries last ih =>
    rw [Table.insertAll_concat,Table.insertAll_concat]
    rw [cccTables] at ih ⊢
    rw [List.foldl_append,ih,List.foldl_cons,List.foldl_nil]
    cases hccc : last.2.cccHandle with
    | none => simp [cccAssign,flagAssign,hccc]
    | some cccHandle => simp [cccAssign,flagAssign,hccc]

def RuntimeState.HasCcc (σ : RuntimeState) (handle cccHandle : UInt16) : Prop :=
  ∃ ch, σ.characteristicsByValueHandle.lookup handle = some ch ∧ ch.cccHandle = some cccHandle

theorem IterationOrder.mem_entries (order : IterationOrder UInt16 RuntimeCharacteristic)
    (table : Table UInt16 RuntimeCharacteristic) {handle : UInt16} {ch : RuntimeCharacteristic} :
    (⟨handle,ch⟩ : (_ : UInt16) × RuntimeCharacteristic) ∈ order.entries table ↔
      table.lookup handle = some ch := by
  rw [(order.perm table).mem_iff]
  exact AList.mem_lookup_iff.symm

section

variable {database : Bytes → AttDatabase} {order : IterationOrder UInt16 RuntimeCharacteristic}
  {spec : GattPeripheralSpec} {σ : RuntimeState}

theorem setup_ok (h : setup database order spec = .ok σ) :
    ∃ characteristics,
      resolveCharacteristics (database spec.profileData) spec.services = .ok characteristics ∧
      σ = { characteristicsByValueHandle := characteristics
            cccToValueHandle := (cccTables (order.entries characteristics)).1
            notificationEnabled := (cccTables (order.entries characteristics)).2
            connectedHandle := none
            advertisingEnabled := false
            advertising := spec.advertising } := by
  rw [setup] at h
  obtain ⟨characteristics,hresolve,h⟩ := bind_eq_ok.mp h
  cases h
  exact ⟨characteristics,hresolve,rfl⟩

theorem setup_value (h : setup database order spec = .ok σ) {handle : UInt16}
    {ch : RuntimeCharacteristic} (hch : σ.characteristicsByValueHandle.lookup handle = some ch) :
    ch.value = ch.spec.initialValue := by
  obtain ⟨characteristics,hresolve,rfl⟩ := setup_ok h
  exact resolveCharacteristics_induction (P := fun _ ch => ch.value = ch.spec.initialValue)
    (fun _ _ _ => rfl) hresolve handle ch hch

theorem setup_hasCcc (h : setup database order spec = .ok σ) {handle cccHandle : UInt16}
    (hlookup : σ.cccToValueHandle.lookup cccHandle = some handle) : σ.HasCcc handle cccHandle := by
  obtain ⟨characteristics,-,rfl⟩ := setup_ok h
  rw [cccTables_eq] at hlookup
  obtain ⟨entry,hentry,hassign⟩ := Table.exists_of_lookup_insertAll hlookup
  obtain ⟨ccc,hccc,heq⟩ := Option.map_eq_some_iff.mp hassign
  cases heq
  exact ⟨entry.2,(order.mem_entries characteristics).mp hentry,hccc⟩

theorem setup_mem_notificationEnabled (h : setup database order spec = .ok σ) (handle : UInt16) :
    handle ∈ σ.notificationEnabled ↔ ∃ cccHandle, σ.HasCcc handle cccHandle := by
  obtain ⟨characteristics,-,rfl⟩ := setup_ok h
  rw [cccTables_eq]
  refine Table.mem_insertAll.trans ⟨?_,?_⟩
  · rintro ⟨entry,hentry,v,hassign⟩
    obtain ⟨ccc,hccc,heq⟩ := Option.map_eq_some_iff.mp hassign
    cases heq
    exact ⟨ccc,entry.2,(order.mem_entries characteristics).mp hentry,hccc⟩
  · rintro ⟨cccHandle,ch,hch,hccc⟩
    exact ⟨⟨handle,ch⟩,(order.mem_entries characteristics).mpr hch,false,
      by simp [flagAssign,hccc]⟩

theorem setup_notificationEnabled (h : setup database order spec = .ok σ) {handle : UInt16}
    {enabled : Bool} (hlookup : σ.notificationEnabled.lookup handle = some enabled) :
    enabled = false := by
  obtain ⟨characteristics,-,rfl⟩ := setup_ok h
  rw [cccTables_eq] at hlookup
  obtain ⟨entry,-,hassign⟩ := Table.exists_of_lookup_insertAll hlookup
  obtain ⟨ccc,-,heq⟩ := Option.map_eq_some_iff.mp hassign
  cases heq
  rfl

end

def numberedDatabase : AttDatabase where
  handleRangeForServiceWithUuid16 := fun _ => some (1,0xFFFF)
  handleRangeForServiceWithUuid128 := fun _ => none
  valueHandleForCharacteristicWithUuid16 := fun _ _ uuid => uuid
  valueHandleForCharacteristicWithUuid128 := fun _ _ _ => 0
  clientConfigurationHandleWithUuid16 := fun _ _ uuid => uuid+1
  clientConfigurationHandleWithUuid128 := fun _ _ _ => 0

def asStored : IterationOrder UInt16 RuntimeCharacteristic :=
  ⟨fun table => table.entries,fun _ => .refl _⟩

def noteCharacteristic : RuntimeCharacteristic where
  spec := ⟨.uuid16 3,.bitor .WRITE .NOTIFY,[7]⟩
  valueHandle := 3
  cccHandle := some 4
  value := [7]

def noteSpec : GattPeripheralSpec where
  profileData := [1,10,0,2]
  services := [⟨.uuid16 0x180A,[noteCharacteristic.spec]⟩]
  advertising := ⟨0x30,0x30,0,7,0,[2,1,6]⟩

private theorem lookup_single {Value : Type} (k handle : UInt16) (v : Value) :
    (AList.insert k v (∅ : Table UInt16 Value)).lookup handle =
      if handle = k then some v else none := by
  split
  · rename_i hhandle
    rw [hhandle,AList.lookup_insert]
  · rename_i hhandle
    rw [AList.lookup_insert_ne hhandle,AList.lookup_empty]

theorem setup_noteSpec : ∃ σ, setup (fun _ => numberedDatabase) asStored noteSpec = .ok σ ∧
    (∀ handle, σ.characteristicsByValueHandle.lookup handle =
      if handle = 3 then some noteCharacteristic else none) ∧
    (∀ handle, σ.cccToValueHandle.lookup handle = if handle = 4 then some 3 else none) ∧
    ∀ handle, σ.notificationEnabled.lookup handle = if handle = 3 then some false else none := by
  have htables : ∃ σ, setup (fun _ => numberedDatabase) asStored noteSpec = .ok σ ∧
      σ.characteristicsByValueHandle = AList.insert 3 noteCharacteristic ∅ ∧
      σ.cccToValueHandle = AList.insert 4 3 ∅ ∧ σ.notificationEnabled = AList.insert 3 false ∅ :=
    ⟨_,rfl,rfl,rfl,rfl⟩
  obtain ⟨σ,hsetup,hch,hccc,hflags⟩ := htables
  refine ⟨σ,hsetup,?_,?_,?_⟩
  · intro handle
    rw [hch,lookup_single]
  · intro handle
    rw [hccc,lookup_single]
  · intro handle
    rw [hflags,lookup_single]

end BtstackRs.Gatt.Peripheral
