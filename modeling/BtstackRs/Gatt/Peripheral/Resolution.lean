import BtstackRs.Gatt.Peripheral.Values

/-!
# Resolution of the specified characteristics

A characteristic is found by its UUID, within the range of its service, and entered under the
handle that is found. Two characteristics for which the same attribute is found share one entry,
and the later one has it.
-/

namespace BtstackRs.Gatt.Peripheral

open Sequence Transport

namespace AttDatabase

variable (database : AttDatabase)

def serviceRange : GattUuid → Option (UInt16 × UInt16)
  | .uuid16 uuid => database.handleRangeForServiceWithUuid16 uuid
  | .uuid128 uuid => database.handleRangeForServiceWithUuid128 uuid

def valueHandle (range : UInt16 × UInt16) : GattUuid → UInt16
  | .uuid16 uuid => database.valueHandleForCharacteristicWithUuid16 range.1 range.2 uuid
  | .uuid128 uuid => database.valueHandleForCharacteristicWithUuid128 range.1 range.2 uuid

def cccHandle (range : UInt16 × UInt16) : GattUuid → UInt16
  | .uuid16 uuid => database.clientConfigurationHandleWithUuid16 range.1 range.2 uuid
  | .uuid128 uuid => database.clientConfigurationHandleWithUuid128 range.1 range.2 uuid

end AttDatabase

structure IsFirst (hasType : UInt16 → GattUuid → Prop) (range : UInt16 × UInt16) (uuid : GattUuid)
    (handle : UInt16) : Prop where
  valid : handle ≠ 0
  inside : range.1 ≤ handle ∧ handle ≤ range.2
  type : hasType handle uuid
  first : ∀ handle', handle' ≠ 0 → range.1 ≤ handle' → handle' < handle → ¬hasType handle' uuid

theorem IsFirst.unique {hasType : UInt16 → GattUuid → Prop} {range : UInt16 × UInt16}
    {uuid : GattUuid} {handle handle' : UInt16} (h : IsFirst hasType range uuid handle)
    (h' : IsFirst hasType range uuid handle') : handle = handle' := by
  rcases Nat.lt_trichotomy handle.toNat handle'.toNat with hlt | heq | hgt
  · exact absurd h.type (h'.first handle h.valid h.inside.1 (UInt16.lt_iff_toNat_lt.mpr hlt))
  · exact UInt16.toNat_inj.mp heq
  · exact absurd h'.type (h.first handle' h'.valid h'.inside.1 (UInt16.lt_iff_toNat_lt.mpr hgt))

/-- The lookup of a characteristic returns the first matching handle in the range, and 0 if there
is none. -/
def FirstMatch (database : AttDatabase) (hasType : UInt16 → GattUuid → Prop) : Prop :=
  ∀ range uuid, IsFirst hasType range uuid (database.valueHandle range uuid) ∨
    database.valueHandle range uuid = 0 ∧
      ∀ handle, handle ≠ 0 → range.1 ≤ handle → handle ≤ range.2 → ¬hasType handle uuid

def specified (services : List GattServiceSpec) : List (GattUuid × GattCharacteristicSpec) :=
  services.flatMap (fun service => service.characteristics.map (fun c => (service.uuid,c)))

/-- The attribute that is found for a specified characteristic: the first one of its UUID in the
range of its service. -/
def FoundAt (database : AttDatabase) (hasType : UInt16 → GattUuid → Prop)
    (x : GattUuid × GattCharacteristicSpec) (handle : UInt16) : Prop :=
  ∃ range, database.serviceRange x.1 = some range ∧ IsFirst hasType range x.2.uuid handle

/-- No attribute is found for two of the specified characteristics. -/
def FoundApart (database : AttDatabase) (hasType : UInt16 → GattUuid → Prop)
    (services : List GattServiceSpec) : Prop :=
  (specified services).Pairwise (fun x y =>
    ∀ handle, ¬(FoundAt database hasType x handle ∧ FoundAt database hasType y handle))

/-- Reads of `handle` are answered from the initial value: its length without a buffer, its bytes
from any offset with one. -/
structure ServesInitial (handleBlob : HandleBlob) (σ : RuntimeState) (handle : UInt16)
    (initialValue : Bytes) : Prop where
  size : ∀ connectionHandle offset bufferSize, (attReadCallback handleBlob (some σ)
    ⟨connectionHandle,handle,offset,false,bufferSize⟩).returned.toNat = initialValue.length
  copy : ∀ connectionHandle offset bufferSize,
    let reply := attReadCallback handleBlob (some σ)
      ⟨connectionHandle,handle,offset,true,bufferSize⟩
    reply.copied = (initialValue.drop offset.toNat).take bufferSize.toNat ∧
      reply.returned.toNat = reply.copied.length

/-- The table has one entry for every specified characteristic, under its own handle and with its
own initial value, which reads are then answered from. -/
structure EachServed (handleBlob : HandleBlob) (database : AttDatabase)
    (hasType : UInt16 → GattUuid → Prop) (services : List GattServiceSpec)
    (table : Table UInt16 RuntimeCharacteristic) : Prop where
  one : (table.entries.map (fun entry => entry.2.spec)).Perm
    (services.flatMap (fun service => service.characteristics))
  own : ∀ x ∈ specified services, ∃ handle cccHandle, FoundAt database hasType x handle ∧
    table.lookup handle = some ⟨x.2,handle,cccHandle,x.2.initialValue⟩
  reads : ∀ x ∈ specified services, ∃ handle, FoundAt database hasType x handle ∧
    ∀ σ : RuntimeState, σ.characteristicsByValueHandle = table →
      ServesInitial handleBlob σ handle x.2.initialValue

def ShortValues (services : List GattServiceSpec) : Prop :=
  ∀ x ∈ specified services, x.2.initialValue.length < 65536

section

variable (database : AttDatabase)

theorem resolveServiceHandleRange_eq (uuid : GattUuid) : resolveServiceHandleRange database uuid =
    match database.serviceRange uuid with
    | none => .error .serviceNotFound
    | some range => .ok range := by
  cases uuid <;> rfl

theorem resolveValueHandle_eq (range : UInt16 × UInt16) (uuid : GattUuid) :
    resolveValueHandle database range.1 range.2 uuid =
      if database.valueHandle range uuid = 0 then .error .characteristicNotFound
      else .ok (database.valueHandle range uuid) := by
  cases uuid <;> rfl

theorem resolveCccHandle_eq (range : UInt16 × UInt16) (uuid : GattUuid) :
    resolveCccHandle database range.1 range.2 uuid =
      if database.cccHandle range uuid = 0 then .error .characteristicNotFound
      else .ok (database.cccHandle range uuid) := by
  cases uuid <;> rfl

def entryIn (range : UInt16 × UInt16) (c : GattCharacteristicSpec) : RuntimeCharacteristic where
  spec := c
  valueHandle := database.valueHandle range c.uuid
  cccHandle := if c.properties.contains .NOTIFY || c.properties.contains .INDICATE then
    some (database.cccHandle range c.uuid) else none
  value := c.initialValue

def entryOf (x : GattUuid × GattCharacteristicSpec) : RuntimeCharacteristic :=
  entryIn database ((database.serviceRange x.1).getD (0,0)) x.2

end

section

variable {database : AttDatabase}

theorem resolveCharacteristic_put {range : UInt16 × UInt16}
    {byHandle byHandle' : Table UInt16 RuntimeCharacteristic} {c : GattCharacteristicSpec}
    (h : resolveCharacteristic database range byHandle c = .ok byHandle') :
    database.valueHandle range c.uuid ≠ 0 ∧ byHandle' =
      byHandle.insert (database.valueHandle range c.uuid) (entryIn database range c) := by
  rw [resolveCharacteristic,resolveValueHandle_eq,resolveCccHandle_eq] at h
  by_cases hvalue : database.valueHandle range c.uuid = 0
  · rw [if_pos hvalue] at h
    cases h
  · refine ⟨hvalue,?_⟩
    rw [if_neg hvalue] at h
    rw [entryIn]
    cases hnotify : c.properties.contains .NOTIFY || c.properties.contains .INDICATE with
    | false =>
      rw [hnotify] at h
      cases h
      rfl
    | true =>
      rw [hnotify] at h
      by_cases hccc : database.cccHandle range c.uuid = 0
      · rw [if_pos hccc] at h
        cases h
      · rw [if_neg hccc] at h
        cases h
        rfl

theorem resolveService_put {byHandle byHandle' : Table UInt16 RuntimeCharacteristic}
    {service : GattServiceSpec} (h : resolveService database byHandle service = .ok byHandle') :
    (∃ range, database.serviceRange service.uuid = some range ∧
      ∀ c ∈ service.characteristics, database.valueHandle range c.uuid ≠ 0) ∧
    byHandle' = (service.characteristics.map (fun c => entryOf database (service.uuid,c))).foldl
      (fun table ch => table.insert ch.valueHandle ch) byHandle := by
  rw [resolveService,resolveServiceHandleRange_eq] at h
  cases hrange : database.serviceRange service.uuid with
  | none =>
    rw [hrange] at h
    cases h
  | some range =>
    rw [hrange] at h
    obtain ⟨hgood,hputs⟩ := foldlM_ok_puts
      (fun table (ch : RuntimeCharacteristic) => table.insert ch.valueHandle ch)
      (fun c => [entryIn database range c])
      (fun c => database.valueHandle range c.uuid ≠ 0)
      (fun _ _ _ hstep => resolveCharacteristic_put hstep) h
    refine ⟨⟨range,rfl,hgood⟩,?_⟩
    rw [hputs,← List.map_eq_flatMap]
    simp only [entryOf,hrange,Option.getD_some]

/-- The loops put the entries of all specified characteristics, in their order. -/
theorem resolveCharacteristics_eq_keyed {services : List GattServiceSpec}
    {table : Table UInt16 RuntimeCharacteristic}
    (h : resolveCharacteristics database services = .ok table) :
    (∀ x ∈ specified services, ∃ range, database.serviceRange x.1 = some range ∧
      database.valueHandle range x.2.uuid ≠ 0) ∧
    table = Table.keyed (fun ch => ch.valueHandle)
      ((specified services).map (entryOf database)) := by
  obtain ⟨hgood,hputs⟩ := foldlM_ok_puts
    (fun table (ch : RuntimeCharacteristic) => table.insert ch.valueHandle ch)
    (fun service => service.characteristics.map (fun c => entryOf database (service.uuid,c)))
    (fun service => ∃ range, database.serviceRange service.uuid = some range ∧
      ∀ c ∈ service.characteristics, database.valueHandle range c.uuid ≠ 0)
    (fun _ _ _ hstep => resolveService_put hstep) h
  constructor
  · intro x hx
    obtain ⟨service,hservice,hx⟩ := List.mem_flatMap.mp hx
    obtain ⟨c,hc,rfl⟩ := List.mem_map.mp hx
    obtain ⟨range,hrange,hvalue⟩ := hgood service hservice
    exact ⟨range,hrange,hvalue c hc⟩
  · rw [hputs,Table.keyed,specified,List.map_flatMap]
    simp only [List.map_map]
    rfl

section

variable {hasType : UInt16 → GattUuid → Prop} {services : List GattServiceSpec}
  {table : Table UInt16 RuntimeCharacteristic}

theorem FoundAt.unique {x : GattUuid × GattCharacteristicSpec} {handle handle' : UInt16}
    (h : FoundAt database hasType x handle) (h' : FoundAt database hasType x handle') :
    handle = handle' := by
  obtain ⟨range,hrange,hfirst⟩ := h
  obtain ⟨range',hrange',hfirst'⟩ := h'
  rw [hrange,Option.some.injEq] at hrange'
  subst hrange'
  exact hfirst.unique hfirst'

theorem foundAt_entryOf (hfirst : FirstMatch database hasType)
    (h : resolveCharacteristics database services = .ok table)
    {x : GattUuid × GattCharacteristicSpec} (hx : x ∈ specified services) :
    FoundAt database hasType x (entryOf database x).valueHandle := by
  obtain ⟨range,hrange,hvalue⟩ := (resolveCharacteristics_eq_keyed h).1 x hx
  refine ⟨range,hrange,?_⟩
  have hhandle : (entryOf database x).valueHandle = database.valueHandle range x.2.uuid := by
    rw [entryOf,hrange]
    rfl
  rw [hhandle]
  exact (hfirst range x.2.uuid).resolve_right (fun hnone => hvalue hnone.1)

/-- The characteristics are found apart exactly when their entries have handles of their own. -/
theorem foundApart_iff_nodup (hfirst : FirstMatch database hasType)
    (h : resolveCharacteristics database services = .ok table) :
    FoundApart database hasType services ↔
      (((specified services).map (entryOf database)).map (fun ch => ch.valueHandle)).Nodup := by
  rw [FoundApart,List.map_map,List.Nodup,List.pairwise_map]
  apply List.Pairwise.iff_of_mem
  intro x y hx hy
  have hfound := foundAt_entryOf hfirst h hx
  have hfound' := foundAt_entryOf hfirst h hy
  constructor
  · intro hapart heq
    have hsame : (entryOf database x).valueHandle = (entryOf database y).valueHandle := heq
    exact hapart _ ⟨hfound,hsame ▸ hfound'⟩
  · rintro hne handle ⟨hx,hy⟩
    exact hne ((hx.unique hfound).symm.trans (hy.unique hfound'))

theorem servesInitial_of_short {handleBlob : HandleBlob} (hblob : HandlesBlob handleBlob)
    {σ : RuntimeState} {handle : UInt16} {ch : RuntimeCharacteristic}
    (hch : σ.characteristicsByValueHandle.lookup handle = some ch)
    (hshort : ch.value.length < 65536) : ServesInitial handleBlob σ handle ch.value where
  size connectionHandle offset bufferSize := by
    rw [attReadCallback_size hblob hch]
    exact toNat_lengthCast hshort
  copy connectionHandle offset bufferSize :=
    attReadCallback_copy hblob hch hshort connectionHandle offset bufferSize

theorem EachServed.short {handleBlob : HandleBlob}
    (h : EachServed handleBlob database hasType services table) : ShortValues services := by
  intro x hx
  obtain ⟨handle,-,hserves⟩ := h.reads x hx
  have hsize := (hserves ⟨table,∅,∅,none,false,⟨0,0,0,0,0,[]⟩⟩ rfl).size 0 0 0
  rw [← hsize]
  exact UInt16.toNat_lt _

/-- Every specified characteristic is served exactly when no attribute is the first of its UUID
for two of them and no initial value is too long. -/
theorem resolveCharacteristics_served_iff {handleBlob : HandleBlob}
    (hblob : HandlesBlob handleBlob) (hfirst : FirstMatch database hasType)
    (h : resolveCharacteristics database services = .ok table) :
    EachServed handleBlob database hasType services table ↔
      FoundApart database hasType services ∧ ShortValues services := by
  have hspecs : services.flatMap (fun service => service.characteristics) =
      ((specified services).map (entryOf database)).map (fun ch => ch.spec) := by
    rw [specified,List.map_flatMap,List.map_flatMap]
    congr 1
    funext service
    rw [List.map_map,List.map_map]
    exact (List.map_id _).symm
  rw [foundApart_iff_nodup hfirst h]
  obtain ⟨-,htable⟩ := resolveCharacteristics_eq_keyed h
  constructor
  · intro hserved
    refine ⟨?_,hserved.short⟩
    have hlength := hserved.one.length_eq
    rw [List.length_map,hspecs,List.length_map,htable] at hlength
    exact Table.length_keyed_iff.mp hlength
  · rintro ⟨hnodup,hshort⟩
    have hlookup : ∀ x ∈ specified services, FoundAt database hasType x
        (entryOf database x).valueHandle ∧
          table.lookup (entryOf database x).valueHandle = some (entryOf database x) := by
      intro x hx
      rw [htable]
      exact ⟨foundAt_entryOf hfirst h hx,Table.lookup_keyed hnodup (List.mem_map_of_mem hx)⟩
    refine ⟨?_,?_,?_⟩
    · have hperm := (Table.entries_keyed_perm hnodup).map (fun entry => entry.2.spec)
      rw [List.map_map] at hperm
      rw [hspecs,htable]
      exact hperm
    · intro x hx
      exact ⟨_,(entryOf database x).cccHandle,(hlookup x hx).1,(hlookup x hx).2⟩
    · intro x hx
      refine ⟨_,(hlookup x hx).1,fun σ hσ => ?_⟩
      have hch : σ.characteristicsByValueHandle.lookup (entryOf database x).valueHandle =
          some (entryOf database x) := by
        rw [hσ]
        exact (hlookup x hx).2
      exact servesInitial_of_short hblob hch (hshort x hx)

end

end

def firstHandle (attributes : List (UInt16 × GattUuid)) (range : UInt16 × UInt16)
    (uuid : GattUuid) : UInt16 :=
  ((attributes.find? (fun a => range.1 ≤ a.1 ∧ a.1 ≤ range.2 ∧ a.2 = uuid)).map Prod.fst).getD 0

/-- A database with these attributes, in which all services have the same range. A CCC follows the
value of its characteristic. -/
def listedDatabase (attributes : List (UInt16 × GattUuid)) : AttDatabase where
  handleRangeForServiceWithUuid16 := fun _ => some (1,0xFFFF)
  handleRangeForServiceWithUuid128 := fun _ => some (1,0xFFFF)
  valueHandleForCharacteristicWithUuid16 := fun startHandle endHandle uuid =>
    firstHandle attributes (startHandle,endHandle) (.uuid16 uuid)
  valueHandleForCharacteristicWithUuid128 := fun startHandle endHandle uuid =>
    firstHandle attributes (startHandle,endHandle) (.uuid128 uuid)
  clientConfigurationHandleWithUuid16 := fun startHandle endHandle uuid =>
    firstHandle attributes (startHandle,endHandle) (.uuid16 uuid)+1
  clientConfigurationHandleWithUuid128 := fun startHandle endHandle uuid =>
    firstHandle attributes (startHandle,endHandle) (.uuid128 uuid)+1

theorem listedDatabase_firstMatch {attributes : List (UInt16 × GattUuid)}
    (hvalid : ∀ a ∈ attributes, a.1 ≠ 0) (hsorted : attributes.Pairwise (fun a b => a.1 < b.1)) :
    FirstMatch (listedDatabase attributes) (fun handle uuid => (handle,uuid) ∈ attributes) := by
  intro range uuid
  have hvalue : (listedDatabase attributes).valueHandle range uuid =
      firstHandle attributes range uuid := by
    cases uuid <;> rfl
  rw [hvalue,firstHandle]
  cases hfind : attributes.find? (fun a => range.1 ≤ a.1 ∧ a.1 ≤ range.2 ∧ a.2 = uuid) with
  | none =>
    refine .inr ⟨rfl,fun handle _ hstart hend hmem => ?_⟩
    have hnot := List.find?_eq_none.mp hfind _ hmem
    exact hnot (by simp [hstart,hend])
  | some a =>
    obtain ⟨hmatch,before,after,rfl,hbefore⟩ := List.find?_eq_some_iff_append.mp hfind
    obtain ⟨hstart,hend,htype⟩ := of_decide_eq_true hmatch
    refine .inl ⟨hvalid a (by simp),⟨hstart,hend⟩,htype ▸ by simp,?_⟩
    intro handle _ hstart' hlt hmem
    rcases List.mem_append.mp hmem with hmem | hmem
    · have hnot := hbefore _ hmem
      have hend' : handle ≤ range.2 := UInt16.le_trans (UInt16.le_of_lt hlt) hend
      simp [hstart',hend'] at hnot
    · rcases List.mem_cons.mp hmem with rfl | hmem
      · exact UInt16.lt_irrefl _ hlt
      · have hafter := (List.pairwise_cons.mp (List.pairwise_append.mp hsorted).2.1).1 _ hmem
        exact UInt16.lt_irrefl _ (UInt16.lt_trans hlt hafter)

def reportAttributes : List (UInt16 × GattUuid) :=
  [(3,.uuid16 0x2A4D),(6,.uuid16 0x2A4D),(9,.uuid16 0x2A4B)]

def reportServices : List GattServiceSpec :=
  [⟨.uuid16 0x1812,[⟨.uuid16 0x2A4D,.READ,[1]⟩,⟨.uuid16 0x2A4D,.WRITE,[2]⟩]⟩]

def reportMapServices : List GattServiceSpec :=
  [⟨.uuid16 0x1812,[⟨.uuid16 0x2A4D,.READ,[1]⟩,⟨.uuid16 0x2A4B,.READ,[2]⟩]⟩]

private theorem reportAttributes_firstMatch : FirstMatch (listedDatabase reportAttributes)
    (fun handle uuid => (handle,uuid) ∈ reportAttributes) :=
  listedDatabase_firstMatch (by decide) (by decide)

theorem secondReport_overwrites : ∃ table,
    FirstMatch (listedDatabase reportAttributes)
      (fun handle uuid => (handle,uuid) ∈ reportAttributes) ∧
    resolveCharacteristics (listedDatabase reportAttributes) reportServices = .ok table ∧
    ¬EachServed documentedHandleBlob (listedDatabase reportAttributes)
      (fun handle uuid => (handle,uuid) ∈ reportAttributes) reportServices table := by
  refine ⟨_,reportAttributes_firstMatch,rfl,fun hserved => ?_⟩
  exact absurd hserved.one.length_eq (by decide)

theorem resolveCharacteristics_served_iff_reportMap : ∃ table,
    resolveCharacteristics (listedDatabase reportAttributes) reportMapServices = .ok table ∧
    EachServed documentedHandleBlob (listedDatabase reportAttributes)
      (fun handle uuid => (handle,uuid) ∈ reportAttributes) reportMapServices table := by
  refine ⟨_,rfl,(resolveCharacteristics_served_iff documentedHandleBlob_handlesBlob
    reportAttributes_firstMatch rfl).mpr ⟨?_,?_⟩⟩
  · rw [foundApart_iff_nodup reportAttributes_firstMatch rfl]
    decide
  · unfold ShortValues
    decide

end BtstackRs.Gatt.Peripheral
