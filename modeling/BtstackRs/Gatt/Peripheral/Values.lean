import BtstackRs.Gatt.Peripheral.Callbacks

/-!
# Stored values

What clients read of the values that they write. A value only ever grows, up to the end of the
write that reaches furthest, while its length is reported through 16 bits whose top is taken by
error codes.
-/

namespace BtstackRs.Gatt.Peripheral

open Sequence Transport Concurrent

/-- `att_read_callback_handle_blob` by its documentation. -/
def documentedHandleBlob : HandleBlob := fun blob blobSize offset hasBuffer bufferSize =>
  if hasBuffer then
    let copied := window (blob.take blobSize.toNat) offset.toNat bufferSize.toNat
    ⟨copied,UInt16.ofNat copied.length⟩
  else ⟨[],blobSize⟩

theorem documentedHandleBlob_handlesBlob : HandlesBlob documentedHandleBlob where
  size := fun _ _ _ _ _ => rfl
  copy := fun _ _ _ _ _ => rfl
  count := by
    intro blob blobSize offset bufferSize _
    show (UInt16.ofNat (window _ offset.toNat bufferSize.toNat).length).toNat = _
    rw [UInt16.toNat_ofNat']
    apply Nat.mod_eq_of_lt
    rw [length_window]
    exact Nat.lt_of_le_of_lt (Nat.min_le_left _ _) bufferSize.toNat_lt

variable {handleBlob : HandleBlob} {database : Bytes → AttDatabase}
  {order : IterationOrder UInt16 RuntimeCharacteristic} {spec : GattPeripheralSpec}
  {σ : RuntimeState}

theorem toNat_lengthCast_le (value : Bytes) : (UInt16.ofNat value.length).toNat ≤ value.length := by
  rw [UInt16.toNat_ofNat']
  exact Nat.mod_le _ _

theorem toNat_lengthCast {value : Bytes} (h : value.length < 65536) :
    (UInt16.ofNat value.length).toNat = value.length := by
  rw [UInt16.toNat_ofNat']
  exact Nat.mod_eq_of_lt h

/-- A read without a buffer returns the low 16 bits of the length. -/
theorem attReadCallback_size (hblob : HandlesBlob handleBlob) {handle : UInt16}
    {ch : RuntimeCharacteristic} (hch : σ.characteristicsByValueHandle.lookup handle = some ch)
    (connectionHandle offset bufferSize : UInt16) :
    attReadCallback handleBlob (some σ) ⟨connectionHandle,handle,offset,false,bufferSize⟩ =
      ⟨[],UInt16.ofNat ch.value.length⟩ := by
  simp only [attReadCallback,hch]
  exact hblob.size _ _ _ _ (toNat_lengthCast_le ch.value)

theorem attReadCallback_copy (hblob : HandlesBlob handleBlob) {handle : UInt16}
    {ch : RuntimeCharacteristic} (hch : σ.characteristicsByValueHandle.lookup handle = some ch)
    (hlen : ch.value.length < 65536) (connectionHandle offset bufferSize : UInt16) :
    let reply := attReadCallback handleBlob (some σ)
      ⟨connectionHandle,handle,offset,true,bufferSize⟩
    reply.copied = window ch.value offset.toNat bufferSize.toNat ∧
      reply.returned.toNat = reply.copied.length := by
  have hle := toNat_lengthCast_le ch.value
  simp only [attReadCallback,hch]
  refine ⟨?_,hblob.count _ _ _ _ hle⟩
  rw [hblob.copy _ _ _ _ hle,toNat_lengthCast hlen,List.take_length]

/-- Reads of `handle` report the value: its length without a buffer, the bytes from any offset
with one, and never what could be taken for an error code. -/
structure ReportsValue (handleBlob : HandleBlob) (σ : RuntimeState) (handle : UInt16)
    (value : Bytes) : Prop where
  size : ∀ connectionHandle offset bufferSize,
    let reply := attReadCallback handleBlob (some σ)
      ⟨connectionHandle,handle,offset,false,bufferSize⟩
    reply.returned.toNat = value.length ∧ reply.returned < attReadErrorCodeOffset
  copy : ∀ connectionHandle offset bufferSize, offset.toNat ≤ value.length →
    let reply := attReadCallback handleBlob (some σ)
      ⟨connectionHandle,handle,offset,true,bufferSize⟩
    reply.copied = (value.drop offset.toNat).take bufferSize.toNat ∧
      reply.returned.toNat = min (value.length-offset.toNat) bufferSize.toNat ∧
      reply.returned < attReadErrorCodeOffset

def ReportsStored (handleBlob : HandleBlob) (σ : RuntimeState) : Prop :=
  ∀ handle ch, σ.characteristicsByValueHandle.lookup handle = some ch →
    ReportsValue handleBlob σ handle ch.value

theorem reportsValue_iff (hblob : HandlesBlob handleBlob) {handle : UInt16}
    {ch : RuntimeCharacteristic} (hch : σ.characteristicsByValueHandle.lookup handle = some ch) :
    ReportsValue handleBlob σ handle ch.value ↔ ch.value.length < attReadErrorCodeOffset.toNat := by
  constructor
  · intro h
    have hsize := h.size 0 0 0
    rw [attReadCallback_size hblob hch] at hsize
    rw [← hsize.1]
    exact UInt16.lt_iff_toNat_lt.mp hsize.2
  · intro h
    have hlen : ch.value.length < 65536 := Nat.lt_trans h attReadErrorCodeOffset.toNat_lt
    constructor
    · intro connectionHandle offset bufferSize
      rw [attReadCallback_size hblob hch]
      refine ⟨toNat_lengthCast hlen,UInt16.lt_iff_toNat_lt.mpr ?_⟩
      rwa [toNat_lengthCast hlen]
    · intro connectionHandle offset bufferSize _
      obtain ⟨hcopied,hreturned⟩ :=
        attReadCallback_copy hblob hch hlen connectionHandle offset bufferSize
      have hlength := length_window ch.value offset.toNat bufferSize.toNat
      refine ⟨hcopied,?_,UInt16.lt_iff_toNat_lt.mpr ?_⟩
      · rw [hreturned,hcopied,hlength,Nat.min_comm]
      · rw [hreturned,hcopied,hlength]
        omega

/-- The write is not to a CCC but to a characteristic that is declared writable. -/
def RuntimeState.Stores (σ : RuntimeState) (w : AttWrite) : Prop :=
  w.buffer.isSome ∧ σ.accepts w.attHandle

theorem RuntimeState.mem_written {handle : UInt16} {cs : List Callback} {p : Patch UInt8} :
    p ∈ cs.filterMap (σ.written handle) ↔ ∃ w, .attWrite w ∈ cs ∧ w.attHandle = handle ∧
      σ.accepts handle = true ∧ w.patch = some p := by
  rw [List.mem_filterMap]
  constructor
  · rintro ⟨c,hc,hwritten⟩
    cases c with
    | attWrite w =>
      rw [RuntimeState.written] at hwritten
      split at hwritten
      · rename_i hboth
        exact ⟨w,hc,hboth.1,hboth.2,hwritten⟩
      · cases hwritten
    | attRead r => cases hwritten
    | packet p => cases hwritten
  · rintro ⟨w,hw,hhandle,haccepts,hpatch⟩
    exact ⟨.attWrite w,hw,by rw [RuntimeState.written,if_pos ⟨hhandle,haccepts⟩,hpatch]⟩

/-- A value is short after a run exactly when it started short and no write to it ended late. -/
theorem length_afterAll_lt_iff {handle : UInt16} {ch : RuntimeCharacteristic} (cs : List Callback)
    {n : Nat} (hn : 0 < n) :
    (Patch.applyAll 0 ch.value (cs.filterMap (σ.written handle))).length < n ↔
      ch.value.length < n ∧ ∀ w, .attWrite w ∈ cs → w.attHandle = handle → σ.Stores w →
        w.offset.toNat+w.bufferSize.toNat < n := by
  obtain ⟨m,rfl⟩ : ∃ m, n = m+1 := ⟨n-1,by omega⟩
  rw [Nat.lt_succ_iff,Patch.length_applyAll_le_iff,Nat.lt_succ_iff]
  refine and_congr_right fun _ => ⟨?_,?_⟩
  · rintro hall w hw rfl ⟨hbuffer,haccepts⟩
    obtain ⟨buffer,hbuffer⟩ := Option.isSome_iff_exists.mp hbuffer
    have hpatch : w.patch = some ⟨w.offset.toNat,buffer.bytes w.bufferSize.toNat⟩ := by
      simp [AttWrite.patch,hbuffer]
    have hlimit := hall _ (RuntimeState.mem_written.mpr ⟨w,hw,rfl,haccepts,hpatch⟩)
    rw [Patch.limit,Memory.length_bytes] at hlimit
    exact Nat.lt_succ_of_le hlimit
  · rintro hall p hp
    obtain ⟨w,hw,rfl,haccepts,hpatch⟩ := RuntimeState.mem_written.mp hp
    obtain ⟨buffer,hbuffer,rfl⟩ := Option.map_eq_some_iff.mp hpatch
    have hlimit := hall w hw rfl ⟨by simp [hbuffer],haccepts⟩
    rw [Patch.limit,Memory.length_bytes]
    exact Nat.le_of_lt_succ hlimit

/-- The reads report what is stored exactly as long as all values end below the error codes. -/
theorem reportsStored_iff (hblob : HandlesBlob handleBlob)
    (hsetup : setup database order spec = .ok σ) (cs : List Callback) :
    ReportsStored handleBlob (σ.afterAll cs) ↔
      (∀ handle ch, σ.characteristicsByValueHandle.lookup handle = some ch →
        ch.spec.initialValue.length < 0xFE00) ∧
      ∀ w, .attWrite w ∈ cs → σ.Stores w → w.offset.toNat+w.bufferSize.toNat < 0xFE00 := by
  have hvalue : ∀ handle ch, σ.characteristicsByValueHandle.lookup handle = some ch →
      (ReportsValue handleBlob (σ.afterAll cs) handle
          (Patch.applyAll 0 ch.value (cs.filterMap (σ.written handle))) ↔
        ch.spec.initialValue.length < 0xFE00 ∧ ∀ w, .attWrite w ∈ cs → w.attHandle = handle →
          σ.Stores w → w.offset.toNat+w.bufferSize.toNat < 0xFE00) := by
    intro handle ch hch
    have hafter := (σ.lookup_afterAll handle cs).1
    rw [hch,Option.map_some] at hafter
    rw [reportsValue_iff hblob hafter,← setup_value hsetup hch]
    exact length_afterAll_lt_iff cs (by decide)
  constructor
  · intro hreports
    have hreport : ∀ handle ch, σ.characteristicsByValueHandle.lookup handle = some ch →
        ReportsValue handleBlob (σ.afterAll cs) handle
          (Patch.applyAll 0 ch.value (cs.filterMap (σ.written handle))) := by
      intro handle ch hch
      have hafter := (σ.lookup_afterAll handle cs).1
      rw [hch,Option.map_some] at hafter
      exact hreports handle _ hafter
    constructor
    · intro handle ch hch
      exact ((hvalue handle ch hch).mp (hreport handle ch hch)).1
    · intro w hw hstores
      have haccepts := hstores.2
      rw [RuntimeState.accepts,Bool.and_eq_true,Option.any_eq_true] at haccepts
      obtain ⟨-,ch,hch,-⟩ := haccepts
      exact ((hvalue w.attHandle ch hch).mp (hreport w.attHandle ch hch)).2 w hw rfl hstores
  · rintro ⟨hinitial,hwrites⟩ handle ch hch
    rw [(σ.lookup_afterAll handle cs).1] at hch
    obtain ⟨ch₀,hch₀,rfl⟩ := Option.map_eq_some_iff.mp hch
    exact (hvalue handle ch₀ hch₀).mpr
      ⟨hinitial handle ch₀ hch₀,fun w hw _ hstores => hwrites w hw hstores⟩

def lastByteWrite : AttWrite :=
  ⟨0x40,3,attTransactionModeNone,0xFFFF,some (fun _ => 1),1⟩

theorem lastByteWrite_misreported : ∃ σ,
    setup (fun _ => numberedDatabase) asStored noteSpec = .ok σ ∧
      ¬ReportsStored documentedHandleBlob (σ.afterAll [.attWrite lastByteWrite]) := by
  obtain ⟨σ,hsetup,hch,hccc,-⟩ := setup_noteSpec
  refine ⟨σ,hsetup,fun hreports => ?_⟩
  have hafter := (σ.lookup_afterAll 3 [.attWrite lastByteWrite]).1
  rw [hch,if_pos rfl,Option.map_some] at hafter
  have hshort := (reportsValue_iff documentedHandleBlob_handlesBlob hafter).mp (hreports 3 _ hafter)
  have hstores : σ.Stores lastByteWrite := ⟨rfl,by rw [RuntimeState.accepts,hccc,hch]; rfl⟩
  have hlimit := ((length_afterAll_lt_iff _ (by decide)).mp hshort).2 lastByteWrite (by simp) rfl
    hstores
  exact absurd hlimit (by decide)

theorem reportsStored_iff_note : ∃ σ,
    setup (fun _ => numberedDatabase) asStored noteSpec = .ok σ ∧
      ReportsStored documentedHandleBlob (σ.afterAll
        [.attWrite ⟨0x40,3,attTransactionModeNone,200,some (fun _ => 1),20⟩]) := by
  obtain ⟨σ,hsetup,hch,-,-⟩ := setup_noteSpec
  refine ⟨σ,hsetup,(reportsStored_iff documentedHandleBlob_handlesBlob hsetup _).mpr ⟨?_,?_⟩⟩
  · intro handle ch hlookup
    rw [hch] at hlookup
    split at hlookup
    · cases hlookup
      decide
    · cases hlookup
  · intro w hw _
    cases List.mem_singleton.mp hw
    decide

end BtstackRs.Gatt.Peripheral
