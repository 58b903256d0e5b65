import BtstackRs.Gatt.Peripheral.Values

/-!
# Plain writes

A plain write takes the same path as a chunk of a long write. It therefore never shortens a value:
what the previous value had beyond the end of the data stays.
-/

namespace BtstackRs.Gatt.Peripheral

open Sequence Transport

/-- `ATT_TRANSACTION_MODE_NONE` from offset 0 on. -/
def plainWrite (connectionHandle handle : UInt16) (buffer : Memory) (size : UInt16) : AttWrite :=
  ⟨connectionHandle,handle,attTransactionModeNone,0,some buffer,size⟩

/-- The value of `handle` is the data, and that is what a read from offset 0 returns. -/
structure Holds (handleBlob : HandleBlob) (σ : RuntimeState) (handle : UInt16) (data : Bytes) :
    Prop where
  stored : (σ.characteristicsByValueHandle.lookup handle).map (fun ch => ch.value) = some data
  size : ∀ connectionHandle bufferSize, (attReadCallback handleBlob (some σ)
    ⟨connectionHandle,handle,0,false,bufferSize⟩).returned.toNat = data.length
  copy : ∀ connectionHandle bufferSize,
    let reply := attReadCallback handleBlob (some σ) ⟨connectionHandle,handle,0,true,bufferSize⟩
    reply.copied = data.take bufferSize.toNat ∧ reply.returned.toNat = reply.copied.length

variable {handleBlob : HandleBlob} {database : Bytes → AttDatabase}
  {order : IterationOrder UInt16 RuntimeCharacteristic} {spec : GattPeripheralSpec}
  {σ : RuntimeState} {handle : UInt16} {ch : RuntimeCharacteristic}

theorem holds_iff (hblob : HandlesBlob handleBlob)
    (hch : σ.characteristicsByValueHandle.lookup handle = some ch) {data : Bytes}
    (hdata : data.length < 65536) : Holds handleBlob σ handle data ↔ ch.value = data := by
  constructor
  · intro h
    have hstored := h.stored
    rwa [hch,Option.map_some,Option.some.injEq] at hstored
  · rintro rfl
    refine ⟨by rw [hch,Option.map_some],?_,?_⟩
    · intro connectionHandle bufferSize
      rw [attReadCallback_size hblob hch]
      exact toNat_lengthCast hdata
    · intro connectionHandle bufferSize
      exact attReadCallback_copy hblob hch hdata connectionHandle 0 bufferSize

theorem lookup_after_plainWrite (hch : σ.characteristicsByValueHandle.lookup handle = some ch)
    (hwritable : ch.spec.writable = true) (hccc : handle ∉ σ.cccToValueHandle)
    (connectionHandle : UInt16) (buffer : Memory) (size : UInt16) :
    let τ := σ.after (.attWrite (plainWrite connectionHandle handle buffer size))
    τ.characteristicsByValueHandle.lookup handle =
      some { ch with value := Patch.apply 0 ch.value ⟨0,buffer.bytes size.toNat⟩ } := by
  have haccepts : σ.accepts handle = true := by
    rw [RuntimeState.accepts,hch,AList.lookup_eq_none.mpr hccc,Option.any_some,hwritable]
    rfl
  have hwritten : σ.written handle (.attWrite (plainWrite connectionHandle handle buffer size)) =
      some ⟨0,buffer.bytes size.toNat⟩ := by
    rw [RuntimeState.written,if_pos ⟨rfl,haccepts⟩]
    rfl
  simp only [σ.lookup_after,hch,hwritten]
  rfl

theorem after_plainWrite_holds_iff (hblob : HandlesBlob handleBlob)
    (hch : σ.characteristicsByValueHandle.lookup handle = some ch)
    (hwritable : ch.spec.writable = true) (hccc : handle ∉ σ.cccToValueHandle)
    (connectionHandle : UInt16) (buffer : Memory) (size : UInt16) :
    Holds handleBlob (σ.after (.attWrite (plainWrite connectionHandle handle buffer size))) handle
      (buffer.bytes size.toNat) ↔ ch.value.length ≤ size.toNat := by
  have hafter := lookup_after_plainWrite hch hwritable hccc connectionHandle buffer size
  have hshort : (buffer.bytes size.toNat).length < 65536 := by
    rw [Memory.length_bytes]
    exact size.toNat_lt
  rw [holds_iff hblob hafter hshort]
  show Patch.apply 0 ch.value ⟨0,buffer.bytes size.toNat⟩ = buffer.bytes size.toNat ↔ _
  rw [Patch.apply_front_eq_iff,Memory.length_bytes]

/-- A plain write replaces the value exactly when nothing longer was there: the initial value is
not longer than the data, and no write that was stored ended beyond it. -/
theorem plainWrite_replaces_iff (hblob : HandlesBlob handleBlob)
    (session : Session database order)
    (hch : session.state.characteristicsByValueHandle.lookup handle = some ch)
    (hwritable : ch.spec.writable = true) (hccc : handle ∉ session.state.cccToValueHandle)
    (connectionHandle : UInt16) (buffer : Memory) (size : UInt16) :
    Holds handleBlob
        (session.state.after (.attWrite (plainWrite connectionHandle handle buffer size))) handle
        (buffer.bytes size.toNat) ↔
      ch.spec.initialValue.length ≤ size.toNat ∧
        ∀ w, .attWrite w ∈ session.calls → w.attHandle = handle → session.state.Stores w →
          w.offset.toNat+w.bufferSize.toNat ≤ size.toNat := by
  rw [after_plainWrite_holds_iff hblob hch hwritable hccc]
  obtain ⟨ch₀,hch₀,rfl⟩ := session.exists_initial hch
  simp only [← Nat.lt_succ_iff,RuntimeState.Stores,session.state_accepts]
  rw [← setup_value session.built hch₀]
  exact length_afterAll_lt_iff session.calls (Nat.succ_pos _)

def noteRewrites : List Callback := [.attWrite (plainWrite 0x40 3 (fun _ => 5) 2)]

private theorem note_facts : ∃ (session : Session (fun _ => numberedDatabase) asStored)
    (ch : RuntimeCharacteristic), session.spec = noteSpec ∧
    session.state.advertisingEnabled = true ∧ session.calls = noteRewrites ∧
    session.state.characteristicsByValueHandle.lookup 3 = some ch ∧
    ch.spec = noteCharacteristic.spec ∧ ch.value = [5,5] ∧ 3 ∉ session.state.cccToValueHandle := by
  obtain ⟨σ,hsetup,hch,hccc,-⟩ := setup_noteSpec
  have hnot : 3 ∉ σ.cccToValueHandle := by
    rw [← AList.lookup_eq_none,hccc]
    rfl
  have hlookup := lookup_after_plainWrite (hch 3) rfl hnot 0x40 (fun _ => 5) 2
  refine ⟨⟨0,noteSpec,σ,hsetup,noteRewrites,true⟩,_,rfl,rfl,rfl,hlookup,rfl,rfl,?_⟩
  rwa [Session.state_cccToValueHandle]

theorem plainWrite_leavesTail : ∃ (session : Session (fun _ => numberedDatabase) asStored)
    (ch : RuntimeCharacteristic), session.state.advertisingEnabled = true ∧
    session.state.characteristicsByValueHandle.lookup 3 = some ch ∧
    ch.spec.writable = true ∧ 3 ∉ session.state.cccToValueHandle ∧
    ¬Holds documentedHandleBlob
      (session.state.after (.attWrite (plainWrite 0x40 3 (fun _ => 6) 1))) 3 [6] := by
  obtain ⟨session,ch,-,hadvertising,-,hch,hspec,hvalue,hnot⟩ := note_facts
  have hwritable : ch.spec.writable = true := by
    rw [hspec]
    rfl
  refine ⟨session,ch,hadvertising,hch,hwritable,hnot,fun hholds => ?_⟩
  have hlength := (after_plainWrite_holds_iff documentedHandleBlob_handlesBlob hch hwritable hnot
    0x40 (fun _ => 6) 1).mp hholds
  rw [hvalue] at hlength
  exact absurd hlength (by decide)

theorem plainWrite_replaces_iff_longer : ∃ session : Session (fun _ => numberedDatabase) asStored,
    session.spec = noteSpec ∧ session.state.advertisingEnabled = true ∧
    session.calls = noteRewrites ∧
      Holds documentedHandleBlob
        (session.state.after (.attWrite (plainWrite 0x40 3 (fun _ => 6) 3))) 3 [6,6,6] := by
  obtain ⟨session,ch,hsession,hadvertising,hcalls,hch,hspec,-,hnot⟩ := note_facts
  have hwritable : ch.spec.writable = true := by
    rw [hspec]
    rfl
  refine ⟨session,hsession,hadvertising,hcalls,
    (plainWrite_replaces_iff documentedHandleBlob_handlesBlob session hch hwritable hnot 0x40
      (fun _ => 6) 3).mpr ⟨by rw [hspec]; decide,?_⟩⟩
  intro w hw _ _
  rw [hcalls] at hw
  cases List.mem_singleton.mp hw
  decide

end BtstackRs.Gatt.Peripheral
