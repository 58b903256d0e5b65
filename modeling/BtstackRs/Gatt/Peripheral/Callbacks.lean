import BtstackRs.Gatt.Peripheral.Setup
import BtstackRs.Sequence.Patch
import BtstackRs.Sequence.Window

/-!
# Callbacks of the server

The three functions that BTstack calls, on the contents of `RUNTIME`. Once a server is there they
only change values and flags: a characteristic's value is the stored writes to it applied as
patches, and a flag is what the last event about it says.
-/

namespace BtstackRs.Gatt.Peripheral

open Sequence Transport Concurrent

/-- `att_read_callback_handle_blob` on a blob and its size, for the other arguments of a read. -/
abbrev HandleBlob := Bytes → UInt16 → UInt16 → Bool → UInt16 → ReadReply

/-- What its documentation says. -/
structure HandlesBlob (handleBlob : HandleBlob) : Prop where
  size : ∀ blob blobSize offset bufferSize, blobSize.toNat ≤ blob.length →
    handleBlob blob blobSize offset false bufferSize = ⟨[],blobSize⟩
  copy : ∀ blob blobSize offset bufferSize, blobSize.toNat ≤ blob.length →
    (handleBlob blob blobSize offset true bufferSize).copied =
      window (blob.take blobSize.toNat) offset.toNat bufferSize.toNat
  count : ∀ blob blobSize offset bufferSize, blobSize.toNat ≤ blob.length →
    (handleBlob blob blobSize offset true bufferSize).returned.toNat =
      (handleBlob blob blobSize offset true bufferSize).copied.length

def attReadCallback (handleBlob : HandleBlob) (runtime : Option RuntimeState) (r : AttRead) :
    ReadReply :=
  match runtime with
  | none => ⟨[],0⟩
  | some state =>
      match state.characteristicsByValueHandle.lookup r.attHandle with
      | some ch =>
          -- `ch.value.len() as u16`
          handleBlob ch.value (UInt16.ofNat ch.value.length) r.offset r.hasBuffer r.bufferSize
      | none => ⟨[],0⟩

/-- The bit of a client configuration that `att_write_callback` looks at. -/
def notificationBit (config : UInt16) : Bool := config &&& 0x0001 != 0

def attWriteCallback (runtime : Option RuntimeState) (w : AttWrite) : Option RuntimeState × Int :=
  match w.buffer with
  | none => (runtime,0)
  | some buffer =>
    match runtime with
    | none => (runtime,0)
    | some state =>
      match state.cccToValueHandle.lookup w.attHandle with
      | some valueHandle =>
        if w.bufferSize ≥ 2 then
          let config := buffer.littleEndian16 0
          (some { state with
            notificationEnabled :=
              state.notificationEnabled.insert valueHandle (notificationBit config) },0)
        else (runtime,0)
      | none =>
        match state.characteristicsByValueHandle.lookup w.attHandle with
        | none => (runtime,0)
        | some ch =>
          if !ch.spec.properties.contains .WRITE &&
              !ch.spec.properties.contains .WRITE_WITHOUT_RESPONSE then (runtime,0)
          else
            let offset := w.offset.toNat
            let size := w.bufferSize.toNat
            let required := offset+size
            let value :=
              if ch.value.length < required then Patch.extend 0 ch.value required else ch.value
            let ch := { ch with value := Patch.overwrite value offset (buffer.bytes size) }
            (some { state with
              characteristicsByValueHandle :=
                state.characteristicsByValueHandle.insert w.attHandle ch },0)

def packetHandler (runtime : Option RuntimeState) (p : Packet) : Option RuntimeState :=
  match p.packet with
  | none => runtime
  | some packet =>
    if p.packetType ≠ hciEventPacket then runtime
    else
      match runtime with
      | none => runtime
      | some state =>
        if packet 0 = attEventConnected then
          some { state with connectedHandle := some (packet.littleEndian16 2) }
        else if packet 0 = attEventDisconnected then
          some { state with
            connectedHandle := none
            notificationEnabled := state.notificationEnabled.mapValues (fun _ => false) }
        else runtime

/-- A call from BTstack. A read changes nothing. -/
inductive Callback where
  | attRead (r : AttRead)
  | attWrite (w : AttWrite)
  | packet (p : Packet)

def callback (runtime : Option RuntimeState) : Callback → Option RuntimeState
  | .attRead _ => runtime
  | .attWrite w => (attWriteCallback runtime w).1
  | .packet p => packetHandler runtime p

namespace RuntimeState

def after (σ : RuntimeState) (c : Callback) : RuntimeState := (callback (some σ) c).getD σ

def afterAll (σ : RuntimeState) (cs : List Callback) : RuntimeState := cs.foldl after σ

@[simp] theorem afterAll_nil (σ : RuntimeState) : σ.afterAll [] = σ := rfl

@[simp] theorem afterAll_concat (σ : RuntimeState) (cs : List Callback) (c : Callback) :
    σ.afterAll (cs ++ [c]) = (σ.afterAll cs).after c := by
  simp [afterAll,List.foldl_append]

end RuntimeState

def AttWrite.patch (w : AttWrite) : Option (Patch UInt8) :=
  w.buffer.map (fun buffer => ⟨w.offset.toNat,buffer.bytes w.bufferSize.toNat⟩)

def AttWrite.bit (w : AttWrite) : Option Bool :=
  if w.bufferSize ≥ 2 then w.buffer.map (fun buffer => notificationBit (buffer.littleEndian16 0))
  else none

def Packet.disconnects (p : Packet) : Bool :=
  p.packetType == hciEventPacket && p.packet.any (fun packet => packet 0 == attEventDisconnected)

/-- Every write either changes nothing, or sets a flag, or patches a value. -/
theorem attWriteCallback_cases (σ : RuntimeState) (w : AttWrite) :
    (attWriteCallback (some σ) w = (some σ,0) ∧
      ((σ.cccToValueHandle.lookup w.attHandle).isSome ∧ w.bit = none ∨
        σ.cccToValueHandle.lookup w.attHandle = none ∧ (w.patch = none ∨
          ∀ ch, σ.characteristicsByValueHandle.lookup w.attHandle = some ch →
            ch.spec.writable = false))) ∨
    (∃ valueHandle bit, σ.cccToValueHandle.lookup w.attHandle = some valueHandle ∧
      w.bit = some bit ∧ attWriteCallback (some σ) w = (some { σ with
        notificationEnabled := σ.notificationEnabled.insert valueHandle bit },0)) ∨
    ∃ ch p, σ.cccToValueHandle.lookup w.attHandle = none ∧
      σ.characteristicsByValueHandle.lookup w.attHandle = some ch ∧ ch.spec.writable = true ∧
      w.patch = some p ∧ attWriteCallback (some σ) w = (some { σ with
        characteristicsByValueHandle := σ.characteristicsByValueHandle.insert w.attHandle
          { ch with value := p.apply 0 ch.value } },0) := by
  cases hbuffer : w.buffer with
  | none =>
    have hbit : w.bit = none := by simp [AttWrite.bit,hbuffer]
    have hpatch : w.patch = none := by simp [AttWrite.patch,hbuffer]
    refine .inl ⟨by simp only [attWriteCallback,hbuffer],?_⟩
    cases σ.cccToValueHandle.lookup w.attHandle with
    | none => exact .inr ⟨rfl,.inl hpatch⟩
    | some valueHandle => exact .inl ⟨rfl,hbit⟩
  | some buffer =>
    have hpatch : w.patch = some ⟨w.offset.toNat,buffer.bytes w.bufferSize.toNat⟩ := by
      simp [AttWrite.patch,hbuffer]
    cases hccc : σ.cccToValueHandle.lookup w.attHandle with
    | some valueHandle =>
      by_cases hsize : w.bufferSize ≥ 2
      · refine .inr (.inl ⟨valueHandle,notificationBit (buffer.littleEndian16 0),rfl,?_,?_⟩)
        · rw [AttWrite.bit,if_pos hsize,hbuffer,Option.map_some]
        · simp only [attWriteCallback,hbuffer,hccc,if_pos hsize]
      · refine .inl ⟨?_,.inl ⟨rfl,?_⟩⟩
        · simp only [attWriteCallback,hbuffer,hccc,if_neg hsize]
        · rw [AttWrite.bit,if_neg hsize]
    | none =>
      cases hch : σ.characteristicsByValueHandle.lookup w.attHandle with
      | none =>
        refine .inl ⟨?_,.inr ⟨rfl,.inr (by simp)⟩⟩
        simp only [attWriteCallback,hbuffer,hccc,hch]
      | some ch =>
        cases hwritable : ch.spec.writable with
        | false =>
          refine .inl ⟨?_,.inr ⟨rfl,.inr ?_⟩⟩
          · have hnot := hwritable
            rw [GattCharacteristicSpec.writable,Bool.or_eq_false_iff] at hnot
            simp only [attWriteCallback,hbuffer,hccc,hch,hnot.1,hnot.2]
            rfl
          · rintro ch' h
            cases h
            exact hwritable
        | true =>
          refine .inr (.inr ⟨ch,_,rfl,rfl,hwritable,hpatch,?_⟩)
          have hguard : (!ch.spec.properties.contains .WRITE &&
              !ch.spec.properties.contains .WRITE_WITHOUT_RESPONSE) = false := by
            rw [← Bool.not_or,← GattCharacteristicSpec.writable,hwritable]
            rfl
          have hextend : ∀ n, (if ch.value.length < n then Patch.extend 0 ch.value n
              else ch.value) = Patch.extend 0 ch.value n := by
            intro n
            split
            · rfl
            · rename_i hlong
              exact (Patch.extend_of_le (Nat.not_lt.mp hlong)).symm
          simp only [attWriteCallback,hbuffer,hccc,hch,hguard,hextend,Patch.apply,Patch.limit,
            Memory.length_bytes]
          rfl

theorem packetHandler_cases (σ : RuntimeState) (p : Packet) :
    ∃ connectedHandle, packetHandler (some σ) p =
      if p.disconnects then some { σ with
        connectedHandle := connectedHandle
        notificationEnabled := σ.notificationEnabled.mapValues (fun _ => false) }
      else some { σ with connectedHandle := connectedHandle } := by
  rw [packetHandler]
  cases hpacket : p.packet with
  | none => exact ⟨σ.connectedHandle,by simp [Packet.disconnects,hpacket]⟩
  | some packet =>
    by_cases htype : p.packetType = hciEventPacket
    · by_cases hconnected : packet 0 = attEventConnected
      · refine ⟨some (packet.littleEndian16 2),?_⟩
        simp [Packet.disconnects,hpacket,htype,hconnected,attEventConnected,attEventDisconnected]
      · by_cases hdisconnected : packet 0 = attEventDisconnected
        · refine ⟨none,?_⟩
          simp [Packet.disconnects,hpacket,htype,hdisconnected,attEventConnected,
            attEventDisconnected]
        · refine ⟨σ.connectedHandle,?_⟩
          simp [Packet.disconnects,hpacket,htype,hconnected,hdisconnected]
    · exact ⟨σ.connectedHandle,by simp [Packet.disconnects,hpacket,htype]⟩

theorem callback_some (σ : RuntimeState) (c : Callback) :
    callback (some σ) c = some (σ.after c) := by
  have hsome : ∃ τ, callback (some σ) c = some τ := by
    cases c with
    | attRead r => exact ⟨σ,rfl⟩
    | attWrite w =>
      rcases attWriteCallback_cases σ w with ⟨h,-⟩ | ⟨_,_,-,-,h⟩ | ⟨_,_,-,-,-,-,h⟩
      · exact ⟨_,congrArg Prod.fst h⟩
      · exact ⟨_,congrArg Prod.fst h⟩
      · exact ⟨_,congrArg Prod.fst h⟩
    | packet p =>
      obtain ⟨connectedHandle,h⟩ := packetHandler_cases σ p
      rw [callback,h]
      split
      · exact ⟨_,rfl⟩
      · exact ⟨_,rfl⟩
  obtain ⟨τ,hτ⟩ := hsome
  rw [RuntimeState.after,hτ,Option.getD_some]

namespace RuntimeState

variable (σ : RuntimeState)

/-- Writes to this handle are stored. -/
def accepts (handle : UInt16) : Bool :=
  (σ.cccToValueHandle.lookup handle).isNone &&
    (σ.characteristicsByValueHandle.lookup handle).any (fun ch => ch.spec.writable)

/-- The patch that a call stores in the characteristic with this value handle. -/
def written (handle : UInt16) : Callback → Option (Patch UInt8)
  | .attWrite w => if w.attHandle = handle ∧ σ.accepts handle then w.patch else none
  | _ => none

/-- What a call says about the flag of the characteristic with this value handle. -/
def flagSet (handle : UInt16) : Callback → Option Bool
  | .attRead _ => none
  | .attWrite w => if σ.cccToValueHandle.lookup w.attHandle = some handle then w.bit else none
  | .packet p => if p.disconnects then some false else none

theorem after_attRead (r : AttRead) : σ.after (.attRead r) = σ := rfl

theorem after_attWrite (w : AttWrite) {τ : RuntimeState}
    (h : attWriteCallback (some σ) w = (some τ,0)) : σ.after (.attWrite w) = τ := by
  rw [after,callback,h,Option.getD_some]

theorem after_packet (p : Packet) {τ : RuntimeState} (h : packetHandler (some σ) p = some τ) :
    σ.after (.packet p) = τ := by
  rw [after,callback,h,Option.getD_some]

@[simp] theorem cccToValueHandle_after (c : Callback) :
    (σ.after c).cccToValueHandle = σ.cccToValueHandle := by
  cases c with
  | attRead r => rfl
  | attWrite w =>
    rcases attWriteCallback_cases σ w with ⟨h,-⟩ | ⟨_,_,-,-,h⟩ | ⟨_,_,-,-,-,-,h⟩
    all_goals rw [σ.after_attWrite w h]
  | packet p =>
    obtain ⟨connectedHandle,h⟩ := packetHandler_cases σ p
    split at h
    all_goals rw [σ.after_packet p h]

theorem advertising_after (c : Callback) : (σ.after c).advertisingEnabled = σ.advertisingEnabled ∧
    (σ.after c).advertising = σ.advertising := by
  cases c with
  | attRead r => exact ⟨rfl,rfl⟩
  | attWrite w =>
    rcases attWriteCallback_cases σ w with ⟨h,-⟩ | ⟨_,_,-,-,h⟩ | ⟨_,_,-,-,-,-,h⟩
    all_goals
      rw [σ.after_attWrite w h]
      exact ⟨rfl,rfl⟩
  | packet p =>
    obtain ⟨connectedHandle,h⟩ := packetHandler_cases σ p
    split at h
    all_goals
      rw [σ.after_packet p h]
      exact ⟨rfl,rfl⟩

/-- The step lemma for values: a stored patch is applied, and nothing else happens to them. -/
theorem lookup_after (handle : UInt16) (c : Callback) :
    (σ.after c).characteristicsByValueHandle.lookup handle =
      (σ.characteristicsByValueHandle.lookup handle).map (fun ch => { ch with
        value := Patch.applyAll 0 ch.value (σ.written handle c).toList }) := by
  have hsame : σ.written handle c = none → (σ.characteristicsByValueHandle.lookup handle).map
      (fun ch => { ch with value := Patch.applyAll 0 ch.value (σ.written handle c).toList }) =
        σ.characteristicsByValueHandle.lookup handle := by
    intro h
    simp [h]
  cases c with
  | attRead r => rw [after_attRead,hsame rfl]
  | packet p =>
    rw [hsame rfl]
    obtain ⟨connectedHandle,h⟩ := packetHandler_cases σ p
    split at h
    all_goals rw [σ.after_packet p h]
  | attWrite w =>
    rcases attWriteCallback_cases σ w with
      ⟨h,hnot⟩ | ⟨valueHandle,bit,hccc,-,h⟩ | ⟨ch,p,hccc,hch,hwritable,hpatch,h⟩
    · rw [σ.after_attWrite w h,hsame]
      rw [written,accepts]
      split
      · rename_i haccepts
        rcases haccepts with ⟨rfl,haccepts⟩
        rw [Bool.and_eq_true,Option.any_eq_true] at haccepts
        obtain ⟨hnone,ch,hch,hwritable⟩ := haccepts
        rcases hnot with ⟨hsome,-⟩ | ⟨-,hpatch | hwritable'⟩
        · rw [Option.isNone_iff_eq_none.mp hnone] at hsome
          cases hsome
        · exact hpatch
        · rw [hwritable' ch hch] at hwritable
          cases hwritable
      · rfl
    · rw [σ.after_attWrite w h,hsame]
      rw [written,accepts,if_neg]
      rintro ⟨rfl,haccepts⟩
      simp [hccc] at haccepts
    · rw [σ.after_attWrite w h]
      by_cases hhandle : w.attHandle = handle
      · subst hhandle
        have haccepts : σ.accepts w.attHandle = true := by simp [accepts,hccc,hch,hwritable]
        rw [AList.lookup_insert,hch,written,if_pos ⟨rfl,haccepts⟩,hpatch]
        rfl
      · rw [AList.lookup_insert_ne (Ne.symm hhandle),hsame]
        rw [written,if_neg (fun hboth => hhandle hboth.1)]

@[simp] theorem accepts_after (handle : UInt16) (c : Callback) :
    (σ.after c).accepts handle = σ.accepts handle := by
  rw [accepts,accepts,cccToValueHandle_after,lookup_after]
  cases σ.characteristicsByValueHandle.lookup handle with
  | none => rfl
  | some ch => rfl

@[simp] theorem written_after (handle : UInt16) (c : Callback) :
    (σ.after c).written handle = σ.written handle := by
  funext c'
  cases c' with
  | attWrite w => rw [written,written,accepts_after]
  | attRead r => rfl
  | packet p => rfl

@[simp] theorem flagSet_after (handle : UInt16) (c : Callback) :
    (σ.after c).flagSet handle = σ.flagSet handle := by
  funext c'
  cases c' with
  | attWrite w => rw [flagSet,flagSet,cccToValueHandle_after]
  | attRead r => rfl
  | packet p => rfl

/-- The step lemma for flags. -/
theorem flag_after {handle : UInt16} {enabled : Bool}
    (hflag : σ.notificationEnabled.lookup handle = some enabled) (c : Callback) :
    (σ.after c).notificationEnabled.lookup handle =
      some ((σ.flagSet handle c).getD enabled) := by
  cases c with
  | attRead r => exact hflag
  | attWrite w =>
    rcases attWriteCallback_cases σ w with
      ⟨h,hnot⟩ | ⟨valueHandle,bit,hccc,hbit,h⟩ | ⟨ch,p,hccc,-,-,-,h⟩
    · have hset : σ.flagSet handle (.attWrite w) = none := by
        rw [flagSet]
        split
        · rename_i hccc
          rcases hnot with ⟨-,hbit⟩ | ⟨hnone,-⟩
          · exact hbit
          · rw [hnone] at hccc
            cases hccc
        · rfl
      rw [σ.after_attWrite w h,hset,hflag,Option.getD_none]
    · rw [σ.after_attWrite w h,flagSet,hccc]
      by_cases hhandle : valueHandle = handle
      · rw [hhandle,AList.lookup_insert,if_pos rfl,hbit,Option.getD_some]
      · rw [AList.lookup_insert_ne (Ne.symm hhandle),hflag,if_neg (by simpa using hhandle),
          Option.getD_none]
    · rw [σ.after_attWrite w h,flagSet,hccc,hflag]
      simp
  | packet p =>
    obtain ⟨connectedHandle,h⟩ := packetHandler_cases σ p
    rw [flagSet]
    split at h
    · rename_i hdisconnects
      rw [σ.after_packet p h,if_pos hdisconnects,Table.lookup_mapValues,hflag]
      rfl
    · rename_i hdisconnects
      rw [σ.after_packet p h,if_neg hdisconnects,hflag,Option.getD_none]

/-- The run lemma for values. -/
theorem lookup_afterAll (handle : UInt16) (cs : List Callback) :
    (σ.afterAll cs).characteristicsByValueHandle.lookup handle =
      (σ.characteristicsByValueHandle.lookup handle).map (fun ch => { ch with
        value := Patch.applyAll 0 ch.value (cs.filterMap (σ.written handle)) }) ∧
      (σ.afterAll cs).written handle = σ.written handle := by
  induction cs using List.reverseRecOn with
  | nil => simp
  | append_singleton cs c ih =>
    rw [afterAll_concat,written_after,lookup_after,ih.1,ih.2]
    refine ⟨?_,rfl⟩
    rw [Option.map_map,List.filterMap_append,List.filterMap_cons,List.filterMap_nil]
    congr 1
    funext ch
    cases σ.written handle c with
    | none => simp
    | some p => simp [Patch.applyAll]

/-- The run lemma for flags: the last event about a flag decides. -/
theorem flag_afterAll {handle : UInt16} {enabled : Bool}
    (hflag : σ.notificationEnabled.lookup handle = some enabled) (cs : List Callback) :
    (σ.afterAll cs).notificationEnabled.lookup handle =
      some ((latest (σ.flagSet handle) cs).getD enabled) ∧
      (σ.afterAll cs).flagSet handle = σ.flagSet handle := by
  induction cs using List.reverseRecOn with
  | nil => simp [hflag]
  | append_singleton cs c ih =>
    rw [afterAll_concat,flagSet_after,flag_after _ ih.1,ih.2,latest_concat]
    refine ⟨?_,rfl⟩
    cases σ.flagSet handle c <;> rfl

@[simp] theorem cccToValueHandle_afterAll (cs : List Callback) :
    (σ.afterAll cs).cccToValueHandle = σ.cccToValueHandle := by
  induction cs using List.reverseRecOn with
  | nil => rfl
  | append_singleton cs c ih => rw [afterAll_concat,cccToValueHandle_after,ih]

def Flagged : Prop :=
  ∀ cccHandle handle, σ.cccToValueHandle.lookup cccHandle = some handle →
    handle ∈ σ.notificationEnabled

variable {σ}

theorem Flagged.mem_after (hσ : σ.Flagged) (c : Callback) (handle : UInt16) :
    handle ∈ (σ.after c).notificationEnabled ↔ handle ∈ σ.notificationEnabled := by
  cases c with
  | attRead r => rfl
  | attWrite w =>
    rcases attWriteCallback_cases σ w with ⟨h,-⟩ | ⟨valueHandle,bit,hccc,-,h⟩ | ⟨_,_,-,-,-,-,h⟩
    · rw [σ.after_attWrite w h]
    · rw [σ.after_attWrite w h,AList.mem_insert]
      constructor
      · rintro (rfl | hmem)
        · exact hσ _ _ hccc
        · exact hmem
      · exact .inr
    · rw [σ.after_attWrite w h]
  | packet p =>
    obtain ⟨connectedHandle,h⟩ := packetHandler_cases σ p
    split at h
    · rw [σ.after_packet p h,← AList.lookup_isSome,← AList.lookup_isSome,
        Table.lookup_mapValues,Option.isSome_map]
    · rw [σ.after_packet p h]

theorem Flagged.after (hσ : σ.Flagged) (c : Callback) : (σ.after c).Flagged := by
  intro cccHandle handle hccc
  rw [cccToValueHandle_after] at hccc
  exact (hσ.mem_after c handle).mpr (hσ cccHandle handle hccc)

theorem Flagged.mem_afterAll (hσ : σ.Flagged) (cs : List Callback) :
    (σ.afterAll cs).Flagged ∧ ∀ handle, handle ∈ (σ.afterAll cs).notificationEnabled ↔
      handle ∈ σ.notificationEnabled := by
  induction cs using List.reverseRecOn with
  | nil => exact ⟨hσ,fun handle => Iff.rfl⟩
  | append_singleton cs c ih =>
    rw [afterAll_concat]
    exact ⟨ih.1.after c,fun handle => (ih.1.mem_after c handle).trans (ih.2 handle)⟩

end RuntimeState

section

variable {database : Bytes → AttDatabase} {order : IterationOrder UInt16 RuntimeCharacteristic}
  {spec : GattPeripheralSpec} {σ : RuntimeState}

theorem setup_flagged (h : setup database order spec = .ok σ) : σ.Flagged := by
  intro cccHandle handle hccc
  exact (setup_mem_notificationEnabled h handle).mpr ⟨cccHandle,setup_hasCcc h hccc⟩

theorem setup_advertisingEnabled (h : setup database order spec = .ok σ) :
    σ.advertisingEnabled = false := by
  obtain ⟨characteristics,-,rfl⟩ := setup_ok h
  rfl

end

/-- A server: what it was built from, and what has happened to it since. `enabled` is what the last
call of `start_advertising` or `stop` has asked for. -/
structure Session (database : Bytes → AttDatabase)
    (order : IterationOrder UInt16 RuntimeCharacteristic) where
  number : Nat
  spec : GattPeripheralSpec
  initial : RuntimeState
  built : setup database order spec = .ok initial
  calls : List Callback := []
  enabled : Bool := false

namespace Session

variable {database : Bytes → AttDatabase} {order : IterationOrder UInt16 RuntimeCharacteristic}
  (session : Session database order)

/-- The contents of `RUNTIME`. -/
def state : RuntimeState :=
  { session.initial.afterAll session.calls with advertisingEnabled := session.enabled }

/-- What is stored under a handle comes from what was stored at the construction. -/
theorem exists_initial {handle : UInt16} {ch : RuntimeCharacteristic}
    (hch : session.state.characteristicsByValueHandle.lookup handle = some ch) :
    ∃ ch₀, session.initial.characteristicsByValueHandle.lookup handle = some ch₀ ∧
      ch = { ch₀ with
        value := Patch.applyAll 0 ch₀.value
          (session.calls.filterMap (session.initial.written handle)) } := by
  rw [state,(session.initial.lookup_afterAll handle session.calls).1] at hch
  obtain ⟨ch₀,hch₀,rfl⟩ := Option.map_eq_some_iff.mp hch
  exact ⟨ch₀,hch₀,rfl⟩

@[simp] theorem state_cccToValueHandle :
    session.state.cccToValueHandle = session.initial.cccToValueHandle :=
  session.initial.cccToValueHandle_afterAll session.calls

theorem state_flagged : session.state.Flagged :=
  ((setup_flagged session.built).mem_afterAll session.calls).1

theorem state_accepts (handle : UInt16) :
    session.state.accepts handle = session.initial.accepts handle := by
  rw [RuntimeState.accepts,RuntimeState.accepts,state_cccToValueHandle,state,
    (session.initial.lookup_afterAll handle session.calls).1]
  cases session.initial.characteristicsByValueHandle.lookup handle <;> rfl

end Session

end BtstackRs.Gatt.Peripheral
