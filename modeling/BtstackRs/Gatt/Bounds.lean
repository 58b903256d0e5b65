import BtstackRs.Gatt.Counter
import BtstackRs.Gatt.Peripheral.Callbacks
import BtstackRs.Sequence.Numeral

/-!
# Reads within the passed size

The callbacks of both services on packets and buffers that have exactly as many bytes as the size
that is passed with them, where a read beyond them fails. A buffer of a single byte is enough for
the peripheral server, which checks the size, and not for the counter, which only checks that
there is a byte.
-/

namespace BtstackRs.Gatt

open Transport Sequence Peripheral

/-- The arguments of `att_write_callback`; `none` is the null pointer. -/
structure SizedWrite where
  connectionHandle : UInt16
  attHandle : UInt16
  transactionMode : UInt16
  offset : UInt16
  bufferSize : UInt16
  buffer : Option (Vector UInt8 bufferSize.toNat)

/-- The arguments of `packet_handler`. -/
structure SizedPacket where
  packetType : UInt8
  channel : UInt16
  size : UInt16
  packet : Option (Vector UInt8 size.toNat)

def inMemory {n : Nat} (bytes : Vector UInt8 n) (beyond : Memory) : Memory :=
  fun i => bytes[i]?.getD (beyond i)

def SizedWrite.attWrite (w : SizedWrite) (beyond : Memory) : AttWrite :=
  ⟨w.connectionHandle,w.attHandle,w.transactionMode,w.offset,
    w.buffer.map (fun buffer => inMemory buffer beyond),w.bufferSize⟩

def SizedPacket.inPacket (p : SizedPacket) (beyond : Memory) : Packet :=
  ⟨p.packetType,p.channel,p.packet.map (fun packet => inMemory packet beyond),p.size⟩

def littleEndian16Checked {n : Nat} (bytes : Vector UInt8 n) (i : Nat) : Option UInt16 := do
  let low ← bytes[i]?
  let high ← bytes[i+1]?
  return low.toUInt16 ||| (high.toUInt16 <<< 8)

def bytesChecked {n : Nat} (bytes : Vector UInt8 n) (size : Nat) : Option Bytes :=
  (List.range size).mapM (fun i => bytes[i]?)

namespace Peripheral

def attWriteCallbackChecked (runtime : Option RuntimeState) (w : SizedWrite) :
    Option (Option RuntimeState × Int) :=
  match w.buffer with
  | none => some (runtime,0)
  | some buffer =>
    match runtime with
    | none => some (runtime,0)
    | some state =>
      match state.cccToValueHandle.lookup w.attHandle with
      | some valueHandle =>
        if w.bufferSize ≥ 2 then
          (littleEndian16Checked buffer 0).map (fun config =>
            (some { state with
              notificationEnabled :=
                state.notificationEnabled.insert valueHandle (notificationBit config) },0))
        else some (runtime,0)
      | none =>
        match state.characteristicsByValueHandle.lookup w.attHandle with
        | none => some (runtime,0)
        | some ch =>
          if !ch.spec.properties.contains .WRITE &&
              !ch.spec.properties.contains .WRITE_WITHOUT_RESPONSE then some (runtime,0)
          else
            let offset := w.offset.toNat
            let size := w.bufferSize.toNat
            let required := offset+size
            let value :=
              if ch.value.length < required then Patch.extend 0 ch.value required else ch.value
            (bytesChecked buffer size).map (fun data =>
              let ch := { ch with value := Patch.overwrite value offset data }
              (some { state with
                characteristicsByValueHandle :=
                  state.characteristicsByValueHandle.insert w.attHandle ch },0))

def packetHandlerChecked (runtime : Option RuntimeState) (p : SizedPacket) :
    Option (Option RuntimeState) :=
  match p.packet with
  | none => some runtime
  | some packet =>
    if p.packetType ≠ hciEventPacket then some runtime
    else
      match runtime with
      | none => some runtime
      | some state =>
        match packet[0]? with
        | none => none
        | some event =>
          if event = attEventConnected then
            (littleEndian16Checked packet 2).map (fun connectionHandle =>
              some { state with connectedHandle := some connectionHandle })
          else if event = attEventDisconnected then
            some (some { state with
              connectedHandle := none
              notificationEnabled := state.notificationEnabled.mapValues (fun _ => false) })
          else some runtime

end Peripheral

namespace Counter

def packetHandlerChecked (g : Globals) (p : SizedPacket) : Option (Globals × Option Notification) :=
  match p.packet with
  | none => some (g,none)
  | some packet =>
    if p.packetType ≠ hciEventPacket then some (g,none)
    else
      match packet[0]? with
      | none => none
      | some event =>
        if event = hciEventDisconnectionComplete then
          some ({ g with notificationEnabled := false },none)
        else if event = attEventCanSendNow then
          some (g,some ⟨g.connectionHandle,attCounterValueHandle,
            g.counterBuffer.take g.counterLen.toNat⟩)
        else some (g,none)

def attWriteCallbackChecked (g : Globals) (w : SizedWrite) : Option (Globals × Int) :=
  match w.buffer with
  | none => some (g,0)
  | some buffer =>
    if w.bufferSize = 0 then some (g,0)
    else if w.attHandle = attCounterClientConfigurationHandle then
      (littleEndian16Checked buffer 0).map (fun config => ({ g with
        notificationEnabled := config == gattClientCharacteristicsConfigurationNotification
        connectionHandle := w.connectionHandle },0))
    else some (g,0)

end Counter

section

variable {n : Nat} (bytes : Vector UInt8 n) (beyond : Memory)

theorem inMemory_of_lt {i : Nat} (h : i < n) : bytes[i]? = some (inMemory bytes beyond i) := by
  simp [inMemory,h]

theorem littleEndian16Checked_of_lt {i : Nat} (h : i+1 < n) :
    littleEndian16Checked bytes i = some ((inMemory bytes beyond).littleEndian16 i) := by
  rw [littleEndian16Checked,inMemory_of_lt bytes beyond (by omega : i < n),
    inMemory_of_lt bytes beyond h]
  rfl

theorem littleEndian16Checked_isSome_iff (i : Nat) :
    (littleEndian16Checked bytes i).isSome ↔ i+1 < n := by
  constructor
  · intro h
    rw [littleEndian16Checked,Option.isSome_iff_exists] at h
    obtain ⟨value,h⟩ := h
    obtain ⟨low,-,h⟩ := Option.bind_eq_some_iff.mp h
    obtain ⟨high,hhigh,-⟩ := Option.bind_eq_some_iff.mp h
    by_contra hshort
    rw [Vector.getElem?_eq_none (Nat.not_lt.mp hshort)] at hhigh
    cases hhigh
  · intro h
    rw [littleEndian16Checked_of_lt bytes (fun _ => 0) h]
    rfl

theorem littleEndian16_of_checked {i : Nat} {value : UInt16}
    (h : littleEndian16Checked bytes i = some value) :
    (inMemory bytes beyond).littleEndian16 i = value := by
  have hlong : i+1 < n := (littleEndian16Checked_isSome_iff bytes i).mp (by rw [h]; rfl)
  rwa [littleEndian16Checked_of_lt bytes beyond hlong,Option.some.injEq] at h

theorem bytesChecked_eq : bytesChecked bytes n = some ((inMemory bytes beyond).bytes n) := by
  rw [bytesChecked,mapM_eq_some_iff,Memory.bytes,List.forall₂_map_right_iff,List.forall₂_same]
  intro i hi
  exact inMemory_of_lt bytes beyond (List.mem_range.mp hi)

end

structure Services where
  runtime : Option RuntimeState
  globals : Counter.Globals

inductive SizedCall where
  | peripheralWrite (w : SizedWrite)
  | peripheralPacket (p : SizedPacket)
  | counterWrite (w : SizedWrite)
  | counterPacket (p : SizedPacket)

/-- A call with reads that fail beyond the passed size. -/
def Services.callChecked (s : Services) : SizedCall → Option Services
  | .peripheralWrite w =>
      (attWriteCallbackChecked s.runtime w).map (fun called => { s with runtime := called.1 })
  | .peripheralPacket p =>
      (packetHandlerChecked s.runtime p).map (fun runtime => { s with runtime := runtime })
  | .counterWrite w =>
      (Counter.attWriteCallbackChecked s.globals w).map
        (fun called => { s with globals := called.1 })
  | .counterPacket p =>
      (Counter.packetHandlerChecked s.globals p).map (fun called => { s with globals := called.1 })

def Services.call (s : Services) (beyond : Memory) : SizedCall → Services
  | .peripheralWrite w =>
      { s with runtime := (attWriteCallback s.runtime (w.attWrite beyond)).1 }
  | .peripheralPacket p => { s with runtime := packetHandler s.runtime (p.inPacket beyond) }
  | .counterWrite w =>
      { s with globals := (Counter.attWriteCallback s.globals (w.attWrite beyond)).1 }
  | .counterPacket p =>
      { s with globals := (Counter.packetHandler s.globals (p.inPacket beyond)).1 }

/-- The call passes all bytes that its callback reads: with a server, an event code and, for
`ATT_EVENT_CONNECTED`, four bytes; in the counter, an event code, and two bytes for the client
configuration, if any. -/
def SizedCall.Fits (serving : Bool) : SizedCall → Prop
  | .peripheralWrite _ => True
  | .peripheralPacket p => serving = true → p.packetType = hciEventPacket →
      ∀ packet, p.packet = some packet →
        0 < p.size.toNat ∧ (packet[0]? = some attEventConnected → 4 ≤ p.size.toNat)
  | .counterWrite w => w.attHandle = Counter.attCounterClientConfigurationHandle →
      w.buffer.isSome → w.bufferSize ≠ 1
  | .counterPacket p => p.packetType = hciEventPacket → p.packet.isSome → 0 < p.size.toNat

namespace Peripheral

theorem attWriteCallbackChecked_eq (runtime : Option RuntimeState) (w : SizedWrite)
    (beyond : Memory) : attWriteCallbackChecked runtime w =
      some (attWriteCallback runtime (w.attWrite beyond)) := by
  rw [attWriteCallbackChecked,attWriteCallback,SizedWrite.attWrite]
  cases w.buffer with
  | none => rfl
  | some buffer =>
    cases runtime with
    | none => rfl
    | some state =>
      simp only [Option.map_some]
      cases state.cccToValueHandle.lookup w.attHandle with
      | some valueHandle =>
        by_cases hsize : w.bufferSize ≥ 2
        · have htwo : 0+1 < w.bufferSize.toNat := UInt16.le_iff_toNat_le.mp hsize
          simp only [if_pos hsize,littleEndian16Checked_of_lt buffer beyond htwo,Option.map_some]
        · simp only [if_neg hsize]
      | none =>
        cases state.characteristicsByValueHandle.lookup w.attHandle with
        | none => rfl
        | some ch =>
          simp only [bytesChecked_eq buffer beyond,Option.map_some]
          split
          · rfl
          · rfl

theorem packetHandlerChecked_isSome_iff (runtime : Option RuntimeState) (p : SizedPacket) :
    (packetHandlerChecked runtime p).isSome ↔
      (SizedCall.peripheralPacket p).Fits runtime.isSome := by
  rw [packetHandlerChecked,SizedCall.Fits]
  cases p.packet with
  | none => simp
  | some packet =>
    by_cases htype : p.packetType = hciEventPacket
    · cases runtime with
      | none => simp [htype]
      | some state =>
        simp only [htype,ne_eq,not_true_eq_false,if_false,Option.isSome_some,forall_const,
          Option.some.injEq,forall_eq']
        cases hevent : packet[0]? with
        | none =>
          have hempty : p.size.toNat = 0 := by simpa using hevent
          simp [hempty]
        | some event =>
          have hpos : 0 < p.size.toNat := (Vector.getElem?_eq_some_iff.mp hevent).1
          by_cases hconnected : event = attEventConnected
          · simp [hconnected,hpos,littleEndian16Checked_isSome_iff,Nat.succ_le_iff]
          · simp only [hconnected,if_false]
            split
            · simp [hpos,hconnected]
            · simp [hpos,hconnected]
    · simp [htype]

theorem packetHandlerChecked_eq {runtime runtime' : Option RuntimeState} {p : SizedPacket}
    (h : packetHandlerChecked runtime p = some runtime') (beyond : Memory) :
    packetHandler runtime (p.inPacket beyond) = runtime' := by
  rw [packetHandlerChecked] at h
  rw [packetHandler,SizedPacket.inPacket]
  cases hpacket : p.packet with
  | none =>
    rw [hpacket] at h
    exact Option.some.inj h
  | some packet =>
    rw [hpacket] at h
    by_cases htype : p.packetType = hciEventPacket
    · cases runtime with
      | none =>
        simp only [htype,ne_eq,not_true_eq_false,if_false] at h
        simp only [htype,Option.map_some,ne_eq,not_true_eq_false,if_false]
        exact Option.some.inj h
      | some state =>
        simp only [htype,ne_eq,not_true_eq_false,if_false] at h
        simp only [htype,Option.map_some,ne_eq,not_true_eq_false,if_false]
        cases hevent : packet[0]? with
        | none =>
          rw [hevent] at h
          cases h
        | some event =>
          rw [hevent] at h
          have hmemory : inMemory packet beyond 0 = event := by
            rw [inMemory,hevent,Option.getD_some]
          simp only [hmemory]
          by_cases hconnected : event = attEventConnected
          · simp only [if_pos hconnected] at h ⊢
            obtain ⟨handle,hhandle,rfl⟩ := Option.map_eq_some_iff.mp h
            rw [littleEndian16_of_checked packet beyond hhandle]
          · simp only [if_neg hconnected] at h ⊢
            split at h
            · rename_i hdisconnected
              rw [if_pos hdisconnected]
              exact Option.some.inj h
            · rename_i hdisconnected
              rw [if_neg hdisconnected]
              exact Option.some.inj h
    · simp only [htype,ne_eq,not_false_eq_true,if_true] at h
      simp only [htype,Option.map_some,ne_eq,not_false_eq_true,if_true]
      exact Option.some.inj h

end Peripheral

namespace Counter

theorem attWriteCallbackChecked_isSome_iff (g : Globals) (w : SizedWrite) :
    (attWriteCallbackChecked g w).isSome ↔ (SizedCall.counterWrite w).Fits true := by
  rw [attWriteCallbackChecked,SizedCall.Fits]
  cases w.buffer with
  | none => simp
  | some buffer =>
    by_cases hsize : w.bufferSize = 0
    · simp [hsize]
    · by_cases hhandle : w.attHandle = attCounterClientConfigurationHandle
      · have hne : w.bufferSize.toNat ≠ 0 := fun h => hsize (UInt16.toNat_inj.mp h)
        have hone : w.bufferSize ≠ 1 ↔ w.bufferSize.toNat ≠ 1 := by
          rw [ne_eq,ne_eq,← UInt16.toNat_inj]
          rfl
        simp only [hsize,hhandle,if_false,if_true,Option.isSome_map,Option.isSome_some,
          littleEndian16Checked_isSome_iff,hone,forall_const]
        omega
      · simp [hsize,hhandle]

theorem attWriteCallbackChecked_eq {g : Globals} {w : SizedWrite} {called : Globals × Int}
    (h : attWriteCallbackChecked g w = some called) (beyond : Memory) :
    attWriteCallback g (w.attWrite beyond) = called := by
  rw [attWriteCallbackChecked] at h
  rw [attWriteCallback,SizedWrite.attWrite]
  cases hbuffer : w.buffer with
  | none =>
    rw [hbuffer] at h
    exact Option.some.inj h
  | some buffer =>
    simp only [hbuffer] at h
    simp only [Option.map_some]
    split at h
    · rename_i hsize
      rw [if_pos hsize]
      exact Option.some.inj h
    · rename_i hsize
      rw [if_neg hsize]
      split at h
      · rename_i hhandle
        rw [if_pos hhandle]
        obtain ⟨config,hconfig,rfl⟩ := Option.map_eq_some_iff.mp h
        rw [littleEndian16_of_checked buffer beyond hconfig]
      · rename_i hhandle
        rw [if_neg hhandle]
        exact Option.some.inj h

theorem packetHandlerChecked_isSome_iff (g : Globals) (p : SizedPacket) :
    (packetHandlerChecked g p).isSome ↔ (SizedCall.counterPacket p).Fits true := by
  rw [packetHandlerChecked,SizedCall.Fits]
  cases p.packet with
  | none => simp
  | some packet =>
    by_cases htype : p.packetType = hciEventPacket
    · simp only [htype,ne_eq,not_true_eq_false,if_false,Option.isSome_some,forall_const]
      cases hevent : packet[0]? with
      | none =>
        have hempty : p.size.toNat = 0 := by simpa using hevent
        simp [hempty]
      | some event =>
        have hpos : 0 < p.size.toNat := (Vector.getElem?_eq_some_iff.mp hevent).1
        simp only [hpos,iff_true]
        split
        · rfl
        · split
          · rfl
          · rfl
    · simp [htype]

theorem packetHandlerChecked_eq {g : Globals} {p : SizedPacket}
    {called : Globals × Option Notification} (h : packetHandlerChecked g p = some called)
    (beyond : Memory) : packetHandler g (p.inPacket beyond) = called := by
  rw [packetHandlerChecked] at h
  rw [packetHandler,SizedPacket.inPacket]
  cases hpacket : p.packet with
  | none =>
    rw [hpacket] at h
    exact Option.some.inj h
  | some packet =>
    simp only [hpacket] at h
    simp only [Option.map_some]
    split at h
    · rename_i htype
      rw [if_pos htype]
      exact Option.some.inj h
    · rename_i htype
      rw [if_neg htype]
      cases hevent : packet[0]? with
      | none =>
        rw [hevent] at h
        cases h
      | some event =>
        have hmemory : inMemory packet beyond 0 = event := by
          rw [inMemory,hevent,Option.getD_some]
        simp only [hevent] at h
        rw [hmemory]
        split at h
        · rename_i hdisconnection
          rw [if_pos hdisconnection]
          exact Option.some.inj h
        · rename_i hdisconnection
          rw [if_neg hdisconnection]
          split at h
          · rename_i hslot
            rw [if_pos hslot]
            exact Option.some.inj h
          · rename_i hslot
            rw [if_neg hslot]
            exact Option.some.inj h

end Counter

namespace Services

theorem callChecked_isSome_iff (s : Services) (c : SizedCall) :
    (s.callChecked c).isSome ↔ c.Fits s.runtime.isSome := by
  cases c with
  | peripheralWrite w =>
    rw [callChecked,attWriteCallbackChecked_eq s.runtime w (fun _ => 0)]
    simp [SizedCall.Fits]
  | peripheralPacket p =>
    rw [callChecked,Option.isSome_map]
    exact Peripheral.packetHandlerChecked_isSome_iff s.runtime p
  | counterWrite w =>
    rw [callChecked,Option.isSome_map]
    exact Counter.attWriteCallbackChecked_isSome_iff s.globals w
  | counterPacket p =>
    rw [callChecked,Option.isSome_map]
    exact Counter.packetHandlerChecked_isSome_iff s.globals p

/-- A call that does not fail does what it does on memory, whatever lies beyond its bytes. -/
theorem callChecked_eq {s s' : Services} {c : SizedCall} (h : s.callChecked c = some s')
    (beyond : Memory) : s.call beyond c = s' := by
  cases c with
  | peripheralWrite w =>
    rw [callChecked,attWriteCallbackChecked_eq s.runtime w beyond] at h
    exact Option.some.inj h
  | peripheralPacket p =>
    obtain ⟨runtime,hruntime,rfl⟩ := Option.map_eq_some_iff.mp h
    rw [call,Peripheral.packetHandlerChecked_eq hruntime beyond]
  | counterWrite w =>
    obtain ⟨called,hcalled,rfl⟩ := Option.map_eq_some_iff.mp h
    rw [call,Counter.attWriteCallbackChecked_eq hcalled beyond]
  | counterPacket p =>
    obtain ⟨called,hcalled,rfl⟩ := Option.map_eq_some_iff.mp h
    rw [call,Counter.packetHandlerChecked_eq hcalled beyond]

theorem runtime_callChecked {s s' : Services} {c : SizedCall} (h : s.callChecked c = some s') :
    s'.runtime.isSome = s.runtime.isSome := by
  rw [← callChecked_eq h (fun _ => 0)]
  cases c with
  | peripheralWrite w =>
    show (callback s.runtime (.attWrite (w.attWrite (fun _ => 0)))).isSome = _
    cases hruntime : s.runtime with
    | none =>
      rw [callback,attWriteCallback]
      cases (w.attWrite (fun _ => 0)).buffer <;> rfl
    | some σ =>
      rw [callback_some]
      rfl
  | peripheralPacket p =>
    show (callback s.runtime (.packet (p.inPacket (fun _ => 0)))).isSome = _
    cases hruntime : s.runtime with
    | none =>
      rw [callback,packetHandler]
      cases (p.inPacket (fun _ => 0)).packet with
      | none => rfl
      | some packet => simp
    | some σ =>
      rw [callback_some]
      rfl
  | counterWrite w => rfl
  | counterPacket p => rfl

/-- Calls one after the other, until a read fails. -/
def callAllChecked (s : Services) (cs : List SizedCall) : Option Services :=
  cs.foldlM callChecked s

/-- In no call of a run a read goes beyond the passed size, exactly when every call passes all
bytes that its callback reads. -/
theorem callAllChecked_isSome_iff (s : Services) (cs : List SizedCall) :
    (s.callAllChecked cs).isSome ↔ ∀ c ∈ cs, c.Fits s.runtime.isSome := by
  induction cs generalizing s with
  | nil => simp [callAllChecked]
  | cons c cs ih =>
    rw [List.forall_mem_cons,← callChecked_isSome_iff,callAllChecked,List.foldlM_cons]
    cases hc : s.callChecked c with
    | none => simp
    | some s' =>
      rw [← runtime_callChecked hc,← ih s']
      simp [callAllChecked]

end Services

def oneByteConfiguration : SizedCall :=
  .counterWrite ⟨0x40,Counter.attCounterClientConfigurationHandle,0,0,1,some #v[1]⟩

theorem oneByteConfiguration_readsBeyond :
    ¬∀ cs, (Services.callAllChecked
      ⟨none,(Counter.World.init Counter.documentedSnprintf).globals⟩ cs).isSome := by
  intro hall
  have hfails : Services.callAllChecked
      ⟨none,(Counter.World.init Counter.documentedSnprintf).globals⟩ [oneByteConfiguration] =
      none := rfl
  have hsome := hall [oneByteConfiguration]
  rw [hfails] at hsome
  cases hsome

end BtstackRs.Gatt
