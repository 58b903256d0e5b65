import BtstackRs.Transport.System

/-!
# USB identities

The identity of the opened device leaves the transport in an event and may come back in a
configuration. What a receiver makes of the event is stated here; the parser of port chains, the
encoder, `transport_init` and the selection are those of the transport.
-/

namespace BtstackRs.Transport

def littleEndian16 (event : Bytes) (i : Nat) : UInt16 :=
  (event.getD i 0).toUInt16 ||| ((event.getD (i+1) 0).toUInt16 <<< 8)

/-- Both length bytes say how much there is. -/
structure WellFormedUsbInfo (event : Bytes) : Prop where
  code : event.getD 0 0 = hciEventTransportUsbInfo
  size : event.length = 2+(event.getD 1 0).toNat
  pathLength : event.length = 8+(event.getD 7 0).toNat

structure UsbIdentity where
  vendorId : UInt16
  productId : UInt16
  busNumber : UInt8
  path : Bytes
  path_length : path.length ≤ usbMaxPathLen

def decodeUsbInfo (event : Bytes) : Option UsbIdentity :=
  let path := (event.drop 8).take (event.getD 7 0).toNat
  if h : path.length ≤ usbMaxPathLen then
    some ⟨littleEndian16 event 2,littleEndian16 event 4,event.getD 6 0,path,h⟩
  else none

/-- The configuration that asks for this device. -/
def UsbIdentity.config (identity : UsbIdentity) : TransportConfig where
  vendorId := identity.vendorId
  productId := identity.productId
  busNumber := identity.busNumber
  pathLen := UInt8.ofNat identity.path.length
  path := identity.path.rightpad usbMaxPathLen 0
  path_length := by simp [List.rightpad,identity.path_length]

theorem leBytes_or (n : UInt16) :
    (n &&& 0xFF).toUInt8.toUInt16 ||| ((n >>> 8).toUInt8.toUInt16 <<< 8) = n := by
  have hn : n.toNat < 65536 := n.toNat_lt
  have hmask : n.toNat % 256 &&& 255 = n.toNat % 256 := by
    simpa using Nat.and_two_pow_sub_one_eq_mod (n.toNat % 256) 8
  have hlow : (n &&& 0xFF).toUInt8.toUInt16.toNat = n.toNat % 256 := by
    simp [hmask]
  have hhigh : ((n >>> 8).toUInt8.toUInt16 <<< 8).toNat = (n.toNat / 256) <<< 8 := by
    simp [Nat.shiftRight_eq_div_pow,Nat.shiftLeft_eq]
    omega
  rw [← UInt16.toNat_inj,UInt16.toNat_or,hlow,hhigh,Nat.or_comm,
    ← Nat.shiftLeft_add_eq_or_of_lt (Nat.mod_lt _ (by decide)),Nat.shiftLeft_eq]
  omega

theorem usbPath_length {device : DeviceInfo} {path : Bytes} (h : usbPath device = some path) :
    path ≠ [] ∧ path.length ≤ usbMaxPathLen := by
  rw [usbPath,Option.bind_eq_bind,Option.bind_eq_some_iff] at h
  obtain ⟨name,-,h⟩ := h
  rw [parseUsbPath,Option.bind_eq_bind,Option.bind_eq_some_iff] at h
  obtain ⟨⟨bus,chain⟩,-,h⟩ := h
  rw [Option.bind_eq_bind,Option.bind_eq_some_iff] at h
  obtain ⟨ports,-,h⟩ := h
  split at h
  · cases h
  · rename_i hports
    cases h
    simpa using hports

variable {device : DeviceInfo} {path : Bytes}

theorem usbInfoEvent_wellFormed (h : path.length ≤ usbMaxPathLen) :
    WellFormedUsbInfo (usbInfoEvent device path) := by
  have hlength : (usbInfoEvent device path).length = 8+path.length := by
    simp [usbInfoEvent,leBytes]
    omega
  rw [usbMaxPathLen] at h
  refine ⟨rfl,?_,?_⟩
  · have hsize : (usbInfoEvent device path).getD 1 0 = UInt8.ofNat (6+path.length) := rfl
    rw [hlength,hsize,UInt8.toNat_ofNat']
    omega
  · have hcount : (usbInfoEvent device path).getD 7 0 = UInt8.ofNat path.length := rfl
    rw [hlength,hcount,UInt8.toNat_ofNat']
    omega

theorem decodeUsbInfo_usbInfoEvent (h : path.length ≤ usbMaxPathLen) :
    decodeUsbInfo (usbInfoEvent device path) =
      some ⟨device.vendorId,device.productId,device.busNumber,path,h⟩ := by
  have hcount : ((usbInfoEvent device path).getD 7 0).toNat = path.length := by
    have hcast : (usbInfoEvent device path).getD 7 0 = UInt8.ofNat path.length := rfl
    rw [hcast,UInt8.toNat_ofNat']
    rw [usbMaxPathLen] at h
    omega
  have hpath : ((usbInfoEvent device path).drop 8).take
      ((usbInfoEvent device path).getD 7 0).toNat = path := by
    rw [hcount]
    exact List.take_length
  have hvendor : littleEndian16 (usbInfoEvent device path) 2 = device.vendorId :=
    leBytes_or device.vendorId
  have hproduct : littleEndian16 (usbInfoEvent device path) 4 = device.productId :=
    leBytes_or device.productId
  simp only [decodeUsbInfo,hpath,hvendor,hproduct,dif_pos h]
  rfl

theorem isCandidateDevice_iff {selection : UsbSelection} (hpath : selection.path = some path) :
    isCandidateDevice device selection = true ↔
      (∀ vendorId, selection.vendorId = some vendorId → device.vendorId = vendorId) ∧
      (∀ productId, selection.productId = some productId → device.productId = productId) ∧
      (∀ busNumber, selection.busNumber = some busNumber → device.busNumber = busNumber) ∧
      usbPath device = some path := by
  have hset : selection ≠ {} := by
    rintro rfl
    cases hpath
  rw [isCandidateDevice_eq_true_iff]
  simp [hpath,hset]

theorem eq_of_ite_some {x v : UInt16} (h : (if x ≠ 0 then some x else none) = some v) : x = v := by
  split at h
  · exact Option.some.inj h
  · cases h

theorem selectionOf_config (identity : UsbIdentity) (hbus : identity.busNumber ≠ 0)
    (hpath : identity.path ≠ []) :
    (∀ v, (selectionOf (some identity.config)).vendorId = some v → identity.vendorId = v) ∧
      (∀ v, (selectionOf (some identity.config)).productId = some v → identity.productId = v) ∧
      (selectionOf (some identity.config)).busNumber = some identity.busNumber ∧
      (selectionOf (some identity.config)).path = some identity.path := by
  have hcount : (UInt8.ofNat identity.path.length).toNat = identity.path.length := by
    have hlength := identity.path_length
    rw [usbMaxPathLen] at hlength
    rw [UInt8.toNat_ofNat']
    omega
  have hpos : UInt8.ofNat identity.path.length > 0 := by
    rw [gt_iff_lt,UInt8.lt_iff_toNat_lt,hcount]
    exact List.length_pos_iff.mpr hpath
  have htake : (identity.path.rightpad usbMaxPathLen 0).take identity.path.length =
      identity.path := by
    rw [List.rightpad,List.take_left]
  have hfits : identity.path.length ≤ (identity.path.rightpad usbMaxPathLen 0).length := by
    simp [List.rightpad]
  refine ⟨fun _ h => eq_of_ite_some h,fun _ h => eq_of_ite_some h,if_pos hbus,?_⟩
  simp only [selectionOf,UsbIdentity.config,hcount,htake,hfits,hpos,and_self,if_true]

/-- Bus number and port path together identify a device. -/
def PathsIdentify (devices : List DeviceInfo) : Prop :=
  ∀ d ∈ devices, ∀ d' ∈ devices, ∀ path, d.busNumber = d'.busNumber →
    usbPath d = some path → usbPath d' = some path → d = d'

theorem selectDevice_of_identity {devices : List DeviceInfo} (hidentify : PathsIdentify devices)
    (hdevice : device ∈ devices) (hbus : device.busNumber ≠ 0) (hpath : usbPath device = some path)
    (hlength : path.length ≤ usbMaxPathLen) :
    selectDevice (some devices) (selectionOf (some (UsbIdentity.config
      ⟨device.vendorId,device.productId,device.busNumber,path,hlength⟩))) = some device := by
  obtain ⟨hvendor,hproduct,hbus',hpath'⟩ := selectionOf_config
    ⟨device.vendorId,device.productId,device.busNumber,path,hlength⟩ hbus (usbPath_length hpath).1
  change devices.find? _ = some device
  cases hfound : devices.find? _ with
  | none =>
    refine absurd ((isCandidateDevice_iff hpath').mpr ⟨hvendor,hproduct,?_,hpath⟩)
      (List.find?_eq_none.mp hfound device hdevice)
    rw [hbus']
    exact fun _ h => Option.some.inj h
  | some d' =>
    have hmeets := List.find?_some hfound
    have hcandidate := (isCandidateDevice_iff hpath').mp hmeets
    rw [hidentify d' (List.mem_of_find?_eq_some hfound) device hdevice path
      (hcandidate.2.2.1 _ hbus') hcandidate.2.2.2 hpath]

/-- A reported identity is well formed, read without loss, and selects the same device again. -/
theorem reportedIdentity_selects {devices : List DeviceInfo} (hidentify : PathsIdentify devices)
    (hdevice : device ∈ devices) (hbus : device.busNumber ≠ 0)
    (hpath : usbPath device = some path) :
    WellFormedUsbInfo (usbInfoEvent device path) ∧
      ∃ identity, decodeUsbInfo (usbInfoEvent device path) = some identity ∧
        identity.vendorId = device.vendorId ∧ identity.productId = device.productId ∧
        identity.busNumber = device.busNumber ∧ identity.path = path ∧
        ∀ σ : System, selectDevice (some devices)
          (σ.criticalSection (.init (some identity.config))).1.selected = some device := by
  have hlength := (usbPath_length hpath).2
  refine ⟨usbInfoEvent_wellFormed hlength,_,decodeUsbInfo_usbInfoEvent hlength,rfl,rfl,rfl,rfl,?_⟩
  intro σ
  exact selectDevice_of_identity hidentify hdevice hbus hpath hlength

def twinAdapters : List DeviceInfo :=
  [⟨0x0a12,0x0001,2,some "2-1.4".toList,[]⟩,⟨0x0a12,0x0001,2,some "2-1.3".toList,[]⟩]

theorem reportedIdentity_selects_twin :
    ∃ identity, decodeUsbInfo (usbInfoEvent ⟨0x0a12,0x0001,2,some "2-1.3".toList,[]⟩ [1,3]) =
        some identity ∧
      ∀ σ : System, selectDevice (some twinAdapters)
        (σ.criticalSection (.init (some identity.config))).1.selected =
          some ⟨0x0a12,0x0001,2,some "2-1.3".toList,[]⟩ := by
  have hidentify : PathsIdentify twinAdapters := by
    intro d hd d' hd' path _ hpath hpath'
    rw [← hpath] at hpath'
    have hdistinct : ∀ d ∈ twinAdapters, ∀ d' ∈ twinAdapters, usbPath d' = usbPath d → d = d' := by
      decide
    exact hdistinct d hd d' hd' hpath'
  have hpath : usbPath ⟨0x0a12,0x0001,2,some "2-1.3".toList,[]⟩ = some [1,3] := by decide
  obtain ⟨-,identity,hdecode,-,-,-,-,hselect⟩ :=
    reportedIdentity_selects hidentify (by decide) (by decide) hpath
  exact ⟨identity,hdecode,hselect⟩

end BtstackRs.Transport
