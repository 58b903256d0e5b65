import BtstackRs.Transport.Types

/-!
# USB device selection

The part of nusb that is observed here is data: the device list, the descriptors of the
claimed interface, and the sysfs name from which Linux reports the port chain. A `&str` is
its list of characters.
-/

namespace BtstackRs.Transport

structure InterfaceInfo where
  interfaceClass : UInt8
  subclass : UInt8
  protocol : UInt8
  deriving DecidableEq, Repr

/-- nusb's `DeviceInfo`. `sysfsName` is the last component of `sysfs_path` when it is valid
Unicode; on targets without sysfs it is `none`. -/
structure DeviceInfo where
  vendorId : UInt16
  productId : UInt16
  busNumber : UInt8
  sysfsName : Option (List Char)
  interfaces : List InterfaceInfo
  deriving DecidableEq, Repr

inductive EndpointType where
  | control
  | isochronous
  | bulk
  | interrupt
  deriving DecidableEq, Repr

inductive Direction where
  | out
  | into
  deriving DecidableEq, Repr

structure EndpointDescriptor where
  address : UInt8
  transferType : EndpointType
  direction : Direction
  deriving DecidableEq, Repr

structure AltSetting where
  interfaceNumber : UInt8
  alternateSetting : UInt8
  endpoints : List EndpointDescriptor
  deriving DecidableEq, Repr

/-- A claimed interface: its number and the descriptors of the active configuration. -/
structure Interface where
  interfaceNumber : UInt8
  descriptors : List AltSetting
  deriving DecidableEq, Repr

def splitOnce (sep : Char) : List Char → Option (List Char × List Char)
  | [] => none
  | c :: cs =>
      if c = sep then some ([],cs)
      else (splitOnce sep cs).map (fun parts => (c :: parts.1,parts.2))

/-- The digit loop of `u8::from_str`, with its overflow check in every round. -/
def parseDigits : Nat → List Char → Option Nat
  | acc, [] => some acc
  | acc, c :: cs =>
      if c.isDigit then
        let next := acc*10+(c.toNat - '0'.toNat)
        if next ≤ 255 then parseDigits next cs else none
      else none

/-- `str::parse::<u8>().ok()`: an optional plus sign and at least one digit. -/
def parseU8 (s : List Char) : Option UInt8 :=
  let digits := match s with
    | '+' :: ds => ds
    | ds => ds
  if digits = [] then none else (parseDigits 0 digits).map UInt8.ofNat

def parseUsbPath (sysfsName : List Char) : Option Bytes := do
  let (_,chain) ← splitOnce '-' sysfsName
  let path ← (chain.splitOn '.').mapM parseU8
  if path.isEmpty || path.length > usbMaxPathLen then none else some path

def usbPath (device : DeviceInfo) : Option Bytes := do
  let name ← device.sysfsName
  parseUsbPath name

/-- The selection that `transport_init` stores: whatever was selected before is dropped, and
a zero field of the configuration leaves that criterion open. -/
def selectionOf (config : Option TransportConfig) : UsbSelection :=
  match config with
  | none => {}
  | some config =>
      { vendorId := if config.vendorId ≠ 0 then some config.vendorId else none
        productId := if config.productId ≠ 0 then some config.productId else none
        busNumber := if config.busNumber ≠ 0 then some config.busNumber else none
        path :=
          if config.pathLen.toNat ≤ config.path.length ∧ config.pathLen > 0 then
            some (config.path.take config.pathLen.toNat)
          else none }

def isBluetoothDevice (device : DeviceInfo) : Bool :=
  device.interfaces.any fun interface =>
    interface.interfaceClass == 0xE0 && interface.subclass == 0x01 && interface.protocol == 0x01

def isCandidateDevice (device : DeviceInfo) (selection : UsbSelection) : Bool :=
  if selection.vendorId.any (fun vendorId => device.vendorId != vendorId) then false
  else if selection.productId.any (fun productId => device.productId != productId) then false
  else if selection.busNumber.any (fun busNumber => device.busNumber != busNumber) then false
  else if selection.path.any (fun path => usbPath device != some path) then false
  else
    selection.vendorId.isSome || selection.productId.isSome || selection.busNumber.isSome ||
      selection.path.isSome || isBluetoothDevice device

/-- A candidate meets every criterion that is set, and without any it is a Bluetooth device. -/
theorem isCandidateDevice_eq_true_iff {device : DeviceInfo} {selection : UsbSelection} :
    isCandidateDevice device selection = true ↔
      (∀ vendorId, selection.vendorId = some vendorId → device.vendorId = vendorId) ∧
      (∀ productId, selection.productId = some productId → device.productId = productId) ∧
      (∀ busNumber, selection.busNumber = some busNumber → device.busNumber = busNumber) ∧
      (∀ path, selection.path = some path → usbPath device = some path) ∧
      (selection = {} → isBluetoothDevice device = true) := by
  rcases selection with ⟨vendorId,productId,busNumber,path⟩
  rw [isCandidateDevice]
  cases vendorId <;> cases productId <;> cases busNumber <;> cases path <;> simp

/-- `devices` is the result of `nusb::list_devices().ok()`. -/
def selectDevice (devices : Option (List DeviceInfo)) (selection : UsbSelection) :
    Option DeviceInfo := do
  let devices ← devices
  devices.find? (fun device => isCandidateDevice device selection)

/-- The mutable variables of `detect_endpoints`. -/
structure EndpointScan where
  config : EndpointConfig := {}
  foundEvent : Bool := false
  foundAclIn : Bool := false
  foundAclOut : Bool := false
  deriving DecidableEq, Repr

def scanEndpoint (scan : EndpointScan) (endpoint : EndpointDescriptor) : EndpointScan :=
  match endpoint.transferType, endpoint.direction with
  | .interrupt, .into =>
      if !scan.foundEvent then
        { scan with config := { scan.config with eventIn := endpoint.address }, foundEvent := true }
      else scan
  | .bulk, .into =>
      if !scan.foundAclIn then
        { scan with config := { scan.config with aclIn := endpoint.address }, foundAclIn := true }
      else scan
  | .bulk, .out =>
      if !scan.foundAclOut then
        { scan with config := { scan.config with aclOut := endpoint.address }, foundAclOut := true }
      else scan
  | _, _ => scan

def detectEndpoints (interface : Interface) : EndpointConfig :=
  let alts := interface.descriptors.filter
    (fun alt => alt.interfaceNumber == interface.interfaceNumber && alt.alternateSetting == 0)
  let scan : EndpointScan :=
    alts.foldl (fun scan (alt : AltSetting) => alt.endpoints.foldl scanEndpoint scan) {}
  scan.config

def leBytes (n : UInt16) : Bytes := [(n &&& 0xFF).toUInt8,(n >>> 8).toUInt8]

/-- The event of `emit_usb_info`; both length bytes are narrowed by `as u8`. -/
def usbInfoEvent (device : DeviceInfo) (path : Bytes) : Bytes :=
  [hciEventTransportUsbInfo,UInt8.ofNat (6+path.length)] ++ leBytes device.vendorId ++
    leBytes device.productId ++ [device.busNumber,UInt8.ofNat path.length] ++ path

def packetSentEvent : Bytes := [hciEventTransportPacketSent,0]

end BtstackRs.Transport
