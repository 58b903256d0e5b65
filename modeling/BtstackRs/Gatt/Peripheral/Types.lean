import BtstackRs.Sequence.Table
import BtstackRs.Transport.Types

/-!
# Data types of the GATT peripheral server

Specifications, the runtime state behind `RUNTIME`, and the arguments of the callbacks. A hash
map is a table; the order in which it is iterated is a parameter. A non-null pointer is what
lies in memory from there on.
-/

namespace BtstackRs.Gatt.Peripheral

open Sequence Transport

def attPropertyRead : UInt16 := 2
def attPropertyWriteWithoutResponse : UInt16 := 4
def attPropertyWrite : UInt16 := 8
def attPropertyNotify : UInt16 := 16
def attPropertyIndicate : UInt16 := 32

def attTransactionModeNone : UInt16 := 0
def attTransactionModeActive : UInt16 := 1
def attTransactionModeExecute : UInt16 := 2
def attTransactionModeCancel : UInt16 := 3

/-- Read callbacks report errors, and a pending response as 0xFFFF, from this value on. -/
def attReadErrorCodeOffset : UInt16 := 0xFE00

def attEventConnected : UInt8 := 0xB3
def attEventDisconnected : UInt8 := 0xB4

inductive GattPeripheralError where
  | serverAlreadyInitialized
  | serviceNotFound
  | characteristicNotFound
  deriving DecidableEq, Repr

inductive GattUuid where
  | uuid16 (uuid : UInt16)
  | uuid128 (uuid : Vector UInt8 16)
  deriving DecidableEq, Repr

structure GattCharacteristicProperties where
  bits : UInt16
  deriving DecidableEq, Repr

namespace GattCharacteristicProperties

def READ : GattCharacteristicProperties := ⟨attPropertyRead⟩
def WRITE : GattCharacteristicProperties := ⟨attPropertyWrite⟩
def WRITE_WITHOUT_RESPONSE : GattCharacteristicProperties := ⟨attPropertyWriteWithoutResponse⟩
def NOTIFY : GattCharacteristicProperties := ⟨attPropertyNotify⟩
def INDICATE : GattCharacteristicProperties := ⟨attPropertyIndicate⟩

def contains (self other : GattCharacteristicProperties) : Bool :=
  self.bits &&& other.bits == other.bits

def bitor (self rhs : GattCharacteristicProperties) : GattCharacteristicProperties :=
  ⟨self.bits ||| rhs.bits⟩

end GattCharacteristicProperties

structure GattCharacteristicSpec where
  uuid : GattUuid
  properties : GattCharacteristicProperties
  initialValue : Bytes
  deriving DecidableEq, Repr

/-- Declared `WRITE` or `WRITE_WITHOUT_RESPONSE`. -/
def GattCharacteristicSpec.writable (spec : GattCharacteristicSpec) : Bool :=
  spec.properties.contains .WRITE || spec.properties.contains .WRITE_WITHOUT_RESPONSE

structure GattServiceSpec where
  uuid : GattUuid
  characteristics : List GattCharacteristicSpec
  deriving DecidableEq, Repr

structure AdvertisingConfig where
  intervalMin : UInt16
  intervalMax : UInt16
  advType : UInt8
  channelMap : UInt8
  filterPolicy : UInt8
  data : Bytes
  deriving DecidableEq, Repr

structure GattPeripheralSpec where
  profileData : Bytes
  services : List GattServiceSpec
  advertising : AdvertisingConfig
  deriving DecidableEq, Repr

structure RuntimeCharacteristic where
  spec : GattCharacteristicSpec
  valueHandle : UInt16
  cccHandle : Option UInt16
  value : Bytes
  deriving DecidableEq, Repr

/-- The fields of `RuntimeState` that the callbacks and the advertising update work on. -/
structure RuntimeState where
  characteristicsByValueHandle : Table UInt16 RuntimeCharacteristic
  cccToValueHandle : Table UInt16 UInt16
  notificationEnabled : Table UInt16 Bool
  connectedHandle : Option UInt16
  advertisingEnabled : Bool
  advertising : AdvertisingConfig

/-- The order in which a hash map yields its entries: some order. -/
structure IterationOrder (Key Value : Type) where
  entries : Table Key Value → List ((_ : Key) × Value)
  perm : ∀ table, (entries table).Perm table.entries

/-- BTstack's lookup functions on the database given to `att_server_init`. A service range is
`none` where the function returns `false`; a handle is 0 where there is none. -/
structure AttDatabase where
  handleRangeForServiceWithUuid16 : UInt16 → Option (UInt16 × UInt16)
  handleRangeForServiceWithUuid128 : Vector UInt8 16 → Option (UInt16 × UInt16)
  valueHandleForCharacteristicWithUuid16 : UInt16 → UInt16 → UInt16 → UInt16
  valueHandleForCharacteristicWithUuid128 : UInt16 → UInt16 → Vector UInt8 16 → UInt16
  clientConfigurationHandleWithUuid16 : UInt16 → UInt16 → UInt16 → UInt16
  clientConfigurationHandleWithUuid128 : UInt16 → UInt16 → Vector UInt8 16 → UInt16

abbrev Memory := Nat → UInt8

/-- The memory at a pointer, `none` for a null pointer. -/
abbrev Pointer := Option Memory

def Memory.bytes (memory : Memory) (n : Nat) : Bytes := (List.range n).map memory

@[simp] theorem Memory.length_bytes (memory : Memory) (n : Nat) :
    (memory.bytes n).length = n := by
  simp [Memory.bytes]

def Memory.littleEndian16 (memory : Memory) (i : Nat) : UInt16 :=
  (memory i).toUInt16 ||| ((memory (i+1)).toUInt16 <<< 8)

/-- The arguments of `att_read_callback`; a read without a buffer asks for the size. -/
structure AttRead where
  connectionHandle : UInt16
  attHandle : UInt16
  offset : UInt16
  hasBuffer : Bool
  bufferSize : UInt16

/-- What `att_read_callback` returns, and what it has copied into the buffer. -/
structure ReadReply where
  copied : Bytes
  returned : UInt16
  deriving DecidableEq, Repr

/-- The arguments of `att_write_callback`. -/
structure AttWrite where
  connectionHandle : UInt16
  attHandle : UInt16
  transactionMode : UInt16
  offset : UInt16
  buffer : Pointer
  bufferSize : UInt16

/-- The arguments of `packet_handler`. -/
structure Packet where
  packetType : UInt8
  channel : UInt16
  packet : Pointer
  size : UInt16

end BtstackRs.Gatt.Peripheral
