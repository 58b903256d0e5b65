/-!
# Data types of the nusb HCI transport

Constants, packets, USB selection and the process-wide `STATE` record. Bytes are `UInt8`, a
`Vec<u8>` or slice is a list of them, `c_int` is `Int`, and `usize` counters are `Nat` with
the wrap-around of their atomic operations written out.
-/

namespace BtstackRs.Transport

abbrev Bytes := List UInt8

def hciCommandDataPacket : UInt8 := 1
def hciAclDataPacket : UInt8 := 2
def hciEventPacket : UInt8 := 4
def hciIsoDataPacket : UInt8 := 5
def hciEventTransportUsbInfo : UInt8 := 106
def hciEventTransportPacketSent : UInt8 := 110

def defaultEventEp : UInt8 := 0x81
def defaultAclInEp : UInt8 := 0x82
def defaultAclOutEp : UInt8 := 0x02
def eventTransferSize : Nat := 260
def aclTransferSize : Nat := 2048
def outgoingQueueDepth : Nat := 4
def usbMaxPathLen : Nat := 7
def eventInFlight : Nat := 3
def aclInFlight : Nat := 3
def aclOutInFlight : Nat := 4

def usizeMax : Nat := 18446744073709551615

/-- The value left by `fetch_sub(1)`, and by `-= 1` in a release build: zero wraps around. -/
def wrappingDec (n : Nat) : Nat := if n = 0 then usizeMax else n-1

theorem wrappingDec_of_pos {n : Nat} (h : 0 < n) : wrappingDec n = n-1 := by
  simp [wrappingDec,Nat.ne_of_gt h]

inductive OutgoingPacket where
  | command (packet : Bytes)
  | acl (packet : Bytes)
  | iso (packet : Bytes)
  deriving DecidableEq, Repr

/-- The arguments of `transport_send_packet`. A null pointer is `none`; a non-null one points to
memory of which the first `size` bytes are the caller's packet. -/
structure SendCall where
  packetType : UInt8
  packet : Option Bytes
  size : Int
  deriving DecidableEq, Repr

def SendCall.bytes (call : SendCall) : Bytes := (call.packet.getD []).take call.size.toNat

/-- The early exit `packet.is_null() || size < 0`. -/
def SendCall.rejected (call : SendCall) : Bool := call.packet.isNone || call.size < 0

/-- The types that `transport_send_packet` and `transport_can_send_packet_now` support. -/
def supportedType (packetType : UInt8) : Bool :=
  packetType == hciCommandDataPacket || packetType == hciAclDataPacket ||
    packetType == hciIsoDataPacket

/-- The classification by packet type in `transport_send_packet`. -/
def outgoingOf (call : SendCall) : Option OutgoingPacket :=
  if call.packetType = hciCommandDataPacket then some (.command call.bytes)
  else if call.packetType = hciAclDataPacket then some (.acl call.bytes)
  else if call.packetType = hciIsoDataPacket then some (.iso call.bytes)
  else none

theorem outgoingOf_isSome (call : SendCall) :
    (outgoingOf call).isSome = supportedType call.packetType := by
  unfold outgoingOf supportedType
  split
  · simp_all
  · split
    · simp_all
    · split <;> simp_all

/-- nusb's `TransferError`. -/
inductive TransferError where
  | cancelled
  | stall
  | disconnected
  | fault
  | unknown
  deriving DecidableEq, Repr

/-- The status of a completed transfer, `Result<(), TransferError>`. -/
inductive Status where
  | ok
  | err (e : TransferError)
  deriving DecidableEq, Repr

structure Completion where
  status : Status
  data : Bytes
  deriving DecidableEq, Repr

/-- The setup fields and data stage of a control OUT transfer. -/
structure ControlOut where
  classRequest : Bool
  toDevice : Bool
  request : UInt8
  value : UInt16
  index : UInt16
  data : Bytes
  deriving DecidableEq, Repr

/-- What the writer hands to USB: a control transfer, or a buffer for the bulk OUT queue. -/
inductive Transfer where
  | control (setup : ControlOut)
  | bulkOut (endpoint : UInt8) (data : Bytes)
  deriving DecidableEq, Repr

/-- `hci_transport_config_nusb_t`; the fixed-size array is a list of that length. -/
structure TransportConfig where
  vendorId : UInt16
  productId : UInt16
  busNumber : UInt8
  pathLen : UInt8
  path : Bytes
  path_length : path.length = usbMaxPathLen

structure UsbSelection where
  vendorId : Option UInt16 := none
  productId : Option UInt16 := none
  busNumber : Option UInt8 := none
  path : Option Bytes := none
  deriving DecidableEq, Repr

structure EndpointConfig where
  eventIn : UInt8 := defaultEventEp
  aclIn : UInt8 := defaultAclInEp
  aclOut : UInt8 := defaultAclOutEp
  deriving DecidableEq, Repr

/-- A packet handler is only ever called, so its address is all there is to know. -/
abbrev Handler := Nat

/-- `ActiveTransport`. Threads and links are numbered in the order of their creation; a link is
what one successful `transport_open` creates. The handles `stop`, `outgoing_pending` and
`outgoing_sender` all point into the shared objects of one link. -/
structure ActiveTransport where
  link : Nat
  readerThreads : List Nat
  writerThread : Nat
  queueDepth : Nat
  queueDepth_eq : queueDepth = outgoingQueueDepth

/-- The triple `(sender, pending, queue_depth)` that a send clones out of `STATE`. -/
structure SendHandles where
  link : Nat
  queueDepth : Nat
  queueDepth_eq : queueDepth = outgoingQueueDepth

def ActiveTransport.sendHandles (active : ActiveTransport) : SendHandles :=
  ⟨active.link,active.queueDepth,active.queueDepth_eq⟩

@[simp] theorem ActiveTransport.sendHandles_link (active : ActiveTransport) :
    active.sendHandles.link = active.link := rfl

structure TransportState where
  packetHandler : Option Handler := none
  selected : UsbSelection := {}
  active : Option ActiveTransport := none

end BtstackRs.Transport
