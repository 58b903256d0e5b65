import BtstackRs.Transport.Step

/-!
# First in, first out

The packets accepted by `try_send` are the packets handed to USB, the one the writer holds and
those in the channel, in this order. Nothing the writer does at a timeout, a full window or a
stop request disturbs it.
-/

namespace BtstackRs.Transport

def LinkEvent.acceptedCall : LinkEvent → Option SendCall
  | .accepted _ call => some call
  | _ => none

def LinkEvent.handedTransfer : LinkEvent → Option Transfer
  | .handed transfer => some transfer
  | _ => none

/-- The calls whose `try_send` succeeded, in the order in which it did. -/
def acceptedCalls (history : List LinkEvent) : List SendCall :=
  history.filterMap LinkEvent.acceptedCall

/-- What was handed to USB, commands and bulk buffers merged in time. -/
def handedTransfers (history : List LinkEvent) : List Transfer :=
  history.filterMap LinkEvent.handedTransfer

@[simp] theorem acceptedCalls_append (history : List LinkEvent) (event : LinkEvent) :
    acceptedCalls (history ++ [event]) = acceptedCalls history ++ event.acceptedCall.toList := by
  cases h : event.acceptedCall <;> simp [acceptedCalls,h]

@[simp] theorem handedTransfers_append (history : List LinkEvent) (event : LinkEvent) :
    handedTransfers (history ++ [event]) =
      handedTransfers history ++ event.handedTransfer.toList := by
  cases h : event.handedTransfer <;> simp [handedTransfers,h]

/-- `sent` are the packets that have reached USB. -/
structure InOrder (link : Link) (sent : List OutgoingPacket) : Prop where
  accepted_eq : (acceptedCalls link.history).map outgoingOf =
    (sent ++ link.writer.pc.held ++ link.channel).map some
  handed_eq : handedTransfers link.history = sent.map (OutgoingPacket.transfer link.endpoints)

private theorem InOrder.of_eq {link link' : Link} {sent : List OutgoingPacket}
    (h : InOrder link sent) (haccepted : acceptedCalls link'.history = acceptedCalls link.history)
    (hhanded : handedTransfers link'.history = handedTransfers link.history)
    (hendpoints : link'.endpoints = link.endpoints)
    (hplaces : link'.writer.pc.held ++ link'.channel = link.writer.pc.held ++ link.channel) :
    InOrder link' sent := by
  constructor
  · rw [haccepted,h.accepted_eq,List.append_assoc,List.append_assoc,hplaces]
  · rw [hhanded,h.handed_eq,hendpoints]

private theorem sendStep_inOrder {t : Nat} {call : SendCall} {handles : SendHandles}
    {spurious : Bool} {pc : SendPc call} {link link' : Link} {next : SendNext call}
    {sent : List OutgoingPacket} (h : InOrder link sent)
    (hstep : sendStep t call handles spurious pc link = (link',next)) : InOrder link' sent := by
  cases sendStep_cases hstep with
  | load | refuse | retry | fail => exact h
  | reserve | rollback =>
    exact h.of_eq (by simp [LinkEvent.acceptedCall]) (by simp [LinkEvent.handedTransfer]) rfl rfl
  | accept packet hpacket hreceiver hroom =>
    constructor
    · simp only [Link.record_history,Link.record_writer,Link.record_channel,
        acceptedCalls_append,LinkEvent.acceptedCall,Option.toList_some,List.map_append,
        h.accepted_eq,List.append_assoc,List.map_cons,List.map_nil,hpacket]
    · simpa [LinkEvent.handedTransfer] using h.handed_eq

private theorem hand_over {link link' : Link} {sent : List OutgoingPacket}
    {packet : OutgoingPacket} (h : InOrder link sent) (hpc : link.writer.pc = .holding packet)
    (hhistory : link'.history = link.history ++ [.handed (packet.transfer link.endpoints)])
    (hendpoints : link'.endpoints = link.endpoints) (hheld : link'.writer.pc.held = [])
    (hchannel : link'.channel = link.channel) : InOrder link' (sent ++ [packet]) := by
  constructor
  · have haccepted := h.accepted_eq
    simp only [hpc,WriterPc.held] at haccepted
    simp [hhistory,LinkEvent.acceptedCall,haccepted,hheld,hchannel]
  · simp [hhistory,LinkEvent.handedTransfer,h.handed_eq,hendpoints]

private theorem writerStep_inOrder {alive : Bool} {control : Status}
    {poll : Option (Nat × Status)} {link link' : Link} {sent : List OutgoingPacket}
    (h : InOrder link sent) (hstep : writerStep alive control poll link = some link') :
    ∃ sent', InOrder link' sent' := by
  cases writerStep_cases hstep with
  | take hpc packet rest hchannel =>
    exact ⟨sent,h.of_eq rfl rfl rfl (by simp [hpc,hchannel,WriterPc.held])⟩
  | command packet hpc => exact ⟨_,hand_over h hpc rfl rfl rfl rfl⟩
  | submit packet data hpc htransfer =>
    refine ⟨_,hand_over h hpc ?_ rfl rfl rfl⟩
    rw [htransfer]
    rfl
  | release status hpc =>
    have hheld : link.writer.pc.held = [] := by rcases hpc with hpc | hpc <;> rw [hpc] <;> rfl
    refine ⟨sent,h.of_eq (by simp [LinkEvent.acceptedCall])
      (by simp [LinkEvent.handedTransfer]) rfl ?_⟩
    simp only [Link.record_writer,Link.record_channel,afterRelease_held,hheld]
  | commandComplete hpc | cancel hpc | complete hpc =>
    exact ⟨sent,h.of_eq (by simp [LinkEvent.acceptedCall]) (by simp [LinkEvent.handedTransfer]) rfl
      (by simp [hpc,WriterPc.held])⟩
  | enter hpc | skip hpc | timeout hpc | disconnected hpc | pass hpc | leave hpc | again hpc
  | await hpc | idle hpc => exact ⟨sent,h.of_eq rfl rfl rfl (by simp [hpc,WriterPc.held])⟩

theorem inOrder_linkInvariant : LinkInvariant (fun link => ∃ sent, InOrder link sent) where
  fresh _ := ⟨[],rfl,rfl⟩
  stop _ := fun ⟨sent,h⟩ => ⟨sent,h.of_eq rfl rfl rfl rfl⟩
  send _ _ _ _ _ _ _ _ := fun ⟨sent,h⟩ hsend => ⟨sent,sendStep_inOrder h hsend⟩
  reader _ _ _ _ := fun ⟨sent,h⟩ _ => ⟨sent,h.of_eq (by simp) (by simp) (by simp) (by simp)⟩
  writer _ _ _ _ _ := fun ⟨_,h⟩ hwriter => writerStep_inOrder h hwriter
  resumeReader _ _ := fun ⟨sent,h⟩ => ⟨sent,h.of_eq (by simp) (by simp) (by simp) (by simp)⟩
  resumeWriter link := fun ⟨sent,h⟩ => by
    refine ⟨sent,h.of_eq rfl rfl rfl ?_⟩
    unfold Writer.resume
    split
    · rename_i hpc
      simp [hpc,WriterPc.held]
    · rfl

/-- The `size` bytes at the caller's pointer. -/
def SendCall.passed (call : SendCall) : Bytes :=
  match call.packet with
  | some memory => memory.take call.size.toNat
  | none => []

/-- The packet that a call is about, by its HCI packet type. -/
def SendCall.wholePacket (call : SendCall) : Option OutgoingPacket :=
  if call.packetType = 1 then some (.command call.passed)
  else if call.packetType = 2 then some (.acl call.passed)
  else if call.packetType = 5 then some (.iso call.passed)
  else none

/-- What USB has to get for a call: a command is the data stage of a class request to the device,
an ACL or ISO packet a buffer for the bulk OUT endpoint. -/
def SendCall.usbTransfer (aclOut : UInt8) (call : SendCall) : Option Transfer :=
  if call.packetType = 1 then
    some (.control {
      classRequest := true, toDevice := true, request := 0, value := 0, index := 0,
      data := call.passed })
  else if call.packetType = 2 ∨ call.packetType = 5 then some (.bulkOut aclOut call.passed)
  else none

theorem SendCall.passed_eq (call : SendCall) : call.passed = call.bytes := by
  unfold passed SendCall.bytes
  cases call.packet <;> simp

theorem SendCall.wholePacket_eq (call : SendCall) : call.wholePacket = outgoingOf call := by
  rw [wholePacket,passed_eq]
  rfl

theorem SendCall.usbTransfer_eq (endpoints : EndpointConfig) (call : SendCall) :
    call.usbTransfer endpoints.aclOut = (outgoingOf call).map (·.transfer endpoints) := by
  simp only [usbTransfer,outgoingOf,passed_eq,show hciCommandDataPacket = 1 from rfl,
    show hciAclDataPacket = 2 from rfl,show hciIsoDataPacket = 5 from rfl]
  by_cases hcommand : call.packetType = 1
  · rw [if_pos hcommand,if_pos hcommand]
    rfl
  · rw [if_neg hcommand,if_neg hcommand]
    by_cases hacl : call.packetType = 2
    · rw [if_pos (.inl hacl),if_pos hacl]
      rfl
    · rw [if_neg hacl]
      by_cases hiso : call.packetType = 5
      · rw [if_pos (.inr hiso),if_pos hiso]
        rfl
      · rw [if_neg (not_or.mpr ⟨hacl,hiso⟩),if_neg hiso]
        rfl

/-- The accepted calls, parted into those handed over, held and in the channel. -/
theorem InOrder.parted {link : Link} {sent : List OutgoingPacket} (h : InOrder link sent) :
    ∃ sentCalls held queued : List SendCall,
      acceptedCalls link.history = sentCalls ++ held ++ queued ∧
      sentCalls.map outgoingOf = sent.map some ∧
      held.map outgoingOf = link.writer.pc.held.map some ∧
      queued.map outgoingOf = link.channel.map some := by
  have haccepted := h.accepted_eq
  rw [List.map_append,List.map_append,List.map_eq_append_iff] at haccepted
  obtain ⟨rest,queued,hcalls,hrest,hqueued⟩ := haccepted
  obtain ⟨sentCalls,held,rfl,hsent,hheld⟩ := List.map_eq_append_iff.mp hrest
  exact ⟨sentCalls,held,queued,hcalls,hsent,hheld,hqueued⟩

/-- First in, first out: what was accepted is what was handed to USB, through the transfer of its
kind and with the caller's bytes, then the packet the writer holds, then the channel. -/
theorem firstInFirstOut {σ : System} (h : Reachable σ) {l : Nat} {link : Link}
    (hlink : σ.links[l]? = some link) :
    ∃ sent held queued : List SendCall,
      acceptedCalls link.history = sent ++ held ++ queued ∧
      sent.map (SendCall.usbTransfer link.endpoints.aclOut) =
        (handedTransfers link.history).map some ∧
      held.map SendCall.wholePacket = link.writer.pc.held.map some ∧ held.length ≤ 1 ∧
      queued.map SendCall.wholePacket = link.channel.map some := by
  obtain ⟨packets,horder⟩ := inOrder_linkInvariant.reachable h hlink
  obtain ⟨sent,held,queued,hcalls,hsent,hheld,hqueued⟩ := horder.parted
  refine ⟨sent,held,queued,hcalls,?_,?_,?_,?_⟩
  · calc sent.map (SendCall.usbTransfer link.endpoints.aclOut)
        = (sent.map outgoingOf).map (Option.map (·.transfer link.endpoints)) := by
          rw [funext (SendCall.usbTransfer_eq link.endpoints),List.map_map]
          rfl
      _ = (handedTransfers link.history).map some := by
          rw [hsent,horder.handed_eq,List.map_map,List.map_map]
          rfl
  · rw [funext SendCall.wholePacket_eq,hheld]
  · have hlength := congrArg List.length hheld
    rw [List.length_map,List.length_map] at hlength
    rw [hlength]
    cases link.writer.pc <;> simp [WriterPc.held]
  · rw [funext SendCall.wholePacket_eq,hqueued]

/-- Two clients have sent; the writer has handed over the command and not yet taken the ACL
packet, of which the second byte at the pointer is no part. -/
theorem firstInFirstOut_twoSent : ∃ σ link, Reachable σ ∧ σ.links[0]? = some link ∧
    acceptedCalls link.history = [⟨1,some [3,12,0],3⟩,⟨2,some [7,9],1⟩] ∧
    handedTransfers link.history = [.control {
      classRequest := true, toDevice := true, request := 0, value := 0, index := 0,
      data := [3,12,0] }] ∧
    link.channel = [.acl [7]] ∧
    ∃ sent held queued : List SendCall,
      acceptedCalls link.history = sent ++ held ++ queued ∧
      sent.map (SendCall.usbTransfer link.endpoints.aclOut) =
        (handedTransfers link.history).map some ∧
      held.map SendCall.wholePacket = link.writer.pc.held.map some ∧ held.length ≤ 1 ∧
      queued.map SendCall.wholePacket = link.channel.map some := by
  have hrun : ((machine.run (System.initial 2 none)
      (openRun 0 dongle dongleInterface [] ++
        Action.by 0 [.call (.transportSendPacket ⟨1,some [3,12,0],3⟩),.go,.go,.go,.go,.go] ++
        Action.by 1 [.call (.transportSendPacket ⟨2,some [7,9],1⟩),.go,.go,.go,.go,.go] ++
        Action.by 4 [.go,.go,.go])).bind
      fun σ => σ.links[0]?.map fun link =>
        (acceptedCalls link.history,handedTransfers link.history,link.channel)) =
      some ([⟨1,some [3,12,0],3⟩,⟨2,some [7,9],1⟩],[.control ⟨true,true,0,0,0,[3,12,0]⟩],
        [.acl [7]]) := rfl
  obtain ⟨σ,hσ,hmap⟩ := Option.bind_eq_some_iff.mp hrun
  obtain ⟨link,hlink,hvalues⟩ := Option.map_eq_some_iff.mp hmap
  simp only [Prod.mk.injEq] at hvalues
  obtain ⟨haccepted,hhanded,hchannel⟩ := hvalues
  have hreach := Reachable.of_run hσ
  exact ⟨σ,link,hreach,hlink,haccepted,hhanded,hchannel,firstInFirstOut hreach hlink⟩

end BtstackRs.Transport
