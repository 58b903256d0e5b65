import BtstackRs.Transport.Reader

/-!
# The writer loop and the objects of one link

A link collects what one successful `transport_open` creates: the shared objects behind the
`Arc`s and the channel, and the local variables of its three worker threads. Its history
records what happened to packets and slots; no step reads it.
-/

namespace BtstackRs.Transport

inductive WriterPc where
  -- At the guard of the inner `while`, which is also where the outer loop starts.
  | fill
  | recv
  | holding (packet : OutgoingPacket)
  -- In `block_on` of the control transfer.
  | commandWait
  | commandDone (status : Status)
  | cancelCheck
  | emptyCheck
  | poll
  | bulkDone (status : Status)
  -- In the call of `emit_transport_packet_sent`.
  | acknowledging
  | exited
  deriving DecidableEq, Repr

structure Writer where
  pc : WriterPc := .fill
  inFlightOut : Nat := 0
  cancelled : Bool := false
  -- The buffers submitted to `acl_out_queue` whose completion has not been returned yet.
  aclOutQueue : List Bytes := []
  deriving DecidableEq, Repr

inductive LinkEvent where
  | reserved (t : Nat)
  | rolledBack (t : Nat)
  -- `try_send` succeeded for the packet of this call.
  | accepted (t : Nat) (call : SendCall)
  | handed (transfer : Transfer)
  | completed (status : Status)
  -- The writer's `fetch_sub`.
  | released
  | cancelledAll
  deriving DecidableEq, Repr

structure Link where
  endpoints : EndpointConfig
  stop : Bool := false
  outgoingPending : Nat := 0
  -- The buffered packets, oldest first.
  channel : List OutgoingPacket := []
  eventReader : Reader := {}
  aclReader : Reader := {}
  writer : Writer := {}
  history : List LinkEvent := []

namespace Link

def reader (link : Link) : ReaderKind → Reader
  | .event => link.eventReader
  | .acl => link.aclReader

def setReader (link : Link) (kind : ReaderKind) (r : Reader) : Link :=
  match kind with
  | .event => { link with eventReader := r }
  | .acl => { link with aclReader := r }

def record (link : Link) (event : LinkEvent) : Link :=
  { link with history := link.history ++ [event] }

/-- The receiver lives in the writer closure and is dropped when that returns. -/
def receiverDropped (link : Link) : Bool := link.writer.pc == .exited

@[simp] theorem record_history (link : Link) (event : LinkEvent) :
    (link.record event).history = link.history ++ [event] := rfl

@[simp] theorem record_endpoints (link : Link) (event : LinkEvent) :
    (link.record event).endpoints = link.endpoints := rfl

@[simp] theorem record_stop (link : Link) (event : LinkEvent) :
    (link.record event).stop = link.stop := rfl

@[simp] theorem record_outgoingPending (link : Link) (event : LinkEvent) :
    (link.record event).outgoingPending = link.outgoingPending := rfl

@[simp] theorem record_channel (link : Link) (event : LinkEvent) :
    (link.record event).channel = link.channel := rfl

@[simp] theorem record_writer (link : Link) (event : LinkEvent) :
    (link.record event).writer = link.writer := rfl

@[simp] theorem record_reader (link : Link) (event : LinkEvent) (kind : ReaderKind) :
    (link.record event).reader kind = link.reader kind := by cases kind <;> rfl

@[simp] theorem reader_setReader (link : Link) (kind : ReaderKind) (r : Reader) :
    (link.setReader kind r).reader kind = r := by cases kind <;> rfl

theorem reader_setReader_ne (link : Link) {kind kind' : ReaderKind} (h : kind' ≠ kind)
    (r : Reader) : (link.setReader kind r).reader kind' = link.reader kind' := by
  cases kind <;> cases kind' <;> first | rfl | exact absurd rfl h

@[simp] theorem setReader_stop (link : Link) (kind : ReaderKind) (r : Reader) :
    (link.setReader kind r).stop = link.stop := by cases kind <;> rfl

@[simp] theorem setReader_endpoints (link : Link) (kind : ReaderKind) (r : Reader) :
    (link.setReader kind r).endpoints = link.endpoints := by cases kind <;> rfl

@[simp] theorem setReader_outgoingPending (link : Link) (kind : ReaderKind) (r : Reader) :
    (link.setReader kind r).outgoingPending = link.outgoingPending := by cases kind <;> rfl

@[simp] theorem setReader_channel (link : Link) (kind : ReaderKind) (r : Reader) :
    (link.setReader kind r).channel = link.channel := by cases kind <;> rfl

@[simp] theorem setReader_writer (link : Link) (kind : ReaderKind) (r : Reader) :
    (link.setReader kind r).writer = link.writer := by cases kind <;> rfl

@[simp] theorem setReader_history (link : Link) (kind : ReaderKind) (r : Reader) :
    (link.setReader kind r).history = link.history := by cases kind <;> rfl

end Link

/-- The control transfer of `send_hci_command`. -/
def sendHciCommand (packet : Bytes) : ControlOut :=
  { classRequest := true, toDevice := true, request := 0, value := 0, index := 0, data := packet }

/-- How a packet reaches USB: commands as control transfers, ACL and ISO through the bulk
queue of the ACL OUT endpoint. -/
def OutgoingPacket.transfer (endpoints : EndpointConfig) : OutgoingPacket → Transfer
  | .command packet => .control (sendHciCommand packet)
  | .acl packet => .bulkOut endpoints.aclOut packet
  | .iso packet => .bulkOut endpoints.aclOut packet

def afterRelease : Status → WriterPc
  | .ok => .acknowledging
  | .err _ => .fill -- a stalled bulk endpoint is unhalted here

/-- One step of the writer loop. `senderAlive` says whether any `SyncSender` clone exists,
`control` is the result of a control transfer if this step waits for one, and `poll` what
`poll_once(acl_out_queue.next_complete())` finds if this step polls: nothing, or the
completion of one pending buffer. -/
def writerStep (senderAlive : Bool) (control : Status) (poll : Option (Nat × Status))
    (link : Link) : Option Link :=
  let w := link.writer
  match w.pc with
  | .fill =>
      if w.inFlightOut < aclOutInFlight ∧ link.stop = false then
        some { link with writer := { w with pc := .recv } }
      else some { link with writer := { w with pc := .cancelCheck } }
  | .recv =>
      match link.channel with
      | packet :: rest =>
          some { link with channel := rest, writer := { w with pc := .holding packet } }
      | [] =>
          if senderAlive then
            some { link with writer := { w with pc := .cancelCheck } } -- RecvTimeoutError::Timeout
          else some { link with writer := { w with pc := .exited } } -- Disconnected: return
  | .holding (.command packet) =>
      some ({ link with writer := { w with pc := .commandWait } }.record
        (.handed (.control (sendHciCommand packet))))
  | .holding (.acl packet) | .holding (.iso packet) =>
      some ({ link with
        writer := { w with
          pc := .fill
          inFlightOut := w.inFlightOut+1
          aclOutQueue := w.aclOutQueue ++ [packet] } }.record
        (.handed (.bulkOut link.endpoints.aclOut packet)))
  | .commandWait =>
      some ({ link with writer := { w with pc := .commandDone control } }.record
        (.completed control))
  | .commandDone status =>
      some ({ link with
        outgoingPending := wrappingDec link.outgoingPending
        writer := { w with pc := afterRelease status } }.record .released)
  | .cancelCheck =>
      if link.stop = true ∧ w.cancelled = false then
        some ({ link with writer := { w with pc := .emptyCheck, cancelled := true } }.record
          .cancelledAll)
      else some { link with writer := { w with pc := .emptyCheck } }
  | .emptyCheck =>
      if w.inFlightOut = 0 then
        if link.stop then some { link with writer := { w with pc := .exited } }
        else some { link with writer := { w with pc := .fill } }
      else some { link with writer := { w with pc := .poll } }
  | .poll =>
      match poll with
      | none => some { link with writer := { w with pc := .fill } }
      | some (i,status) =>
          if i < w.aclOutQueue.length then
            some ({ link with
              writer := { w with
                pc := .bulkDone status
                inFlightOut := wrappingDec w.inFlightOut
                aclOutQueue := w.aclOutQueue.eraseIdx i } }.record (.completed status))
          else none
  | .bulkDone status =>
      some ({ link with
        outgoingPending := wrappingDec link.outgoingPending
        writer := { w with pc := afterRelease status } }.record .released)
  | .acknowledging => none
  | .exited => none

def Writer.resume (w : Writer) : Writer :=
  match w.pc with
  | .acknowledging => { w with pc := .fill }
  | _ => w

def WriterPc.held : WriterPc → List OutgoingPacket
  | .holding packet => [packet]
  | _ => []

@[simp] theorem afterRelease_held (status : Status) : (afterRelease status).held = [] := by
  cases status <;> rfl

/-- Whether the writer is handling a packet whose slot it will release in a later step: the
command being sent, a packet being submitted, or a bulk packet just completed. -/
def WriterPc.handling : WriterPc → Nat
  | .holding _ | .commandWait | .commandDone _ | .bulkDone _ => 1
  | _ => 0

@[simp] theorem afterRelease_handling (status : Status) : (afterRelease status).handling = 0 := by
  cases status <;> rfl

theorem afterRelease_ne_exited (status : Status) : afterRelease status ≠ .exited := by
  cases status <;> simp [afterRelease]

theorem WriterPc.handling_of_done {pc : WriterPc} {status : Status}
    (h : pc = .commandDone status ∨ pc = .bulkDone status) : pc.handling = 1 := by
  rcases h with h | h <;> rw [h] <;> rfl

/-- Slots of packets that left the channel: the one being handled and the bulk transfers. -/
def Writer.slots (w : Writer) : Nat := w.pc.handling+w.inFlightOut

/-- The steps of the loop, guards included; what is proved about them is proved from these. -/
inductive WriterStep (alive : Bool) (control : Status) (poll : Option (Nat × Status))
    (link : Link) : Link → Prop where
  | enter (hpc : link.writer.pc = .fill) (hroom : link.writer.inFlightOut < aclOutInFlight)
      (hstop : link.stop = false) : WriterStep alive control poll link
      { link with writer := { link.writer with pc := .recv } }
  | skip (hpc : link.writer.pc = .fill)
      (hfull : ¬(link.writer.inFlightOut < aclOutInFlight ∧ link.stop = false)) :
      WriterStep alive control poll link
      { link with writer := { link.writer with pc := .cancelCheck } }
  | take (hpc : link.writer.pc = .recv) (packet : OutgoingPacket) (rest : List OutgoingPacket)
      (hchannel : link.channel = packet :: rest) : WriterStep alive control poll link
      { link with channel := rest, writer := { link.writer with pc := .holding packet } }
  | timeout (hpc : link.writer.pc = .recv) (hempty : link.channel = []) (halive : alive = true) :
      WriterStep alive control poll link
      { link with writer := { link.writer with pc := .cancelCheck } }
  | disconnected (hpc : link.writer.pc = .recv) (hempty : link.channel = [])
      (halive : alive = false) : WriterStep alive control poll link
      { link with writer := { link.writer with pc := .exited } }
  | command (packet : Bytes) (hpc : link.writer.pc = .holding (.command packet)) :
      WriterStep alive control poll link
      ({ link with writer := { link.writer with pc := .commandWait } }.record
        (.handed (.control (sendHciCommand packet))))
  | submit (packet : OutgoingPacket) (data : Bytes) (hpc : link.writer.pc = .holding packet)
      (htransfer : ∀ endpoints, packet.transfer endpoints = .bulkOut endpoints.aclOut data) :
      WriterStep alive control poll link
      ({ link with
        writer := { link.writer with
          pc := .fill
          inFlightOut := link.writer.inFlightOut+1
          aclOutQueue := link.writer.aclOutQueue ++ [data] } }.record
        (.handed (.bulkOut link.endpoints.aclOut data)))
  | commandComplete (hpc : link.writer.pc = .commandWait) : WriterStep alive control poll link
      ({ link with writer := { link.writer with pc := .commandDone control } }.record
        (.completed control))
  | release (status : Status)
      (hpc : link.writer.pc = .commandDone status ∨ link.writer.pc = .bulkDone status) :
      WriterStep alive control poll link
      ({ link with
        outgoingPending := wrappingDec link.outgoingPending
        writer := { link.writer with pc := afterRelease status } }.record .released)
  | cancel (hpc : link.writer.pc = .cancelCheck) (hstop : link.stop = true)
      (hfirst : link.writer.cancelled = false) : WriterStep alive control poll link
      ({ link with writer := { link.writer with pc := .emptyCheck, cancelled := true } }.record
        .cancelledAll)
  | pass (hpc : link.writer.pc = .cancelCheck)
      (hnot : ¬(link.stop = true ∧ link.writer.cancelled = false)) :
      WriterStep alive control poll link
      { link with writer := { link.writer with pc := .emptyCheck } }
  | leave (hpc : link.writer.pc = .emptyCheck) (hempty : link.writer.inFlightOut = 0)
      (hstop : link.stop = true) : WriterStep alive control poll link
      { link with writer := { link.writer with pc := .exited } }
  | again (hpc : link.writer.pc = .emptyCheck) (hempty : link.writer.inFlightOut = 0)
      (hstop : link.stop = false) : WriterStep alive control poll link
      { link with writer := { link.writer with pc := .fill } }
  | await (hpc : link.writer.pc = .emptyCheck) (hpending : link.writer.inFlightOut ≠ 0) :
      WriterStep alive control poll link
      { link with writer := { link.writer with pc := .poll } }
  | idle (hpc : link.writer.pc = .poll) : WriterStep alive control poll link
      { link with writer := { link.writer with pc := .fill } }
  | complete (hpc : link.writer.pc = .poll) (i : Nat) (status : Status)
      (hi : i < link.writer.aclOutQueue.length) : WriterStep alive control poll link
      ({ link with
        writer := { link.writer with
          pc := .bulkDone status
          inFlightOut := wrappingDec link.writer.inFlightOut
          aclOutQueue := link.writer.aclOutQueue.eraseIdx i } }.record (.completed status))

theorem writerStep_cases {alive : Bool} {control : Status} {poll : Option (Nat × Status)}
    {link link' : Link} (h : writerStep alive control poll link = some link') :
    WriterStep alive control poll link link' := by
  unfold writerStep at h
  cases hpc : link.writer.pc <;> simp only [hpc] at h
  case fill =>
    split at h <;> cases h
    · rename_i hguard
      exact .enter hpc hguard.1 hguard.2
    · rename_i hguard
      exact .skip hpc hguard
  case recv =>
    split at h
    · rename_i packet rest hchannel
      cases h
      exact .take hpc packet rest hchannel
    · rename_i hempty
      split at h <;> cases h
      · rename_i halive
        exact .timeout hpc hempty halive
      · rename_i halive
        exact .disconnected hpc hempty (Bool.not_eq_true _ ▸ halive)
  case holding packet =>
    cases packet with
    | command packet =>
      cases h
      exact .command packet hpc
    | acl packet | iso packet =>
      cases h
      exact .submit _ packet hpc (fun _ => rfl)
  case commandWait =>
    cases h
    exact .commandComplete hpc
  case commandDone status =>
    cases h
    exact .release status (.inl hpc)
  case cancelCheck =>
    split at h <;> cases h
    · rename_i hguard
      exact .cancel hpc hguard.1 hguard.2
    · rename_i hguard
      exact .pass hpc hguard
  case emptyCheck =>
    split at h
    · rename_i hempty
      split at h <;> cases h
      · rename_i hstop
        exact .leave hpc hempty hstop
      · rename_i hstop
        exact .again hpc hempty (Bool.not_eq_true _ ▸ hstop)
    · rename_i hpending
      cases h
      exact .await hpc hpending
  case poll =>
    split at h
    · cases h
      exact .idle hpc
    · rename_i i status
      split at h <;> cases h
      rename_i hi
      exact .complete hpc i status hi
  case bulkDone status =>
    cases h
    exact .release status (.inr hpc)
  case acknowledging => cases h
  case exited => cases h

theorem writerStep_stop {alive : Bool} {control : Status} {poll : Option (Nat × Status)}
    {link link' : Link} (h : writerStep alive control poll link = some link') :
    link'.stop = link.stop := by
  cases writerStep_cases h <;> rfl

theorem writerStep_reader {alive : Bool} {control : Status} {poll : Option (Nat × Status)}
    {link link' : Link} (h : writerStep alive control poll link = some link')
    (kind : ReaderKind) : link'.reader kind = link.reader kind := by
  cases writerStep_cases h <;> cases kind <;> rfl

end BtstackRs.Transport
