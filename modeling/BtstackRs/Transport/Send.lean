import BtstackRs.Transport.Writer

/-!
# Sending a packet

The part of `transport_send_packet` that runs on its own clones of the sender and the counter,
without `STATE`: `try_reserve_send_slot`, the classification, `try_send` and the rollbacks.
-/

namespace BtstackRs.Transport

inductive SendPc (call : SendCall) where
  -- At `pending.load` of `try_reserve_send_slot`.
  | load
  -- At the head of its loop, with the last value seen.
  | reserve (current : Nat)
  -- A slot is reserved and the packet is built.
  | trySend (packet : OutgoingPacket) (hpacket : outgoingOf call = some packet)
  -- A slot is reserved and has to be given back.
  | rollback

inductive SendNext (call : SendCall) where
  | goto (pc : SendPc call)
  | ret (result : Int)

/-- What a send does with its reserved slot. -/
def SendPc.classified (call : SendCall) : SendPc call :=
  match h : outgoingOf call with
  | some packet => .trySend packet h
  | none => .rollback

/-- One step of a send. `spurious` says whether a `compare_exchange_weak` of this step fails
although the counter has the expected value. -/
def sendStep (t : Nat) (call : SendCall) (handles : SendHandles) (spurious : Bool)
    (pc : SendPc call) (link : Link) : Link × SendNext call :=
  match pc with
  | .load => (link,.goto (.reserve link.outgoingPending))
  | .reserve current =>
      if current ≥ handles.queueDepth then (link,.ret (-1))
      else if link.outgoingPending = current ∧ spurious = false then
        ({ link with outgoingPending := current+1 }.record (.reserved t),.goto (.classified call))
      else (link,.goto (.reserve link.outgoingPending))
  | .trySend packet _ =>
      if link.receiverDropped then (link,.goto .rollback) -- TrySendError::Disconnected
      else if link.channel.length ≥ outgoingQueueDepth then
        (link,.goto .rollback) -- TrySendError::Full
      else ({ link with channel := link.channel ++ [packet] }.record (.accepted t call),.ret 0)
  | .rollback =>
      ({ link with outgoingPending := wrappingDec link.outgoingPending }.record (.rolledBack t),
        .ret (-1))

def SendPc.reserved {call : SendCall} : SendPc call → Nat
  | .load | .reserve _ => 0
  | .trySend _ _ | .rollback => 1

@[simp] theorem SendPc.reserved_load (call : SendCall) :
    (SendPc.load : SendPc call).reserved = 0 := rfl

@[simp] theorem SendPc.reserved_reserve (call : SendCall) (current : Nat) :
    (SendPc.reserve current : SendPc call).reserved = 0 := rfl

@[simp] theorem SendPc.reserved_rollback (call : SendCall) :
    (SendPc.rollback : SendPc call).reserved = 1 := rfl

@[simp] theorem SendPc.reserved_trySend {call : SendCall} (packet : OutgoingPacket)
    (hpacket : outgoingOf call = some packet) : (SendPc.trySend packet hpacket).reserved = 1 := rfl

@[simp] theorem SendPc.classified_reserved (call : SendCall) :
    (SendPc.classified call).reserved = 1 := by
  unfold SendPc.classified
  split <;> rfl

def SendNext.reserved {call : SendCall} : SendNext call → Nat
  | .goto pc => pc.reserved
  | .ret _ => 0

@[simp] theorem SendNext.reserved_goto {call : SendCall} (pc : SendPc call) :
    (SendNext.goto pc).reserved = pc.reserved := rfl

@[simp] theorem SendNext.reserved_ret {call : SendCall} (result : Int) :
    (SendNext.ret result : SendNext call).reserved = 0 := rfl

/-- The steps of a send, guards included; what is proved about them is proved from these. -/
inductive SendStep (t : Nat) (call : SendCall) (handles : SendHandles) (spurious : Bool)
    (link : Link) : SendPc call → Link → SendNext call → Prop where
  | load : SendStep t call handles spurious link .load link
      (.goto (.reserve link.outgoingPending))
  | refuse (current : Nat) (hfull : handles.queueDepth ≤ current) :
      SendStep t call handles spurious link (.reserve current) link (.ret (-1))
  | reserve (current : Nat) (hroom : current < handles.queueDepth)
      (hcurrent : link.outgoingPending = current) (hswaps : spurious = false) :
      SendStep t call handles spurious link (.reserve current)
        ({ link with outgoingPending := current+1 }.record (.reserved t))
        (.goto (.classified call))
  | retry (current : Nat) (hroom : current < handles.queueDepth)
      (hother : ¬(link.outgoingPending = current ∧ spurious = false)) :
      SendStep t call handles spurious link (.reserve current) link
        (.goto (.reserve link.outgoingPending))
  | fail (packet : OutgoingPacket) (hpacket : outgoingOf call = some packet)
      (hblocked : link.receiverDropped = true ∨ outgoingQueueDepth ≤ link.channel.length) :
      SendStep t call handles spurious link (.trySend packet hpacket) link (.goto .rollback)
  | accept (packet : OutgoingPacket) (hpacket : outgoingOf call = some packet)
      (hreceiver : link.receiverDropped = false)
      (hroom : link.channel.length < outgoingQueueDepth) :
      SendStep t call handles spurious link (.trySend packet hpacket)
        ({ link with channel := link.channel ++ [packet] }.record (.accepted t call)) (.ret 0)
  | rollback : SendStep t call handles spurious link .rollback
      ({ link with outgoingPending := wrappingDec link.outgoingPending }.record (.rolledBack t))
      (.ret (-1))

section

variable {t : Nat} {call : SendCall} {handles : SendHandles} {spurious : Bool} {pc : SendPc call}
  {link link' : Link} {next : SendNext call}
  (h : sendStep t call handles spurious pc link = (link',next))
include h

theorem sendStep_cases : SendStep t call handles spurious link pc link' next := by
  unfold sendStep at h
  cases pc with
  | load =>
    cases h
    exact .load
  | reserve current =>
    dsimp only at h
    split at h
    · rename_i hfull
      cases h
      exact .refuse current hfull
    · rename_i hroom
      split at h <;> cases h
      · rename_i hexpected
        exact .reserve current (Nat.not_le.mp hroom) hexpected.1 hexpected.2
      · rename_i hother
        exact .retry current (Nat.not_le.mp hroom) hother
  | trySend packet hpacket =>
    dsimp only at h
    split at h
    · rename_i hdropped
      cases h
      exact .fail packet hpacket (.inl hdropped)
    · rename_i hreceiver
      split at h <;> cases h
      · rename_i hfull
        exact .fail packet hpacket (.inr hfull)
      · rename_i hroom
        exact .accept packet hpacket (Bool.not_eq_true _ ▸ hreceiver) (Nat.not_le.mp hroom)
  | rollback =>
    cases h
    exact .rollback

theorem sendStep_writer : link'.writer = link.writer := by
  cases sendStep_cases h <;> rfl

theorem sendStep_stop : link'.stop = link.stop := by
  cases sendStep_cases h <;> rfl

theorem sendStep_reader (kind : ReaderKind) : link'.reader kind = link.reader kind := by
  cases sendStep_cases h <;> cases kind <;> rfl

end

end BtstackRs.Transport
