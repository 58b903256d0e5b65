import BtstackRs.Transport.Types

/-!
# The reader loops

`spawn_event_reader` and `spawn_acl_reader` are one loop over different endpoints. Its local
variables are the state of the nusb queue; `readerStep` is one step of the loop between two
shared accesses. A cancelled transfer completes, so the drain never blocks for ever; a poll of
a live queue may find nothing for as long as the device is silent.
-/

namespace BtstackRs.Transport

inductive ReaderKind where
  | event
  | acl
  deriving DecidableEq, Repr

namespace ReaderKind

def inFlight : ReaderKind → Nat
  | event => eventInFlight
  | acl => aclInFlight

def transferSize : ReaderKind → Nat
  | event => eventTransferSize
  | acl => aclTransferSize

def packetType : ReaderKind → UInt8
  | event => hciEventPacket
  | acl => hciAclDataPacket

end ReaderKind

inductive ReaderPc where
  | start
  -- At `while queue.pending() > 0`.
  | head
  | completed (completion : Completion)
  -- In the call of `emit_packet`.
  | delivering (completion : Completion)
  | delivered (completion : Completion)
  -- In `cancel_and_drain_reader_queue`, after `cancel_all`.
  | draining
  | exited
  deriving DecidableEq, Repr

structure Reader where
  pc : ReaderPc := .start
  -- Transfers in the queue that have not been returned by `next_complete`.
  pending : Nat := 0
  cancelled : Bool := false
  deriving DecidableEq, Repr

/-- One step of the loop. `stop` is the current value of the flag and `poll` what
`poll_once(queue.next_complete())` finds if this step polls. While `emit_packet` runs the loop
takes no step of its own. -/
def readerStep (kind : ReaderKind) (stop : Bool) (poll : Option Completion) (r : Reader) :
    Option Reader :=
  match r.pc with
  | .start => some { r with pc := .head, pending := kind.inFlight }
  | .head =>
      if r.pending = 0 then some { r with pc := .exited }
      else match poll with
        | none => some r -- thread::sleep(POLL_INTERVAL), then around the loop
        | some completion =>
            if completion.data.length ≤ kind.transferSize then
              some { r with pc := .completed completion, pending := r.pending-1 }
            else none
  | .completed completion =>
      if completion.status = .ok ∧ completion.data ≠ [] then
        some { r with pc := .delivering completion }
      else some { r with pc := .delivered completion }
  | .delivering _ => none
  | .delivered _ =>
      -- A stalled endpoint is unhalted first; the result of `clear_halt` is ignored.
      if stop then some { r with pc := .draining, cancelled := true }
      else some { r with pc := .head, pending := r.pending+1 }
  | .draining =>
      if r.pending = 0 then some { r with pc := .head }
      else some { r with pending := r.pending-1 }
  | .exited => none

def Reader.delivery (r : Reader) : Option Bytes :=
  match r.pc with
  | .delivering completion => some completion.data
  | _ => none

/-- `emit_packet` has returned to the loop. -/
def Reader.resume (r : Reader) : Reader :=
  match r.pc with
  | .delivering completion => { r with pc := .delivered completion }
  | _ => r

/-- The steps of the loop, guards included. -/
inductive ReaderStep (kind : ReaderKind) (stop : Bool) (poll : Option Completion) (r : Reader) :
    Reader → Prop where
  | start (hpc : r.pc = .start) :
      ReaderStep kind stop poll r { r with pc := .head, pending := kind.inFlight }
  | leave (hpc : r.pc = .head) (hpending : r.pending = 0) :
      ReaderStep kind stop poll r { r with pc := .exited }
  | idle (hpc : r.pc = .head) (hpending : r.pending ≠ 0) (hpoll : poll = none) :
      ReaderStep kind stop poll r r
  | take (hpc : r.pc = .head) (hpending : r.pending ≠ 0) (completion : Completion)
      (hpoll : poll = some completion) (hsize : completion.data.length ≤ kind.transferSize) :
      ReaderStep kind stop poll r { r with pc := .completed completion, pending := r.pending-1 }
  | deliver (completion : Completion) (hpc : r.pc = .completed completion)
      (hdata : completion.status = .ok ∧ completion.data ≠ []) :
      ReaderStep kind stop poll r { r with pc := .delivering completion }
  | skip (completion : Completion) (hpc : r.pc = .completed completion)
      (hdata : ¬(completion.status = .ok ∧ completion.data ≠ [])) :
      ReaderStep kind stop poll r { r with pc := .delivered completion }
  | cancel (completion : Completion) (hpc : r.pc = .delivered completion) (hstop : stop = true) :
      ReaderStep kind stop poll r { r with pc := .draining, cancelled := true }
  | submit (completion : Completion) (hpc : r.pc = .delivered completion) (hstop : stop = false) :
      ReaderStep kind stop poll r { r with pc := .head, pending := r.pending+1 }
  | drained (hpc : r.pc = .draining) (hpending : r.pending = 0) :
      ReaderStep kind stop poll r { r with pc := .head }
  | drain (hpc : r.pc = .draining) (hpending : r.pending ≠ 0) :
      ReaderStep kind stop poll r { r with pending := r.pending-1 }

theorem readerStep_cases {kind : ReaderKind} {stop : Bool} {poll : Option Completion}
    {r r' : Reader} (h : readerStep kind stop poll r = some r') : ReaderStep kind stop poll r r' := by
  unfold readerStep at h
  cases hpc : r.pc <;> simp only [hpc] at h
  case start =>
    cases h
    exact .start hpc
  case head =>
    split at h
    · rename_i hpending
      cases h
      exact .leave hpc hpending
    · rename_i hpending
      split at h
      · cases h
        exact .idle hpc hpending rfl
      · rename_i completion
        split at h <;> cases h
        rename_i hsize
        exact .take hpc hpending completion rfl hsize
  case completed completion =>
    split at h <;> cases h
    · rename_i hdata
      exact .deliver completion hpc hdata
    · rename_i hdata
      exact .skip completion hpc hdata
  case delivering completion => cases h
  case delivered completion =>
    split at h <;> cases h
    · rename_i hstop
      exact .cancel completion hpc hstop
    · rename_i hstop
      exact .submit completion hpc (Bool.not_eq_true _ ▸ hstop)
  case draining =>
    split at h <;> cases h
    · rename_i hpending
      exact .drained hpc hpending
    · rename_i hpending
      rw [← hpc]
      exact .drain hpc hpending
  case exited => cases h

def Reader.Streaming (kind : ReaderKind) (r : Reader) : Prop :=
  match r.pc with
  | .start => True
  | .head => r.pending = kind.inFlight
  | .completed _ | .delivering _ | .delivered _ => r.pending+1 = kind.inFlight
  | .draining | .exited => False

theorem Reader.Streaming.not_exited {kind : ReaderKind} {r : Reader} (h : r.Streaming kind) :
    r.pc ≠ .exited := by
  intro hpc
  simp [Streaming,hpc] at h

theorem Reader.Streaming.resume {kind : ReaderKind} {r : Reader} (h : r.Streaming kind) :
    r.resume.Streaming kind := by
  cases hpc : r.pc <;> simp_all [Streaming,Reader.resume]

theorem readerStep_streaming {kind : ReaderKind} {stop : Bool} {poll : Option Completion}
    {r r' : Reader} (h : r.Streaming kind)
    (hunseen : ∀ completion, r.pc = .delivered completion → stop = false)
    (hstep : readerStep kind stop poll r = some r') : r'.Streaming kind := by
  have hpos : 0 < kind.inFlight := by cases kind <;> decide
  cases readerStep_cases hstep with
  | start hpc => rfl
  | leave hpc hpending =>
    rw [Reader.Streaming,hpc] at h
    exact absurd (h.symm.trans hpending) (Nat.ne_of_gt hpos)
  | idle hpc hpending hpoll => exact h
  | take hpc hpending completion hpoll hsize =>
    rw [Reader.Streaming,hpc] at h
    show r.pending-1+1 = kind.inFlight
    omega
  | deliver completion hpc hdata | skip completion hpc hdata | submit completion hpc hstop =>
    rw [Reader.Streaming,hpc] at h
    exact h
  | cancel completion hpc hstop =>
    rw [hunseen completion hpc] at hstop
    cases hstop
  | drained hpc hpending | drain hpc hpending =>
    rw [Reader.Streaming,hpc] at h
    exact h.elim

end BtstackRs.Transport
