import BtstackRs.Concurrent.Machine
import BtstackRs.Concurrent.Pool
import BtstackRs.Transport.Send
import BtstackRs.Transport.Usb

/-!
# The whole transport

Any number of client threads and the worker threads of every link, each with its call stack;
the `STATE` mutex; and the process-wide state it protects. Between two accesses to something
shared a thread runs without being observed, so one step is at most one such access: taking
the mutex, one block under it, one atomic operation, one channel or queue operation, entering
or leaving the packet handler. A handler is any sequence of calls of transport operations.
-/

namespace BtstackRs.Transport

open Concurrent

/-- The call sites of `emit_packet`. -/
inductive EmitSite where
  | reader (kind : ReaderKind) (link : Nat)
  | writer (link : Nat)
  | usbInfo
  deriving DecidableEq, Repr

/-- The blocks that hold the guard of `STATE`. -/
inductive Section where
  | init (config : Option TransportConfig)
  | openCheck
  | openStore (active : ActiveTransport)
  | closeTake
  | register (handler : Option Handler)
  | canSend
  | sendLookup (call : SendCall)
  | emitLookup (site : EmitSite) (packetType : UInt8) (packet : Bytes)

/-- The part of `transport_open` between its two blocks that deals with the device. -/
inductive OpenPc where
  | select (selection : UsbSelection)
  | device (device : DeviceInfo)
  | claim (device : DeviceInfo)

/-- Which worker `transport_open` spawns next, and those it has spawned. -/
inductive SpawnPc where
  | event
  | acl (eventThread : Nat)
  | writer (eventThread aclThread : Nat)

inductive Frame where
  -- At `STATE.lock()` before a block.
  | lock (s : Section)
  -- In a block, with the guard.
  | locked (s : Section)
  | opening (pc : OpenPc)
  | openCreate (endpoints : EndpointConfig)
  | openSpawn (link : Nat) (pc : SpawnPc)
  | closeStop (active : ActiveTransport)
  | closeJoinReaders (active : ActiveTransport) (remaining : List Nat)
  | closeJoinWriter (active : ActiveTransport)
  | send (call : SendCall) (handles : SendHandles) (pc : SendPc call)
  -- The handler has been read and is about to be entered.
  | emitCall (site : EmitSite) (packetType : UInt8) (packet : Bytes) (handler : Handler)
  -- Between entry and return of the handler.
  | emitRunning (site : EmitSite) (packetType : UInt8) (packet : Bytes)

/-- The functions that frames belong to. -/
inductive Fn where
  | transportInit
  | transportOpen
  | transportClose
  | transportRegisterPacketHandler
  | transportCanSendPacketNow
  | transportSendPacket
  | emitPacket
  deriving DecidableEq, Repr

def Section.fn : Section → Fn
  | init _ => .transportInit
  | openCheck | openStore _ => .transportOpen
  | closeTake => .transportClose
  | register _ => .transportRegisterPacketHandler
  | canSend => .transportCanSendPacketNow
  | sendLookup _ => .transportSendPacket
  | emitLookup _ _ _ => .emitPacket

def Frame.fn : Frame → Fn
  | lock s | locked s => s.fn
  | opening _ | openCreate _ | openSpawn _ _ => .transportOpen
  | closeStop _ | closeJoinReaders _ _ | closeJoinWriter _ => .transportClose
  | send _ _ _ => .transportSendPacket
  | emitCall _ _ _ _ | emitRunning _ _ _ => .emitPacket

def Section.site : Section → Option EmitSite
  | emitLookup site _ _ => some site
  | _ => none

def Frame.site : Frame → Option EmitSite
  | lock s | locked s => s.site
  | emitCall site _ _ _ | emitRunning site _ _ => some site
  | _ => none

/-- Whether a frame owns a clone of the channel's sender: the sends through their own clone,
`transport_open` and `transport_close` through the record. -/
def Frame.holdsSender (link : Nat) : Frame → Bool
  | lock (.openStore active) | locked (.openStore active) => active.link == link
  | openSpawn l _ => l == link
  | closeStop active | closeJoinReaders active _ | closeJoinWriter active => active.link == link
  | send _ handles _ => handles.link == link
  | _ => false

/-- What becomes of a frame: it moves on, calls another function, or returns. -/
inductive Next where
  | goto (f : Frame)
  | call (f callee : Frame)
  | ret (result : Option Int)

inductive ApiCall where
  | transportInit (config : Option TransportConfig)
  | transportOpen
  | transportClose
  | transportRegisterPacketHandler (handler : Option Handler)
  | transportCanSendPacketNow (packetType : UInt8)
  | transportSendPacket (call : SendCall)

def ApiCall.fn : ApiCall → Fn
  | transportInit _ => .transportInit
  | transportOpen => .transportOpen
  | transportClose => .transportClose
  | transportRegisterPacketHandler _ => .transportRegisterPacketHandler
  | transportCanSendPacketNow _ => .transportCanSendPacketNow
  | transportSendPacket _ => .transportSendPacket

/-- The first frame of a call, or the result of one that returns before it takes `STATE`. -/
def ApiCall.enter : ApiCall → Frame ⊕ Int
  | transportInit config => .inl (.lock (.init config))
  | transportOpen => .inl (.lock .openCheck)
  | transportClose => .inl (.lock .closeTake)
  | transportRegisterPacketHandler handler => .inl (.lock (.register handler))
  | transportCanSendPacketNow packetType =>
      if supportedType packetType then .inl (.lock .canSend) else .inr 0
  | transportSendPacket call =>
      if call.rejected then .inr (-1) else .inl (.lock (.sendLookup call))

inductive Role where
  | client
  | reader (kind : ReaderKind) (link : Nat)
  | writer (link : Nat)
  deriving DecidableEq, Repr

/-- Calls and handler invocations, in the order in which they happened. -/
inductive Event where
  | called (t : Nat) (fn : Fn)
  | returned (t : Nat) (fn : Fn) (result : Option Int)
  | entered (t : Nat) (site : EmitSite) (handler : Handler) (packetType : UInt8)
      (packet : Bytes) (size : UInt16)
  | left (t : Nat) (site : EmitSite)
  deriving DecidableEq, Repr

def Event.thread : Event → Nat
  | called t _ | returned t _ _ | entered t _ _ _ _ _ | left t _ => t

/-- `emit_packet` returns to a worker loop; `transport_open` continues by its own frame. -/
def resumeSite (site : Option EmitSite) (links : List Link) : List Link :=
  match site with
  | some (.reader kind l) =>
      links.modify l fun link => link.setReader kind (link.reader kind).resume
  | some (.writer l) => links.modify l fun link => { link with writer := link.writer.resume }
  | _ => links

structure System where
  -- The thread that holds the `STATE` mutex.
  mutex : Option Nat := none
  state : TransportState := {}
  links : List Link := []
  threads : Pool Role Frame
  log : List Event := []

namespace System

def initial (clients : Nat) (handler : Option Handler) : System :=
  { state := { packetHandler := handler }
    threads := List.replicate clients { role := .client, stack := [] } }

def setStack (σ : System) (t : Nat) (stack : List Frame) : System :=
  { σ with threads := σ.threads.setStack t stack }

def setLink (σ : System) (l : Nat) (link : Link) : System :=
  { σ with links := σ.links.set l link }

def record (σ : System) (event : Event) : System := { σ with log := σ.log ++ [event] }

def spawn (σ : System) (role : Role) : System :=
  { σ with threads := σ.threads ++ [{ role := role, stack := [] }] }

def senderAlive (σ : System) (l : Nat) : Bool :=
  σ.state.active.any (fun active => active.link == l) ||
    σ.threads.any (fun th => th.stack.any (Frame.holdsSender l))

/-- The worker's closure has returned, so that joining it returns. -/
def finished (σ : System) (t : Nat) : Bool :=
  match σ.threads[t]? with
  | none => false
  | some th =>
      match th.role with
      | .client => false
      | .reader kind l => σ.links[l]?.any (fun link => (link.reader kind).pc == .exited)
      | .writer l => σ.links[l]?.any (fun link => link.writer.pc == .exited)

def proceed (σ : System) (t : Nat) (f : Frame) (rest : List Frame) : Next → System
  | .goto g => σ.setStack t (g :: rest)
  | .call g callee => σ.setStack t (callee :: g :: rest)
  | .ret result =>
      ({ σ with links := resumeSite f.site σ.links }.setStack t rest).record
        (.returned t f.fn result)

/-- `transport_can_send_packet_now` on the record and the counter. -/
def canSendNow (σ : System) : Int :=
  match σ.state.active with
  | none => 0
  | some active =>
      match σ.links[active.link]? with
      | none => 0
      | some link => if link.outgoingPending < active.queueDepth then 1 else 0

/-- The blocks of the source: the new protected state, and what becomes of the frame. -/
def criticalSection (σ : System) : Section → TransportState × Next
  | .init config => ({ σ.state with selected := selectionOf config },.ret none)
  | .openCheck =>
      if σ.state.active.isSome then (σ.state,.ret (some 0))
      else (σ.state,.goto (.opening (.select σ.state.selected)))
  | .openStore active => ({ σ.state with active := some active },.ret (some 0))
  | .closeTake =>
      match σ.state.active with
      | none => (σ.state,.ret (some 0))
      | some active => ({ σ.state with active := none },.goto (.closeStop active))
  | .register handler => ({ σ.state with packetHandler := handler },.ret none)
  | .canSend => (σ.state,.ret (some σ.canSendNow))
  | .sendLookup call =>
      match σ.state.active with
      | none => (σ.state,.ret (some (-1)))
      | some active => (σ.state,.goto (.send call active.sendHandles .load))
  | .emitLookup site packetType packet =>
      match σ.state.packetHandler with
      | none => (σ.state,.ret none)
      | some handler => (σ.state,.goto (.emitCall site packetType packet handler))

end System

/-- What the scheduler and the environment contribute to a step. A step that does not ask
ignores it; `go` stands for an idle poll, a successful command and no spurious failure. -/
inductive Choice where
  | go
  | call (op : ApiCall)
  -- A reader's poll returns this completion.
  | completion (c : Completion)
  -- The control transfer ends with this status.
  | control (status : Status)
  -- The writer's poll returns the completion of its `i`-th pending buffer.
  | bulk (i : Nat) (status : Status)
  -- `compare_exchange_weak` fails spuriously.
  | spurious
  -- The result of `nusb::list_devices`.
  | devices (devices : List DeviceInfo)
  | openFails
  -- `claim_interface` succeeds.
  | claimed (interface : Interface)

namespace Choice

def readerPoll : Choice → Option Completion
  | completion c => some c
  | _ => none

def controlStatus : Choice → Status
  | control status => status
  | _ => .ok

def writerPoll : Choice → Option (Nat × Status)
  | bulk i status => some (i,status)
  | _ => none

def isSpurious : Choice → Bool
  | spurious => true
  | _ => false

def listDevices : Choice → Option (List DeviceInfo)
  | devices ds => some ds
  | _ => none

def opens : Choice → Bool
  | openFails => false
  | _ => true

def claim : Choice → Option Interface
  | claimed interface => some interface
  | _ => none

end Choice

structure Action where
  thread : Nat
  choice : Choice

/-- The device part of `transport_open`. Each of the three failures returns -1 before anything
was emitted or created. -/
def openNext (c : Choice) : OpenPc → Next
  | .select selection =>
      match selectDevice c.listDevices selection with
      | none => .ret (some (-1))
      | some device => .goto (.opening (.device device))
  | .device device =>
      if c.opens then .goto (.opening (.claim device)) else .ret (some (-1))
  | .claim device =>
      match c.claim with
      | none => .ret (some (-1))
      | some interface =>
          .call (.openCreate (detectEndpoints interface))
            (.lock (.emitLookup .usbInfo hciEventPacket
              (usbInfoEvent device ((usbPath device).getD []))))

def SpawnPc.role (l : Nat) : SpawnPc → Role
  | event => .reader .event l
  | acl _ => .reader .acl l
  | writer _ _ => .writer l

def SpawnPc.after (l : Nat) (t : Nat) : SpawnPc → Frame
  | event => .openSpawn l (.acl t)
  | acl eventThread => .openSpawn l (.writer eventThread t)
  | writer eventThread aclThread =>
      .lock (.openStore
        { link := l
          readerThreads := [eventThread,aclThread]
          writerThread := t
          queueDepth := outgoingQueueDepth
          queueDepth_eq := rfl })

def SendNext.toNext {call : SendCall} (handles : SendHandles) : SendNext call → Next
  | .goto pc => .goto (.send call handles pc)
  | .ret result => .ret (some result)

namespace System

def startCall (σ : System) (t : Nat) (stack : List Frame) (op : ApiCall) : System :=
  match op.enter with
  | .inl f => (σ.setStack t (f :: stack)).record (.called t op.fn)
  | .inr result => (σ.record (.called t op.fn)).record (.returned t op.fn (some result))

def frameStep (σ : System) (t : Nat) (f : Frame) (rest : List Frame) (c : Choice) :
    Option System :=
  match f with
  | .lock s =>
      if σ.mutex = none then some ({ σ with mutex := some t }.setStack t (.locked s :: rest))
      else none
  | .locked s =>
      let result := σ.criticalSection s
      some ({ σ with state := result.1, mutex := none }.proceed t f rest result.2)
  | .opening pc => some (σ.proceed t f rest (openNext c pc))
  | .openCreate endpoints =>
      let link : Link := { endpoints := endpoints }
      some ({ σ with links := σ.links ++ [link] }.proceed t f rest
        (.goto (.openSpawn σ.links.length .event)))
  | .openSpawn l pc =>
      some ((σ.proceed t f rest (.goto (pc.after l σ.threads.length))).spawn (pc.role l))
  | .closeStop active =>
      match σ.links[active.link]? with
      | none => none
      | some link =>
          some ((σ.setLink active.link { link with stop := true }).proceed t f rest
            (.goto (.closeJoinReaders active active.readerThreads)))
  | .closeJoinReaders active [] => some (σ.proceed t f rest (.goto (.closeJoinWriter active)))
  | .closeJoinReaders active (w :: ws) =>
      if σ.finished w then some (σ.proceed t f rest (.goto (.closeJoinReaders active ws)))
      else none
  | .closeJoinWriter active =>
      if σ.finished active.writerThread then some (σ.proceed t f rest (.ret (some 0))) else none
  | .send call handles pc =>
      match σ.links[handles.link]? with
      | none => none
      | some link =>
          let result := sendStep t call handles c.isSpurious pc link
          some ((σ.setLink handles.link result.1).proceed t f rest (result.2.toNext handles))
  | .emitCall site packetType packet handler =>
      some ((σ.setStack t (.emitRunning site packetType packet :: rest)).record
        (.entered t site handler packetType packet (UInt16.ofNat packet.length)))
  | .emitRunning site _ _ =>
      match c with
      | .call op => some (σ.startCall t (f :: rest) op)
      | _ => some ((σ.record (.left t site)).proceed t f rest (.ret none))

def idleStep (σ : System) (t : Nat) (role : Role) (c : Choice) : Option System :=
  match role with
  | .client =>
      match c with
      | .call op => some (σ.startCall t [] op)
      | _ => none
  | .reader kind l =>
      match σ.links[l]? with
      | none => none
      | some link =>
          match readerStep kind link.stop c.readerPoll (link.reader kind) with
          | none => none
          | some r =>
              let σ' := σ.setLink l (link.setReader kind r)
              match r.delivery with
              | none => some σ'
              | some data =>
                  some (σ'.setStack t [.lock (.emitLookup (.reader kind l) kind.packetType data)])
  | .writer l =>
      match σ.links[l]? with
      | none => none
      | some link =>
          match writerStep (σ.senderAlive l) c.controlStatus c.writerPoll link with
          | none => none
          | some link' =>
              let σ' := σ.setLink l link'
              if link'.writer.pc = .acknowledging then
                some (σ'.setStack t
                  [.lock (.emitLookup (.writer l) hciEventPacket packetSentEvent)])
              else some σ'

def step (σ : System) (a : Action) : Option System :=
  match σ.threads[a.thread]? with
  | none => none
  | some th =>
      match th.stack with
      | [] => σ.idleStep a.thread th.role a.choice
      | f :: rest => σ.frameStep a.thread f rest a.choice

end System

def machine : Machine System Action := ⟨System.step⟩

/-- Client threads before any transport operation; a handler may already be registered. -/
def Initial (σ : System) : Prop := ∃ clients handler, σ = System.initial clients handler

def Action.by (t : Nat) (choices : List Choice) : List Action := choices.map (⟨t,·⟩)

/-- The steps of a `transport_open` that succeeds undisturbed with the device given. The handler
is called in between if one is registered; `delivery` lists the steps of that call. -/
def openRun (t : Nat) (device : DeviceInfo) (interface : Interface) (delivery : List Choice) :
    List Action :=
  Action.by t [.call .transportOpen,.go,.go,.devices [device],.go,.claimed interface,.go,.go] ++
    Action.by t delivery ++ Action.by t [.go,.go,.go,.go,.go,.go]

def dongle : DeviceInfo :=
  { vendorId := 0x0A12
    productId := 1
    busNumber := 1
    sysfsName := some ['1','-','2']
    interfaces := [{ interfaceClass := 0xE0, subclass := 1, protocol := 1 }] }

def dongleInterface : Interface := { interfaceNumber := 0, descriptors := [] }

/-- The states of every run, from any number of clients. -/
def Reachable (σ : System) : Prop := machine.ReachableBy Initial Machine.anyAction σ

end BtstackRs.Transport
