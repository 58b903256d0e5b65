import BtstackRs.Transport.System

/-!
# What one step can do

Every step replaces the top of one thread's stack, may spawn a thread, and gives new values to
the mutex, the protected state, the links and the log. `Move` lists the possibilities, guards
included; the invariants of the transport are proved from it and never unfold the step function.
-/

namespace BtstackRs.Transport

open Concurrent

structure Delta where
  top : List Frame
  top' : List Frame
  spawned : List Role
  mutex : Option Nat
  state : TransportState
  links : List Link
  events : List Event

/-- Carry out a local effect on thread `t`, whose remaining frames are `rest`. -/
def System.apply (σ : System) (t : Nat) (rest : List Frame) (d : Delta) : System :=
  { mutex := d.mutex
    state := d.state
    links := d.links
    threads := σ.threads.setStack t (d.top' ++ rest) ++
      d.spawned.map (fun role => { role := role, stack := [] })
    log := σ.log ++ d.events }

/-- A thread that can make a call: a client in no call, or a handler. -/
inductive CanCall : Role → List Frame → Prop where
  | client : CanCall .client []
  | handler (role : Role) (site : EmitSite) (packetType : UInt8) (packet : Bytes)
      (rest : List Frame) : CanCall role (.emitRunning site packetType packet :: rest)

inductive SectionGoto (σ : System) : Section → TransportState → Frame → Prop where
  | openCheck (hclosed : σ.state.active = none) :
      SectionGoto σ .openCheck σ.state (.opening (.select σ.state.selected))
  | closeTake (active : ActiveTransport) (hactive : σ.state.active = some active) :
      SectionGoto σ .closeTake { σ.state with active := none } (.closeStop active)
  | sendLookup (call : SendCall) (active : ActiveTransport)
      (hactive : σ.state.active = some active) :
      SectionGoto σ (.sendLookup call) σ.state (.send call active.sendHandles .load)
  | emitLookup (site : EmitSite) (packetType : UInt8) (packet : Bytes) (handler : Handler)
      (hhandler : σ.state.packetHandler = some handler) :
      SectionGoto σ (.emitLookup site packetType packet) σ.state
        (.emitCall site packetType packet handler)

inductive SectionRet (σ : System) : Section → TransportState → Option Int → Prop where
  | init (config : Option TransportConfig) :
      SectionRet σ (.init config) { σ.state with selected := selectionOf config } none
  | openCheck (active : ActiveTransport) (hactive : σ.state.active = some active) :
      SectionRet σ .openCheck σ.state (some 0)
  | openStore (active : ActiveTransport) :
      SectionRet σ (.openStore active) { σ.state with active := some active } (some 0)
  | closeTake (hclosed : σ.state.active = none) : SectionRet σ .closeTake σ.state (some 0)
  | register (handler : Option Handler) :
      SectionRet σ (.register handler) { σ.state with packetHandler := handler } none
  | canSend : SectionRet σ .canSend σ.state (some σ.canSendNow)
  | sendLookup (call : SendCall) (hclosed : σ.state.active = none) :
      SectionRet σ (.sendLookup call) σ.state (some (-1))
  | emitLookup (site : EmitSite) (packetType : UInt8) (packet : Bytes)
      (hhandler : σ.state.packetHandler = none) :
      SectionRet σ (.emitLookup site packetType packet) σ.state none

inductive Enters : ApiCall → Section → Prop where
  | init (config : Option TransportConfig) : Enters (.transportInit config) (.init config)
  | openCheck : Enters .transportOpen .openCheck
  | closeTake : Enters .transportClose .closeTake
  | register (handler : Option Handler) :
      Enters (.transportRegisterPacketHandler handler) (.register handler)
  | canSend (packetType : UInt8) (hsupported : supportedType packetType = true) :
      Enters (.transportCanSendPacketNow packetType) .canSend
  | sendLookup (call : SendCall) (haccepted : call.rejected = false) :
      Enters (.transportSendPacket call) (.sendLookup call)

/-- The local effects that a step of thread `t` can have. -/
inductive Move (σ : System) (t : Nat) (c : Choice) (role : Role) (rest : List Frame) :
    Delta → Prop where
  | lock (s : Section) (hfree : σ.mutex = none) :
      Move σ t c role rest ⟨[.lock s],[.locked s],[],some t,σ.state,σ.links,[]⟩
  | sectionGoto (s : Section) (state : TransportState) (g : Frame)
      (hsection : SectionGoto σ s state g) :
      Move σ t c role rest ⟨[.locked s],[g],[],none,state,σ.links,[]⟩
  | sectionRet (s : Section) (state : TransportState) (result : Option Int)
      (hsection : SectionRet σ s state result) :
      Move σ t c role rest ⟨[.locked s],[],[],none,state,resumeSite s.site σ.links,
        [.returned t s.fn result]⟩
  | openingGoto (pc pc' : OpenPc) :
      Move σ t c role rest ⟨[.opening pc],[.opening pc'],[],σ.mutex,σ.state,σ.links,[]⟩
  | openingFail (pc : OpenPc) :
      Move σ t c role rest ⟨[.opening pc],[],[],σ.mutex,σ.state,σ.links,
        [.returned t .transportOpen (some (-1))]⟩
  | openingClaim (pc : OpenPc) (endpoints : EndpointConfig) (packet : Bytes) :
      Move σ t c role rest ⟨[.opening pc],
        [.lock (.emitLookup .usbInfo hciEventPacket packet),.openCreate endpoints],
        [],σ.mutex,σ.state,σ.links,[]⟩
  | create (endpoints : EndpointConfig) :
      Move σ t c role rest ⟨[.openCreate endpoints],[.openSpawn σ.links.length .event],[],
        σ.mutex,σ.state,σ.links ++ [{ endpoints := endpoints }],[]⟩
  | spawn (l : Nat) (pc : SpawnPc) :
      Move σ t c role rest ⟨[.openSpawn l pc],[pc.after l σ.threads.length],[pc.role l],
        σ.mutex,σ.state,σ.links,[]⟩
  | stop (active : ActiveTransport) (link : Link) (hlink : σ.links[active.link]? = some link) :
      Move σ t c role rest ⟨[.closeStop active],
        [.closeJoinReaders active active.readerThreads],[],σ.mutex,σ.state,
        σ.links.set active.link { link with stop := true },[]⟩
  | joinedReaders (active : ActiveTransport) :
      Move σ t c role rest ⟨[.closeJoinReaders active []],[.closeJoinWriter active],[],
        σ.mutex,σ.state,σ.links,[]⟩
  | joinReader (active : ActiveTransport) (w : Nat) (ws : List Nat)
      (hfinished : σ.finished w = true) :
      Move σ t c role rest ⟨[.closeJoinReaders active (w :: ws)],
        [.closeJoinReaders active ws],[],σ.mutex,σ.state,σ.links,[]⟩
  | joinWriter (active : ActiveTransport) (hfinished : σ.finished active.writerThread = true) :
      Move σ t c role rest ⟨[.closeJoinWriter active],[],[],σ.mutex,σ.state,σ.links,
        [.returned t .transportClose (some 0)]⟩
  | sendGoto (call : SendCall) (handles : SendHandles) (pc pc' : SendPc call) (link link' : Link)
      (hlink : σ.links[handles.link]? = some link)
      (hsend : sendStep t call handles c.isSpurious pc link = (link',.goto pc')) :
      Move σ t c role rest ⟨[.send call handles pc],[.send call handles pc'],[],σ.mutex,
        σ.state,σ.links.set handles.link link',[]⟩
  | sendRet (call : SendCall) (handles : SendHandles) (pc : SendPc call) (link link' : Link)
      (result : Int) (hlink : σ.links[handles.link]? = some link)
      (hsend : sendStep t call handles c.isSpurious pc link = (link',.ret result)) :
      Move σ t c role rest ⟨[.send call handles pc],[],[],σ.mutex,
        σ.state,σ.links.set handles.link link',
        [.returned t .transportSendPacket (some result)]⟩
  | enter (site : EmitSite) (packetType : UInt8) (packet : Bytes) (handler : Handler) :
      Move σ t c role rest ⟨[.emitCall site packetType packet handler],
        [.emitRunning site packetType packet],[],σ.mutex,σ.state,σ.links,
        [.entered t site handler packetType packet (UInt16.ofNat packet.length)]⟩
  | leave (site : EmitSite) (packetType : UInt8) (packet : Bytes) :
      Move σ t c role rest ⟨[.emitRunning site packetType packet],[],[],σ.mutex,σ.state,
        resumeSite (some site) σ.links,[.left t site,.returned t .emitPacket none]⟩
  | call (op : ApiCall) (s : Section) (hchoice : c = .call op) (hcan : CanCall role rest)
      (henters : Enters op s) :
      Move σ t c role rest ⟨[],[.lock s],[],σ.mutex,σ.state,σ.links,[.called t op.fn]⟩
  | callRet (op : ApiCall) (result : Int) (hchoice : c = .call op) (hcan : CanCall role rest)
      (henter : op.enter = .inr result) :
      Move σ t c role rest ⟨[],[],[],σ.mutex,σ.state,σ.links,
        [.called t op.fn,.returned t op.fn (some result)]⟩
  | reader (kind : ReaderKind) (l : Nat) (link : Link) (r : Reader)
      (hrole : role = .reader kind l) (hrest : rest = []) (hlink : σ.links[l]? = some link)
      (hreader : readerStep kind link.stop c.readerPoll (link.reader kind) = some r)
      (hquiet : r.delivery = none) :
      Move σ t c role rest ⟨[],[],[],σ.mutex,σ.state,
        σ.links.set l (link.setReader kind r),[]⟩
  | readerDeliver (kind : ReaderKind) (l : Nat) (link : Link) (r : Reader) (data : Bytes)
      (hrole : role = .reader kind l) (hrest : rest = []) (hlink : σ.links[l]? = some link)
      (hreader : readerStep kind link.stop c.readerPoll (link.reader kind) = some r)
      (hdata : r.delivery = some data) :
      Move σ t c role rest ⟨[],[.lock (.emitLookup (.reader kind l) kind.packetType data)],[],
        σ.mutex,σ.state,σ.links.set l (link.setReader kind r),[]⟩
  | writer (l : Nat) (link link' : Link) (hrole : role = .writer l) (hrest : rest = [])
      (hlink : σ.links[l]? = some link)
      (hwriter : writerStep (σ.senderAlive l) c.controlStatus c.writerPoll link = some link')
      (hquiet : link'.writer.pc ≠ .acknowledging) :
      Move σ t c role rest ⟨[],[],[],σ.mutex,σ.state,σ.links.set l link',[]⟩
  | writerAcknowledge (l : Nat) (link link' : Link) (hrole : role = .writer l)
      (hrest : rest = []) (hlink : σ.links[l]? = some link)
      (hwriter : writerStep (σ.senderAlive l) c.controlStatus c.writerPoll link = some link')
      (hack : link'.writer.pc = .acknowledging) :
      Move σ t c role rest ⟨[],[.lock (.emitLookup (.writer l) hciEventPacket packetSentEvent)],
        [],σ.mutex,σ.state,σ.links.set l link',[]⟩

/-- A step is a move on top of the stepping thread's stack. -/
inductive Moves (σ : System) (a : Action) : System → Prop where
  | intro (th : Thread Role Frame) (rest : List Frame) (d : Delta)
      (hthread : σ.threads[a.thread]? = some th) (hstack : th.stack = d.top ++ rest)
      (hmove : Move σ a.thread a.choice th.role rest d) : Moves σ a (σ.apply a.thread rest d)

private theorem Moves.of_eq {σ σ' : System} {a : Action} {th : Thread Role Frame}
    {rest : List Frame} {d : Delta} (hthread : σ.threads[a.thread]? = some th)
    (hmove : Move σ a.thread a.choice th.role rest d) (hstack : th.stack = d.top ++ rest)
    (h : σ.apply a.thread rest d = σ') : Moves σ a σ' := h ▸ .intro th rest d hthread hstack hmove

private theorem enters_of_enter {op : ApiCall} {f : Frame} (h : op.enter = .inl f) :
    ∃ s, f = .lock s ∧ Enters op s := by
  cases op with
  | transportCanSendPacketNow packetType =>
    simp only [ApiCall.enter] at h
    split at h <;> cases h
    rename_i hsupported
    exact ⟨_,rfl,.canSend packetType hsupported⟩
  | transportSendPacket call =>
    simp only [ApiCall.enter] at h
    split at h <;> cases h
    rename_i haccepted
    exact ⟨_,rfl,.sendLookup call (by simpa using haccepted)⟩
  | _ =>
    cases h
    exact ⟨_,rfl,by constructor⟩

private theorem startCall_moves {σ : System} {a : Action} {th : Thread Role Frame}
    (hthread : σ.threads[a.thread]? = some th) (hcan : CanCall th.role th.stack) {op : ApiCall}
    (hchoice : a.choice = .call op) : Moves σ a (σ.startCall a.thread th.stack op) := by
  unfold System.startCall
  cases henter : op.enter with
  | inl f =>
    obtain ⟨s,rfl,henters⟩ := enters_of_enter henter
    apply Moves.of_eq hthread (.call op s hchoice hcan henters) rfl
    simp [System.apply,System.setStack,System.record]
  | inr result =>
    apply Moves.of_eq hthread (.callRet op result hchoice hcan henter) rfl
    simp [System.apply,System.record,Pool.setStack_self hthread]

private theorem idleStep_moves {σ σ' : System} {a : Action} {th : Thread Role Frame}
    (hthread : σ.threads[a.thread]? = some th) (hstack : th.stack = [])
    (h : σ.idleStep a.thread th.role a.choice = some σ') : Moves σ a σ' := by
  have hself : σ.threads.setStack a.thread [] = σ.threads := by
    rw [← hstack,Pool.setStack_self hthread]
  unfold System.idleStep at h
  split at h
  · rename_i hrole
    split at h
    · rename_i op hchoice
      cases h
      rw [← hstack]
      exact startCall_moves hthread (by rw [hrole,hstack]; exact .client) hchoice
    · cases h
  · rename_i kind l hrole
    split at h
    · cases h
    · rename_i link hlink
      split at h
      · cases h
      · rename_i r hreader
        dsimp only at h
        split at h
        · rename_i hquiet
          cases h
          apply Moves.of_eq hthread (.reader kind l link r hrole rfl hlink hreader hquiet) hstack
          simp [System.apply,System.setLink,hself]
        · rename_i data hdata
          cases h
          apply Moves.of_eq hthread
            (.readerDeliver kind l link r data hrole rfl hlink hreader hdata) hstack
          simp [System.apply,System.setLink,System.setStack]
  · rename_i l hrole
    split at h
    · cases h
    · rename_i link hlink
      split at h
      · cases h
      · rename_i link' hwriter
        dsimp only at h
        split at h
        · rename_i hack
          cases h
          apply Moves.of_eq hthread
            (.writerAcknowledge l link link' hrole rfl hlink hwriter hack) hstack
          simp [System.apply,System.setLink,System.setStack]
        · rename_i hquiet
          cases h
          apply Moves.of_eq hthread (.writer l link link' hrole rfl hlink hwriter hquiet) hstack
          simp [System.apply,System.setLink,hself]

private theorem opening_moves {σ : System} {a : Action} {th : Thread Role Frame} {pc : OpenPc}
    {rest : List Frame} (hthread : σ.threads[a.thread]? = some th)
    (hstack : th.stack = .opening pc :: rest) :
    Moves σ a (σ.proceed a.thread (.opening pc) rest (openNext a.choice pc)) := by
  cases pc with
  | select selection =>
    dsimp only [openNext]
    split
    · apply Moves.of_eq hthread (.openingFail (.select selection)) hstack
      simp [System.apply,System.proceed,System.setStack,System.record,Frame.site,Frame.fn,
        resumeSite]
    · rename_i device _
      apply Moves.of_eq hthread
        (.openingGoto (.select selection) (.device device)) hstack
      simp [System.apply,System.proceed,System.setStack]
  | device device =>
    dsimp only [openNext]
    split
    · apply Moves.of_eq hthread
        (.openingGoto (.device device) (.claim device)) hstack
      simp [System.apply,System.proceed,System.setStack]
    · apply Moves.of_eq hthread (.openingFail (.device device)) hstack
      simp [System.apply,System.proceed,System.setStack,System.record,Frame.site,Frame.fn,
        resumeSite]
  | claim device =>
    dsimp only [openNext]
    split
    · apply Moves.of_eq hthread (.openingFail (.claim device)) hstack
      simp [System.apply,System.proceed,System.setStack,System.record,Frame.site,Frame.fn,
        resumeSite]
    · rename_i interface _
      apply Moves.of_eq hthread
        (.openingClaim (.claim device) (detectEndpoints interface)
          (usbInfoEvent device ((usbPath device).getD []))) hstack
      simp [System.apply,System.proceed,System.setStack]

private theorem sectionGoto_of_eq {σ : System} {s : Section} {state : TransportState} {g : Frame}
    (h : σ.criticalSection s = (state,.goto g)) : SectionGoto σ s state g := by
  cases s <;> simp only [System.criticalSection] at h
  case openCheck =>
    split at h <;> cases h
    rename_i hclosed
    exact .openCheck (by simpa using hclosed)
  case closeTake =>
    split at h <;> cases h
    rename_i active hactive
    exact .closeTake active hactive
  case sendLookup call =>
    split at h <;> cases h
    rename_i active hactive
    exact .sendLookup call active hactive
  case emitLookup site packetType packet =>
    split at h <;> cases h
    rename_i handler hhandler
    exact .emitLookup site packetType packet handler hhandler
  all_goals cases h

private theorem sectionRet_of_eq {σ : System} {s : Section} {state : TransportState}
    {result : Option Int} (h : σ.criticalSection s = (state,.ret result)) :
    SectionRet σ s state result := by
  cases s <;> simp only [System.criticalSection] at h
  case openCheck =>
    split at h <;> cases h
    rename_i hopen
    obtain ⟨active,hactive⟩ := Option.isSome_iff_exists.mp hopen
    exact .openCheck active hactive
  case closeTake =>
    split at h <;> cases h
    rename_i hclosed
    exact .closeTake hclosed
  case sendLookup call =>
    split at h <;> cases h
    rename_i hclosed
    exact .sendLookup call hclosed
  case emitLookup site packetType packet =>
    split at h <;> cases h
    rename_i hhandler
    exact .emitLookup site packetType packet hhandler
  all_goals
    cases h
    constructor

private theorem locked_moves {σ : System} {a : Action} {th : Thread Role Frame} {s : Section}
    {rest : List Frame} (hthread : σ.threads[a.thread]? = some th)
    (hstack : th.stack = .locked s :: rest) :
    Moves σ a ({ σ with state := (σ.criticalSection s).1, mutex := none }.proceed a.thread
      (.locked s) rest (σ.criticalSection s).2) := by
  rcases hsection : σ.criticalSection s with ⟨state,next⟩
  cases next with
  | goto g =>
    apply Moves.of_eq hthread (.sectionGoto s state g (sectionGoto_of_eq hsection)) hstack
    simp [System.apply,System.proceed,System.setStack]
  | call g callee =>
    exfalso
    revert hsection
    cases s <;> simp only [System.criticalSection] <;> (try split) <;> simp
  | ret result =>
    apply Moves.of_eq hthread (.sectionRet s state result (sectionRet_of_eq hsection)) hstack
    simp [System.apply,System.proceed,System.setStack,System.record,Frame.site,Frame.fn]

private theorem send_moves {σ : System} {a : Action} {th : Thread Role Frame} {call : SendCall}
    {handles : SendHandles} {pc : SendPc call} {rest : List Frame} {link : Link}
    (hthread : σ.threads[a.thread]? = some th) (hstack : th.stack = .send call handles pc :: rest)
    (hlink : σ.links[handles.link]? = some link) :
    Moves σ a ((σ.setLink handles.link
      (sendStep a.thread call handles a.choice.isSpurious pc link).1).proceed a.thread
      (.send call handles pc) rest
      ((sendStep a.thread call handles a.choice.isSpurious pc link).2.toNext handles)) := by
  rcases hsend : sendStep a.thread call handles a.choice.isSpurious pc link with ⟨link',next⟩
  cases next with
  | goto pc' =>
    apply Moves.of_eq hthread
      (.sendGoto call handles pc pc' link link' hlink hsend) hstack
    simp [System.apply,System.proceed,System.setStack,System.setLink,SendNext.toNext]
  | ret result =>
    apply Moves.of_eq hthread
      (.sendRet call handles pc link link' result hlink hsend) hstack
    simp [System.apply,System.proceed,System.setStack,System.setLink,SendNext.toNext,
      System.record,Frame.site,Frame.fn,resumeSite]

private theorem frameStep_moves {σ σ' : System} {a : Action} {th : Thread Role Frame} {f : Frame}
    {rest : List Frame} (hthread : σ.threads[a.thread]? = some th)
    (hstack : th.stack = f :: rest)
    (h : σ.frameStep a.thread f rest a.choice = some σ') : Moves σ a σ' := by
  cases f with
  | lock s =>
    simp only [System.frameStep] at h
    split at h
    · rename_i hfree
      cases h
      apply Moves.of_eq hthread (.lock s hfree) hstack
      simp [System.apply,System.setStack]
    · cases h
  | locked s =>
    cases h
    exact locked_moves hthread hstack
  | opening pc =>
    cases h
    exact opening_moves hthread hstack
  | openCreate endpoints =>
    cases h
    apply Moves.of_eq hthread (.create endpoints) hstack
    simp [System.apply,System.proceed,System.setStack]
  | openSpawn l pc =>
    cases h
    apply Moves.of_eq hthread (.spawn l pc) hstack
    simp [System.apply,System.proceed,System.setStack,System.spawn]
  | closeStop active =>
    simp only [System.frameStep] at h
    split at h
    · cases h
    · rename_i link hlink
      cases h
      apply Moves.of_eq hthread (.stop active link hlink) hstack
      simp [System.apply,System.proceed,System.setStack,System.setLink]
  | closeJoinReaders active remaining =>
    cases remaining with
    | nil =>
      cases h
      apply Moves.of_eq hthread (.joinedReaders active) hstack
      simp [System.apply,System.proceed,System.setStack]
    | cons w ws =>
      simp only [System.frameStep] at h
      split at h
      · rename_i hfinished
        cases h
        apply Moves.of_eq hthread (.joinReader active w ws hfinished) hstack
        simp [System.apply,System.proceed,System.setStack]
      · cases h
  | closeJoinWriter active =>
    simp only [System.frameStep] at h
    split at h
    · rename_i hfinished
      cases h
      apply Moves.of_eq hthread (.joinWriter active hfinished) hstack
      simp [System.apply,System.proceed,System.setStack,System.record,Frame.site,Frame.fn,
        resumeSite]
    · cases h
  | send call handles pc =>
    simp only [System.frameStep] at h
    split at h
    · cases h
    · rename_i link hlink
      cases h
      exact send_moves hthread hstack hlink
  | emitCall site packetType packet handler =>
    cases h
    apply Moves.of_eq hthread (.enter site packetType packet handler) hstack
    simp [System.apply,System.setStack,System.record]
  | emitRunning site packetType packet =>
    simp only [System.frameStep] at h
    split at h
    · rename_i op hchoice
      cases h
      rw [← hstack]
      exact startCall_moves hthread (by rw [hstack]; exact .handler _ _ _ _ _) hchoice
    · cases h
      apply Moves.of_eq hthread (.leave site packetType packet) hstack
      simp [System.apply,System.proceed,System.setStack,System.record,Frame.site,Frame.fn]

/-- The inversion of the step function. -/
theorem step_moves {σ σ' : System} {a : Action} (h : machine.step σ a = some σ') :
    Moves σ a σ' := by
  change σ.step a = some σ' at h
  unfold System.step at h
  split at h
  · cases h
  · rename_i th hthread
    split at h
    · rename_i hstack
      exact idleStep_moves hthread hstack h
    · rename_i f rest hstack
      exact frameStep_moves hthread hstack h

theorem steps_invariant {allow : System → Action → Prop} {Inv : System → Prop} {σ σ' : System}
    (h : machine.Steps allow σ σ') (hσ : Inv σ)
    (hmoves : ∀ σ a σ', Inv σ → allow σ a → Moves σ a σ' → Inv σ') : Inv σ' :=
  h.invariant hσ (fun s a t hs ha ht => hmoves s a t hs ha (step_moves ht))

/-- Induction over the reachable states by moves. -/
theorem Reachable.invariant {Inv : System → Prop} {σ : System} (h : Reachable σ)
    (hinit : ∀ clients handler, Inv (System.initial clients handler))
    (hmoves : ∀ σ a σ', Reachable σ → Inv σ → Moves σ a σ' → Inv σ') : Inv σ := by
  apply Machine.ReachableBy.invariant h
  · rintro _ ⟨clients,handler,rfl⟩
    exact hinit clients handler
  · intro σ a σ' hreach hinv _ hstep
    exact hmoves σ a σ' hreach hinv (step_moves hstep)

theorem Reachable.step {σ σ' : System} {a : Action} (h : Reachable σ)
    (hstep : machine.step σ a = some σ') : Reachable σ' :=
  Machine.ReachableBy.steps h (.head trivial hstep (.refl σ'))

theorem Reachable.steps {allow : System → Action → Prop} {σ σ' : System} (h : Reachable σ)
    (hrun : machine.Steps allow σ σ') : Reachable σ' :=
  Machine.ReachableBy.steps h hrun.any

theorem Reachable.of_run {clients : Nat} {handler : Option Handler} {as : List Action}
    {σ : System} (h : machine.run (System.initial clients handler) as = some σ) : Reachable σ :=
  ⟨_,⟨clients,handler,rfl⟩,(Machine.steps_of_run h).any⟩

theorem total_initial (w : Frame → Nat) (clients : Nat) (handler : Option Handler) :
    Pool.total w (System.initial clients handler).threads = 0 := by
  apply Pool.total_eq_zero
  intro th hth
  rw [List.eq_of_mem_replicate hth]

theorem total_apply (w : Frame → Nat) {σ : System} {t : Nat} {th : Thread Role Frame}
    {rest : List Frame} {d : Delta} (hthread : σ.threads[t]? = some th)
    (hstack : th.stack = d.top ++ rest) :
    Pool.total w (σ.apply t rest d).threads + Pool.stackWeight w d.top =
      Pool.total w σ.threads + Pool.stackWeight w d.top' := by
  have hset := Pool.total_setStack w hthread (d.top' ++ rest)
  have hspawned : Pool.total w (d.spawned.map (fun role => (⟨role,[]⟩ : Thread Role Frame))) = 0 := by
    apply Pool.total_eq_zero
    simp
  simp only [System.apply,Pool.total_append,hspawned,hstack,Pool.stackWeight_append] at hset ⊢
  omega

theorem initial_thread {clients : Nat} {handler : Option Handler} {t : Nat}
    {th : Thread Role Frame} (h : (System.initial clients handler).threads[t]? = some th) :
    th.role = .client ∧ th.stack = [] := by
  simp only [System.initial,List.getElem?_replicate] at h
  split at h <;> cases h
  exact ⟨rfl,rfl⟩

theorem getElem?_apply_self {σ : System} {t : Nat} {th : Thread Role Frame} (rest : List Frame)
    (d : Delta) (hthread : σ.threads[t]? = some th) :
    (σ.apply t rest d).threads[t]? = some { th with stack := d.top' ++ rest } := by
  have hself := Pool.getElem?_setStack_self hthread (d.top' ++ rest)
  rw [System.apply,List.getElem?_append_left,hself]
  exact (List.getElem?_eq_some_iff.mp hself).1

theorem getElem?_apply_ne {σ : System} {t u : Nat} {th : Thread Role Frame} (rest : List Frame)
    (d : Delta) (hu : u ≠ t) (hthread : σ.threads[u]? = some th) :
    (σ.apply t rest d).threads[u]? = some th := by
  have hsame := (Pool.getElem?_setStack_ne σ.threads hu (d.top' ++ rest)).trans hthread
  rw [System.apply,List.getElem?_append_left,hsame]
  exact (List.getElem?_eq_some_iff.mp hsame).1

/-- A thread after a step is the stepping thread, another one as it was, or a new one. -/
theorem getElem?_apply_cases {σ : System} {t u : Nat} {th' : Thread Role Frame}
    {rest : List Frame} {d : Delta} (h : (σ.apply t rest d).threads[u]? = some th') :
    (u = t ∧ ∃ th, σ.threads[t]? = some th ∧ th' = { th with stack := d.top' ++ rest }) ∨
      (u ≠ t ∧ σ.threads[u]? = some th') ∨
      (σ.threads.length ≤ u ∧ th'.stack = [] ∧ d.spawned[u-σ.threads.length]? = some th'.role) := by
  simp only [System.apply,List.getElem?_append,Pool.length_setStack] at h
  split at h
  · rename_i hlt
    by_cases hu : u = t
    · subst hu
      have hthread := List.getElem?_eq_getElem hlt
      rw [Pool.getElem?_setStack_self hthread] at h
      cases h
      exact .inl ⟨rfl,_,hthread,rfl⟩
    · rw [Pool.getElem?_setStack_ne _ hu] at h
      exact .inr (.inl ⟨hu,h⟩)
  · rename_i hge
    rw [List.getElem?_map,Option.map_eq_some_iff] at h
    obtain ⟨role,hrole,rfl⟩ := h
    exact .inr (.inr ⟨Nat.not_lt.mp hge,rfl,hrole⟩)

theorem mem_stack_apply {σ : System} {t u : Nat} {th th' : Thread Role Frame} {rest : List Frame}
    {d : Delta} {f : Frame} (hthread : σ.threads[t]? = some th) (hstack : th.stack = d.top ++ rest)
    (h : (σ.apply t rest d).threads[u]? = some th') (hf : f ∈ th'.stack) :
    (u = t ∧ th'.role = th.role ∧ f ∈ d.top') ∨
      ∃ th₀, σ.threads[u]? = some th₀ ∧ th₀.role = th'.role ∧ f ∈ th₀.stack := by
  obtain ⟨rfl,th₀,hth₀,rfl⟩ | ⟨_,hold⟩ | ⟨_,hempty,_⟩ := getElem?_apply_cases h
  · rw [hthread] at hth₀
    cases hth₀
    rcases List.mem_append.mp hf with hf | hf
    · exact .inl ⟨rfl,rfl,hf⟩
    · exact .inr ⟨th,hthread,rfl,by rw [hstack]; exact List.mem_append_right _ hf⟩
  · exact .inr ⟨th',hold,rfl,hf⟩
  · rw [hempty] at hf
    cases hf

theorem getElem?_set_cases {links : List Link} {i l : Nat} {link link' : Link}
    (h : (links.set i link)[l]? = some link') :
    (l = i ∧ link' = link) ∨ (l ≠ i ∧ links[l]? = some link') := by
  rw [List.getElem?_set] at h
  split at h
  · rename_i hil
    split at h
    · cases h
      exact .inl ⟨hil.symm,rfl⟩
    · cases h
  · rename_i hil
    exact .inr ⟨Ne.symm hil,h⟩

@[simp] theorem resumeSite_length (site : Option EmitSite) (links : List Link) :
    (resumeSite site links).length = links.length := by
  unfold resumeSite
  split <;> simp

theorem getElem?_resumeSite {site : Option EmitSite} {links : List Link} {l : Nat} {link' : Link}
    (h : (resumeSite site links)[l]? = some link') :
    ∃ link, links[l]? = some link ∧
      ((link' = link ∧ (∀ kind, site ≠ some (.reader kind l)) ∧ site ≠ some (.writer l)) ∨
        (∃ kind, site = some (.reader kind l) ∧
          link' = link.setReader kind (link.reader kind).resume) ∨
        (site = some (.writer l) ∧ link' = { link with writer := link.writer.resume })) := by
  unfold resumeSite at h
  split at h
  · rename_i kind l'
    rw [List.getElem?_modify] at h
    by_cases hl : l' = l
    · subst hl
      simp only [if_true,Option.map_eq_map,Option.map_eq_some_iff] at h
      obtain ⟨link,hlink,rfl⟩ := h
      exact ⟨link,hlink,.inr (.inl ⟨kind,rfl,rfl⟩)⟩
    · simp only [if_neg hl,id_map'] at h
      exact ⟨link',h,.inl ⟨rfl,by simp [hl],by simp⟩⟩
  · rename_i l'
    rw [List.getElem?_modify] at h
    by_cases hl : l' = l
    · subst hl
      simp only [if_true,Option.map_eq_map,Option.map_eq_some_iff] at h
      obtain ⟨link,hlink,rfl⟩ := h
      exact ⟨link,hlink,.inr (.inr ⟨rfl,rfl⟩)⟩
    · simp only [if_neg hl,id_map'] at h
      exact ⟨link',h,.inl ⟨rfl,by simp,by simp [hl]⟩⟩
  · rename_i hreader hwriter
    exact ⟨link',h,.inl ⟨rfl,fun kind hsite => hreader kind l hsite,
      fun hsite => hwriter l hsite⟩⟩

def linkValue (f : Link → Nat) (links : List Link) (l : Nat) : Nat := (links[l]?).elim 0 f

theorem linkValue_of_getElem? {f : Link → Nat} {links : List Link} {l : Nat} {link : Link}
    (h : links[l]? = some link) : linkValue f links l = f link := by
  simp [linkValue,h]

theorem linkValue_of_length_le {f : Link → Nat} {links : List Link} {l : Nat}
    (h : links.length ≤ l) : linkValue f links l = 0 := by
  simp [linkValue,List.getElem?_eq_none h]

theorem linkValue_set (f : Link → Nat) {links : List Link} {i : Nat} {link : Link} (link' : Link)
    (hlink : links[i]? = some link) (l : Nat) :
    linkValue f (links.set i link') l + (if l = i then f link else 0) =
      linkValue f links l + (if l = i then f link' else 0) := by
  by_cases hl : l = i
  · subst hl
    have hlt := (List.getElem?_eq_some_iff.mp hlink).1
    rw [linkValue_of_getElem? hlink,linkValue_of_getElem? (List.getElem?_set_self hlt),if_pos rfl,
      if_pos rfl,Nat.add_comm]
  · rw [if_neg hl,if_neg hl]
    simp only [linkValue,List.getElem?_set_ne (Ne.symm hl)]

theorem linkValue_set_eq {f : Link → Nat} {links : List Link} {i : Nat} {link link' : Link}
    (hlink : links[i]? = some link) (l : Nat) (h : l = i → f link' = f link) :
    linkValue f (links.set i link') l = linkValue f links l := by
  have hset := linkValue_set f link' hlink l
  by_cases hl : l = i
  · rw [h hl] at hset
    omega
  · simpa [hl] using hset

theorem linkValue_append {f : Link → Nat} {links : List Link} {link : Link} (h : f link = 0)
    (l : Nat) : linkValue f (links ++ [link]) l = linkValue f links l := by
  unfold linkValue
  rw [List.getElem?_append]
  split
  · rfl
  · rename_i hl
    rw [List.getElem?_eq_none (Nat.not_lt.mp hl),List.getElem?_singleton]
    split
    · exact h
    · rfl

theorem linkValue_resumeSite {f : Link → Nat}
    (hreader : ∀ link kind, f (link.setReader kind (link.reader kind).resume) = f link)
    (hwriter : ∀ link : Link, f { link with writer := link.writer.resume } = f link)
    (site : Option EmitSite) (links : List Link) (l : Nat) :
    linkValue f (resumeSite site links) l = linkValue f links l := by
  by_cases hl : l < links.length
  · have hl' : l < (resumeSite site links).length := by rwa [resumeSite_length]
    obtain ⟨link,hlink,hcases⟩ := getElem?_resumeSite (List.getElem?_eq_getElem hl')
    rw [linkValue_of_getElem? hlink,linkValue_of_getElem? (List.getElem?_eq_getElem hl')]
    obtain ⟨hlink',_,_⟩ | ⟨kind,_,hlink'⟩ | ⟨_,hlink'⟩ := hcases <;> rw [hlink']
    · exact hreader link kind
    · exact hwriter link
  · rw [linkValue_of_length_le (Nat.not_lt.mp hl),
      linkValue_of_length_le (by rw [resumeSite_length]; exact Nat.not_lt.mp hl)]

/-- What a step can do to a link that exists; `alive` says whether its channel has a sender. -/
inductive LinkMove (alive : Bool) (link : Link) : Link → Prop where
  | same : LinkMove alive link link
  | stop : LinkMove alive link { link with stop := true }
  | send (t : Nat) (call : SendCall) (handles : SendHandles) (spurious : Bool) (pc : SendPc call)
      (link' : Link) (next : SendNext call)
      (hsend : sendStep t call handles spurious pc link = (link',next)) : LinkMove alive link link'
  | reader (kind : ReaderKind) (poll : Option Completion) (r : Reader)
      (hreader : readerStep kind link.stop poll (link.reader kind) = some r) :
      LinkMove alive link (link.setReader kind r)
  | writer (control : Status) (poll : Option (Nat × Status)) (link' : Link)
      (hwriter : writerStep alive control poll link = some link') : LinkMove alive link link'
  | resumeReader (kind : ReaderKind) :
      LinkMove alive link (link.setReader kind (link.reader kind).resume)
  | resumeWriter : LinkMove alive link { link with writer := link.writer.resume }

private def Moved (σ : System) (d : Delta) (l : Nat) (link : Link) : Prop :=
  ∃ link', d.links[l]? = some link' ∧ LinkMove (σ.senderAlive l) link link' ∧
    (link'.stop = link.stop ∨ ∃ active, active.link = l ∧ d.top = [.closeStop active])

private theorem moved_set {σ : System} {d : Delta} {i l : Nat} {link₀ link₁ link : Link}
    (hi : σ.links[i]? = some link₀) (hlink : σ.links[l]? = some link)
    (hlinks : d.links = σ.links.set i link₁) (hmove : LinkMove (σ.senderAlive i) link₀ link₁)
    (hstop : link₁.stop = link₀.stop ∨ ∃ active, active.link = i ∧ d.top = [.closeStop active]) :
    Moved σ d l link := by
  by_cases hl : i = l
  · subst hl
    rw [hi] at hlink
    cases hlink
    refine ⟨link₁,?_,hmove,hstop⟩
    rw [hlinks,List.getElem?_set_self (List.getElem?_eq_some_iff.mp hi).1]
  · exact ⟨link,by rw [hlinks,List.getElem?_set_ne hl,hlink],.same,.inl rfl⟩

private theorem moved_resumeSite {σ : System} {d : Delta} {l : Nat} {link : Link}
    (hlink : σ.links[l]? = some link) {site : Option EmitSite}
    (hlinks : d.links = resumeSite site σ.links) : Moved σ d l link := by
  have hlt : l < (resumeSite site σ.links).length := by
    rw [resumeSite_length]
    exact (List.getElem?_eq_some_iff.mp hlink).1
  have hlink' := List.getElem?_eq_getElem hlt
  refine ⟨_,by rw [hlinks]; exact hlink',?_⟩
  obtain ⟨link₀,hlink₀,hcases⟩ := getElem?_resumeSite hlink'
  rw [hlink] at hlink₀
  cases hlink₀
  obtain ⟨heq,_,_⟩ | ⟨kind,_,heq⟩ | ⟨_,heq⟩ := hcases <;> rw [heq]
  · exact ⟨.same,.inl rfl⟩
  · exact ⟨.resumeReader kind,.inl (by simp)⟩
  · exact ⟨.resumeWriter,.inl rfl⟩

theorem Move.linkMove {σ : System} {t : Nat} {c : Choice} {role : Role} {rest : List Frame}
    {d : Delta} (h : Move σ t c role rest d) {l : Nat} {link : Link}
    (hlink : σ.links[l]? = some link) :
    ∃ link', d.links[l]? = some link' ∧ LinkMove (σ.senderAlive l) link link' ∧
      (link'.stop = link.stop ∨ ∃ active, active.link = l ∧ d.top = [.closeStop active]) := by
  change Moved σ d l link
  cases h with
  | sectionRet s state result hsection => exact moved_resumeSite hlink rfl
  | leave site packetType packet => exact moved_resumeSite hlink rfl
  | create endpoints =>
    refine ⟨link,?_,.same,.inl rfl⟩
    rw [List.getElem?_append_left (List.getElem?_eq_some_iff.mp hlink).1,hlink]
  | stop active link₀ hi => exact moved_set hi hlink rfl .stop (.inr ⟨active,rfl,rfl⟩)
  | sendGoto call handles pc pc' link₀ link₁ hi hsend =>
    exact moved_set hi hlink rfl (.send _ _ _ _ _ _ _ hsend) (.inl (sendStep_stop hsend))
  | sendRet call handles pc link₀ link₁ result hi hsend =>
    exact moved_set hi hlink rfl (.send _ _ _ _ _ _ _ hsend) (.inl (sendStep_stop hsend))
  | reader kind i link₀ r hrole hrest hi hreader hquiet =>
    exact moved_set hi hlink rfl (.reader kind _ r hreader) (.inl (by simp))
  | readerDeliver kind i link₀ r data hrole hrest hi hreader hdata =>
    exact moved_set hi hlink rfl (.reader kind _ r hreader) (.inl (by simp))
  | writer i link₀ link₁ hrole hrest hi hwriter hquiet =>
    exact moved_set hi hlink rfl (.writer _ _ _ hwriter) (.inl (writerStep_stop hwriter))
  | writerAcknowledge i link₀ link₁ hrole hrest hi hwriter hack =>
    exact moved_set hi hlink rfl (.writer _ _ _ hwriter) (.inl (writerStep_stop hwriter))
  | _ => exact ⟨link,hlink,.same,.inl rfl⟩

theorem Move.top_eq {σ : System} {t : Nat} {c : Choice} {role : Role} {rest : List Frame}
    {d : Delta} (h : Move σ t c role rest d) {f : Frame} {base : List Frame}
    (hstack : f :: base = d.top ++ rest)
    (hf : ∀ site packetType packet, f ≠ .emitRunning site packetType packet) :
    d.top = [f] ∧ rest = base := by
  have hempty : d.top = [] → CanCall role rest ∨ rest = [] → False := by
    intro htop hcan
    rw [htop,List.nil_append] at hstack
    subst hstack
    rcases hcan with hcan | hcan
    · cases hcan
      exact hf _ _ _ rfl
    · cases hcan
  cases h with
  | openingClaim pc endpoints packet =>
    cases hstack
    exact ⟨rfl,rfl⟩
  | call op s hchoice hcan henters => exact (hempty rfl (.inl hcan)).elim
  | callRet op result hchoice hcan henter => exact (hempty rfl (.inl hcan)).elim
  | reader kind l link r hrole hrest hlink hreader hquiet => exact (hempty rfl (.inr hrest)).elim
  | readerDeliver kind l link r data hrole hrest hlink hreader hdata =>
    exact (hempty rfl (.inr hrest)).elim
  | writer l link link' hrole hrest hlink hwriter hquiet => exact (hempty rfl (.inr hrest)).elim
  | writerAcknowledge l link link' hrole hrest hlink hwriter hack =>
    exact (hempty rfl (.inr hrest)).elim
  | _ =>
    cases hstack
    exact ⟨rfl,rfl⟩

theorem Move.events_thread {σ : System} {t : Nat} {c : Choice} {role : Role}
    {rest : List Frame} {d : Delta} (h : Move σ t c role rest d) :
    ∀ e ∈ d.events, e.thread = t := by
  intro e he
  cases h <;> simp only [List.mem_cons,List.not_mem_nil,or_false] at he
  case callRet => obtain rfl | rfl := he <;> rfl
  case leave => obtain rfl | rfl := he <;> rfl
  all_goals
    subst he
    rfl

def ownEvents (t : Nat) (events : List Event) : List Event :=
  events.filter (fun e => e.thread == t)

@[simp] theorem ownEvents_append (t : Nat) (events events' : List Event) :
    ownEvents t (events ++ events') = ownEvents t events ++ ownEvents t events' :=
  List.filter_append _ _

theorem ownEvents_eq_self {t : Nat} {events : List Event} (h : ∀ e ∈ events, e.thread = t) :
    ownEvents t events = events := by
  rw [ownEvents,List.filter_eq_self]
  intro e he
  simp [h e he]

theorem ownEvents_eq_nil {t : Nat} {events : List Event} (h : ∀ e ∈ events, e.thread ≠ t) :
    ownEvents t events = [] := by
  rw [ownEvents,List.filter_eq_nil_iff]
  intro e he
  simp [h e he]

theorem Move.links_length {σ : System} {t : Nat} {c : Choice} {role : Role}
    {rest : List Frame} {d : Delta} (h : Move σ t c role rest d) :
    σ.links.length ≤ d.links.length := by
  cases h <;> simp

theorem Move.fresh_link {σ : System} {t : Nat} {c : Choice} {role : Role} {rest : List Frame}
    {d : Delta} (h : Move σ t c role rest d) {l : Nat} (hl : σ.links.length ≤ l) {link' : Link}
    (hlink' : d.links[l]? = some link') :
    ∃ endpoints, link' = { endpoints := endpoints } ∧ d.top = [.openCreate endpoints] ∧
      d.top' = [.openSpawn l .event] ∧ d.state = σ.state := by
  have hbound : l < d.links.length := (List.getElem?_eq_some_iff.mp hlink').1
  cases h with
  | create endpoints =>
    simp only [List.length_append,List.length_singleton] at hbound
    obtain rfl : l = σ.links.length := by omega
    refine ⟨endpoints,?_,rfl,rfl,rfl⟩
    simpa using hlink'.symm
  | _ =>
    simp only [List.length_set,resumeSite_length] at hbound
    omega

/-- What every operation on a single link preserves. -/
structure LinkInvariant (P : Link → Prop) : Prop where
  fresh : ∀ endpoints, P { endpoints := endpoints }
  stop : ∀ link, P link → P { link with stop := true }
  send : ∀ t call handles spurious (pc : SendPc call) link link' next, P link →
    sendStep t call handles spurious pc link = (link',next) → P link'
  reader : ∀ kind poll link r, P link →
    readerStep kind link.stop poll (link.reader kind) = some r → P (link.setReader kind r)
  writer : ∀ alive control poll link link', P link →
    writerStep alive control poll link = some link' → P link'
  resumeReader : ∀ kind link, P link → P (link.setReader kind (link.reader kind).resume)
  resumeWriter : ∀ link, P link → P { link with writer := link.writer.resume }

theorem LinkInvariant.linkMove {P : Link → Prop} (hP : LinkInvariant P) {alive : Bool}
    {link link' : Link} (hlink : P link) (h : LinkMove alive link link') : P link' := by
  cases h with
  | same => exact hlink
  | stop => exact hP.stop link hlink
  | send t call handles spurious pc _ next hsend => exact hP.send _ _ _ _ _ _ _ _ hlink hsend
  | reader kind poll r hreader => exact hP.reader kind poll link r hlink hreader
  | writer control poll _ hwriter => exact hP.writer _ _ _ _ _ hlink hwriter
  | resumeReader kind => exact hP.resumeReader kind link hlink
  | resumeWriter => exact hP.resumeWriter link hlink

/-- An invariant of single links holds of every link in every reachable state. -/
theorem LinkInvariant.reachable {P : Link → Prop} (hP : LinkInvariant P) {σ : System}
    (h : Reachable σ) {l : Nat} {link : Link} (hlink : σ.links[l]? = some link) : P link := by
  have hall : ∀ (l : Nat) link, σ.links[l]? = some link → P link := by
    apply h.invariant
    · intro clients handler l link hlink
      simp [System.initial] at hlink
    · rintro σ a _ _ hσ ⟨th,rest,d,_,_,hmove⟩ l link' hlink'
      by_cases hl : l < σ.links.length
      · have hlink := List.getElem?_eq_getElem hl
        obtain ⟨link₁,hlink₁,hlinkMove,_⟩ := hmove.linkMove hlink
        rw [show d.links[l]? = some link' from hlink'] at hlink₁
        cases hlink₁
        exact hP.linkMove (hσ l _ hlink) hlinkMove
      · obtain ⟨endpoints,rfl,_⟩ := hmove.fresh_link (Nat.not_lt.mp hl) hlink'
        exact hP.fresh endpoints
  exact hall l link hlink

end BtstackRs.Transport
