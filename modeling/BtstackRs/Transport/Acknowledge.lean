import BtstackRs.Transport.Emission

/-!
# Acknowledgements

The writer releases a slot for every completed transfer and acknowledges it with
`HCI_EVENT_TRANSPORT_PACKET_SENT` only if the transfer succeeded. The two counts are related by
what is on the way: an acknowledgement that has not reached the handler, and a failed transfer
whose slot is released next.
-/

namespace BtstackRs.Transport

open Concurrent

def LinkEvent.isReleased : LinkEvent → Bool
  | .released => true
  | _ => false

def LinkEvent.isFailed : LinkEvent → Bool
  | .completed (.err _) => true
  | _ => false

def releases (history : List LinkEvent) : Nat := history.countP LinkEvent.isReleased

/-- The transfers of the writer that completed with an error. -/
def failures (history : List LinkEvent) : Nat := history.countP LinkEvent.isFailed

theorem failures_eq_zero_iff (history : List LinkEvent) :
    failures history = 0 ↔ ∀ status, .completed status ∈ history → status = .ok := by
  rw [failures,List.countP_eq_zero]
  constructor
  · intro h status hmem
    cases status with
    | ok => rfl
    | err e => exact absurd rfl (h _ hmem)
  · intro h event hmem hfailed
    cases event with
    | completed status =>
      rw [h status hmem] at hfailed
      cases hfailed
    | _ => cases hfailed

/-- A packet passed to the handler that is the writer's acknowledgement. -/
def acknowledgement (l : Nat) (site : EmitSite) (packetType : UInt8) (packet : Bytes) : Nat :=
  if site = .writer l ∧ packetType = hciEventPacket ∧ packet = packetSentEvent then 1 else 0

def Event.acknowledges (l : Nat) : Event → Nat
  | .entered _ site _ packetType packet _ => acknowledgement l site packetType packet
  | _ => 0

/-- The acknowledgements of a link that the handler has been called with. -/
def acknowledgements (l : Nat) : List Event → Nat
  | [] => 0
  | event :: log => event.acknowledges l + acknowledgements l log

def Section.ackDue (l : Nat) : Section → Nat
  | .emitLookup site packetType packet => acknowledgement l site packetType packet
  | _ => 0

def Frame.ackDue (l : Nat) : Frame → Nat
  | .lock s | .locked s => s.ackDue l
  | .emitCall site packetType packet _ => acknowledgement l site packetType packet
  | _ => 0

/-- A failed transfer whose slot is released next. -/
def WriterPc.failing : WriterPc → Nat
  | .commandDone (.err _) | .bulkDone (.err _) => 1
  | _ => 0

def Link.failed (link : Link) : Nat := failures link.history

def Link.settled (link : Link) : Nat := releases link.history + link.writer.pc.failing

theorem writerStep_settled {alive : Bool} {control : Status} {poll : Option (Nat × Status)}
    {link link' : Link} (h : writerStep alive control poll link = some link') :
    link'.writer.pc.emitting + link'.failed + link.settled = link.failed + link'.settled := by
  unfold Link.failed Link.settled
  cases writerStep_cases h with
  | release status hpc =>
    rcases hpc with hpc | hpc <;> cases status <;>
      simp +arith [hpc,afterRelease,WriterPc.emitting,WriterPc.failing,failures,releases,
        LinkEvent.isFailed,LinkEvent.isReleased]
  | commandComplete hpc =>
    cases control <;>
      simp +arith [hpc,WriterPc.emitting,WriterPc.failing,failures,releases,LinkEvent.isFailed,
        LinkEvent.isReleased]
  | complete hpc i status hi =>
    cases status <;>
      simp +arith [hpc,WriterPc.emitting,WriterPc.failing,failures,releases,LinkEvent.isFailed,
        LinkEvent.isReleased]
  | command packet hpc | submit packet data hpc | cancel hpc =>
    simp [hpc,WriterPc.emitting,WriterPc.failing,failures,releases,LinkEvent.isFailed,
      LinkEvent.isReleased]
  | enter hpc | skip hpc | take hpc | timeout hpc | disconnected hpc | pass hpc | leave hpc
  | again hpc | await hpc | idle hpc => simp [hpc,WriterPc.emitting,WriterPc.failing]

theorem sendStep_settled {t : Nat} {call : SendCall} {handles : SendHandles} {spurious : Bool}
    {pc : SendPc call} {link link' : Link} {next : SendNext call}
    (h : sendStep t call handles spurious pc link = (link',next)) :
    link'.failed = link.failed ∧ link'.settled = link.settled := by
  unfold Link.failed Link.settled
  cases sendStep_cases h <;>
    simp [failures,releases,LinkEvent.isFailed,LinkEvent.isReleased]

theorem setReader_settled (link : Link) (kind : ReaderKind) (r : Reader) :
    (link.setReader kind r).failed = link.failed ∧
      (link.setReader kind r).settled = link.settled := by
  simp [Link.failed,Link.settled]

theorem Writer.resume_failing (w : Writer) : w.resume.pc.failing = w.pc.failing := by
  cases hpc : w.pc <;> simp [resume,hpc,WriterPc.failing]

@[simp] theorem acknowledgements_nil (l : Nat) : acknowledgements l [] = 0 := rfl

@[simp] theorem acknowledgements_append (l : Nat) (log events : List Event) :
    acknowledgements l (log ++ events) = acknowledgements l log + acknowledgements l events := by
  induction log with
  | nil => simp
  | cons event log ih =>
    rw [List.cons_append,acknowledgements,acknowledgements,ih,Nat.add_assoc]

/-- Acknowledgements that were given or are due, and failures, balance what was settled. -/
def Acknowledged (σ : System) (l : Nat) : Prop :=
  acknowledgements l σ.log + Pool.total (Frame.ackDue l) σ.threads +
    linkValue Link.failed σ.links l = linkValue Link.settled σ.links l

private theorem set_settled {links : List Link} {i : Nat} {link link' : Link} {owed : Nat}
    (hlink : links[i]? = some link)
    (h : owed + link'.failed + link.settled = link.failed + link'.settled) (l : Nat) :
    (if i = l then owed else 0) + linkValue Link.failed (links.set i link') l +
        linkValue Link.settled links l =
      linkValue Link.failed links l + linkValue Link.settled (links.set i link') l := by
  have hfailed := linkValue_set Link.failed link' hlink l
  have hsettled := linkValue_set Link.settled link' hlink l
  by_cases hl : l = i
  · simp only [if_pos hl] at hfailed hsettled
    rw [if_pos hl.symm]
    omega
  · simp only [if_neg hl] at hfailed hsettled
    rw [if_neg (Ne.symm hl)]
    omega

private theorem set_settled_eq {links : List Link} {i : Nat} {link link' : Link}
    (hlink : links[i]? = some link)
    (h : link'.failed = link.failed ∧ link'.settled = link.settled) (l : Nat) :
    linkValue Link.failed (links.set i link') l = linkValue Link.failed links l ∧
      linkValue Link.settled (links.set i link') l = linkValue Link.settled links l :=
  ⟨linkValue_set_eq hlink l (fun _ => h.1),linkValue_set_eq hlink l (fun _ => h.2)⟩

private theorem resumeSite_settled (site : Option EmitSite) (links : List Link) (l : Nat) :
    linkValue Link.failed (resumeSite site links) l = linkValue Link.failed links l ∧
      linkValue Link.settled (resumeSite site links) l = linkValue Link.settled links l := by
  constructor <;> apply linkValue_resumeSite
  · intro link kind
    simp [Link.failed]
  · intro link
    rfl
  · intro link kind
    simp [Link.settled]
  · intro link
    simp [Link.settled,Writer.resume_failing]

private theorem move_acknowledged {σ : System} {t : Nat} {c : Choice} {role : Role}
    {rest : List Frame} {d : Delta} (h : Move σ t c role rest d) (l : Nat) :
    ∃ lost, (σ.state.packetHandler.isSome → lost = 0) ∧
      acknowledgements l d.events + Pool.stackWeight (Frame.ackDue l) d.top' +
          linkValue Link.failed d.links l + linkValue Link.settled σ.links l + lost =
        Pool.stackWeight (Frame.ackDue l) d.top + linkValue Link.failed σ.links l +
          linkValue Link.settled d.links l := by
  cases h with
  | sectionGoto s state g hsection =>
    refine ⟨0,fun _ => rfl,?_⟩
    cases hsection <;> simp [Frame.ackDue,Section.ackDue]
  | sectionRet s state result hsection =>
    refine ⟨s.ackDue l,?_,?_⟩
    · intro hhandler
      cases hsection with
      | emitLookup site packetType packet hnone => simp [hnone] at hhandler
      | _ => rfl
    · have heq := resumeSite_settled s.site σ.links l
      simp only [heq,acknowledgements,Event.acknowledges,Frame.ackDue,
        Pool.stackWeight_cons,Pool.stackWeight_nil]
      omega
  | openingClaim pc endpoints packet =>
    refine ⟨0,fun _ => rfl,?_⟩
    simp [Frame.ackDue,Section.ackDue,acknowledgement]
  | create endpoints =>
    refine ⟨0,fun _ => rfl,?_⟩
    rw [linkValue_append rfl,linkValue_append rfl]
    rfl
  | spawn l' pc =>
    refine ⟨0,fun _ => rfl,?_⟩
    cases pc <;> simp [Frame.ackDue,Section.ackDue,SpawnPc.after]
  | stop active link hlink =>
    refine ⟨0,fun _ => rfl,?_⟩
    have hsame : Link.failed { link with stop := true } = link.failed ∧
        Link.settled { link with stop := true } = link.settled := ⟨rfl,rfl⟩
    have heq := set_settled_eq hlink hsame l
    simp [heq,Frame.ackDue]
  | sendGoto call handles pc pc' link link' hlink hsend =>
    refine ⟨0,fun _ => rfl,?_⟩
    have heq := set_settled_eq hlink (sendStep_settled hsend) l
    simp [heq,Frame.ackDue]
  | sendRet call handles pc link link' result hlink hsend =>
    refine ⟨0,fun _ => rfl,?_⟩
    have heq := set_settled_eq hlink (sendStep_settled hsend) l
    simp [heq,acknowledgements,Event.acknowledges,Frame.ackDue]
  | enter site packetType packet handler =>
    refine ⟨0,fun _ => rfl,?_⟩
    simp [acknowledgements,Event.acknowledges,Frame.ackDue]
  | leave site packetType packet =>
    refine ⟨0,fun _ => rfl,?_⟩
    have heq := resumeSite_settled (some site) σ.links l
    simp [heq,acknowledgements,Event.acknowledges,Frame.ackDue]
  | call op s hchoice hcan henters =>
    refine ⟨0,fun _ => rfl,?_⟩
    cases henters <;> simp [acknowledgements,Event.acknowledges,Frame.ackDue,Section.ackDue]
  | reader kind l' link r hrole hrest hlink hreader hquiet =>
    refine ⟨0,fun _ => rfl,?_⟩
    have heq := set_settled_eq hlink (setReader_settled link kind r) l
    simp [heq]
  | readerDeliver kind l' link r data hrole hrest hlink hreader hdata =>
    refine ⟨0,fun _ => rfl,?_⟩
    have heq := set_settled_eq hlink (setReader_settled link kind r) l
    simp [heq,Frame.ackDue,Section.ackDue,acknowledgement]
  | writer l' link link' hrole hrest hlink hwriter hquiet =>
    refine ⟨0,fun _ => rfl,?_⟩
    have hsettled := writerStep_settled hwriter
    rw [WriterPc.emitting_eq,if_neg hquiet] at hsettled
    have hset := set_settled hlink hsettled l
    simp only [ite_self] at hset
    simp only [acknowledgements_nil,Pool.stackWeight_nil]
    omega
  | writerAcknowledge l' link link' hrole hrest hlink hwriter hack =>
    refine ⟨0,fun _ => rfl,?_⟩
    have hsettled := writerStep_settled hwriter
    rw [WriterPc.emitting_eq,if_pos hack] at hsettled
    have hset := set_settled hlink hsettled l
    simp only [acknowledgements_nil,Pool.stackWeight_nil,Pool.stackWeight_cons,Frame.ackDue,
      Section.ackDue,acknowledgement,EmitSite.writer.injEq,and_true]
    omega
  | _ => exact ⟨0,fun _ => rfl,by simp [acknowledgements,Event.acknowledges,Frame.ackDue]⟩

private theorem Reachable.acknowledged_le {σ : System} (h : Reachable σ) (l : Nat) :
    acknowledgements l σ.log + Pool.total (Frame.ackDue l) σ.threads +
      linkValue Link.failed σ.links l ≤ linkValue Link.settled σ.links l := by
  apply h.invariant
  · intro clients handler
    rw [total_initial]
    exact Nat.le_refl 0
  · rintro σ a _ _ hσ ⟨th,rest,d,hthread,hstack,hmove⟩
    have hsum := total_apply (Frame.ackDue l) hthread hstack
    obtain ⟨lost,_,hmoved⟩ := move_acknowledged hmove l
    simp only [System.apply,acknowledgements_append] at hsum ⊢
    omega

def Choice.clearsHandler : Choice → Bool
  | .call (.transportRegisterPacketHandler none) => true
  | _ => false

/-- No operation takes the packet handler away. -/
def KeepsHandler (_ : System) (a : Action) : Prop := a.choice.clearsHandler = false

def Section.clearsHandler : Section → Nat
  | .register none => 1
  | _ => 0

def Frame.clearsHandler : Frame → Nat
  | .lock s | .locked s => s.clearsHandler
  | _ => 0

structure HandlerKept (σ : System) : Prop where
  registered : σ.state.packetHandler.isSome
  frames : Pool.total Frame.clearsHandler σ.threads = 0

private theorem move_handlerKept {σ : System} {t : Nat} {c : Choice} {role : Role}
    {rest : List Frame} {d : Delta} (h : Move σ t c role rest d)
    (hkeeps : c.clearsHandler = false)
    (hregistered : σ.state.packetHandler.isSome)
    (htop : Pool.stackWeight Frame.clearsHandler d.top = 0) :
    d.state.packetHandler.isSome ∧ Pool.stackWeight Frame.clearsHandler d.top' = 0 := by
  cases h with
  | lock s hfree => exact ⟨hregistered,htop⟩
  | sectionGoto s state g hsection =>
    cases hsection <;> exact ⟨hregistered,rfl⟩
  | sectionRet s state result hsection =>
    cases hsection with
    | register handler =>
      cases handler with
      | none => cases htop
      | some handler => exact ⟨rfl,rfl⟩
    | _ => exact ⟨hregistered,rfl⟩
  | spawn l pc => exact ⟨hregistered,by cases pc <;> rfl⟩
  | call op s hchoice hcan henters =>
    refine ⟨hregistered,?_⟩
    cases henters with
    | register handler =>
      cases handler with
      | none =>
        rw [hchoice] at hkeeps
        cases hkeeps
      | some handler => rfl
    | _ => rfl
  | _ => exact ⟨hregistered,rfl⟩

theorem handlerKept_moves {σ σ' : System} {a : Action} (hσ : HandlerKept σ)
    (hkeeps : KeepsHandler σ a) (h : Moves σ a σ') : HandlerKept σ' := by
  obtain ⟨th,rest,d,hthread,hstack,hmove⟩ := h
  have hsum := total_apply Frame.clearsHandler hthread hstack
  have htop : Pool.stackWeight Frame.clearsHandler d.top = 0 := by
    have hle := Pool.stackWeight_le_total Frame.clearsHandler hthread
    rw [hσ.frames,hstack,Pool.stackWeight_append] at hle
    omega
  obtain ⟨hregistered,htop'⟩ := move_handlerKept hmove hkeeps hσ.registered htop
  refine ⟨hregistered,?_⟩
  rw [hσ.frames] at hsum
  omega

theorem acknowledged_steps {σ σ' : System} {l : Nat}
    (hrun : machine.Steps KeepsHandler σ σ') (hσ : HandlerKept σ) (hack : Acknowledged σ l) :
    HandlerKept σ' ∧ Acknowledged σ' l := by
  apply steps_invariant hrun ⟨hσ,hack⟩
  rintro σ a _ ⟨hσ,hack⟩ hkeeps hmoves
  refine ⟨handlerKept_moves hσ hkeeps hmoves,?_⟩
  obtain ⟨th,rest,d,hthread,hstack,hmove⟩ := hmoves
  have hsum := total_apply (Frame.ackDue l) hthread hstack
  obtain ⟨lost,hlost,hmoved⟩ := move_acknowledged hmove l
  have hzero := hlost hσ.registered
  simp only [Acknowledged,System.apply,acknowledgements_append] at hack hsum ⊢
  omega

theorem acknowledged_fresh {σ : System} (h : Reachable σ) {l : Nat}
    (hl : σ.links.length ≤ l) : Acknowledged σ l := by
  have hle := h.acknowledged_le l
  unfold Acknowledged
  rw [linkValue_of_length_le hl,linkValue_of_length_le hl] at hle ⊢
  omega

theorem acknowledgement_le (l : Nat) (site : EmitSite) (packetType : UInt8) (packet : Bytes) :
    acknowledgement l site packetType packet ≤ if some site = some (.writer l) then 1 else 0 := by
  unfold acknowledgement
  split
  · rename_i h
    exact Nat.le_of_eq (if_pos (congrArg some h.1)).symm
  · exact Nat.zero_le _

theorem Frame.ackDue_le_emits (l : Nat) (f : Frame) : f.ackDue l ≤ f.emits (.writer l) := by
  cases f with
  | lock s | locked s =>
    cases s with
    | emitLookup site packetType packet => exact acknowledgement_le l site packetType packet
    | _ => exact Nat.zero_le _
  | emitCall site packetType packet handler => exact acknowledgement_le l site packetType packet
  | _ => exact Nat.zero_le _

private theorem ackDue_of_fill {σ : System} (h : Reachable σ) {l : Nat} {link : Link}
    (hlink : σ.links[l]? = some link) (hpc : link.writer.pc = .fill) :
    Pool.total (Frame.ackDue l) σ.threads = 0 := by
  have hemits := h.total_emits (show EmitSite.writer l ≠ .usbInfo by simp)
  have hmono := Pool.total_mono (Frame.ackDue_le_emits l) σ.threads
  rw [hemits,emitting_of_link rfl hlink] at hmono
  simp only [Link.emitting,hpc,WriterPc.emitting] at hmono
  omega

/-- In a run that keeps its handler, the acknowledgements of a transport opened in it match the
slots its writer has released if and only if no transfer of the writer has failed so far. -/
theorem acknowledgements_eq_releases_iff {σ₀ σ : System} (h₀ : Reachable σ₀)
    (hhandler : HandlerKept σ₀) (hrun : machine.Steps KeepsHandler σ₀ σ) {l : Nat} {link : Link}
    (hnew : σ₀.links.length ≤ l) (hlink : σ.links[l]? = some link)
    (hpc : link.writer.pc = .fill) :
    acknowledgements l σ.log = releases link.history ↔
      ∀ status, .completed status ∈ link.history → status = .ok := by
  have hack := (acknowledged_steps hrun hhandler (acknowledged_fresh h₀ hnew)).2
  rw [Acknowledged,ackDue_of_fill (h₀.steps hrun) hlink hpc,linkValue_of_getElem? hlink,
    linkValue_of_getElem? hlink] at hack
  have hsettled : link.settled = releases link.history := by
    simp [Link.settled,hpc,WriterPc.failing]
  have hfailed : link.failed = failures link.history := rfl
  rw [← failures_eq_zero_iff]
  omega

/-- One command is sent on a freshly opened transport and its control transfer ends with the
status given; the writer then releases the slot. -/
def commandRun (status : Status) : List Action :=
  openRun 0 dongle dongleInterface [.go,.go] ++
    Action.by 0 [.call (.transportSendPacket ⟨1,some [3,12,0],3⟩),.go,.go,.go,.go,.go] ++
    Action.by 3 [.go,.go,.go,.control status,.go]

/-- A command that succeeds is acknowledged once, before the writer is at its loop head again. -/
theorem acknowledgements_eq_releases_iff_command : ∃ σ link, Reachable σ ∧
    σ.links[0]? = some link ∧ releases link.history = 1 ∧
    (acknowledgements 0 σ.log = releases link.history ↔
      ∀ status, .completed status ∈ link.history → status = .ok) := by
  have hrun : ((machine.run (System.initial 1 (some 7))
      (commandRun .ok ++ Action.by 3 [.go,.go,.go,.go])).bind
      fun σ => σ.links[0]?.map fun link => (link.writer.pc,releases link.history)) =
      some (.fill,1) := rfl
  obtain ⟨σ,hσ,hmap⟩ := Option.bind_eq_some_iff.mp hrun
  obtain ⟨link,hlink,hpair⟩ := Option.map_eq_some_iff.mp hmap
  obtain ⟨hpc,hreleases⟩ := Prod.mk.inj hpair
  have hkeeps : ∀ a ∈ commandRun .ok ++ Action.by 3 [.go,.go,.go,.go],
      a.choice.clearsHandler = false := by decide
  have hinitial : Reachable (System.initial 1 (some 7)) := ⟨_,⟨1,some 7,rfl⟩,.refl _⟩
  exact ⟨σ,link,Reachable.of_run hσ,hlink,hreleases,
    acknowledgements_eq_releases_iff hinitial ⟨rfl,rfl⟩
      ((Machine.steps_of_run hσ).mono fun _ a ha => hkeeps a ha) (Nat.zero_le 0) hlink hpc⟩

/-- A command whose control transfer stalls: its slot is released, the writer is back at its loop
head, the handler is registered, and no acknowledgement has been given. -/
theorem stalledCommand_unacknowledged : ∃ σ link,
    machine.run (System.initial 1 (some 7)) (commandRun (.err .stall)) = some σ ∧
    σ.links[0]? = some link ∧ link.writer.pc = .fill ∧ σ.state.packetHandler = some 7 ∧
    releases link.history = 1 ∧ acknowledgements 0 σ.log = 0 := by
  have hrun : ((machine.run (System.initial 1 (some 7)) (commandRun (.err .stall))).bind
      fun σ => σ.links[0]?.map fun link => (link.writer.pc,σ.state.packetHandler,
        releases link.history,acknowledgements 0 σ.log)) = some (.fill,some 7,1,0) := rfl
  obtain ⟨σ,hσ,hmap⟩ := Option.bind_eq_some_iff.mp hrun
  obtain ⟨link,hlink,hvalues⟩ := Option.map_eq_some_iff.mp hmap
  simp only [Prod.mk.injEq] at hvalues
  obtain ⟨hpc,hhandler,hreleases,hack⟩ := hvalues
  exact ⟨σ,link,hσ,hlink,hpc,hhandler,hreleases,hack⟩

end BtstackRs.Transport
