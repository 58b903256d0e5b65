import BtstackRs.Concurrent.Pipeline
import BtstackRs.Transport.Acknowledge
import BtstackRs.Transport.Fifo
import BtstackRs.Transport.Slots

/-!
# A link is a pipeline

What a link is for: a pipeline of as many packets as the queue is deep, in which nothing is handed
to USB between a command and the release of its slot. The history of every link, whatever the
threads do, is a run of this pipeline.
-/

namespace BtstackRs.Transport

open Concurrent

/-- Commands are sent by `block_on`: the writer hands nothing over while it waits for one. -/
def Transfer.holdsUp : Transfer → Bool
  | .control _ => true
  | .bulkOut _ _ => false

def WriterPc.commanding : WriterPc → Bool
  | .commandWait | .commandDone _ => true
  | _ => false

def WriterPc.finishing : WriterPc → Nat
  | .bulkDone _ => 1
  | _ => 0

theorem WriterPc.handling_eq (pc : WriterPc) :
    pc.handling = pc.held.length + (pc.finishing + pc.commanding.toNat) := by
  cases pc <;> rfl

@[simp] theorem afterRelease_commanding (status : Status) :
    (afterRelease status).commanding = false := by cases status <;> rfl

@[simp] theorem afterRelease_finishing (status : Status) : (afterRelease status).finishing = 0 := by
  cases status <;> rfl

/-- The accepted packets that have not been handed over. -/
def Link.waiting (link : Link) : List OutgoingPacket := link.writer.pc.held ++ link.channel

def Link.pipeline (link : Link) : Pipeline Transfer where
  waiting := link.waiting.map (OutgoingPacket.transfer link.endpoints)
  shared := link.writer.inFlightOut + link.writer.pc.finishing
  heldUp := link.writer.pc.commanding

theorem Link.pipeline_load (link : Link) :
    link.pipeline.load = link.channel.length + link.writer.slots := by
  have hhandling := link.writer.pc.handling_eq
  simp only [Pipeline.load,Pipeline.outstanding,pipeline,waiting,List.length_map,
    List.length_append,Writer.slots]
  omega

def LinkEvent.observed (endpoints : EndpointConfig) : LinkEvent → Option (Pipeline.Event Transfer)
  | .accepted _ call => (outgoingOf call).map fun packet => .accept (packet.transfer endpoints)
  | .handed transfer => some (.handOver transfer)
  | .released => some .settle
  | _ => none

def Link.trace (link : Link) : List (Pipeline.Event Transfer) :=
  link.history.filterMap (LinkEvent.observed link.endpoints)

/-- The pipeline of the links. -/
abbrev linkPipeline : Machine (Pipeline Transfer) (Pipeline.Event Transfer) :=
  Concurrent.pipeline outgoingQueueDepth Transfer.holdsUp

def Link.Continues (link link' : Link) : Prop :=
  ∃ new, link'.trace = link.trace ++ new ∧ linkPipeline.run link.pipeline new = some link'.pipeline

private theorem Link.Continues.of_eq {link link' : Link} (htrace : link'.trace = link.trace)
    (hpipeline : link'.pipeline = link.pipeline) : link.Continues link' :=
  ⟨[],by rw [htrace,List.append_nil],by rw [hpipeline]; rfl⟩

private theorem Link.Continues.of_step {link link' : Link} {e : Pipeline.Event Transfer}
    (htrace : link'.trace = link.trace ++ [e])
    (hstep : Pipeline.step outgoingQueueDepth Transfer.holdsUp link.pipeline e =
      some link'.pipeline) : link.Continues link' := by
  refine ⟨[e],htrace,?_⟩
  rw [Machine.run,show linkPipeline.step link.pipeline e = some link'.pipeline from hstep]
  rfl

private theorem Link.Continues.trans {link₀ link₁ link₂ : Link} (h : link₀.Continues link₁)
    (h' : link₁.Continues link₂) : link₀.Continues link₂ := by
  obtain ⟨events,htrace,hrun⟩ := h
  obtain ⟨events',htrace',hrun'⟩ := h'
  refine ⟨events ++ events',by rw [htrace',htrace,List.append_assoc],?_⟩
  rw [Machine.run_append hrun,hrun']

private theorem sendStep_continues {t : Nat} {call : SendCall} {handles : SendHandles}
    {spurious : Bool} {pc : SendPc call} {link link' : Link} {next : SendNext call}
    (hload : link'.pipeline.load ≤ outgoingQueueDepth)
    (h : sendStep t call handles spurious pc link = (link',next)) : link.Continues link' := by
  cases sendStep_cases h with
  | load | refuse | retry | fail => exact .of_eq rfl rfl
  | reserve | rollback => exact .of_eq (by simp [Link.trace,LinkEvent.observed]) rfl
  | accept packet hpacket hreceiver hroom =>
    apply Link.Continues.of_step (e := .accept (packet.transfer link.endpoints))
    · simp [Link.trace,LinkEvent.observed,hpacket]
    · rw [Link.pipeline_load] at hload
      simp only [Link.record_channel,Link.record_writer,List.length_append,
        List.length_singleton] at hload
      have hless : link.pipeline.load < outgoingQueueDepth := by
        rw [Link.pipeline_load]
        omega
      rw [Pipeline.step,if_pos hless]
      simp [Link.pipeline,Link.waiting]

private theorem writerStep_continues {alive : Bool} {control : Status}
    {poll : Option (Nat × Status)} {link link' : Link} (hw : link.writer.Windowed)
    (h : writerStep alive control poll link = some link') : link.Continues link' := by
  cases writerStep_cases h with
  | take hpc packet rest hchannel =>
    refine .of_eq rfl ?_
    simp [Link.pipeline,Link.waiting,hpc,hchannel,WriterPc.held,WriterPc.finishing,
      WriterPc.commanding]
  | command packet hpc =>
    apply Link.Continues.of_step (e := .handOver (.control (sendHciCommand packet)))
    · simp [Link.trace,LinkEvent.observed]
    · simp [Pipeline.step,Link.pipeline,Link.waiting,hpc,WriterPc.held,WriterPc.finishing,
        WriterPc.commanding,OutgoingPacket.transfer,Transfer.holdsUp]
  | submit packet data hpc htransfer =>
    apply Link.Continues.of_step (e := .handOver (.bulkOut link.endpoints.aclOut data))
    · simp [Link.trace,LinkEvent.observed]
    · simp [Pipeline.step,Link.pipeline,Link.waiting,hpc,WriterPc.held,WriterPc.finishing,
        WriterPc.commanding,htransfer,Transfer.holdsUp]
  | release status hpc =>
    apply Link.Continues.of_step (e := .settle)
    · simp [Link.trace,LinkEvent.observed]
    · rcases hpc with hpc | hpc
      · simp [Pipeline.step,Link.pipeline,Link.waiting,hpc,
          show (WriterPc.commandDone status).held = [] from rfl,
          show (WriterPc.commandDone status).finishing = 0 from rfl,
          show (WriterPc.commandDone status).commanding = true from rfl]
      · simp [Pipeline.step,Link.pipeline,Link.waiting,hpc,
          show (WriterPc.bulkDone status).held = [] from rfl,
          show (WriterPc.bulkDone status).finishing = 1 from rfl,
          show (WriterPc.bulkDone status).commanding = false from rfl]
  | complete hpc i status hi =>
    have hpos := hw.poll_pos hpc
    apply Link.Continues.of_eq
    · simp [Link.trace,LinkEvent.observed]
    · simp only [Link.pipeline,Link.waiting,Link.record_writer,Link.record_channel,
        Link.record_endpoints,hpc,WriterPc.held,WriterPc.finishing,WriterPc.commanding,
        wrappingDec_of_pos hpos]
      rw [Nat.sub_add_cancel hpos]
      rfl
  | commandComplete hpc | cancel hpc =>
    apply Link.Continues.of_eq
    · simp [Link.trace,LinkEvent.observed]
    · simp [Link.pipeline,Link.waiting,hpc,WriterPc.held,WriterPc.finishing,WriterPc.commanding]
  | enter hpc | skip hpc | timeout hpc | disconnected hpc | pass hpc | leave hpc | again hpc
  | await hpc | idle hpc =>
    refine .of_eq rfl ?_
    simp [Link.pipeline,Link.waiting,hpc,WriterPc.held,WriterPc.finishing,WriterPc.commanding]

theorem LinkMove.continues {alive : Bool} {link link' : Link} (h : LinkMove alive link link')
    (hw : link.writer.Windowed) (hload : link'.pipeline.load ≤ outgoingQueueDepth) :
    link.Continues link' := by
  cases h with
  | same | stop => exact .of_eq rfl rfl
  | send t call handles spurious pc _ next hsend => exact sendStep_continues hload hsend
  | reader kind poll r hreader | resumeReader kind =>
    exact .of_eq (by simp [Link.trace]) (by simp [Link.pipeline,Link.waiting])
  | writer control poll _ hwriter => exact writerStep_continues hw hwriter
  | resumeWriter =>
    refine .of_eq rfl ?_
    unfold Writer.resume
    split
    · rename_i hpc
      simp [Link.pipeline,Link.waiting,hpc,WriterPc.held,WriterPc.finishing,WriterPc.commanding]
    · rfl

/-- A step of the system is none or some steps of the pipeline of a link. -/
theorem Reachable.continues {σ σ' : System} {a : Action} (h : Reachable σ)
    (hstep : machine.step σ a = some σ') {l : Nat} {link : Link} (hlink : σ.links[l]? = some link) :
    ∃ link', σ'.links[l]? = some link' ∧ link.Continues link' := by
  have hreach' : Reachable σ' := h.step hstep
  obtain ⟨th,rest,d,hthread,hstack,hmove⟩ := step_moves hstep
  obtain ⟨link',hlink',hlinkMove,-⟩ := hmove.linkMove hlink
  have hslots := slotsConserved hreach' (show (σ.apply a.thread rest d).links[l]? = _ from hlink')
  have hpending := hslots.outgoingPending_eq
  have hdepth := hslots.outgoingPending_le
  have hload : link'.pipeline.load ≤ outgoingQueueDepth := by
    rw [Link.pipeline_load,Writer.slots]
    omega
  exact ⟨link',hlink',hlinkMove.continues (windowed_linkInvariant.reachable h hlink) hload⟩

/-- A link of the transport is explained by the pipeline. -/
theorem Reachable.explained {σ : System} (h : Reachable σ) (l : Nat) :
    Machine.Explained linkPipeline {} (fun σ : System => (σ.links[l]?).elim [] Link.trace)
      (fun σ => (σ.links[l]?).elim {} Link.pipeline) σ := by
  apply Machine.ReachableBy.explained h
  · rintro _ ⟨clients,handler,rfl⟩
    exact ⟨rfl,rfl⟩
  · intro σ a σ' hreach _ hstep
    by_cases hl : l < σ.links.length
    · have hlink := List.getElem?_eq_getElem hl
      obtain ⟨link',hlink',hcontinues⟩ := Reachable.continues hreach hstep hlink
      rw [hlink,hlink']
      exact hcontinues
    · rw [List.getElem?_eq_none (Nat.not_lt.mp hl)]
      obtain ⟨th,rest,d,hthread,hstack,hmove⟩ := step_moves hstep
      cases hlink' : (σ.apply a.thread rest d).links[l]? with
      | none => exact ⟨[],rfl,rfl⟩
      | some link' =>
        obtain ⟨endpoints,rfl,-⟩ := hmove.fresh_link (Nat.not_lt.mp hl) hlink'
        exact ⟨[],rfl,rfl⟩

theorem Reachable.run_trace {σ : System} (h : Reachable σ) {l : Nat} {link : Link}
    (hlink : σ.links[l]? = some link) : linkPipeline.run {} link.trace = some link.pipeline := by
  have hexplained := h.explained l
  rw [Machine.Explained,hlink] at hexplained
  exact hexplained

private def twoQueued : List LinkEvent :=
  [.reserved 0,.accepted 0 ⟨1,some [3,12,0],3⟩,.reserved 1,.accepted 1 ⟨2,some [7],1⟩]

private def handOverRun : List Action :=
  Action.by 0 [.call (.transportSendPacket ⟨1,some [3,12,0],3⟩),.go,.go,.go,.go,.go] ++
    Action.by 1 [.call (.transportSendPacket ⟨2,some [7],1⟩),.go,.go,.go,.go,.go] ++
    Action.by 4 [.go,.go,.go,.go,.go,.go,.go,.go,.go,.go]

private def resetTransfer : Transfer :=
  .control {
    classRequest := true, toDevice := true, request := 0, value := 0, index := 0,
    data := [3,12,0] }

private theorem exists_handed : ∃ σ σ' link link', Reachable σ ∧
    machine.Steps Machine.anyAction σ σ' ∧ σ.links[0]? = some link ∧ link.history = [] ∧
    σ'.links[0]? = some link' ∧ link'.endpoints = ⟨0x81,0x82,0x02⟩ ∧ link'.history =
      twoQueued ++ .handed resetTransfer :: [.completed .ok,.released] ++
        .handed (.bulkOut 2 [7]) :: [] := by
  have hopen : ((machine.run (System.initial 2 none) (openRun 0 dongle dongleInterface [])).bind
      fun σ => σ.links[0]?.map (·.history)) = some [] := rfl
  have hall : ((machine.run (System.initial 2 none)
      (openRun 0 dongle dongleInterface [] ++ handOverRun)).bind
      fun σ => σ.links[0]?.map fun link => (link.endpoints,link.history)) =
      some (⟨0x81,0x82,0x02⟩,twoQueued ++ .handed resetTransfer ::
        [.completed .ok,.released] ++ .handed (.bulkOut 2 [7]) :: []) := rfl
  obtain ⟨σ',hσ',hmap⟩ := Option.bind_eq_some_iff.mp hall
  obtain ⟨link',hlink',hpair⟩ := Option.map_eq_some_iff.mp hmap
  obtain ⟨hendpoints,hhistory⟩ := Prod.mk.inj hpair
  obtain ⟨σ,hσ,hrest⟩ := Machine.run_split hσ'
  rw [hσ,Option.bind_some] at hopen
  obtain ⟨link,hlink,hempty⟩ := Option.map_eq_some_iff.mp hopen
  exact ⟨σ,σ',link,link',Reachable.of_run hσ,
    (Machine.steps_of_run hrest).any,hlink,hempty,hlink',hendpoints,hhistory⟩

/-- Whatever the threads do, what happened to the packets of a link is a run of the pipeline to the
state that the link is in, and every continuation of the run goes on with the pipeline from there. -/
theorem link_refines_pipeline {σ σ' : System} (h : Reachable σ)
    (hrun : machine.Steps Machine.anyAction σ σ') {l : Nat} {link : Link}
    (hlink : σ.links[l]? = some link) :
    linkPipeline.run {} link.trace = some link.pipeline ∧
      ∃ link' events, σ'.links[l]? = some link' ∧ link'.trace = link.trace ++ events ∧
        linkPipeline.run link.pipeline events = some link'.pipeline := by
  refine ⟨h.run_trace hlink,?_⟩
  have hcontinues : Reachable σ' ∧ ∃ link', σ'.links[l]? = some link' ∧ link.Continues link' := by
    apply hrun.invariant ⟨h,link,hlink,.of_eq rfl rfl⟩
    rintro σ₁ a σ₂ ⟨hreach,link₁,hlink₁,hcontinues⟩ _ hstep
    obtain ⟨link₂,hlink₂,hcontinues'⟩ := hreach.continues hstep hlink₁
    exact ⟨hreach.step hstep,link₂,hlink₂,hcontinues.trans hcontinues'⟩
  obtain ⟨-,link',hlink',events,htrace,hpipeline⟩ := hcontinues
  exact ⟨link',events,hlink',htrace,hpipeline⟩

theorem link_refines_pipeline_handed : ∃ σ link events, Reachable σ ∧ σ.links[0]? = some link ∧
    link.trace = [] ∧ events.length = 5 ∧ (linkPipeline.run link.pipeline events).isSome := by
  obtain ⟨σ,σ',link,link',hreach,hsteps,hlink,hempty,hlink',hendpoints,hhistory⟩ := exists_handed
  obtain ⟨-,link₁,events,hlink₁,htrace,hrun⟩ := link_refines_pipeline hreach hsteps hlink
  rw [hlink'] at hlink₁
  cases hlink₁
  have hnone : link.trace = [] := by rw [Link.trace,hempty,List.filterMap_nil]
  rw [hnone,List.nil_append] at htrace
  refine ⟨σ,link,events,hreach,hlink,hnone,?_,by rw [hrun]; rfl⟩
  rw [← htrace,Link.trace,hendpoints,hhistory]
  rfl

section Observed

variable (endpoints : EndpointConfig) (history : List LinkEvent)

theorem accepted_observed :
    Pipeline.accepted (history.filterMap (LinkEvent.observed endpoints)) =
      (acceptedCalls history).filterMap (SendCall.usbTransfer endpoints.aclOut) := by
  rw [Pipeline.accepted,acceptedCalls,List.filterMap_filterMap,List.filterMap_filterMap]
  apply List.filterMap_congr
  intro e _
  cases e with
  | accepted t call =>
    cases h : outgoingOf call <;>
      simp [LinkEvent.observed,LinkEvent.acceptedCall,h,Pipeline.Event.accepted,
        SendCall.usbTransfer_eq]
  | _ => rfl

theorem handed_observed :
    Pipeline.handed (history.filterMap (LinkEvent.observed endpoints)) =
      handedTransfers history := by
  rw [Pipeline.handed,handedTransfers,List.filterMap_filterMap]
  apply List.filterMap_congr
  intro e _
  cases e with
  | accepted t call =>
    cases h : outgoingOf call <;>
      simp [LinkEvent.observed,LinkEvent.handedTransfer,h,Pipeline.Event.handed]
  | _ => rfl

theorem settled_observed :
    Pipeline.settled (history.filterMap (LinkEvent.observed endpoints)) = releases history := by
  rw [Pipeline.settled,releases,List.countP_filterMap]
  apply List.countP_congr
  intro e _
  cases e with
  | accepted t call =>
    cases h : outgoingOf call <;>
      simp [LinkEvent.observed,LinkEvent.isReleased,h,Pipeline.Event.settles]
  | _ => simp [LinkEvent.observed,LinkEvent.isReleased,Pipeline.Event.settles]

end Observed

theorem Reachable.accepted_transfers {σ : System} (h : Reachable σ) {l : Nat} {link : Link}
    (hlink : σ.links[l]? = some link) {before after : List LinkEvent}
    (hhistory : link.history = before ++ after) :
    (acceptedCalls before).map (SendCall.usbTransfer link.endpoints.aclOut) =
      ((acceptedCalls before).filterMap (SendCall.usbTransfer link.endpoints.aclOut)).map some := by
  obtain ⟨packets,horder⟩ := inOrder_linkInvariant.reachable h hlink
  rw [List.map_filterMap_some_eq_filter_map_isSome,eq_comm,List.filter_eq_self]
  intro transfer htransfer
  obtain ⟨call,hcall,rfl⟩ := List.mem_map.mp htransfer
  have hmem : call ∈ acceptedCalls link.history := by
    rw [hhistory,acceptedCalls,List.filterMap_append]
    exact List.mem_append_left _ hcall
  have hpacket := List.mem_map_of_mem (f := outgoingOf) hmem
  rw [horder.accepted_eq] at hpacket
  obtain ⟨packet,-,hsome⟩ := List.mem_map.mp hpacket
  rw [SendCall.usbTransfer_eq,← hsome]
  rfl

/-- At every moment of the past of a link the transfers handed over were those of the first calls
accepted, at most as many as the queue is deep had not been released, and none was released
before it was handed over. -/
theorem history_paced {σ : System} (h : Reachable σ) {l : Nat} {link : Link}
    (hlink : σ.links[l]? = some link) {before after : List LinkEvent}
    (hhistory : link.history = before ++ after) :
    (handedTransfers before).map some <+:
        (acceptedCalls before).map (SendCall.usbTransfer link.endpoints.aclOut) ∧
      releases before ≤ (handedTransfers before).length ∧
      (acceptedCalls before).length ≤ releases before + outgoingQueueDepth := by
  have hrun := h.run_trace hlink
  rw [Link.trace,hhistory,List.filterMap_append] at hrun
  obtain ⟨p,hp,-⟩ := Machine.run_split hrun
  obtain ⟨haccepted,hhanded,hload⟩ := Pipeline.lawful_of_run hp
  rw [accepted_observed,handed_observed] at haccepted
  rw [handed_observed,settled_observed] at hhanded
  have htransfers := h.accepted_transfers hlink hhistory
  rw [haccepted,List.map_append] at htransfers
  have hlength := congrArg List.length htransfers
  rw [List.length_map,List.length_append,List.length_map,List.length_map] at hlength
  refine ⟨⟨p.waiting.map some,htransfers.symm⟩,by omega,?_⟩
  rw [Pipeline.load] at hload
  omega

theorem history_paced_handed : ∃ σ link before, Reachable σ ∧ σ.links[0]? = some link ∧
    before <+: link.history ∧
    acceptedCalls before = [⟨1,some [3,12,0],3⟩,⟨2,some [7],1⟩] ∧
    handedTransfers before = [.control {
      classRequest := true, toDevice := true, request := 0, value := 0, index := 0,
      data := [3,12,0] }] ∧
    (handedTransfers before).map some <+:
        (acceptedCalls before).map (SendCall.usbTransfer link.endpoints.aclOut) ∧
      releases before ≤ (handedTransfers before).length ∧
      (acceptedCalls before).length ≤ releases before + outgoingQueueDepth := by
  obtain ⟨σ₀,σ,_,link,hreach₀,hsteps,-,-,hlink,-,hhistory⟩ := exists_handed
  have hreach := hreach₀.steps hsteps
  have hsplit : link.history = (twoQueued ++ [.handed resetTransfer]) ++
      [.completed .ok,.released,.handed (.bulkOut 2 [7])] := hhistory
  exact ⟨σ,link,_,hreach,hlink,⟨_,hsplit.symm⟩,rfl,rfl,history_paced hreach hlink hsplit⟩

/-- Nothing is handed to USB between a command and the release of its slot. -/
theorem command_settles_first {σ : System} (h : Reachable σ) {l : Nat} {link : Link}
    (hlink : σ.links[l]? = some link) {before between after : List LinkEvent} {setup : ControlOut}
    {transfer : Transfer}
    (hhistory : link.history =
      before ++ .handed (.control setup) :: between ++ .handed transfer :: after) :
    LinkEvent.released ∈ between := by
  have hrun := h.run_trace hlink
  rw [Link.trace,hhistory] at hrun
  simp only [List.filterMap_append,List.filterMap_cons,LinkEvent.observed] at hrun
  have hsettle := Pipeline.settle_between hrun rfl
  obtain ⟨e,he,hobserved⟩ := List.mem_filterMap.mp hsettle
  cases e with
  | released => exact he
  | accepted t call =>
    cases hcall : outgoingOf call <;> simp [LinkEvent.observed,hcall] at hobserved
  | _ => cases hobserved

/-- The command that was handed over has been released when the ACL packet follows. -/
theorem command_settles_first_handed : ∃ σ link before between after, Reachable σ ∧
    σ.links[0]? = some link ∧
    link.history = before ++ .handed (.control {
        classRequest := true, toDevice := true, request := 0, value := 0, index := 0,
        data := [3,12,0] }) :: between ++ .handed (.bulkOut 2 [7]) :: after ∧
    LinkEvent.released ∈ between := by
  obtain ⟨σ₀,σ,_,link,hreach₀,hsteps,-,-,hlink,-,hhistory⟩ := exists_handed
  have hreach := hreach₀.steps hsteps
  exact ⟨σ,link,_,_,_,hreach,hlink,hhistory,command_settles_first hreach hlink hhistory⟩

end BtstackRs.Transport
