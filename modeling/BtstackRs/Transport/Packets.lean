import BtstackRs.Transport.Calls
import BtstackRs.Transport.Delivery
import BtstackRs.Transport.Selection
import BtstackRs.Transport.UsbIdentity

/-!
# What the handler is given

Every packet that reaches the handler was made at one of three places: by a reader from the data of
a completion, by the writer as an acknowledgement, or by `transport_open` from the device that it
is about to use. On its way through `emit_packet` it is not changed.
-/

namespace BtstackRs.Transport

open Concurrent

/-- The arguments of a call of `emit_packet`, and where it is made. -/
structure Emission where
  site : EmitSite
  packetType : UInt8
  packet : Bytes

def Section.emission : Section → Option Emission
  | .emitLookup site packetType packet => some ⟨site,packetType,packet⟩
  | _ => none

def Frame.emission : Frame → Option Emission
  | .lock s | .locked s => s.emission
  | .emitCall site packetType packet _ | .emitRunning site packetType packet =>
      some ⟨site,packetType,packet⟩
  | _ => none

def Event.emission : Event → Option Emission
  | .entered _ site _ packetType packet _ => some ⟨site,packetType,packet⟩
  | _ => none

inductive Origin (σ : System) (a : Action) : Emission → Prop where
  | usbInfo (device : DeviceInfo) (base : List Frame)
      (hin : σ.In a.thread (.opening (.claim device)) base) : Origin σ a
        ⟨.usbInfo,hciEventPacket,usbInfoEvent device ((usbPath device).getD [])⟩
  | reader (kind : ReaderKind) (l : Nat) (link : Link) (c : Completion)
      (hlink : σ.links[l]? = some link) (hpc : (link.reader kind).pc = .completed c)
      (hdata : c.data ≠ []) : Origin σ a ⟨.reader kind l,kind.packetType,c.data⟩
  | writer (l : Nat) (link : Link) (hlink : σ.links[l]? = some link) :
      Origin σ a ⟨.writer l,hciEventPacket,packetSentEvent⟩

inductive OpeningStep (c : Choice) : OpenPc → List Frame → Prop where
  | failed (pc : OpenPc) : OpeningStep c pc []
  | selected (selection : UsbSelection) (device : DeviceInfo)
      (hdevice : selectDevice c.listDevices selection = some device) :
      OpeningStep c (.select selection) [.opening (.device device)]
  | opened (device : DeviceInfo) : OpeningStep c (.device device) [.opening (.claim device)]
  | claimed (device : DeviceInfo) (interface : Interface) : OpeningStep c (.claim device)
      [.lock (.emitLookup .usbInfo hciEventPacket
        (usbInfoEvent device ((usbPath device).getD []))),.openCreate (detectEndpoints interface)]

theorem step_opening {σ σ' : System} {a : Action} {th : Thread Role Frame} {pc : OpenPc}
    {rest : List Frame} (hthread : σ.threads[a.thread]? = some th)
    (hstack : th.stack = .opening pc :: rest) (hstep : machine.step σ a = some σ') :
    ∃ top, OpeningStep a.choice pc top ∧
      σ'.threads[a.thread]? = some { th with stack := top ++ rest } := by
  have hnext : σ' = σ.proceed a.thread (.opening pc) rest (openNext a.choice pc) := by
    simp only [machine,System.step,hthread,hstack,System.frameStep,Option.some_inj] at hstep
    exact hstep.symm
  have hself : ∀ stack, (σ.threads.setStack a.thread stack)[a.thread]? =
      some { th with stack := stack } := Pool.getElem?_setStack_self hthread
  subst hnext
  cases pc with
  | select selection =>
    rw [openNext]
    split
    · exact ⟨[],.failed _,hself rest⟩
    · rename_i device hdevice
      exact ⟨_,.selected selection device hdevice,hself _⟩
  | device device =>
    rw [openNext]
    split
    · exact ⟨_,.opened device,hself _⟩
    · exact ⟨[],.failed _,hself rest⟩
  | claim device =>
    rw [openNext]
    split
    · exact ⟨[],.failed _,hself rest⟩
    · rename_i interface _
      exact ⟨_,.claimed device interface,hself _⟩

private theorem completed_of_delivery {kind : ReaderKind} {stop : Bool}
    {poll : Option Completion} {r r' : Reader} {data : Bytes}
    (h : readerStep kind stop poll r = some r') (hdata : r'.delivery = some data) :
    ∃ c, r.pc = .completed c ∧ c.data ≠ [] ∧ data = c.data := by
  cases readerStep_cases h with
  | deliver c hpc hnonempty =>
    refine ⟨c,hpc,hnonempty.2,?_⟩
    simpa [Reader.delivery,eq_comm] using hdata
  | idle hpc | drain hpc => simp [Reader.delivery,hpc] at hdata
  | _ => simp [Reader.delivery] at hdata

theorem emission_origin {σ σ' : System} {a : Action} (hstep : machine.step σ a = some σ')
    {t : Nat} {th' : Thread Role Frame} (hth' : σ'.threads[t]? = some th') {f : Frame}
    (hf : f ∈ th'.stack) {e : Emission} (he : f.emission = some e) :
    (∃ (t₀ : Nat) (th : Thread Role Frame) (f₀ : Frame), σ.threads[t₀]? = some th ∧
        f₀ ∈ th.stack ∧ f₀.emission = some e) ∨ Origin σ a e := by
  obtain ⟨th,rest,d,hthread,hstack,hmove⟩ := step_moves hstep
  rcases mem_stack_apply hthread hstack hth' hf with ⟨rfl,-,hf⟩ | ⟨th₀,hth₀,-,hf₀⟩
  · have hold : ∀ g ∈ d.top, g.emission = some e → ∃ (t₀ : Nat) (th : Thread Role Frame)
        (f₀ : Frame), σ.threads[t₀]? = some th ∧ f₀ ∈ th.stack ∧ f₀.emission = some e :=
      fun g hg hge => ⟨a.thread,th,g,hthread,by rw [hstack]; exact List.mem_append_left _ hg,hge⟩
    cases hmove with
    | lock s hfree =>
      obtain rfl := List.mem_singleton.mp hf
      exact .inl (hold _ List.mem_cons_self he)
    | enter site packetType packet handler =>
      obtain rfl := List.mem_singleton.mp hf
      exact .inl (hold _ List.mem_cons_self he)
    | sectionGoto s state g hsection =>
      obtain rfl := List.mem_singleton.mp hf
      cases hsection with
      | emitLookup site packetType packet handler hhandler =>
        exact .inl (hold _ List.mem_cons_self he)
      | _ => cases he
    | openingClaim pc endpoints packet =>
      obtain ⟨top,htop,hthread'⟩ := step_opening hthread hstack hstep
      rw [getElem?_apply_self rest _ hthread,Option.some_inj] at hthread'
      have htops := List.append_cancel_right (congrArg Thread.stack hthread')
      subst htops
      cases htop with
      | claimed device interface =>
        rcases List.mem_cons.mp hf with rfl | hf
        · cases he
          exact .inr (.usbInfo device rest ⟨th,hthread,hstack⟩)
        · obtain rfl := List.mem_singleton.mp hf
          cases he
    | spawn l pc =>
      obtain rfl := List.mem_singleton.mp hf
      cases pc <;> cases he
    | call op s hchoice hcan henters =>
      obtain rfl := List.mem_singleton.mp hf
      cases henters <;> cases he
    | readerDeliver kind l link r data hrole hrest hlink hreader hdata =>
      obtain rfl := List.mem_singleton.mp hf
      cases he
      obtain ⟨c,hpc,hnonempty,rfl⟩ := completed_of_delivery hreader hdata
      exact .inr (.reader kind l link c hlink hpc hnonempty)
    | writerAcknowledge l link link' hrole hrest hlink hwriter hack =>
      obtain rfl := List.mem_singleton.mp hf
      cases he
      exact .inr (.writer l link hlink)
    | openingGoto | create | stop | joinedReaders | joinReader | sendGoto =>
      obtain rfl := List.mem_singleton.mp hf
      cases he
    | sectionRet | openingFail | joinWriter | sendRet | leave | callRet | reader | writer =>
      cases hf
  · exact .inl ⟨t,th₀,f,hth₀,hf₀,he⟩

theorem entered_origin {σ σ' : System} {a : Action} (hstep : machine.step σ a = some σ')
    {t : Nat} {site : EmitSite} {handler : Handler} {packetType : UInt8} {packet : Bytes}
    {size : UInt16} (hevent : Event.entered t site handler packetType packet size ∈ σ'.log) :
    Event.entered t site handler packetType packet size ∈ σ.log ∨
      size = UInt16.ofNat packet.length ∧ ∃ (t₀ : Nat) (th : Thread Role Frame) (f₀ : Frame),
        σ.threads[t₀]? = some th ∧ f₀ ∈ th.stack ∧
          f₀.emission = some ⟨site,packetType,packet⟩ := by
  obtain ⟨th,rest,d,hthread,hstack,hmove⟩ := step_moves hstep
  rcases List.mem_append.mp (show _ ∈ σ.log ++ d.events from hevent) with hold | hnew
  · exact .inl hold
  · right
    cases hmove with
    | enter site packetType packet handler =>
      obtain ⟨rfl,rfl,rfl,rfl,rfl,rfl⟩ := Event.entered.inj (List.mem_singleton.mp hnew)
      exact ⟨rfl,a.thread,th,_,hthread,by rw [hstack]; exact List.mem_cons_self,rfl⟩
    | leave | callRet => simp at hnew
    | _ => simp at hnew

structure Emits (D : Emission → Prop) (σ : System) : Prop where
  frames : ∀ (t : Nat) th f e, σ.threads[t]? = some th → f ∈ th.stack → f.emission = some e → D e
  log : ∀ t site handler packetType packet size,
    Event.entered t site handler packetType packet size ∈ σ.log →
      D ⟨site,packetType,packet⟩ ∧ size = UInt16.ofNat packet.length

theorem emits_initial (D : Emission → Prop) (clients : Nat) (handler : Option Handler) :
    Emits D (System.initial clients handler) where
  frames t th f e hth hf _ := by
    rw [(initial_thread hth).2] at hf
    cases hf
  log t site handler' packetType packet size hevent := by cases hevent

theorem Emits.mono {D D' : Emission → Prop} (hD : ∀ e, D e → D' e) {σ : System}
    (h : Emits D σ) : Emits D' σ where
  frames t th f e hth hf he := hD e (h.frames t th f e hth hf he)
  log t site handler packetType packet size hevent :=
    (h.log t site handler packetType packet size hevent).imp_left (hD _)

theorem Emits.step {D : Emission → Prop} {σ σ' : System} {a : Action} (h : Emits D σ)
    (hstep : machine.step σ a = some σ') (hnew : ∀ e, Origin σ a e → D e) : Emits D σ' where
  frames t th f e hth hf he := by
    rcases emission_origin hstep hth hf he with ⟨t₀,th₀,f₀,hth₀,hf₀,he₀⟩ | horigin
    · exact h.frames t₀ th₀ f₀ e hth₀ hf₀ he₀
    · exact hnew e horigin
  log t site handler packetType packet size hevent := by
    rcases entered_origin hstep hevent with hold | ⟨hsize,t₀,th₀,f₀,hth₀,hf₀,he₀⟩
    · exact h.log t site handler packetType packet size hold
    · exact ⟨h.frames t₀ th₀ f₀ _ hth₀ hf₀ he₀,hsize⟩

/-- A packet that can come from this place. -/
inductive WellFormedPacket : EmitSite → UInt8 → Bytes → Prop where
  | usbInfo (event : Bytes) (h : WellFormedUsbInfo event) :
      WellFormedPacket .usbInfo hciEventPacket event
  | reader (kind : ReaderKind) (l : Nat) (data : Bytes) (hdata : data ≠ [])
      (hsize : data.length ≤ kind.transferSize) :
      WellFormedPacket (.reader kind l) kind.packetType data
  | writer (l : Nat) : WellFormedPacket (.writer l) hciEventPacket packetSentEvent

theorem WellFormedPacket.length {site : EmitSite} {packetType : UInt8} {packet : Bytes}
    (h : WellFormedPacket site packetType packet) :
    0 < packet.length ∧ packet.length < 65536 := by
  induction h with
  | usbInfo event h =>
    have hcount := (event.getD 7 0).toNat_lt
    have hlength := h.pathLength
    constructor <;> omega
  | reader kind l data hdata hsize =>
    have hfits : kind.transferSize < 65536 := by cases kind <;> decide
    exact ⟨List.length_pos_iff.mpr hdata,Nat.lt_of_le_of_lt hsize hfits⟩
  | writer l => decide

theorem getD_usbPath_length (device : DeviceInfo) :
    ((usbPath device).getD []).length ≤ usbMaxPathLen := by
  cases hpath : usbPath device with
  | none => simp
  | some path => exact (usbPath_length hpath).2

theorem Reachable.completed_length {σ : System} (h : Reachable σ) {l : Nat} {link : Link}
    (hlink : σ.links[l]? = some link) {kind : ReaderKind} {c : Completion}
    (hpc : (link.reader kind).pc = .completed c) : c.data.length ≤ kind.transferSize := by
  obtain ⟨inputs,s,hrun,hreader,-⟩ := h.runs hlink kind
  have hs := readerLoop_sound hrun
  obtain ⟨handled,hcompletions,-⟩ := hs.delivered
  apply hs.short c
  rw [hcompletions,hreader,Reader.received,hpc]
  simp

/-- Whatever a step begins to emit is well formed. -/
theorem Reachable.origin_wellFormed {σ : System} (h : Reachable σ) {a : Action} {e : Emission}
    (horigin : Origin σ a e) : WellFormedPacket e.site e.packetType e.packet := by
  induction horigin with
  | usbInfo device base hin =>
    exact .usbInfo _ (usbInfoEvent_wellFormed (getD_usbPath_length device))
  | reader kind l link c hlink hpc hdata =>
    exact .reader kind l c.data hdata (h.completed_length hlink hpc)
  | writer l link hlink => exact .writer l

theorem Reachable.emits {σ : System} (h : Reachable σ) :
    Emits (fun e => WellFormedPacket e.site e.packetType e.packet) σ := by
  apply Machine.ReachableBy.invariant h
  · rintro _ ⟨clients,handler,rfl⟩
    exact emits_initial _ clients handler
  · intro σ a σ' hreach hσ _ hstep
    exact hσ.step hstep (fun e => Reachable.origin_wellFormed hreach)

/-- In every run the handler is called with well-formed packets only: the length that it is told is
that of the packet and never zero, a reader's packet has its type and is no longer than a transfer,
the writer sends nothing but acknowledgements, and the USB event's length bytes are right. -/
theorem handler_called_well {σ : System} (h : Reachable σ) {t : Nat} {site : EmitSite}
    {handler : Handler} {packetType : UInt8} {packet : Bytes} {size : UInt16}
    (hevent : Event.entered t site handler packetType packet size ∈ σ.log) :
    WellFormedPacket site packetType packet ∧ size.toNat = packet.length ∧ 0 < size.toNat := by
  obtain ⟨hwell,rfl⟩ := h.emits.log _ _ _ _ _ _ hevent
  have hlength := hwell.length
  have hsize : (UInt16.ofNat packet.length).toNat = packet.length := by
    rw [UInt16.toNat_ofNat']
    exact Nat.mod_eq_of_lt hlength.2
  rw [hsize]
  exact ⟨hwell,rfl,hlength.1⟩

theorem handler_called_well_acl : ∃ σ, Reachable σ ∧
    Event.entered 2 (.reader .acl 0) 7 hciAclDataPacket [2,0] 2 ∈ σ.log ∧
    WellFormedPacket (.reader .acl 0) hciAclDataPacket [2,0] := by
  have hrun : ((machine.run (System.initial 1 (some 7))
      (openRun 0 dongle dongleInterface [.go,.go] ++
        Action.by 2 [.go,.completion ⟨.ok,[2,0]⟩,.go,.go,.go,.go])).map fun σ =>
          decide (Event.entered 2 (.reader .acl 0) 7 hciAclDataPacket [2,0] 2 ∈ σ.log)) =
      some true := rfl
  obtain ⟨σ,hσ,hentered⟩ := Option.map_eq_some_iff.mp hrun
  have hevent := of_decide_eq_true hentered
  exact ⟨σ,.of_run hσ,hevent,(handler_called_well (.of_run hσ) hevent).1⟩

end BtstackRs.Transport
