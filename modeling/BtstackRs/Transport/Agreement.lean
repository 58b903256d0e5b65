import BtstackRs.Transport.Refusal
import BtstackRs.Transport.Reply

/-!
# Asking and sending agree

`transport_can_send_packet_now` looks at the counter only; `transport_send_packet` filters types,
reserves a slot and goes through a bounded channel. In every reachable state the first predicts
the second.
-/

namespace BtstackRs.Transport

open Concurrent

structure Asking (σ σ' : System) (t : Nat) (base : List Frame) (solo : Prop) : Prop where
  at_block : ∃ f, (f = .lock .canSend ∨ f = .locked .canSend) ∧ σ'.In t f base
  unchanged : solo → σ'.state = σ.state ∧ σ'.links = σ.links

private theorem canSend_step {σ σ' : System} {a : Action} {f : Frame} {base : List Frame}
    (hf : f = .lock .canSend ∨ f = .locked .canSend) (hin : σ.In a.thread f base)
    (hmoves : Moves σ a σ') :
    σ'.state = σ.state ∧ σ'.links = σ.links ∧
      ((∃ g, (g = .lock .canSend ∨ g = .locked .canSend) ∧ σ'.In a.thread g base ∧
          σ'.log = σ.log) ∨
        σ'.log = σ.log ++
          [.returned a.thread .transportCanSendPacketNow (some σ.canSendNow)]) := by
  cases hin.section_step hf hmoves with
  | lock hin' hstate hlinks hlog => exact ⟨hstate,hlinks,.inl ⟨_,.inr rfl,hin',hlog⟩⟩
  | goto state g hin hsection hin' hstate hlinks hlog => cases hsection
  | ret state result hin hsection hstate hlinks hlog =>
    cases hsection
    exact ⟨hstate,hlinks,.inr hlog⟩

/-- What `transport_can_send_packet_now` returns is what it finds in one state, which it leaves
as it was. -/
theorem canSend_returns {allow : System → Action → Prop} {σ σ' : System} (hreach : Reachable σ)
    {t : Nat} {packetType : UInt8} (hsupported : supportedType packetType = true) {result : Int}
    (hcall : CallReturns allow σ t (.transportCanSendPacketNow packetType) σ' result) :
    ∃ σ₁, Reachable σ₁ ∧ result = σ₁.canSendNow ∧ σ'.state = σ₁.state ∧ σ'.links = σ₁.links ∧
      ((∀ σ a, allow σ a → a.thread = t) → σ₁.state = σ.state ∧ σ₁.links = σ.links) := by
  obtain ⟨base,σ₁,hentered,hreturns⟩ := hcall.entered_lock (.canSend packetType hsupported)
  change Returns allow t .transportCanSendPacketNow σ₁ σ' result at hreturns
  have hstart : Asking σ σ₁ t base (∀ σ a, allow σ a → a.thread = t) :=
    ⟨⟨_,.inl rfl,hentered.at_lock⟩,fun _ => ⟨hentered.state_eq,hentered.links_eq⟩⟩
  have hkept : ∀ σ₂ a σ₃, Reachable σ₂ →
      Asking σ σ₂ t base (∀ σ a, allow σ a → a.thread = t) → allow σ₂ a → Moves σ₂ a σ₃ →
      (∀ events, σ₃.log = σ₂.log ++ events → ownEvents t events = []) →
        Asking σ σ₃ t base (∀ σ a, allow σ a → a.thread = t) := by
    intro σ₂ a σ₃ hreach₂ hasking hallow hmoves hquiet
    obtain ⟨f,hf,hin⟩ := hasking.at_block
    by_cases ha : a.thread = t
    · subst ha
      obtain ⟨hstate,hlinks,⟨g,hg,hin',_⟩ | hlog⟩ := canSend_step hf hin hmoves
      · refine ⟨⟨g,hg,hin'⟩,fun hsolo => ?_⟩
        obtain ⟨hstate₂,hlinks₂⟩ := hasking.unchanged hsolo
        exact ⟨hstate.trans hstate₂,hlinks.trans hlinks₂⟩
      · have hnone := hquiet _ hlog
        simp [ownEvents,Event.thread] at hnone
    · obtain ⟨th,rest,d,hthread,hstack,hmove⟩ := hmoves
      exact ⟨⟨f,hf,hin.of_other rest d ha⟩,fun hsolo => absurd (hsolo _ _ hallow) ha⟩
  obtain ⟨σ₂,a,hreach₂,hasking,rfl,_,hmoves,hreturn⟩ :=
    hreturns.invariant (hreach.step hentered.step) hstart hkept
  obtain ⟨f,hf,hin⟩ := hasking.at_block
  obtain ⟨hstate,hlinks,⟨g,hg,_,hlog⟩ | hlog⟩ := canSend_step hf hin hmoves
  · simp [hlog] at hreturn
  · have hevents := List.append_cancel_left (hlog.symm.trans hreturn)
    have hresult : σ₂.canSendNow = result := by simpa using hevents
    exact ⟨σ₂,hreach₂,hresult.symm,hstate,hlinks,hasking.unchanged⟩

def SendPc.Seen {call : SendCall} (pending : Nat) : SendPc call → Prop
  | load | rollback => True
  | reserve current => current = pending
  | trySend _ _ => pending < outgoingQueueDepth

private theorem sendStep_alone {t : Nat} {call : SendCall} {handles : SendHandles}
    {spurious : Bool} {pc : SendPc call} {link link' : Link} {next : SendNext call}
    (h : sendStep t call handles spurious pc link = (link',next)) {pending : Nat}
    (hpending : link.outgoingPending = pending+pc.reserved) (hpc : pc.Seen pending) :
    match next with
    | .goto pc' => pc'.Seen pending ∧ link'.outgoingPending = pending+pc'.reserved ∧
        link'.channel = link.channel
    | .ret result =>
        (result = 0 ∧ pending < outgoingQueueDepth ∧ supportedType call.packetType = true) ∨
          (result = -1 ∧ link'.outgoingPending = pending ∧ link'.channel = link.channel) := by
  have hdepth := handles.queueDepth_eq
  cases sendStep_cases h with
  | load => exact ⟨hpending,hpending,rfl⟩
  | refuse => exact .inr ⟨rfl,hpending,rfl⟩
  | reserve current hroom hcurrent hswaps =>
    have hsame : current = pending := hpc
    refine ⟨?_,by simp [hsame],rfl⟩
    unfold SendPc.classified
    split
    · change pending < outgoingQueueDepth
      omega
    · trivial
  | retry => exact ⟨hpending,hpending,rfl⟩
  | fail => exact ⟨trivial,hpending,rfl⟩
  | accept packet hpacket hreceiver hroom =>
    exact .inl ⟨rfl,hpc,by rw [← outgoingOf_isSome,hpacket,Option.isSome_some]⟩
  | rollback =>
    refine .inr ⟨rfl,?_,rfl⟩
    simp [hpending,wrappingDec_of_pos]

def SameBut (σ σ' : System) (l₀ extra : Nat) : Prop :=
  ∀ l, (ledger σ'.links l).pending = (ledger σ.links l).pending+(if l = l₀ then extra else 0) ∧
    (ledger σ'.links l).channel = (ledger σ.links l).channel

theorem SameBut.of_links {σ σ' : System} (h : σ'.links = σ.links) (l₀ : Nat) :
    SameBut σ σ' l₀ 0 := by
  intro l
  simp [h]

theorem SameBut.set {σ σ₁ σ₂ : System} {l₀ extra extra' : Nat} (h : SameBut σ σ₁ l₀ extra)
    {link link' : Link} (hlink : σ₁.links[l₀]? = some link)
    (hlinks : σ₂.links = σ₁.links.set l₀ link')
    (hpending : link'.outgoingPending = (ledger σ.links l₀).pending+extra')
    (hchannel : link'.channel = link.channel) : SameBut σ σ₂ l₀ extra' := by
  intro l
  obtain ⟨hpendingl,hchannell⟩ := h l
  rw [hlinks,ledger_set link' hlink]
  split
  · rename_i hl
    subst hl
    rw [ledger_of_getElem? hlink] at hchannell
    exact ⟨hpending,hchannel.trans hchannell⟩
  · rename_i hl
    rw [if_neg hl] at hpendingl
    exact ⟨hpendingl,hchannell⟩

inductive SendingAlone (σ σ' : System) (t : Nat) (call : SendCall) (base : List Frame) :
    Prop where
  | lookup (f : Frame) (hf : f = .lock (.sendLookup call) ∨ f = .locked (.sendLookup call))
      (hin : σ'.In t f base) (hstate : σ'.state = σ.state) (hlinks : σ'.links = σ.links)
  | sending (handles : SendHandles) (pc : SendPc call) (hin : σ'.In t (.send call handles pc) base)
      (hopen : σ.IsOpen handles.link) (hsame : SameBut σ σ' handles.link pc.reserved)
      (hseen : pc.Seen (ledger σ.links handles.link).pending)

def AloneResult (σ σ' : System) (call : SendCall) (result : Int) : Prop :=
  (result = 0 ∧ supportedType call.packetType = true ∧ ∃ l, Roomy σ l) ∨
    (result = -1 ∧ ∃ l₀, SameBut σ σ' l₀ 0)

theorem SendingAlone.step {σ σ₁ σ₂ : System} {a : Action} {call : SendCall} {base : List Frame}
    (h : SendingAlone σ σ₁ a.thread call base) (hmoves : Moves σ₁ a σ₂) :
    (SendingAlone σ σ₂ a.thread call base ∧ σ₂.log = σ₁.log) ∨ ∃ result,
      σ₂.log = σ₁.log ++ [.returned a.thread .transportSendPacket (some result)] ∧
        AloneResult σ σ₂ call result := by
  cases h with
  | lookup f hf hin hstate hlinks =>
    cases hin.section_step hf hmoves with
    | lock hin' hstate' hlinks' hlog =>
      exact .inl ⟨.lookup _ (.inr rfl) hin' (hstate'.trans hstate) (hlinks'.trans hlinks),hlog⟩
    | goto state g hin hsection hin' hstate' hlinks' hlog =>
      cases hsection with
      | sendLookup call active hactive =>
        refine .inl ⟨.sending active.sendHandles .load hin' ?_
          (.of_links (hlinks'.trans hlinks) _) trivial,hlog⟩
        exact ⟨active,by rw [← hstate,hactive],rfl⟩
    | ret state result hin hsection hstate' hlinks' hlog =>
      cases hsection with
      | sendLookup call hclosed =>
        exact .inr ⟨-1,hlog,.inr ⟨rfl,0,.of_links (hlinks'.trans hlinks) 0⟩⟩
  | sending handles pc hin hopen hsame hseen =>
    obtain ⟨th,d,hthread,hstack,hmove,htop,rfl,hnext⟩ := hin.move hmoves (by simp)
    cases hmove with
    | sendGoto call₀ handles₀ pc₀ pc' link link' hlink hsend =>
      cases htop
      have hpending := (hsame handles.link).1
      rw [if_pos rfl,ledger_of_getElem? hlink] at hpending
      obtain ⟨hseen',hpending',hchannel⟩ := sendStep_alone hsend hpending hseen
      exact .inl ⟨.sending handles pc' (hnext _ rfl) hopen
        (hsame.set hlink rfl hpending' hchannel) hseen',by simp [System.apply]⟩
    | sendRet call₀ handles₀ pc₀ link link' result hlink hsend =>
      cases htop
      have hpending := (hsame handles.link).1
      rw [if_pos rfl,ledger_of_getElem? hlink] at hpending
      refine .inr ⟨result,rfl,?_⟩
      obtain ⟨hzero,hroom,hsupported⟩ | ⟨hfail,hpending',hchannel⟩ :=
        sendStep_alone hsend hpending hseen
      · exact .inl ⟨hzero,hsupported,handles.link,hopen,hroom⟩
      · exact .inr ⟨hfail,handles.link,hsame.set hlink rfl hpending' hchannel⟩
    | _ => cases htop

theorem send_alone {σ σ' : System} (hreach : Reachable σ) {t : Nat} {call : SendCall}
    (haccepted : call.rejected = false) {result : Int}
    (hcall : CallReturns (Alone t) σ t (.transportSendPacket call) σ' result) :
    AloneResult σ σ' call result := by
  obtain ⟨base,σ₁,hentered,hreturns⟩ := hcall.entered_lock (.sendLookup call haccepted)
  change Returns (Alone t) t .transportSendPacket σ₁ σ' result at hreturns
  have hstart : SendingAlone σ σ₁ t call base :=
    .lookup _ (.inl rfl) hentered.at_lock hentered.state_eq hentered.links_eq
  have hkept : ∀ σ₁ a σ₂, Reachable σ₁ → SendingAlone σ σ₁ t call base → Alone t σ₁ a →
      Moves σ₁ a σ₂ → (∀ events, σ₂.log = σ₁.log ++ events → ownEvents t events = []) →
        SendingAlone σ σ₂ t call base := by
    rintro σ₁ a σ₂ - hsending rfl hmoves hquiet
    obtain ⟨hsending',_⟩ | ⟨r,hlog,_⟩ := hsending.step hmoves
    · exact hsending'
    · have hnone := hquiet _ hlog
      simp [ownEvents,Event.thread] at hnone
  obtain ⟨σ₂,a,_,hsending,rfl,_,hmoves,hreturn⟩ :=
    hreturns.invariant (hreach.step hentered.step) hstart hkept
  obtain ⟨_,hlog⟩ | ⟨r,hlog,hresult⟩ := hsending.step hmoves
  · simp [hlog] at hreturn
  · have hevents := List.append_cancel_left (hlog.symm.trans hreturn)
    obtain rfl : r = result := by simpa using hevents
    exact hresult

private theorem Entered.block {σ σ₁ : System} {t : Nat} {op : ApiCall} {s : Section}
    {base : List Frame} (h : Entered σ t op s base σ₁) (hfree : σ.mutex = none)
    (hblock : ∀ σ₂, machine.step σ₁ ⟨t,.go⟩ = some σ₂ → σ₂.In t (.locked s) base →
      ReturnsAlone σ₂ t op.fn) : ReturnsAlone σ₁ t op.fn := by
  obtain ⟨σ₂,hstep,hin,hlog⟩ := lock_step h.at_lock (h.mutex_eq.trans hfree)
  exact (hblock σ₂ hstep hin).head hstep hlog

theorem canSend_callReturns {σ : System} {t : Nat} {th : Thread Role Frame}
    (hthread : σ.threads[t]? = some th) (hcan : CanCall th.role th.stack)
    (hfree : σ.mutex = none) (packetType : UInt8) :
    ∃ σ' result, CallReturns (Alone t) σ t (.transportCanSendPacketNow packetType) σ' result := by
  cases hsupported : supportedType packetType with
  | false =>
    have henter : (ApiCall.transportCanSendPacketNow packetType).enter = .inr 0 := by
      simp [ApiCall.enter,hsupported]
    obtain ⟨σ',hcall⟩ := callReturns_of_enter hthread hcan henter
    exact ⟨σ',0,hcall⟩
  | true =>
    obtain ⟨σ₁,hentered⟩ := entered_of_canCall hthread hcan (.canSend packetType hsupported)
    apply hentered.callReturns
    apply hentered.block hfree
    intro σ₂ hstep hin
    obtain ⟨σ₃,hstep',hlog⟩ := locked_step hin
    exact .of_step hstep' hlog

theorem send_callReturns {σ : System} (hreach : Reachable σ) {t : Nat} {th : Thread Role Frame}
    (hthread : σ.threads[t]? = some th) (hcan : CanCall th.role th.stack)
    (hfree : σ.mutex = none) (call : SendCall) :
    ∃ σ' result, CallReturns (Alone t) σ t (.transportSendPacket call) σ' result := by
  cases haccepted : call.rejected with
  | true =>
    have henter : (ApiCall.transportSendPacket call).enter = .inr (-1) := by
      simp [ApiCall.enter,haccepted]
    obtain ⟨σ',hcall⟩ := callReturns_of_enter hthread hcan henter
    exact ⟨σ',-1,hcall⟩
  | false =>
    obtain ⟨σ₁,hentered⟩ := entered_of_canCall hthread hcan (.sendLookup call haccepted)
    apply hentered.callReturns
    apply hentered.block hfree
    intro σ₂ hstep hin
    have hreach₂ := (hreach.step hentered.step).step hstep
    obtain ⟨σ₃,hstep',hnext⟩ := locked_step hin
    cases hactive : σ₂.state.active with
    | none =>
      simp only [System.criticalSection,hactive] at hnext
      exact .of_step hstep' hnext
    | some active =>
      simp only [System.criticalSection,hactive] at hnext
      obtain ⟨hin',hlog⟩ := hnext
      obtain ⟨link,hlink⟩ := (hreach₂.step hstep').link_of_send hin'
      exact (send_returnsAlone hin' hlink).head hstep' hlog

/-- Made in this state with no step in between, the question is answered with 1 if and only if the
send is accepted. -/
def AgreesNow (σ : System) : Prop :=
  ∀ t th call, σ.threads[t]? = some th → CanCall th.role th.stack → call.rejected = false →
    (σ.mutex = none →
      (∃ σ' result,
        CallReturns (Alone t) σ t (.transportCanSendPacketNow call.packetType) σ' result) ∧
      ∃ σ' result, CallReturns (Alone t) σ t (.transportSendPacket call) σ' result) ∧
    ∀ σ₁ answer σ₂ result,
      CallReturns (Alone t) σ t (.transportCanSendPacketNow call.packetType) σ₁ answer →
      CallReturns (Alone t) σ t (.transportSendPacket call) σ₂ result → (answer = 1 ↔ result = 0)

/-- An answer of 1 to a question asked in this state stays true as long as nobody sends, opens or
closes. -/
def StaysAccepted (σ : System) : Prop :=
  ∀ u call σ₁ σ₂ t σ₃ result, call.rejected = false →
    CallReturns Machine.anyAction σ u (.transportCanSendPacketNow call.packetType) σ₁ 1 →
    machine.Steps NoRival σ₁ σ₂ →
    CallReturns (Undisturbed t) σ₂ t (.transportSendPacket call) σ₃ result → result = 0

/-- A send made in this state from inside the delivery of an acknowledgement is accepted. -/
def ReplyAccepted (σ : System) : Prop :=
  ∀ t th l call σ' result, σ.threads[t]? = some th →
    .emitRunning (.writer l) hciEventPacket packetSentEvent ∈ th.stack →
    supportedType call.packetType = true → call.rejected = false →
    reservedSinceRelease (ledger σ.links l).history = false →
    CallReturns (FindsOpen t l) σ t (.transportSendPacket call) σ' result →
    Unrivalled t l σ σ' → result = 0

/-- A send made in this state that returns -1 leaves nothing behind. -/
def RefusedIsUndone (σ : System) : Prop :=
  ∀ t call σ',
    (CallReturns Machine.anyAction σ t (.transportSendPacket call) σ' (-1) →
      ∀ l, LeavesNoTrace t (ledger σ.links l) (ledger σ'.links l)) ∧
    (CallReturns (Alone t) σ t (.transportSendPacket call) σ' (-1) →
      ∀ l, (ledger σ'.links l).pending = (ledger σ.links l).pending ∧
        (ledger σ'.links l).channel = (ledger σ.links l).channel)

theorem roomy_of_canSend {allow : System → Action → Prop} {σ σ' : System} (hreach : Reachable σ)
    {t : Nat} {packetType : UInt8}
    (hcall : CallReturns allow σ t (.transportCanSendPacketNow packetType) σ' 1) :
    supportedType packetType = true ∧ ∃ l, Roomy σ' l := by
  cases hsupported : supportedType packetType with
  | false =>
    have henter : (ApiCall.transportCanSendPacketNow packetType).enter = .inr 0 := by
      simp [ApiCall.enter,hsupported]
    obtain ⟨hresult,_⟩ := hcall.at_once henter
    cases hresult
  | true =>
    obtain ⟨σ₁,hreach₁,hanswer,hstate,hlinks,_⟩ := canSend_returns hreach hsupported hcall
    obtain ⟨l,⟨active,hactive,hl⟩,hroom⟩ := hreach₁.canSendNow_iff.mp hanswer.symm
    refine ⟨rfl,l,⟨active,by rw [hstate,hactive],hl⟩,?_⟩
    rw [hlinks]
    exact hroom

/-- A send that is made while there is room is accepted, if nobody else sends, opens or closes. -/
theorem Roomy.send_returns {σ σ' : System} (hreach : Reachable σ) {l : Nat} (h : Roomy σ l)
    {t : Nat} {call : SendCall} (hsupported : supportedType call.packetType = true)
    (haccepted : call.rejected = false) {result : Int}
    (hcall : CallReturns (Undisturbed t) σ t (.transportSendPacket call) σ' result) :
    result = 0 := by
  obtain ⟨base,σ₁,hentered,hreturns⟩ := hcall.entered_lock (.sendLookup call haccepted)
  obtain ⟨active,hactive,hl⟩ := h.isOpen
  have hopen : σ₁.IsOpen l := ⟨active,by rw [hentered.state_eq,hactive],hl⟩
  have hroom := h.room
  rw [← hentered.links_eq] at hroom
  exact Welcome.returns (hreach.step hentered.step) (.lookup _ (.inl rfl) hentered.at_lock hroom)
    hopen hsupported hreturns

theorem Reachable.agreesNow {σ : System} (h : Reachable σ) : AgreesNow σ := by
  intro t th call hthread hcan haccepted
  refine ⟨fun hfree => ⟨canSend_callReturns hthread hcan hfree _,
    send_callReturns h hthread hcan hfree call⟩,?_⟩
  intro σ₁ answer σ₂ result hask hsend
  constructor
  · rintro rfl
    obtain ⟨hsupported,_⟩ := roomy_of_canSend h hask
    obtain ⟨σ₃,hreach₃,hanswer,_,_,hsame⟩ := canSend_returns h hsupported hask
    obtain ⟨hstate,hlinks⟩ := hsame (fun _ _ ha => ha)
    obtain ⟨l,⟨active,hactive,hl⟩,hroom⟩ := hreach₃.canSendNow_iff.mp hanswer.symm
    rw [hstate] at hactive
    rw [hlinks] at hroom
    exact Roomy.send_returns h ⟨⟨active,hactive,hl⟩,hroom⟩ hsupported haccepted
      (hsend.mono (fun _ _ ha => .inl ha))
  · rintro rfl
    obtain ⟨_,hsupported,l,⟨active,hactive,hl⟩,hroom⟩ | ⟨hfail,_⟩ := send_alone h haccepted hsend
    · obtain ⟨σ₃,hreach₃,hanswer,_,_,hsame⟩ := canSend_returns h hsupported hask
      obtain ⟨hstate,hlinks⟩ := hsame (fun _ _ ha => ha)
      rw [hanswer,hreach₃.canSendNow_iff]
      refine ⟨l,⟨active,by rw [hstate,hactive],hl⟩,?_⟩
      rw [hlinks]
      exact hroom
    · cases hfail

theorem Reachable.staysAccepted {σ : System} (h : Reachable σ) : StaysAccepted σ := by
  intro u call σ₁ σ₂ t σ₃ result haccepted hask hrun hsend
  obtain ⟨hsupported,l,hroomy⟩ := roomy_of_canSend h hask
  have hkept : ∀ σ a σ', (Reachable σ ∧ Roomy σ l) → NoRival σ a → machine.step σ a = some σ' →
      Reachable σ' ∧ Roomy σ' l := by
    rintro σ a σ' ⟨hreach,hroomy⟩ hallow hstep
    exact ⟨hreach.step hstep,hroomy.step hreach hallow (step_moves hstep)⟩
  have hlater : Reachable σ₂ ∧ Roomy σ₂ l := hrun.invariant ⟨h.callReturns hask,hroomy⟩ hkept
  exact hlater.2.send_returns hlater.1 hsupported haccepted hsend

theorem Reachable.refusedIsUndone {σ : System} (h : Reachable σ) : RefusedIsUndone σ := by
  intro t call σ'
  refine ⟨fun hsend l => refused_leavesNoTrace h hsend l,fun hsend l => ?_⟩
  cases hrejected : call.rejected with
  | true =>
    have henter : (ApiCall.transportSendPacket call).enter = .inr (-1) := by
      simp [ApiCall.enter,hrejected]
    obtain ⟨_,_,hlinks⟩ := hsend.at_once henter
    rw [hlinks]
    exact ⟨rfl,rfl⟩
  | false =>
    obtain ⟨hzero,_⟩ | ⟨_,l₀,hsame⟩ := send_alone h hrejected hsend
    · cases hzero
    · simpa using hsame l

/-- The answer of `transport_can_send_packet_now` and the result of `transport_send_packet`. -/
theorem canSend_agrees {σ : System} (h : Reachable σ) :
    AgreesNow σ ∧ StaysAccepted σ ∧ ReplyAccepted σ ∧ RefusedIsUndone σ := by
  refine ⟨h.agreesNow,h.staysAccepted,?_,h.refusedIsUndone⟩
  intro t th l call σ' result hthread hdelivery hsupported haccepted hreleased hsend hunrivalled
  exact reply_returns h hthread hdelivery hsupported haccepted hreleased hsend hunrivalled

def acknowledgedRun : List Action :=
  openRun 0 dongle dongleInterface [.go,.go] ++
    Action.by 0 [.call (.transportSendPacket ⟨1,some [3,12,0],3⟩),.go,.go,.go,.go,.go] ++
    Action.by 3 [.go,.go,.go,.go,.go,.go,.go,.go]

/-- The handler is in the delivery of an acknowledgement. -/
theorem canSend_agrees_acknowledged : ∃ σ th,
    machine.run (System.initial 1 (some 7)) acknowledgedRun = some σ ∧ σ.mutex = none ∧
    σ.threads[3]? = some th ∧
    .emitRunning (.writer 0) hciEventPacket packetSentEvent ∈ th.stack ∧
    reservedSinceRelease (ledger σ.links 0).history = false ∧ σ.canSendNow = 1 ∧
    AgreesNow σ ∧ StaysAccepted σ ∧ ReplyAccepted σ ∧ RefusedIsUndone σ := by
  have hrun : ((machine.run (System.initial 1 (some 7)) acknowledgedRun).map fun σ =>
      (σ.mutex,σ.threads[3]?,reservedSinceRelease (ledger σ.links 0).history,σ.canSendNow)) =
      some (none,some ⟨.writer 0,[.emitRunning (.writer 0) hciEventPacket packetSentEvent]⟩,
        false,1) := rfl
  obtain ⟨σ,hσ,hvalues⟩ := Option.map_eq_some_iff.mp hrun
  simp only [Prod.mk.injEq] at hvalues
  obtain ⟨hfree,hthread,hreleased,hanswer⟩ := hvalues
  exact ⟨σ,_,hσ,hfree,hthread,List.mem_singleton.mpr rfl,hreleased,hanswer,
    canSend_agrees (Reachable.of_run hσ)⟩

/-- Two sends that go wrong. In the delivery of an acknowledgement the handler sends after a client
has closed the transport: -1, although nobody has reserved a slot. A send of a type that is not
supported, refused, has taken the last slot for a moment, and another send is refused with it. -/
theorem reply_refused_and_slot_missed :
    (∃ σ σ' th, Reachable σ ∧ σ.threads[3]? = some th ∧
      .emitRunning (.writer 0) hciEventPacket packetSentEvent ∈ th.stack ∧
      reservedSinceRelease (ledger σ.links 0).history = false ∧
      CallReturns Machine.anyAction σ 3 (.transportSendPacket ⟨1,some [3,12,0],3⟩) σ' (-1) ∧
      (ledger σ'.links 0).history = (ledger σ.links 0).history) ∧
    ∃ σ σ₁ σ₂ others, Reachable σ ∧ (∀ a ∈ others, a.thread = 1) ∧
      machine.run σ (Action.by 0 [.call (.transportSendPacket ⟨3,some [0],1⟩),.go,.go,.go,.go] ++
        others ++ Action.by 0 [.go]) = some σ₁ ∧
      σ₁.log.getLast? = some (.returned 0 .transportSendPacket (some (-1))) ∧
      machine.run σ others = some σ₂ ∧
      (ledger σ₁.links 0).pending = 3 ∧ (ledger σ₂.links 0).pending = 4 := by
  constructor
  · have hrun : ((machine.run (System.initial 1 (some 7))
        (acknowledgedRun ++ Action.by 0 [.call .transportClose,.go,.go])).bind fun σ =>
        (machine.step σ ⟨3,.call (.transportSendPacket ⟨1,some [3,12,0],3⟩)⟩).bind fun σ₁ =>
        (machine.run σ₁ (Action.by 3 [.go])).bind fun σ₂ =>
        (machine.step σ₂ ⟨3,.go⟩).map fun σ' =>
          (σ.threads[3]?,reservedSinceRelease (ledger σ.links 0).history,
            decide (σ₁.log = σ.log ++ [.called 3 .transportSendPacket]),decide (σ₂.log = σ₁.log),
            decide (σ'.log = σ₂.log ++ [.returned 3 .transportSendPacket (some (-1))]),
            decide ((ledger σ'.links 0).history = (ledger σ.links 0).history))) =
        some (some ⟨.writer 0,[.emitRunning (.writer 0) hciEventPacket packetSentEvent]⟩,false,
          true,true,true,true) := rfl
    obtain ⟨σ,hσ,hrun⟩ := Option.bind_eq_some_iff.mp hrun
    obtain ⟨σ₁,hσ₁,hrun⟩ := Option.bind_eq_some_iff.mp hrun
    obtain ⟨σ₂,hσ₂,hrun⟩ := Option.bind_eq_some_iff.mp hrun
    obtain ⟨σ',hσ',hvalues⟩ := Option.map_eq_some_iff.mp hrun
    simp only [Prod.mk.injEq,decide_eq_true_eq] at hvalues
    obtain ⟨hthread,hreleased,hcalled,hquiet,hreturned,hhistory⟩ := hvalues
    exact ⟨σ,σ',_,Reachable.of_run hσ,hthread,List.mem_singleton.mpr rfl,hreleased,
      .entered σ₁ hσ₁ hcalled (.of_run hσ₂ hquiet hσ' hreturned),hhistory⟩
  · have hrun : ((machine.run (System.initial 2 none) (openRun 0 dongle dongleInterface [] ++
        Action.by 0 [.call (.transportSendPacket ⟨1,some [3,12,0],3⟩),.go,.go,.go,.go,.go] ++
        Action.by 0 [.call (.transportSendPacket ⟨1,some [3,12,0],3⟩),.go,.go,.go,.go,.go] ++
        Action.by 0 [.call (.transportSendPacket ⟨1,some [3,12,0],3⟩),.go,.go,.go,.go,.go])).bind
        fun σ => (machine.run σ
          (Action.by 0 [.call (.transportSendPacket ⟨3,some [0],1⟩),.go,.go,.go,.go] ++
            Action.by 1 [.call (.transportSendPacket ⟨1,some [3,12,0],3⟩),.go,.go,.go,.go] ++
            Action.by 0 [.go])).bind fun σ₁ =>
        (machine.run σ
          (Action.by 1 [.call (.transportSendPacket ⟨1,some [3,12,0],3⟩),.go,.go,.go,.go])).map
        fun σ₂ => (σ₁.log.getLast?,(ledger σ₁.links 0).pending,(ledger σ₂.links 0).pending)) =
        some (some (.returned 0 .transportSendPacket (some (-1))),3,4) := rfl
    obtain ⟨σ,hσ,hrun⟩ := Option.bind_eq_some_iff.mp hrun
    obtain ⟨σ₁,hσ₁,hrun⟩ := Option.bind_eq_some_iff.mp hrun
    obtain ⟨σ₂,hσ₂,hvalues⟩ := Option.map_eq_some_iff.mp hrun
    simp only [Prod.mk.injEq] at hvalues
    obtain ⟨hreturned,hwith,hwithout⟩ := hvalues
    exact ⟨σ,σ₁,σ₂,_,Reachable.of_run hσ,by simp [Action.by],hσ₁,hreturned,hσ₂,hwith,hwithout⟩

end BtstackRs.Transport
