import BtstackRs.Transport.Agreement

/-!
# Refusals are justified

Between the lookup of the record and the answer of a send the transport can be closed, replaced or
filled by others, and the counter may have been read long before the exchange that uses it. Still a
send of a supported packet is only refused if there was a moment in the call at which
`transport_can_send_packet_now` would have said no, or at which the transport that the call had
found was no longer the open one.
-/

namespace BtstackRs.Transport

open Concurrent

/-- What has happened in the steps `between` since `found`, where link `l` was open, on the way to
`pc`. -/
def SendPc.Grounded {call : SendCall} (found : System) (between : List Action) (l : Nat) :
    SendPc call → Prop
  | .load | .trySend _ _ => True
  | .reserve current =>
      machine.Passes (fun m => (ledger m.links l).pending = current) found between
  | .rollback => machine.Passes (fun m => ¬m.IsOpen l) found between

inductive Trying (σ : System) (as : List Action) (σ₁ : System) (t : Nat) (call : SendCall)
    (base : List Frame) : Prop where
  | lookup (f : Frame) (hf : f = .lock (.sendLookup call) ∨ f = .locked (.sendLookup call))
      (hin : σ₁.In t f base)
  | sending (handles : SendHandles) (pc : SendPc call) (found : System)
      (before between : List Action) (hsteps : as = before ++ between)
      (hbefore : machine.run σ before = some found)
      (hlookup : found.In t (.locked (.sendLookup call)) base) (hopen : found.IsOpen handles.link)
      (hsince : machine.run found between = some σ₁)
      (hin : σ₁.In t (.send call handles pc) base)
      (hgrounds : pc.Grounded found between handles.link)

/-- Among the states that the steps `as` lead through, from `σ` on, is one at which the answer would
have been no, or at which the transport that the call found in `STATE` was no longer the open one.
The call found it while it held the mutex for its lookup. -/
def RefusalGround (σ : System) (as : List Action) (t : Nat) (call : SendCall) : Prop :=
  ∃ before between after found m base, as = before ++ between ++ after ∧
    machine.run σ before = some found ∧ found.In t (.locked (.sendLookup call)) base ∧
    machine.run found between = some m ∧
    (m.canSendNow = 0 ∨ ∃ l, found.IsOpen l ∧ ¬m.IsOpen l)

theorem Reachable.canSendNow_eq_zero {σ : System} (h : Reachable σ) {l : Nat} (hopen : σ.IsOpen l)
    (hfull : outgoingQueueDepth ≤ (ledger σ.links l).pending) : σ.canSendNow = 0 := by
  obtain ⟨active,hactive,rfl⟩ := hopen
  have hlink := List.getElem?_eq_getElem (h.wellScoped.active active hactive)
  rw [ledger_of_getElem? hlink] at hfull
  simp only [System.canSendNow,hactive,hlink]
  rw [active.queueDepth_eq]
  exact if_neg (Nat.not_lt.mpr hfull)

theorem canSendNow_of_closed {σ : System} (h : σ.state.active = none) : σ.canSendNow = 0 := by
  rw [System.canSendNow,h]

theorem SendPc.Grounded.concat {call : SendCall} {found : System} {between : List Action} {l : Nat}
    {pc : SendPc call} (h : pc.Grounded found between l) (a : Action) :
    pc.Grounded found (between ++ [a]) l := by
  cases pc with
  | load | trySend => trivial
  | reserve current => exact Machine.Passes.concat h a
  | rollback => exact Machine.Passes.concat h a

theorem Trying.other {σ σ₁ σ₂ : System} {as : List Action} {t : Nat} {a : Action} {call : SendCall}
    {base : List Frame} (h : Trying σ as σ₁ t call base) (hne : a.thread ≠ t)
    (hstep : machine.step σ₁ a = some σ₂) : Trying σ (as ++ [a]) σ₂ t call base := by
  obtain ⟨th,rest,d,hthread,hstack,hmove⟩ := step_moves hstep
  cases h with
  | lookup f hf hin => exact .lookup f hf (hin.of_other rest d hne)
  | sending handles pc found before between hsteps hbefore hlookup hopen hsince hin hgrounds =>
    exact .sending handles pc found before (between ++ [a])
      (by rw [hsteps,List.append_assoc]) hbefore hlookup hopen (Machine.run_concat hsince hstep)
      (hin.of_other rest d hne) (hgrounds.concat a)

theorem SendPc.Grounded.goto {σ found : System} (hreach : Reachable σ) {between : List Action}
    (hsince : machine.run found between = some σ) {t : Nat} {call : SendCall}
    {handles : SendHandles} {spurious : Bool} {pc pc' : SendPc call} {base : List Frame}
    {link link' : Link} (hin : σ.In t (.send call handles pc) base)
    (hlink : σ.links[handles.link]? = some link)
    (hsupported : supportedType call.packetType = true)
    (hgrounds : pc.Grounded found between handles.link)
    (hsend : sendStep t call handles spurious pc link = (link',.goto pc')) :
    pc'.Grounded found between handles.link := by
  have hseen : machine.Passes (fun m => (ledger m.links handles.link).pending =
      link.outgoingPending) found between :=
    Machine.passes_of_run hsince (by rw [ledger_of_getElem? hlink]; rfl)
  cases sendStep_cases hsend with
  | load => exact hseen
  | retry => exact hseen
  | reserve current hroom hcurrent hswaps =>
    rw [SendPc.classified]
    split
    · trivial
    · rename_i hnone
      rw [← outgoingOf_isSome,hnone] at hsupported
      cases hsupported
  | fail packet hpacket hblocked =>
    refine Machine.passes_of_run hsince fun hopen => ?_
    rcases hblocked with hdropped | hfull
    · exact hreach.not_exited_of_isOpen hopen hlink (by simpa [Link.receiverDropped] using hdropped)
    · exact absurd (hreach.channel_room hin hlink rfl) (Nat.not_lt.mpr hfull)

theorem RefusalGround.of_full {σ found : System} (hreach : Reachable σ)
    {before between : List Action} (hbefore : machine.run σ before = some found) {t : Nat}
    {call : SendCall} {base : List Frame} (hlookup : found.In t (.locked (.sendLookup call)) base)
    {l : Nat} (hopen : found.IsOpen l)
    (hfull : machine.Passes (fun m => outgoingQueueDepth ≤ (ledger m.links l).pending)
      found between) : RefusalGround σ (before ++ between) t call := by
  obtain ⟨since,after,m,rfl,hm,hpending⟩ := hfull
  refine ⟨before,since,after,found,m,base,(List.append_assoc _ _ _).symm,hbefore,hlookup,hm,?_⟩
  by_cases hstill : m.IsOpen l
  · have hreachable := (hreach.steps (Machine.steps_of_run hbefore)).steps (Machine.steps_of_run hm)
    exact .inl (hreachable.canSendNow_eq_zero hstill hpending)
  · exact .inr ⟨l,hopen,hstill⟩

theorem Trying.own {σ σ₁ σ₂ : System} (hreach : Reachable σ) {as : List Action}
    (hrun : machine.run σ as = some σ₁) {a : Action} {call : SendCall} {base : List Frame}
    (h : Trying σ as σ₁ a.thread call base) (hsupported : supportedType call.packetType = true)
    (hstep : machine.step σ₁ a = some σ₂) :
    (Trying σ (as ++ [a]) σ₂ a.thread call base ∧ σ₂.log = σ₁.log) ∨ ∃ result,
      σ₂.log = σ₁.log ++ [.returned a.thread .transportSendPacket (some result)] ∧
        (result = 0 ∨ RefusalGround σ as a.thread call) := by
  cases h with
  | lookup f hf hin =>
    cases hin.section_step hf (step_moves hstep) with
    | lock hin' hstate hlinks hlog => exact .inl ⟨.lookup _ (.inr rfl) hin',hlog⟩
    | goto state g hin hsection hin' hstate hlinks hlog =>
      cases hsection with
      | sendLookup call active hactive =>
        have hlast : machine.run σ₁ ([] ++ [a]) = some σ₂ := Machine.run_concat rfl hstep
        exact .inl ⟨.sending active.sendHandles .load σ₁ as [a] rfl hrun hin ⟨active,hactive,rfl⟩
          hlast hin' trivial,hlog⟩
    | ret state result hin hsection hstate hlinks hlog =>
      cases hsection with
      | sendLookup call hclosed =>
        exact .inr ⟨-1,hlog,.inr ⟨as,[],[],σ₁,σ₁,base,by simp,hrun,hin,rfl,
          .inl (canSendNow_of_closed hclosed)⟩⟩
  | sending handles pc found before between hsteps hbefore hlookup hopen hsince hin hgrounds =>
    subst hsteps
    obtain ⟨th,d,hthread,hstack,hmove,htop,heq,hnext⟩ := hin.move (step_moves hstep) (by simp)
    cases hmove with
    | sendGoto call₀ handles₀ pc₀ pc' link link' hlink hsend =>
      cases htop
      have hreachable := hreach.steps (Machine.steps_of_run hrun)
      have hgrounds' := hgrounds.goto hreachable hsince hin hlink hsupported hsend
      refine .inl ⟨.sending handles pc' found before (between ++ [a]) (List.append_assoc _ _ _)
        hbefore hlookup hopen (Machine.run_concat hsince hstep) (hnext _ rfl)
        (hgrounds'.concat a),?_⟩
      rw [heq]
      exact List.append_nil _
    | sendRet call₀ handles₀ pc₀ link link' result hlink hsend =>
      cases htop
      refine .inr ⟨result,by rw [heq]; rfl,?_⟩
      cases sendStep_cases hsend with
      | accept => exact .inl rfl
      | refuse current hfull =>
        obtain ⟨since,after,m,hbetween,hm,hpending⟩ := hgrounds
        rw [handles.queueDepth_eq,← hpending] at hfull
        exact .inr (.of_full hreach hbefore hlookup hopen ⟨since,after,m,hbetween,hm,hfull⟩)
      | rollback =>
        obtain ⟨since,after,m,rfl,hm,hgone⟩ := hgrounds
        exact .inr ⟨before,since,after,found,m,base,(List.append_assoc _ _ _).symm,hbefore,hlookup,
          hm,.inr ⟨handles.link,hopen,hgone⟩⟩
    | _ => cases htop

/-- As long as nothing is logged under its number the thread is in its send. -/
theorem trying_of_run {σ σ₁ : System} (hreach : Reachable σ) {t : Nat} {call : SendCall}
    {base : List Frame} (hsupported : supportedType call.packetType = true)
    (hin : σ.In t (.lock (.sendLookup call)) base) {as : List Action} {events : List Event}
    (hrun : machine.run σ as = some σ₁) (hlog : σ₁.log = σ.log ++ events)
    (hown : ownEvents t events = []) : Trying σ as σ₁ t call base := by
  have hphase : ∃ events, σ₁.log = σ.log ++ events ∧
      (ownEvents t events = [] → Trying σ as σ₁ t call base) := by
    refine Machine.run_induction (P := fun as σ₁ => ∃ events, σ₁.log = σ.log ++ events ∧
      (ownEvents t events = [] → Trying σ as σ₁ t call base)) ?_ ?_ hrun
    · exact ⟨[],(List.append_nil _).symm,fun _ => .lookup _ (.inl rfl) hin⟩
    · rintro as σ₂ a σ₃ hrun ⟨events,hlog,htrying⟩ hstep
      obtain ⟨th,rest,d,-,-,-⟩ := step_moves hstep
      refine ⟨events ++ d.events,?_,fun hquiet => ?_⟩
      · show σ₂.log ++ d.events = _
        rw [hlog,List.append_assoc]
      rw [ownEvents_append,List.append_eq_nil_iff] at hquiet
      have htrying' := htrying hquiet.1
      by_cases ha : a.thread = t
      · subst ha
        rcases htrying'.own hreach hrun hsupported hstep with ⟨hkept,-⟩ | ⟨r,hreturned,-⟩
        · exact hkept
        · have hsame : d.events = _ := List.append_cancel_left hreturned
          have hnone := hquiet.2
          rw [hsame] at hnone
          simp [ownEvents,Event.thread] at hnone
      · exact htrying'.other ha hstep
  obtain ⟨events',hevents,htrying⟩ := hphase
  obtain rfl : events' = events := List.append_cancel_left (hevents.symm.trans hlog)
  exact htrying hown

/-- Every refusal of a send that no argument rules out. -/
theorem refusal_justified {σ σ₀ σ' : System} (hreach : Reachable σ) {t : Nat} {call : SendCall}
    (haccepted : call.rejected = false) (hsupported : supportedType call.packetType = true)
    {as : List Action} (hcall : CallSpans σ t (.transportSendPacket call) σ₀ as σ' (-1)) :
    RefusalGround σ₀ as t call := by
  obtain ⟨σ₁,a,events,hrun,hlog,hown,hlast,hreturned⟩ := hcall.returns
  obtain ⟨s,base,henter,hentered⟩ := step_called hcall.call hcall.called
  rw [(Enters.sendLookup call haccepted).enter_eq] at henter
  cases henter
  have hreach₀ := hreach.step hcall.call
  have htrying := trying_of_run hreach₀ hsupported hentered.at_lock hrun hlog hown
  obtain ⟨th,rest,d,-,-,hmove⟩ := step_moves hlast
  have hevents : d.events = [.returned t .transportSendPacket (some (-1))] :=
    List.append_cancel_left hreturned
  have hthread : t = a.thread :=
    hmove.events_thread (.returned t .transportSendPacket (some (-1))) (by simp [hevents])
  subst hthread
  rcases htrying.own hreach₀ hrun hsupported hlast with ⟨-,hsame⟩ | ⟨r,hlog',hground⟩
  · rw [hsame] at hreturned
    simp at hreturned
  · have hresult := List.append_cancel_left (hlog'.symm.trans hreturned)
    obtain rfl : r = -1 := by simpa [ApiCall.fn] using hresult
    exact hground.resolve_left (by decide)

/-- The fifth command while four are still to be written. -/
theorem refusal_justified_full : ∃ σ σ₀ as σ', Reachable σ ∧
    CallSpans σ 0 (.transportSendPacket ⟨1,some [3,12,0],3⟩) σ₀ as σ' (-1) ∧
    RefusalGround σ₀ as 0 ⟨1,some [3,12,0],3⟩ := by
  have hrun : ((machine.run (System.initial 1 none) (openRun 0 dongle dongleInterface [] ++
      (List.replicate 4 (Action.by 0
        [.call (.transportSendPacket ⟨1,some [3,12,0],3⟩),.go,.go,.go,.go,.go])).flatten)).bind
      fun σ => (machine.step σ ⟨0,.call (.transportSendPacket ⟨1,some [3,12,0],3⟩)⟩).bind fun σ₁ =>
      (machine.run σ₁ (Action.by 0 [.go,.go,.go])).bind fun σ₂ =>
      (machine.step σ₂ ⟨0,.go⟩).map fun σ' =>
        (decide (σ₁.log = σ.log ++ [.called 0 .transportSendPacket]),decide (σ₂.log = σ₁.log),
          decide (σ'.log = σ₂.log ++ [.returned 0 .transportSendPacket (some (-1))]))) =
      some (true,true,true) := rfl
  obtain ⟨σ,hσ,hrun⟩ := Option.bind_eq_some_iff.mp hrun
  obtain ⟨σ₁,hσ₁,hrun⟩ := Option.bind_eq_some_iff.mp hrun
  obtain ⟨σ₂,hσ₂,hrun⟩ := Option.bind_eq_some_iff.mp hrun
  obtain ⟨σ',hσ',hvalues⟩ := Option.map_eq_some_iff.mp hrun
  simp only [Prod.mk.injEq,decide_eq_true_eq] at hvalues
  obtain ⟨hcalled,hquiet,hreturned⟩ := hvalues
  have hcall : CallSpans σ 0 (.transportSendPacket ⟨1,some [3,12,0],3⟩) σ₁
      (Action.by 0 [.go,.go,.go]) σ' (-1) :=
    ⟨hσ₁,hcalled,σ₂,_,[],hσ₂,by rw [hquiet,List.append_nil],rfl,hσ',hreturned⟩
  exact ⟨σ,σ₁,_,σ',Reachable.of_run hσ,hcall,
    refusal_justified (Reachable.of_run hσ) rfl rfl hcall⟩

end BtstackRs.Transport
