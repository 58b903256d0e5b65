import BtstackRs.Transport.Account
import BtstackRs.Transport.Calls
import BtstackRs.Transport.Ownership

/-!
# A send in progress

Once `transport_send_packet` has its clones it works on one link without any lock. It is accepted
if the counter leaves room until its reservation and the writer does not return before its
`try_send`; it always comes to an end when it runs alone.
-/

namespace BtstackRs.Transport

open Concurrent

def SendPc.Accepting {call : SendCall} (pending : Nat) : SendPc call → Prop
  | load => pending < outgoingQueueDepth
  | reserve current => current < outgoingQueueDepth ∧ pending < outgoingQueueDepth
  | trySend _ _ => True
  | rollback => False

theorem SendPc.Accepting.mono {call : SendCall} {pending pending' : Nat} {pc : SendPc call}
    (h : pc.Accepting pending) (hle : pending' ≤ pending) : pc.Accepting pending' := by
  cases pc with
  | load => exact Nat.lt_of_le_of_lt hle h
  | reserve current => exact ⟨h.1,Nat.lt_of_le_of_lt hle h.2⟩
  | trySend packet hpacket => trivial
  | rollback => exact h

theorem sendStep_accepting {t : Nat} {call : SendCall} {handles : SendHandles} {spurious : Bool}
    {pc : SendPc call} {link link' : Link} {next : SendNext call}
    (h : sendStep t call handles spurious pc link = (link',next))
    (hsupported : supportedType call.packetType = true) (hpc : pc.Accepting link.outgoingPending)
    (hwriter : link.writer.pc ≠ .exited)
    (hroom : pc.reserved = 1 → link.channel.length < outgoingQueueDepth) :
    (∃ pc', next = .goto pc' ∧ pc'.Accepting link'.outgoingPending) ∨ next = .ret 0 := by
  have hdepth := handles.queueDepth_eq
  cases sendStep_cases h with
  | load => exact .inl ⟨_,rfl,hpc,hpc⟩
  | refuse current hfull =>
    have hcurrent := hpc.1
    omega
  | reserve current hroom hcurrent hswaps =>
    refine .inl ⟨_,rfl,?_⟩
    unfold SendPc.classified
    split
    · trivial
    · rename_i hnone
      have hsome := outgoingOf_isSome call
      rw [hsupported,hnone] at hsome
      cases hsome
  | retry current hroom hother => exact .inl ⟨_,rfl,hpc.2,hpc.2⟩
  | fail packet hpacket hblocked =>
    have hlength := hroom rfl
    rcases hblocked with hdropped | hfull
    · exact absurd (by simpa [Link.receiverDropped] using hdropped) hwriter
    · omega
  | accept packet hpacket hreceiver hfits => exact .inr rfl
  | rollback => cases hpc

theorem Reachable.channel_room {σ : System} (h : Reachable σ) {t : Nat} {call : SendCall}
    {handles : SendHandles} {pc : SendPc call} {base : List Frame}
    (hin : σ.In t (.send call handles pc) base) {link : Link}
    (hlink : σ.links[handles.link]? = some link) (hreserved : pc.reserved = 1) :
    link.channel.length < outgoingQueueDepth := by
  obtain ⟨th,hthread,hstack⟩ := hin
  have hmem : Frame.send call handles pc ∈ th.stack := by simp [hstack]
  have hle := Pool.le_total (Frame.reserves handles.link) hthread hmem
  obtain ⟨hbalance,hdepth⟩ := h.balanced _ link hlink
  simp only [Frame.reserves,if_true,hreserved] at hle
  omega

theorem Reachable.link_of_send {σ : System} (h : Reachable σ) {t : Nat} {call : SendCall}
    {handles : SendHandles} {pc : SendPc call} {base : List Frame}
    (hin : σ.In t (.send call handles pc) base) : ∃ link, σ.links[handles.link]? = some link := by
  obtain ⟨th,hthread,hstack⟩ := hin
  have hmem : Frame.send call handles pc ∈ th.stack := by simp [hstack]
  have hle := Pool.le_total (Frame.mentions handles.link) hthread hmem
  have hlt : handles.link < σ.links.length := by
    by_contra hge
    rw [h.wellScoped.frames _ (Nat.not_lt.mp hge)] at hle
    simp [Frame.mentions] at hle
  exact ⟨_,List.getElem?_eq_getElem hlt⟩

theorem Reachable.accepting_step {σ σ' : System} (hreach : Reachable σ) {a : Action}
    {call : SendCall} {handles : SendHandles} {pc : SendPc call} {base : List Frame}
    (hin : σ.In a.thread (.send call handles pc) base) (hmoves : Moves σ a σ')
    (hsupported : supportedType call.packetType = true)
    (hpc : pc.Accepting (ledger σ.links handles.link).pending)
    (hwriter : ∀ link, σ.links[handles.link]? = some link → link.writer.pc ≠ .exited) :
    (∃ pc' : SendPc call, σ'.In a.thread (.send call handles pc') base ∧
        pc'.Accepting (ledger σ'.links handles.link).pending ∧ σ'.state = σ.state ∧
        σ'.log = σ.log) ∨
      σ'.log = σ.log ++ [.returned a.thread .transportSendPacket (some 0)] := by
  obtain ⟨th,d,hthread,hstack,hmove,htop,rfl,hnext⟩ := hin.move hmoves (by simp)
  cases hmove with
  | sendGoto call₀ handles₀ pc₀ pc' link link' hlink hsend =>
    cases htop
    rw [ledger_of_getElem? hlink] at hpc
    obtain ⟨pc₁,hgoto,hpc'⟩ | hret := sendStep_accepting hsend hsupported hpc (hwriter link hlink)
      (hreach.channel_room hin hlink)
    · cases hgoto
      refine .inl ⟨pc',hnext _ rfl,?_,rfl,by simp [System.apply]⟩
      rw [System.apply,ledger_set link' hlink,if_pos rfl]
      exact hpc'
    · cases hret
  | sendRet call₀ handles₀ pc₀ link link' result hlink hsend =>
    cases htop
    rw [ledger_of_getElem? hlink] at hpc
    obtain ⟨pc₁,hgoto,_⟩ | hret := sendStep_accepting hsend hsupported hpc (hwriter link hlink)
      (hreach.channel_room hin hlink)
    · cases hgoto
    · cases hret
      exact .inr rfl
  | _ => cases htop

private theorem send_step {σ : System} {t : Nat} {call : SendCall} {handles : SendHandles}
    {pc : SendPc call} {base : List Frame} (hin : σ.In t (.send call handles pc) base) {link : Link}
    (hlink : σ.links[handles.link]? = some link) {link' : Link} {next : SendNext call}
    (hsend : sendStep t call handles false pc link = (link',next)) :
    ∃ σ', machine.step σ ⟨t,.go⟩ = some σ' ∧ σ'.links[handles.link]? = some link' ∧
      match next with
      | .goto pc' => σ'.In t (.send call handles pc') base ∧ σ'.log = σ.log
      | .ret result => σ'.log = σ.log ++ [.returned t .transportSendPacket (some result)] := by
  obtain ⟨th,hthread,hstack⟩ := hin
  have hlt := (List.getElem?_eq_some_iff.mp hlink).1
  have hstep : machine.step σ ⟨t,.go⟩ = some ((σ.setLink handles.link link').proceed t
      (.send call handles pc) base (next.toNext handles)) := by
    simp only [machine,System.step,hthread,hstack,System.frameStep,hlink,Choice.isSpurious,hsend]
  refine ⟨_,hstep,?_⟩
  cases next with
  | goto pc' =>
    refine ⟨?_,?_,rfl⟩
    · simp [SendNext.toNext,System.proceed,System.setStack,System.setLink,hlt]
    · exact ⟨_,Pool.getElem?_setStack_self hthread _,rfl⟩
  | ret result =>
    refine ⟨?_,rfl⟩
    simp [SendNext.toNext,System.proceed,System.record,System.setStack,System.setLink,Frame.site,
      resumeSite,hlt]

def SendPc.rank {call : SendCall} (pending : Nat) : SendPc call → Nat
  | load => 5
  | reserve current => if current = pending then 3 else 4
  | trySend _ _ => 2
  | rollback => 1

theorem SendPc.classified_rank (call : SendCall) (pending : Nat) :
    (SendPc.classified call).rank pending ≤ 2 := by
  unfold classified
  split <;> simp [rank]

theorem sendStep_rank {t : Nat} {call : SendCall} {handles : SendHandles} {pc pc' : SendPc call}
    {link link' : Link} (h : sendStep t call handles false pc link = (link',.goto pc')) :
    pc'.rank link'.outgoingPending < pc.rank link.outgoingPending := by
  cases sendStep_cases h with
  | load => simp [SendPc.rank]
  | reserve current hroom hcurrent hswaps =>
    have hclassified := SendPc.classified_rank call (current+1)
    simp only [SendPc.rank,hcurrent,if_true]
    exact Nat.lt_succ_of_le hclassified
  | retry current hroom hother =>
    have hne : current ≠ link.outgoingPending := fun heq => hother ⟨heq.symm,rfl⟩
    simp [SendPc.rank,hne]
  | fail packet hpacket hblocked => simp [SendPc.rank]

/-- A send that runs alone comes to its end. -/
theorem send_returnsAlone {σ : System} {t : Nat} {call : SendCall} {handles : SendHandles}
    {base : List Frame} {pc : SendPc call} (hin : σ.In t (.send call handles pc) base)
    {link : Link} (hlink : σ.links[handles.link]? = some link) :
    ReturnsAlone σ t .transportSendPacket := by
  induction hrank : pc.rank link.outgoingPending using Nat.strongRecOn generalizing σ pc link with
  | ind n ih =>
    rcases hsend : sendStep t call handles false pc link with ⟨link',next⟩
    obtain ⟨σ',hstep,hlink',hnext⟩ := send_step hin hlink hsend
    cases next with
    | goto pc' =>
      have hlt := sendStep_rank hsend
      exact (ih _ (hrank ▸ hlt) hnext.1 hlink' rfl).head hstep hnext.2
    | ret result => exact .of_step hstep hnext

end BtstackRs.Transport
