import BtstackRs.Transport.CanSend
import BtstackRs.Transport.Emission

/-!
# Sending in reply to an acknowledgement

The writer releases the slot of a packet before it delivers the acknowledgement. A handler that
sends the next packet from inside that delivery finds the slot free, unless somebody else was
faster.
-/

namespace BtstackRs.Transport

open Concurrent

def reservedAfter (reserved : Bool) : LinkEvent → Bool
  | .reserved _ => true
  | .released => false
  | _ => reserved

/-- Whether a slot has been reserved since the writer last released one. -/
def reservedSinceRelease (history : List LinkEvent) : Bool := history.foldl reservedAfter false

theorem Reachable.room_of_released {σ : System} (h : Reachable σ) (l : Nat) :
    reservedSinceRelease (ledger σ.links l).history = false →
      (ledger σ.links l).pending < outgoingQueueDepth := by
  apply h.invariant
  · intro clients handler _
    exact Nat.zero_lt_succ _
  · rintro σ a _ hreach hσ ⟨th,rest,d,hthread,hstack,hmove⟩ hreleased
    obtain ⟨who,entries,hposts,_⟩ := hreach.move_posts hthread hstack hmove l
    have hdepth : (ledger σ.links l).pending ≤ outgoingQueueDepth := by
      unfold ledger
      cases hlink : σ.links[l]? with
      | none => exact Nat.zero_le _
      | some link => exact (hreach.balanced l link hlink).le_depth
    have hpending := hposts.accounts.balances.pending_eq
    have hlength := hposts.length_le
    change reservedSinceRelease (ledger d.links l).history = false at hreleased
    change (ledger d.links l).pending < outgoingQueueDepth
    rw [hposts.accounts.history_eq,reservedSinceRelease,List.foldl_append,← reservedSinceRelease]
      at hreleased
    match entries, hlength with
    | [],_ =>
      have hroom := hσ hreleased
      simp only [List.countP_nil] at hpending
      omega
    | [e],_ =>
      cases e with
      | reserved u => cases hreleased
      | released | rolledBack u =>
        simp only [List.countP_singleton,LinkEvent.freesSlot,LinkEvent.takesSlot,if_true,
          Bool.false_eq_true,if_false] at hpending
        omega
      | _ =>
        have hroom := hσ hreleased
        simp only [List.countP_singleton,LinkEvent.freesSlot,LinkEvent.takesSlot,
          Bool.false_eq_true,if_false] at hpending
        omega

theorem Reachable.not_exited_of_delivery {σ : System} (h : Reachable σ) {t l : Nat} {f : Frame}
    {base : List Frame} (hin : σ.In t f base) {packetType : UInt8} {packet : Bytes}
    (hbase : .emitRunning (.writer l) packetType packet ∈ base) {link : Link}
    (hlink : σ.links[l]? = some link) : link.writer.pc ≠ .exited := by
  obtain ⟨th,hthread,hstack⟩ := hin
  have hmem : Frame.emitRunning (.writer l) packetType packet ∈ th.stack := by simp [hstack,hbase]
  have hle := Pool.le_total (Frame.emits (.writer l)) hthread hmem
  rw [h.total_emits (by simp),emitting_of_link rfl hlink] at hle
  intro hexited
  simp [Link.emitting,hexited,WriterPc.emitting] at hle

/-- No other thread has reserved a slot of the link in the run from `σ` to `σ'`. -/
def Unrivalled (t l : Nat) (σ σ' : System) : Prop :=
  ∀ entries, (ledger σ'.links l).history = (ledger σ.links l).history ++ entries →
    ∀ u, .reserved u ∈ entries → u = t

structure Answering (σ : System) (t l : Nat) (call : SendCall) (base : List Frame)
    (σ' : System) : Prop where
  history : ∃ entries,
    (ledger σ'.links l).history = (ledger σ.links l).history ++ entries
  welcome : Unrivalled t l σ σ' → Welcome σ' t l call base

private theorem Answering.step {σ σ₁ σ₂ : System} {t l : Nat} {call : SendCall}
    {base : List Frame} (hreach : Reachable σ₁) {packetType : UInt8} {packet : Bytes}
    (hbase : .emitRunning (.writer l) packetType packet ∈ base)
    (hsupported : supportedType call.packetType = true) (h : Answering σ t l call base σ₁)
    {a : Action} (hfinds : FindsOpen t l σ₁ a) (hmoves : Moves σ₁ a σ₂) :
    (∃ entries, (ledger σ₂.links l).history = (ledger σ.links l).history ++ entries) ∧
      (Unrivalled t l σ σ₂ →
        (Welcome σ₂ t l call base ∧ (a.thread = t → σ₂.log = σ₁.log)) ∨
        σ₂.log = σ₁.log ++ [.returned t .transportSendPacket (some 0)]) := by
  obtain ⟨before,hbefore⟩ := h.history
  obtain ⟨th,rest,d,hthread,hstack,hmove⟩ := hmoves
  have hmoves : Moves σ₁ a (σ₁.apply a.thread rest d) := .intro th rest d hthread hstack hmove
  obtain ⟨who,new,hposts,hwho⟩ := hreach.move_posts hthread hstack hmove l
  have hnew : (ledger (σ₁.apply a.thread rest d).links l).history =
      (ledger σ.links l).history ++ (before ++ new) := by
    rw [← List.append_assoc,← hbefore]
    exact hposts.accounts.history_eq
  have hearlier : Unrivalled t l σ (σ₁.apply a.thread rest d) → Unrivalled t l σ σ₁ := by
    intro hlater entries hentries u hu
    rw [List.append_cancel_left (hentries.symm.trans hbefore)] at hu
    exact hlater _ hnew u (List.mem_append_left _ hu)
  refine ⟨⟨_,hnew⟩,fun hun => ?_⟩
  have hwelcome := h.welcome (hearlier hun)
  by_cases ha : a.thread = t
  · subst ha
    obtain ⟨f,hin⟩ := hwelcome.exists_in
    obtain ⟨hwelcome',_,hlog⟩ | hreturned := hwelcome.own hreach hsupported hmoves hfinds
      (fun link hlink => hreach.not_exited_of_delivery hin hbase hlink)
    · exact .inl ⟨hwelcome',fun _ => hlog⟩
    · exact .inr hreturned
  · refine .inl ⟨hwelcome.of_other ha ?_,fun h => absurd h ha⟩
    apply hposts.pending_le
    intro u hu
    have hut := hun _ hnew u (List.mem_append_right _ hu)
    have hsender := hposts.sender_eq _ hu u rfl
    obtain hnone | ⟨hsome,_⟩ := hwho
    · rw [hnone] at hsender
      cases hsender
    · rw [hsome,Option.some.injEq] at hsender
      exact ha (hsender.trans hut)

/-- A send from inside the delivery of an acknowledgement is accepted if it finds the transport
that delivers it and nobody else has reserved a slot since that packet's slot was released. -/
theorem reply_returns {σ σ' : System} (hreach : Reachable σ) {t l : Nat} {call : SendCall}
    {th : Thread Role Frame} (hthread : σ.threads[t]? = some th) {packetType : UInt8}
    {packet : Bytes} (hdelivery : .emitRunning (.writer l) packetType packet ∈ th.stack)
    (hsupported : supportedType call.packetType = true) (haccepted : call.rejected = false)
    (hreleased : reservedSinceRelease (ledger σ.links l).history = false) {result : Int}
    (hcall : CallReturns (FindsOpen t l) σ t (.transportSendPacket call) σ' result)
    (hunrivalled : Unrivalled t l σ σ') : result = 0 := by
  obtain ⟨base,σ₁,hentered,hreturns⟩ := hcall.entered_lock (.sendLookup call haccepted)
  change Returns (FindsOpen t l) t .transportSendPacket σ₁ σ' result at hreturns
  obtain ⟨th',hthread',hbase,_⟩ := hentered.caller
  rw [hthread] at hthread'
  cases hthread'
  subst hbase
  have hlinks := hentered.links_eq
  have hstart : Answering σ t l call th.stack σ₁ := by
    refine ⟨⟨[],by simp [hlinks]⟩,fun _ => .lookup _ (.inl rfl) hentered.at_lock ?_⟩
    rw [hlinks]
    exact hreach.room_of_released l hreleased
  have hkept : ∀ σ₁ a σ₂, Reachable σ₁ → Answering σ t l call th.stack σ₁ →
      FindsOpen t l σ₁ a → Moves σ₁ a σ₂ →
      (∀ events, σ₂.log = σ₁.log ++ events → ownEvents t events = []) →
        Answering σ t l call th.stack σ₂ := by
    intro σ₁ a σ₂ hreach₁ hanswering hfinds hmoves hquiet
    obtain ⟨hhistory,hwelcome⟩ := hanswering.step hreach₁ hdelivery hsupported hfinds hmoves
    refine ⟨hhistory,fun hun => ?_⟩
    obtain ⟨hwelcome',_⟩ | hreturned := hwelcome hun
    · exact hwelcome'
    · have hnone := hquiet _ hreturned
      simp [ownEvents,Event.thread] at hnone
  obtain ⟨σ₂,a,hreach₂,hanswering,rfl,hfinds,hmoves,hreturn⟩ :=
    hreturns.invariant (hreach.step hentered.step) hstart hkept
  obtain ⟨_,hwelcome⟩ := hanswering.step hreach₂ hdelivery hsupported hfinds hmoves
  obtain ⟨_,hlog⟩ | hlog := hwelcome hunrivalled
  · rw [hlog rfl] at hreturn
    simp at hreturn
  · have hsame := List.append_cancel_left (hlog.symm.trans hreturn)
    simpa using hsame.symm

end BtstackRs.Transport
