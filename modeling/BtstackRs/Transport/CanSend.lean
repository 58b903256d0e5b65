import BtstackRs.Transport.Sending

/-!
# Asking and sending

`transport_can_send_packet_now` looks at the counter only, and the accounting makes that enough:
while there is room and nobody else sends, opens or closes, a send is accepted.
-/

namespace BtstackRs.Transport

open Concurrent

def System.IsOpen (σ : System) (l : Nat) : Prop :=
  ∃ active, σ.state.active = some active ∧ active.link = l

/-- The transport of link `l` is open, and its counter leaves room for a packet. -/
structure Roomy (σ : System) (l : Nat) : Prop where
  isOpen : σ.IsOpen l
  room : (ledger σ.links l).pending < outgoingQueueDepth

theorem Reachable.canSendNow_iff {σ : System} (h : Reachable σ) :
    σ.canSendNow = 1 ↔ ∃ l, Roomy σ l := by
  unfold System.canSendNow
  cases hactive : σ.state.active with
  | none =>
    constructor
    · intro hone
      cases hone
    · rintro ⟨l,⟨active,hopen,_⟩,_⟩
      rw [hactive] at hopen
      cases hopen
  | some active =>
    have hlink := List.getElem?_eq_getElem (h.wellScoped.active active hactive)
    have hdepth := active.queueDepth_eq
    simp only [hlink]
    constructor
    · intro hone
      split at hone
      · rename_i hroom
        refine ⟨active.link,⟨active,hactive,rfl⟩,?_⟩
        rw [ledger_of_getElem? hlink]
        rw [hdepth] at hroom
        exact hroom
      · cases hone
    · rintro ⟨l,⟨active',hopen,rfl⟩,hroom⟩
      rw [hactive] at hopen
      cases hopen
      rw [ledger_of_getElem? hlink] at hroom
      rw [hdepth]
      exact if_pos hroom

theorem Reachable.not_exited_of_isOpen {σ : System} (h : Reachable σ) {l : Nat}
    (hopen : σ.IsOpen l) {link : Link} (hlink : σ.links[l]? = some link) :
    link.writer.pc ≠ .exited := by
  obtain ⟨active,hactive,rfl⟩ := hopen
  exact (h.active_running hactive hlink).writer_runs

def Fn.isRival : Fn → Bool
  | .transportSendPacket | .transportOpen | .transportClose => true
  | _ => false

/-- A step of a send, an open or a close. -/
def System.rivalStep (σ : System) (a : Action) : Bool :=
  match σ.threads[a.thread]? with
  | none => false
  | some th =>
      th.stack.head?.any (fun f => f.fn.isRival) ||
        match a.choice with
        | .call op => op.fn.isRival
        | _ => false

def NoRival (σ : System) (a : Action) : Prop := σ.rivalStep a = false

theorem NoRival.top {σ : System} {a : Action} (h : NoRival σ a) {th : Thread Role Frame}
    (hthread : σ.threads[a.thread]? = some th) {top rest : List Frame}
    (hstack : th.stack = top ++ rest) {f : Frame} (htop : top = [f]) : f.fn.isRival = false := by
  simp only [NoRival,System.rivalStep,hthread,hstack,htop,List.singleton_append,List.head?_cons,
    Option.any_some,Bool.or_eq_false_iff] at h
  exact h.1

private theorem move_active_of_quiet {σ : System} {t : Nat} {c : Choice} {role : Role}
    {rest : List Frame} {d : Delta} (h : Move σ t c role rest d)
    (hquiet : ∀ f, d.top = [f] → f.fn.isRival = false) : d.state.active = σ.state.active := by
  cases h with
  | sectionGoto s state g hsection =>
    cases hsection with
    | closeTake active hactive => cases hquiet _ rfl
    | _ => rfl
  | sectionRet s state result hsection =>
    cases hsection with
    | openStore active => cases hquiet _ rfl
    | _ => rfl
  | _ => rfl

private theorem pending_le_of_quiet {σ : System} (hreach : Reachable σ) {t : Nat} {c : Choice}
    {th : Thread Role Frame} {rest : List Frame} {d : Delta} (hthread : σ.threads[t]? = some th)
    (hstack : th.stack = d.top ++ rest) (h : Move σ t c th.role rest d)
    (hquiet : ∀ f, d.top = [f] → f.fn.isRival = false) (l : Nat) :
    (ledger d.links l).pending ≤ (ledger σ.links l).pending := by
  obtain ⟨who,entries,hposts,hwho⟩ := hreach.move_posts hthread hstack h l
  apply hposts.pending_le
  intro u hreserved
  have hsender := hposts.sender_eq _ hreserved u rfl
  obtain hnone | ⟨_,call,handles,pc,htop⟩ := hwho
  · rw [hnone] at hsender
    cases hsender
  · cases hquiet _ htop

theorem Roomy.step {σ σ' : System} (hreach : Reachable σ) {l : Nat} (h : Roomy σ l) {a : Action}
    (hallow : NoRival σ a) (hmoves : Moves σ a σ') : Roomy σ' l := by
  obtain ⟨th,rest,d,hthread,hstack,hmove⟩ := hmoves
  have hquiet : ∀ f, d.top = [f] → f.fn.isRival = false :=
    fun f htop => hallow.top hthread hstack htop
  obtain ⟨active,hactive,hlink⟩ := h.isOpen
  constructor
  · exact ⟨active,(move_active_of_quiet hmove hquiet).trans hactive,hlink⟩
  · exact Nat.lt_of_le_of_lt (pending_le_of_quiet hreach hthread hstack hmove hquiet l) h.room

inductive Welcome (σ : System) (t l : Nat) (call : SendCall) (base : List Frame) : Prop where
  | lookup (f : Frame) (hf : f = .lock (.sendLookup call) ∨ f = .locked (.sendLookup call))
      (hin : σ.In t f base) (hroom : (ledger σ.links l).pending < outgoingQueueDepth)
  | sending (handles : SendHandles) (pc : SendPc call) (hlink : handles.link = l)
      (hin : σ.In t (.send call handles pc) base)
      (hpc : pc.Accepting (ledger σ.links l).pending)

theorem Welcome.exists_in {σ : System} {t l : Nat} {call : SendCall} {base : List Frame}
    (h : Welcome σ t l call base) : ∃ f, σ.In t f base := by
  cases h with
  | lookup f hf hin hroom => exact ⟨f,hin⟩
  | sending handles pc hlink hin hpc => exact ⟨_,hin⟩

theorem Welcome.of_other {σ : System} {t u l : Nat} {call : SendCall} {base rest : List Frame}
    {d : Delta} (h : Welcome σ t l call base) (hne : u ≠ t)
    (hpending : (ledger d.links l).pending ≤ (ledger σ.links l).pending) :
    Welcome (σ.apply u rest d) t l call base := by
  cases h with
  | lookup f hf hin hroom =>
    exact .lookup f hf (hin.of_other rest d hne) (Nat.lt_of_le_of_lt hpending hroom)
  | sending handles pc hlink hin hpc =>
    exact .sending handles pc hlink (hin.of_other rest d hne) (hpc.mono hpending)

def FindsOpen (t l : Nat) (σ : System) (a : Action) : Prop :=
  a.thread = t → ∀ call base, σ.In t (.locked (.sendLookup call)) base → σ.IsOpen l

theorem Welcome.own {σ σ' : System} (hreach : Reachable σ) {l : Nat} {call : SendCall}
    {base : List Frame} {a : Action} (h : Welcome σ a.thread l call base)
    (hsupported : supportedType call.packetType = true) (hmoves : Moves σ a σ')
    (hfinds : FindsOpen a.thread l σ a)
    (hwriter : ∀ link, σ.links[l]? = some link → link.writer.pc ≠ .exited) :
    (Welcome σ' a.thread l call base ∧ σ'.state = σ.state ∧ σ'.log = σ.log) ∨
      σ'.log = σ.log ++ [.returned a.thread .transportSendPacket (some 0)] := by
  cases h with
  | lookup f hf hin hroom =>
    cases hin.section_step hf hmoves with
    | lock hin' hstate hlinks hlog =>
      exact .inl ⟨.lookup _ (.inr rfl) hin' (by rwa [hlinks]),hstate,hlog⟩
    | goto state g hin hsection hin' hstate hlinks hlog =>
      obtain ⟨active,hactive,hl⟩ := hfinds rfl call base hin
      cases hsection with
      | sendLookup call active' hactive' =>
        rw [hactive] at hactive'
        cases hactive'
        refine .inl ⟨.sending active.sendHandles .load hl hin' ?_,hstate,hlog⟩
        rw [hlinks]
        exact hroom
    | ret state result hin hsection hstate hlinks hlog =>
      obtain ⟨active,hactive,hl⟩ := hfinds rfl call base hin
      cases hsection with
      | sendLookup call hclosed =>
        rw [hactive] at hclosed
        cases hclosed
  | sending handles pc hlink hin hpc =>
    subst hlink
    obtain ⟨pc',hin',hpc',hstate,hlog⟩ | hreturned :=
      hreach.accepting_step hin hmoves hsupported hpc hwriter
    · exact .inl ⟨.sending handles pc' rfl hin' hpc',hstate,hlog⟩
    · exact .inr hreturned

def Undisturbed (t : Nat) (σ : System) (a : Action) : Prop := a.thread = t ∨ NoRival σ a

/-- A send that finds room is accepted. -/
theorem Welcome.returns {σ σ' : System} (hreach : Reachable σ) {t l : Nat} {call : SendCall}
    {base : List Frame} (h : Welcome σ t l call base) (hopen : σ.IsOpen l)
    (hsupported : supportedType call.packetType = true) {result : Int}
    (hreturns : Returns (Undisturbed t) t .transportSendPacket σ σ' result) : result = 0 := by
  have hkept : ∀ σ₁ a σ₂, Reachable σ₁ → (σ₁.IsOpen l ∧ Welcome σ₁ t l call base) →
      Undisturbed t σ₁ a → Moves σ₁ a σ₂ →
      (∀ events, σ₂.log = σ₁.log ++ events → ownEvents t events = []) →
        σ₂.IsOpen l ∧ Welcome σ₂ t l call base := by
    rintro σ₁ a σ₂ hreach₁ ⟨hopen₁,hwelcome⟩ hallow hmoves hquiet
    by_cases ha : a.thread = t
    · subst ha
      obtain ⟨hwelcome',hstate,_⟩ | hlog := hwelcome.own hreach₁ hsupported hmoves
        (fun _ _ _ _ => hopen₁) (fun link hlink => hreach₁.not_exited_of_isOpen hopen₁ hlink)
      · refine ⟨?_,hwelcome'⟩
        unfold System.IsOpen
        rw [hstate]
        exact hopen₁
      · have hnone := hquiet _ hlog
        simp [ownEvents,Event.thread] at hnone
    · have hrival := hallow.resolve_left ha
      obtain ⟨th,rest,d,hthread,hstack,hmove⟩ := hmoves
      have hquiet' : ∀ f, d.top = [f] → f.fn.isRival = false :=
        fun f htop => hrival.top hthread hstack htop
      obtain ⟨active,hactive,hl⟩ := hopen₁
      exact ⟨⟨active,(move_active_of_quiet hmove hquiet').trans hactive,hl⟩,
        hwelcome.of_other ha (pending_le_of_quiet hreach₁ hthread hstack hmove hquiet' l)⟩
  obtain ⟨σ₁,a,hreach₁,⟨hopen₁,hwelcome⟩,rfl,_,hmoves,hreturn⟩ :=
    hreturns.invariant (P := fun σ => σ.IsOpen l ∧ Welcome σ t l call base) hreach ⟨hopen,h⟩ hkept
  obtain ⟨_,_,hlog⟩ | hlog := hwelcome.own hreach₁ hsupported hmoves (fun _ _ _ _ => hopen₁)
    (fun link hlink => hreach₁.not_exited_of_isOpen hopen₁ hlink)
  · simp [hlog] at hreturn
  · have hsame := List.append_cancel_left (hlog.symm.trans hreturn)
    simpa using hsame.symm

end BtstackRs.Transport
