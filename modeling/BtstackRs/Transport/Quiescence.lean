import BtstackRs.Transport.Fifo
import BtstackRs.Transport.Lifecycle

/-!
# After a close

Between a `transport_close` and the next `transport_open` every worker has returned. What is left
are client threads: their sends find no record, and one that has kept its clones across the close
reaches a channel without a receiver. Nothing is delivered and nothing is handed to USB.
-/

namespace BtstackRs.Transport

open Concurrent

def Frame.opens (f : Frame) : Nat := if f.fn = .transportOpen then 1 else 0

structure Quiet (σ : System) : Prop where
  closed : σ.state.active = none
  no_open : Pool.total Frame.opens σ.threads = 0
  workers_finished : ∀ w, IsWorker σ.threads w → σ.finished w = true

theorem Frame.opens_le_lifecycle (f : Frame) : f.opens ≤ f.lifecycle := by
  unfold opens lifecycle
  split
  · rename_i hopen
    simp [hopen,Fn.isLifecycle]
  · exact Nat.zero_le _

theorem ReachableInTurn.quiet {σ : System} (h : ReachableInTurn σ) (hboundary : σ.lifecycleCalls = 0)
    (hclosed : σ.state.active = none) : Quiet σ where
  closed := hclosed
  no_open := Nat.le_zero.mp
    (Nat.le_trans (Pool.total_mono Frame.opens_le_lifecycle _) (Nat.le_of_eq hboundary))
  workers_finished w hw := by
    by_contra hrunning
    have hlisted := (h.workers_iff hboundary w).mp ⟨hw,by simpa using hrunning⟩
    simp [TransportState.workers,hclosed] at hlisted

theorem Quiet.not_opens {σ : System} (hσ : Quiet σ) {t : Nat} {th : Thread Role Frame}
    (hthread : σ.threads[t]? = some th) {f : Frame} (hf : f ∈ th.stack) :
    f.fn ≠ .transportOpen := by
  intro hopen
  have hle := Pool.le_total Frame.opens hthread hf
  rw [hσ.no_open,Frame.opens,if_pos hopen] at hle
  omega

theorem Quiet.site_eq_none {σ : System} (hreach : Reachable σ) (hσ : Quiet σ) {t : Nat}
    {th : Thread Role Frame} (hthread : σ.threads[t]? = some th) {f : Frame} (hf : f ∈ th.stack) :
    f.site = none := by
  cases hsite : f.site with
  | none => rfl
  | some site =>
    exfalso
    by_cases husb : site = .usbInfo
    · subst husb
      obtain ⟨front,rest,hstack,hsits⟩ := (hreach.wellNested t th hthread).exists_below hf
      simp only [Frame.Sits,hsite] at hsits
      obtain ⟨endpoints,rest',rfl⟩ := hsits
      exact hσ.not_opens hthread (f := .openCreate endpoints) (by simp [hstack]) rfl
    · have hrole := hreach.role_of_site hthread hf hsite husb
      have hworker : IsWorker σ.threads t := by
        refine ⟨_,⟨th,hthread,rfl⟩,?_⟩
        intro hclient
        simp [hclient,Role.site] at hrole
      rw [hreach.finished_stack hthread (hσ.workers_finished t hworker)] at hf
      cases hf

/-- The number of packets that the writer of a link has handed to USB. -/
def System.handed (σ : System) (l : Nat) : Nat :=
  linkValue (fun link => (handedTransfers link.history).length) σ.links l

theorem sendStep_handed {t : Nat} {call : SendCall} {handles : SendHandles}
    {spurious : Bool} {pc : SendPc call} {link link' : Link} {next : SendNext call}
    (h : sendStep t call handles spurious pc link = (link',next)) :
    handedTransfers link'.history = handedTransfers link.history := by
  cases sendStep_cases h <;> simp [LinkEvent.handedTransfer]

private theorem move_handed {σ : System} {t : Nat} {c : Choice} {rest : List Frame} {d : Delta}
    (h : Move σ t c .client rest d) (l : Nat) :
    linkValue (fun link => (handedTransfers link.history).length) d.links l = σ.handed l := by
  unfold System.handed
  cases h with
  | sectionRet | leave =>
    apply linkValue_resumeSite
    · intro link kind
      simp
    · intro link
      rfl
  | create endpoints => exact linkValue_append rfl l
  | stop active link hlink => exact linkValue_set_eq hlink l (fun _ => rfl)
  | sendGoto call handles pc pc' link link' hlink hsend =>
    exact linkValue_set_eq hlink l (fun _ => congrArg List.length (sendStep_handed hsend))
  | sendRet call handles pc link link' result hlink hsend =>
    exact linkValue_set_eq hlink l (fun _ => congrArg List.length (sendStep_handed hsend))
  | reader _ _ _ _ hrole | readerDeliver _ _ _ _ _ hrole | writer _ _ _ hrole
  | writerAcknowledge _ _ _ hrole => cases hrole
  | _ => rfl

private theorem Quiet.move_active {σ : System} {t : Nat} {c : Choice} {role : Role}
    {rest : List Frame} {d : Delta} (hσ : Quiet σ) (h : Move σ t c role rest d)
    (htop : ∀ f ∈ d.top, f.fn ≠ .transportOpen) : d.state.active = none := by
  have hclosed := hσ.closed
  cases h with
  | sectionGoto s state g hsection => cases hsection <;> simp [hclosed]
  | sectionRet s state result hsection =>
    cases hsection with
    | openStore active => exact absurd rfl (htop _ (List.mem_singleton_self _))
    | _ => exact hclosed
  | _ => exact hclosed

private theorem move_opens {σ : System} {t : Nat} {c : Choice} {role : Role}
    {rest : List Frame} {d : Delta} (h : Move σ t c role rest d)
    (htop : ∀ f ∈ d.top, f.fn ≠ .transportOpen)
    (hcalled : .called t .transportOpen ∉ d.events) :
    Pool.stackWeight Frame.opens d.top' = 0 ∧ d.spawned = [] := by
  have hopens : ∀ {f g : Frame}, d.top = [f] → g.fn = f.fn → Frame.opens g = 0 := by
    intro f g hf hg
    have hne := htop f (by simp [hf])
    simp [Frame.opens,hg,hne]
  cases h with
  | lock s hfree => simpa using hopens (g := .locked s) rfl rfl
  | sectionGoto s state g hsection =>
    have hfn : g.fn = (Frame.locked s).fn := by cases hsection <;> rfl
    simpa using hopens rfl hfn
  | openingGoto | openingClaim | create | spawn =>
    exact absurd rfl (htop _ (List.mem_singleton_self _))
  | call op s hchoice hcan henters =>
    cases henters <;> simp_all [Frame.opens,Frame.fn,Section.fn,ApiCall.fn]
  | _ => simp [Frame.opens,Frame.fn,Section.fn]

def Frame.sending : Frame → Bool
  | .send _ _ _ => true
  | _ => false

private theorem move_sends {σ : System} {t : Nat} {c : Choice} {role : Role} {rest : List Frame}
    {d : Delta} (h : Move σ t c role rest d) (hclosed : σ.state.active = none)
    (htop : ∀ f ∈ d.top, f.sending = false) :
    (∀ f ∈ d.top', f.sending = false) ∧
      ∀ result, .returned t .transportSendPacket result ∈ d.events → result = some (-1) := by
  cases h with
  | sectionGoto s state g hsection =>
    cases hsection with
    | sendLookup call active hactive =>
      rw [hclosed] at hactive
      cases hactive
    | _ => simp [Frame.sending]
  | sectionRet s state result hsection => cases hsection <;> simp [Section.fn]
  | spawn l pc => cases pc <;> simp [SpawnPc.after,Frame.sending]
  | sendGoto | sendRet => cases htop _ (List.mem_singleton_self _)
  | callRet op result hchoice hcan henter =>
    cases op with
    | transportSendPacket call =>
      simp only [ApiCall.enter] at henter
      split at henter <;> cases henter
      simp
    | _ => simp [ApiCall.fn]
  | _ => simp [Frame.sending]

def System.NotSending (σ : System) (t : Nat) : Prop :=
  ∀ th f, σ.threads[t]? = some th → f ∈ th.stack → f.sending = false

/-- What a run does that starts in a quiet state and in which `transport_open` is not called. -/
structure QuietRun (σ σ' : System) (events : List Event) : Prop where
  quiet : Quiet σ'
  not_entered : ∀ t site handler packetType packet size,
    .entered t site handler packetType packet size ∉ events
  handed_eq : ∀ l, σ'.handed l = σ.handed l
  not_sending : ∀ t, σ.NotSending t → σ'.NotSending t
  sends_fail : ∀ t, σ.NotSending t →
    ∀ result, .returned t .transportSendPacket result ∈ events → result = some (-1)

theorem QuietRun.refl {σ : System} (h : Quiet σ) : QuietRun σ σ [] where
  quiet := h
  not_entered := by simp
  handed_eq _ := rfl
  not_sending _ h := h
  sends_fail := by simp

theorem QuietRun.trans {σ σ' σ'' : System} {events events' : List Event}
    (h : QuietRun σ σ' events) (h' : QuietRun σ' σ'' events') :
    QuietRun σ σ'' (events ++ events') where
  quiet := h'.quiet
  not_entered t site handler packetType packet size hentered := by
    rcases List.mem_append.mp hentered with hentered | hentered
    · exact h.not_entered _ _ _ _ _ _ hentered
    · exact h'.not_entered _ _ _ _ _ _ hentered
  handed_eq l := (h'.handed_eq l).trans (h.handed_eq l)
  not_sending t ht := h'.not_sending t (h.not_sending t ht)
  sends_fail t ht result hresult := by
    rcases List.mem_append.mp hresult with hresult | hresult
    · exact h.sends_fail t ht result hresult
    · exact h'.sends_fail t (h.not_sending t ht) result hresult

private theorem Quiet.role_eq_client {σ σ' : System} {a : Action} (hreach : Reachable σ)
    (hσ : Quiet σ) (hstep : machine.step σ a = some σ') {th : Thread Role Frame}
    (hthread : σ.threads[a.thread]? = some th) : th.role = .client := by
  by_contra hrole
  have hfinished := hσ.workers_finished a.thread ⟨_,⟨th,hthread,rfl⟩,hrole⟩
  rw [hreach.finished_blocked hfinished] at hstep
  cases hstep

theorem Quiet.step {σ σ' : System} {a : Action} (hreach : Reachable σ) (hσ : Quiet σ)
    (hstep : machine.step σ a = some σ') :
    ∃ events, σ'.log = σ.log ++ events ∧
      ((∀ t, .called t .transportOpen ∉ events) → QuietRun σ σ' events) := by
  have hmoves := step_moves hstep
  obtain ⟨th,rest,d,hthread,hstack,hmove⟩ := hmoves
  refine ⟨d.events,rfl,fun hcalled => ?_⟩
  have hclient := hσ.role_eq_client hreach hstep hthread
  have hmem : ∀ {f}, f ∈ d.top → f ∈ th.stack := by
    intro f hf
    rw [hstack]
    exact List.mem_append_left _ hf
  have htop : ∀ f ∈ d.top, f.fn ≠ .transportOpen := fun f hf => hσ.not_opens hthread (hmem hf)
  obtain ⟨hopens,hspawned⟩ := move_opens hmove htop (hcalled a.thread)
  have hsends : σ.NotSending a.thread → ∀ f ∈ d.top, f.sending = false :=
    fun h f hf => h th f hthread (hmem hf)
  refine ⟨⟨hσ.move_active hmove htop,?_,?_⟩,?_,?_,?_,?_⟩
  · have hsum := total_apply Frame.opens hthread hstack
    have hnone := hσ.no_open
    omega
  · rintro w ⟨role,⟨th',hth',rfl⟩,hrole⟩
    apply finished_moves (step_moves hstep)
    apply hσ.workers_finished
    obtain ⟨rfl,th₀,hth₀,rfl⟩ | ⟨_,hsame⟩ | ⟨_,_,hnew⟩ := getElem?_apply_cases hth'
    · exact ⟨_,⟨th₀,hth₀,rfl⟩,hrole⟩
    · exact ⟨_,⟨th',hsame,rfl⟩,hrole⟩
    · simp [hspawned] at hnew
  · intro t site handler packetType packet size hentered
    cases hmove with
    | enter caller =>
      have hsite := hσ.site_eq_none hreach hthread (hmem (List.mem_singleton_self _))
      cases hsite
    | _ => simp at hentered
  · rw [hclient] at hmove
    exact move_handed hmove
  · intro t ht th' f hth' hf
    rcases mem_stack_apply hthread hstack hth' hf with ⟨rfl,_,hf⟩ | ⟨th₀,hth₀,_,hf⟩
    · exact (move_sends hmove hσ.closed (hsends ht)).1 f hf
    · exact ht th₀ f hth₀ hf
  · intro t ht result hresult
    obtain rfl : t = a.thread := hmove.events_thread _ hresult
    exact (move_sends hmove hσ.closed (hsends ht)).2 result hresult

/-- Until `transport_open` is called again, every run from a quiet state is quiet. -/
theorem Quiet.steps {allow : System → Action → Prop} {σ σ' : System} (hreach : Reachable σ)
    (hσ : Quiet σ) (hrun : machine.Steps allow σ σ') :
    ∃ events, σ'.log = σ.log ++ events ∧
      ((∀ t, .called t .transportOpen ∉ events) → QuietRun σ σ' events) := by
  induction hrun with
  | refl => exact ⟨[],by simp,fun _ => .refl hσ⟩
  | @tail σ₁ σ₂ hpre hlast ih =>
    obtain ⟨events,hlog,hquiet⟩ := ih
    obtain ⟨a,_,hstep⟩ := hlast
    have hlog' : ∃ events', σ₂.log = σ₁.log ++ events' := by
      obtain ⟨th,rest,d,_,_,_⟩ := step_moves hstep
      exact ⟨d.events,rfl⟩
    by_cases hcalled : ∀ t, .called t .transportOpen ∉ events
    · have hrun₁ := hquiet hcalled
      obtain ⟨events',hlog₂,hquiet₂⟩ := hrun₁.quiet.step (hreach.steps hpre) hstep
      refine ⟨events ++ events',by rw [hlog₂,hlog,List.append_assoc],fun hnone => ?_⟩
      exact hrun₁.trans (hquiet₂ fun t ht => hnone t (List.mem_append_right _ ht))
    · obtain ⟨events',hlog₂⟩ := hlog'
      refine ⟨events ++ events',by rw [hlog₂,hlog,List.append_assoc],fun hnone => ?_⟩
      exact absurd (fun t ht => hnone t (List.mem_append_left _ ht)) hcalled

end BtstackRs.Transport
