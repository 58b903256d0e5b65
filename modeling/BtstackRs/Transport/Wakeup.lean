import BtstackRs.Transport.Acknowledge
import BtstackRs.Transport.CanSend
import BtstackRs.Transport.Flow

/-!
# Who waits is called

A caller that is told to wait relies on the acknowledgements: the handler is called when a packet
has been sent, and asks again. Where the device and the threads do their part, each accepted packet
is acknowledged to the handler in the end or has failed, so nobody waits for a call that never
comes unless transfers fail.
-/

namespace BtstackRs.Transport

open Concurrent

theorem Reachable.ackDue_eq_zero {σ : System} (h : Reachable σ) {l : Nat} {link : Link}
    (hlink : σ.links[l]? = some link) (hpc : link.writer.pc ≠ .acknowledging) :
    Pool.total (Frame.ackDue l) σ.threads = 0 := by
  have hemits := h.total_emits (show EmitSite.writer l ≠ .usbInfo by simp)
  rw [emitting_of_link rfl hlink,Link.emitting,WriterPc.emitting_eq,if_neg hpc] at hemits
  exact Nat.le_zero.mp (hemits ▸ Pool.total_mono (Frame.ackDue_le_emits l) σ.threads)

/-- Infinite runs of a transport in use that has been opened under the eyes of the handler. -/
structure Heard (l : Nat) (s : Nat → System) : Prop extends Flowing l s where
  keeping : ReachableKeeping l (s 0)
  created : l < (s 0).links.length
  keeps : machine.Endless KeepsHandler s
  -- A handler has been registered since before the transport was opened.
  registered : ∃ σ₀, Reachable σ₀ ∧ HandlerKept σ₀ ∧ σ₀.links.length ≤ l ∧
    machine.Steps KeepsHandler σ₀ (s 0)

namespace Heard

variable {l : Nat} {s : Nat → System}

theorem reachable (h : Heard l s) (n : Nat) : Reachable (s n) :=
  h.keeping.reachable.steps (h.keeps.steps n)

theorem acknowledged (h : Heard l s) (n : Nat) : Acknowledged (s n) l := by
  obtain ⟨σ₀,hreach,hhandler,hnew,hbefore⟩ := h.registered
  exact (acknowledged_steps (hbefore.trans (h.keeps.steps n)) hhandler
    (acknowledged_fresh hreach hnew)).2

theorem quiet_later (h : Heard l s) (n : Nat) :
    ∃ m, n ≤ m ∧ (s m).writerPc l ≠ some .acknowledging := by
  obtain ⟨m,hm,hchange⟩ := h.progresses n
  by_cases hpc : (s m).writerPc l = some .acknowledging
  · exact ⟨m+1,Nat.le_succ_of_le hm,fun hnext => hchange (hnext.trans hpc.symm)⟩
  · exact ⟨m,hm,hpc⟩

/-- Every packet accepted so far is in the end acknowledged to the handler or has failed. -/
theorem accepted_acknowledged (h : Heard l s) {n : Nat} {link : Link}
    (hlink : (s n).links[l]? = some link) :
    ∃ m link', n ≤ m ∧ (s m).links[l]? = some link' ∧
      (acceptedCalls link.history).length ≤
        acknowledgements l (s m).log + failures link'.history := by
  obtain ⟨links,hlinks,hpath⟩ := h.toFlowing.openPath h.keeping h.created
  rw [hlinks n,Option.some_inj] at hlink
  subst hlink
  obtain ⟨m,hm,hreleased⟩ := hpath.released_reaches n
  obtain ⟨k,hk,hquiet⟩ := h.quiet_later m
  refine ⟨k,links k,Nat.le_trans hm hk,hlinks k,?_⟩
  have hpc : (links k).writer.pc ≠ .acknowledging := by
    intro hpc
    rw [System.writerPc,hlinks k] at hquiet
    exact hquiet (congrArg some hpc)
  have hack := h.acknowledged k
  rw [Acknowledged,(h.reachable k).ackDue_eq_zero (hlinks k) hpc,
    linkValue_of_getElem? (hlinks k),linkValue_of_getElem? (hlinks k)] at hack
  have hmono := hpath.released_mono hk
  have hfailed : (links k).failed = failures (links k).history := rfl
  have hsettled : OpenPath.released links k ≤ (links k).settled := Nat.le_add_right _ _
  omega

/-- When the answer to a caller has been no although no send was under way, the handler is
called later on as often as there are slots, except for transfers that fail from then on and for a
slot that a failed transfer is about to give back. -/
theorem refused_woken (h : Heard l s) {n : Nat} {link : Link} (hlink : (s n).links[l]? = some link)
    (hopen : (s n).IsOpen l) (hrefused : (s n).canSendNow = 0)
    (hcalm : Pool.total (Frame.reserves l) (s n).threads = 0) :
    ∃ m link', n ≤ m ∧ (s m).links[l]? = some link' ∧
      acknowledgements l (s n).log + failures link.history + outgoingQueueDepth ≤
        acknowledgements l (s m).log + failures link'.history + link.writer.pc.failing := by
  obtain ⟨links,hlinks,hpath⟩ := h.toFlowing.openPath h.keeping h.created
  rw [hlinks n,Option.some_inj] at hlink
  subst hlink
  obtain ⟨m,link',hm,hlink',hreached⟩ := h.accepted_acknowledged (hlinks n)
  refine ⟨m,link',hm,hlink',?_⟩
  have hfull : outgoingQueueDepth ≤ (links n).outgoingPending := by
    by_contra hroom
    have hone := (h.reachable n).canSendNow_iff.mpr
      ⟨l,hopen,by rw [ledger_of_getElem? (hlinks n)]; exact Nat.not_le.mp hroom⟩
    rw [hrefused] at hone
    cases hone
  have hbalance := ((h.reachable n).balanced l _ (hlinks n)).outgoingPending_eq
  have haccepted := hpath.accepted_eq n
  have hhanded := hpath.handed_eq n
  have hload := (links n).pipeline_load
  have hwaiting : (links n).pipeline.waiting.length = (links n).waiting.length :=
    List.length_map _
  unfold Pipeline.load at hload
  have hack := h.acknowledged n
  rw [Acknowledged,linkValue_of_getElem? (hlinks n),linkValue_of_getElem? (hlinks n)] at hack
  have hfailed : (links n).failed = failures (links n).history := rfl
  have hsettled : (links n).settled =
      OpenPath.released links n + (links n).writer.pc.failing := rfl
  omega

end Heard

def System.leaves (σ : System) (a : Action) : Bool :=
  !σ.overwrites 0 a && !a.choice.clearsHandler

def fullRun : List Action :=
  openRun 0 dongle dongleInterface [.go,.go] ++
    (List.replicate 4 (Action.by 0
      [.call (.transportSendPacket ⟨1,some [3,12,0],3⟩),.go,.go,.go,.go,.go])).flatten

def emptiedRun : List Action :=
  (List.replicate 4 (Action.by 3 [.go,.go,.go,.control .ok,.go,.go,.go,.go,.go])).flatten

private theorem exists_heard : ∃ s link, Heard 0 s ∧ (s 0).IsOpen 0 ∧ (s 0).canSendNow = 0 ∧
    Pool.total (Frame.reserves 0) (s 0).threads = 0 ∧ acknowledgements 0 (s 0).log = 0 ∧
    (s 0).links[0]? = some link ∧ (acceptedCalls link.history).length = 4 ∧
    failures link.history = 0 ∧ link.writer.pc.failing = 0 := by
  have hfull : ((machine.runWhere System.leaves (System.initial 1 (some 7)) fullRun).bind fun σ =>
      σ.links[0]?.map fun link => (σ.state.active.map (·.link),σ.canSendNow,
        Pool.total (Frame.reserves 0) σ.threads,acknowledgements 0 σ.log,
        (acceptedCalls link.history).length,failures link.history,link.writer.pc.failing)) =
      some (some 0,0,0,0,4,0,0) := rfl
  obtain ⟨σ,hσ,hmap⟩ := Option.bind_eq_some_iff.mp hfull
  obtain ⟨link,hlink,hvalues⟩ := Option.map_eq_some_iff.mp hmap
  simp only [Prod.mk.injEq,Option.map_eq_some_iff] at hvalues
  obtain ⟨hopen,hrefused,hcalm,hacks,haccepted,hfailures,hfailing⟩ := hvalues
  have hemptied : ((machine.runWhere System.leaves (System.initial 1 (some 7)) fullRun).bind
      fun σ => (machine.runWhere System.leaves σ emptiedRun).bind fun σ' =>
        σ'.links[0]?.map fun link => (σ'.threads[3]?,link.stop,link.channel,link.writer,
          σ'.senderAlive 0)) =
      some (some ⟨.writer 0,[]⟩,false,[],{ pc := .fill },true) := rfl
  obtain ⟨σ₁,hσ₁,hrest⟩ := Option.bind_eq_some_iff.mp hemptied
  rw [hσ,Option.some_inj] at hσ₁
  subst hσ₁
  obtain ⟨σ',hσ',hrest⟩ := Option.bind_eq_some_iff.mp hrest
  obtain ⟨link',hlink',hvalues⟩ := Option.map_eq_some_iff.mp hrest
  simp only [Prod.mk.injEq] at hvalues
  obtain ⟨hthread,hstop,hchannel,hwriter,halive⟩ := hvalues
  have hrecord : ∀ (σ : System) (a : Action), σ.leaves a = true → KeepsRecord 0 σ a := by
    intro σ a hleaves
    simp only [System.leaves,Bool.and_eq_true,Bool.not_eq_true'] at hleaves
    exact hleaves.1
  have hhandler : ∀ (σ : System) (a : Action), σ.leaves a = true → KeepsHandler σ a := by
    intro σ a hleaves
    simp only [System.leaves,Bool.and_eq_true,Bool.not_eq_true'] at hleaves
    exact hleaves.2
  have hidle : Idle σ' 3 0 link' := ⟨hthread,hlink',hstop,hchannel,hwriter,halive⟩
  have hbefore := Machine.steps_of_runWhere hσ
  have hkeeping : ReachableKeeping 0 σ := ⟨_,⟨1,some 7,rfl⟩,hbefore.mono hrecord⟩
  have hcreated := (List.getElem?_eq_some_iff.mp hlink).1
  obtain ⟨s,rfl,hflowing,hendless⟩ := hidle.flowing hkeeping hcreated hrecord
    (fun σ hkeeps => by simpa [System.leaves,Choice.clearsHandler,KeepsRecord] using hkeeps)
    (Machine.steps_of_runWhere hσ')
  have hregistered : ∃ σ₀, Reachable σ₀ ∧ HandlerKept σ₀ ∧ σ₀.links.length ≤ 0 ∧
      machine.Steps KeepsHandler σ₀ (s 0) :=
    ⟨_,⟨_,⟨1,some 7,rfl⟩,.refl _⟩,⟨rfl,rfl⟩,Nat.le_refl 0,hbefore.mono hhandler⟩
  exact ⟨s,link,⟨hflowing,hkeeping,hcreated,hendless.mono hhandler,hregistered⟩,hopen,hrefused,
    hcalm,hacks,hlink,haccepted,hfailures,hfailing⟩

theorem accepted_acknowledged_commands : ∃ s m link', Heard 0 s ∧
    acknowledgements 0 (s 0).log = 0 ∧ (s m).links[0]? = some link' ∧
    4 ≤ acknowledgements 0 (s m).log + failures link'.history := by
  obtain ⟨s,link,hheard,-,-,-,hacks,hlink,haccepted,-,-⟩ := exists_heard
  obtain ⟨m,link',-,hlink',hreached⟩ := hheard.accepted_acknowledged hlink
  rw [haccepted] at hreached
  exact ⟨s,m,link',hheard,hacks,hlink',hreached⟩

/-- Nothing has been acknowledged and nothing has failed when the answer is no, so that the handler
is called four times unless transfers fail. -/
theorem refused_woken_commands : ∃ s link m link', Heard 0 s ∧ (s 0).links[0]? = some link ∧
    (s 0).canSendNow = 0 ∧ acknowledgements 0 (s 0).log = 0 ∧ failures link.history = 0 ∧
    (s m).links[0]? = some link' ∧
    outgoingQueueDepth ≤ acknowledgements 0 (s m).log + failures link'.history := by
  obtain ⟨s,link,hheard,hopen,hrefused,hcalm,hacks,hlink,-,hfailures,hfailing⟩ := exists_heard
  obtain ⟨m,link',-,hlink',hwoken⟩ := hheard.refused_woken hlink hopen hrefused hcalm
  rw [hacks,hfailures,hfailing,Nat.add_zero,Nat.zero_add,Nat.add_zero] at hwoken
  exact ⟨s,link,m,link',hheard,hlink,hrefused,hacks,hfailures,hlink',hwoken⟩

end BtstackRs.Transport
