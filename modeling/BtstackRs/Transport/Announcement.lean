import BtstackRs.Concurrent.History
import BtstackRs.Transport.Receive

/-!
# What the transport says about the device

`transport_open` tells the handler which device it has claimed before it creates the queues and
threads. The event identifies the device that the configuration in force asked for, and when a
worker calls the handler as many such events are over as transports have been created up to its own.
-/

namespace BtstackRs.Transport

open Concurrent

/-- The device was picked for a configuration that was the last one at some time. -/
def Picked (configs : List (Option TransportConfig)) (device : DeviceInfo) : Prop :=
  ∃ earlier devices, earlier <+: configs ∧ IsFirstOf devices (Wanted earlier.getLast?.join) device

def OpenPc.Knows (configs : List (Option TransportConfig)) : OpenPc → Prop
  | .select selection =>
      ∃ earlier, earlier <+: configs ∧ selection = selectionOf earlier.getLast?.join
  | .device picked | .claim picked => Picked configs picked

theorem OpenPc.Knows.mono {configs : List (Option TransportConfig)} {pc : OpenPc}
    (h : pc.Knows configs) (new : List (Option TransportConfig)) : pc.Knows (configs ++ new) := by
  have hstart := configs.prefix_append new
  cases pc with
  | select selection =>
    obtain ⟨earlier,hearlier,hselection⟩ := h
    exact ⟨earlier,hearlier.trans hstart,hselection⟩
  | device picked | claim picked =>
    obtain ⟨earlier,devices,hearlier,hfirst⟩ := h
    exact ⟨earlier,devices,hearlier.trans hstart,hfirst⟩

def Frame.creating : Frame → Nat
  | .openCreate _ => 1
  | _ => 0

def Event.announces : Event → Bool
  | .left _ site => site == .usbInfo
  | _ => false

def announcements (log : List Event) : Nat := log.countP Event.announces

def Event.link : Event → Option Nat
  | .entered _ site _ _ _ _ => site.link
  | _ => none

theorem Move.announced {σ : System} {t : Nat} {c : Choice} {role : Role} {rest : List Frame}
    {d : Delta} (h : Move σ t c role rest d) (hregistered : σ.state.packetHandler.isSome) :
    announcements d.events + Pool.stackWeight (Frame.emits .usbInfo) d.top' +
        (σ.links.length + Pool.stackWeight Frame.creating d.top) =
      Pool.stackWeight (Frame.emits .usbInfo) d.top +
        (d.links.length + Pool.stackWeight Frame.creating d.top') := by
  cases h with
  | lock s hfree => simp [announcements,Frame.creating]
  | sectionGoto s state g hsection =>
    cases hsection <;> simp [announcements,Frame.emits,Frame.site,Section.site,Frame.creating]
  | sectionRet s state result hsection =>
    cases hsection with
    | emitLookup site packetType packet hnone => simp [hnone] at hregistered
    | _ => simp [announcements,Frame.emits,Frame.site,Section.site,Frame.creating,Event.announces]
  | leave site packetType packet =>
    by_cases hsite : site = .usbInfo <;>
      simp [announcements,Frame.creating,Event.announces,hsite]
  | call op s hchoice hcan henters =>
    cases henters <;>
      simp [announcements,Frame.emits,Frame.site,Section.site,Frame.creating,Event.announces]
  | spawn l pc =>
    cases pc <;>
      simp [announcements,Frame.emits,Frame.site,Section.site,Frame.creating,SpawnPc.after]
  | _ =>
    simp [announcements,Frame.emits,Frame.site,Section.site,Frame.creating,Event.announces] <;> omega

/-- The USB info event is emitted by a `transport_open` that goes on to create the transport. -/
theorem Reachable.announcing_le {σ : System} (h : Reachable σ) :
    Pool.total (Frame.emits .usbInfo) σ.threads ≤ Pool.total Frame.creating σ.threads := by
  apply Pool.total_le_of_stacks
  intro th hth
  obtain ⟨t,hthread⟩ := List.mem_iff_getElem?.mp hth
  apply (h.wellNested t th hthread).stackWeight_le
  intro f rest hsits
  by_cases hsite : f.site = some .usbInfo
  · rw [Frame.Sits,hsite] at hsits
    obtain ⟨endpoints,rest',rfl⟩ := hsits
    exact .inr ⟨by rw [Frame.emits,if_pos hsite],_,rest',rfl,rfl,rfl⟩
  · exact .inl (by rw [Frame.emits,if_neg hsite])

theorem Reachable.link_of_event {σ : System} (h : Reachable σ) {t : Nat} {c : Choice}
    {th : Thread Role Frame} {rest : List Frame} {d : Delta} (hthread : σ.threads[t]? = some th)
    (hstack : th.stack = d.top ++ rest) (hmove : Move σ t c th.role rest d) {e : Event}
    (he : e ∈ d.events) {l : Nat} (hl : e.link = some l) : l < σ.links.length := by
  cases hmove with
  | enter site packetType packet handler =>
    obtain rfl := List.mem_singleton.mp he
    exact h.emits_link.frames t th (.emitCall site packetType packet handler) _ hthread
      (by rw [hstack]; exact List.mem_cons_self) rfl l hl
  | leave | callRet =>
    simp only [List.mem_cons,List.not_mem_nil,or_false] at he
    rcases he with rfl | rfl <;> cases hl
  | sectionRet | openingFail | joinWriter | sendRet | call =>
    obtain rfl := List.mem_singleton.mp he
    cases hl
  | _ => cases he

structure Announced (σ₀ σ : System) (new : List Event) : Prop where
  log : σ.log = σ₀.log ++ new
  announced : σ.links.length + Pool.total Frame.creating σ.threads ≤
    σ₀.links.length + announcements new + Pool.total (Frame.emits .usbInfo) σ.threads
  first : EachAfter (fun before e => ∀ l, e.link = some l →
    l < σ₀.links.length + announcements before) new

theorem Announced.step {σ₀ σ σ' : System} {a : Action} {new : List Event}
    (h : Announced σ₀ σ new) (hreach : Reachable σ) (hregistered : σ.state.packetHandler.isSome)
    (hmoves : Moves σ a σ') : ∃ new', Announced σ₀ σ' new' := by
  induction hmoves with
  | intro th rest d hthread hstack hmove =>
    have hcount : announcements (new ++ d.events) = announcements new + announcements d.events :=
      List.countP_append
    have hmoved := hmove.announced hregistered
    have hemits := total_apply (Frame.emits .usbInfo) hthread hstack
    have hcreating := total_apply Frame.creating hthread hstack
    have hannounced := h.announced
    refine ⟨new ++ d.events,?_,?_,?_⟩
    · show σ.log ++ d.events = _
      rw [h.log,List.append_assoc]
    · show d.links.length + _ ≤ _
      rw [hcount]
      omega
    · refine EachAfter.append ?_ h.first ?_
      · intro before more e hbefore l hl
        have hless := hbefore l hl
        rw [announcements,List.countP_append]
        exact Nat.lt_of_lt_of_le hless (Nat.add_le_add_left (Nat.le_add_right _ _) _)
      · intro e he l hl
        have hle := hreach.announcing_le
        have hlinked := hreach.link_of_event hthread hstack hmove he hl
        omega

/-- While a handler is registered, a worker of a new transport calls it only after the handler has
returned from at least as many USB info events as transports have been created up to this one. -/
theorem announced_first {σ₀ σ : System} (h₀ : Reachable σ₀) (hhandler : HandlerKept σ₀)
    (hnone : Pool.total Frame.creating σ₀.threads = 0) (hrun : machine.Steps KeepsHandler σ₀ σ) :
    ∃ new, σ.log = σ₀.log ++ new ∧ EachAfter (fun before e => ∀ l, e.link = some l →
      l < σ₀.links.length + announcements before) new := by
  have hall : (Reachable σ ∧ HandlerKept σ) ∧ ∃ new, Announced σ₀ σ new := by
    apply hrun.invariant
    · refine ⟨⟨h₀,hhandler⟩,[],(List.append_nil _).symm,?_,eachAfter_nil _⟩
      rw [hnone]
      omega
    · rintro σ a σ' ⟨⟨hreach,hkept⟩,new,hnew⟩ hkeeps hstep
      have hmoves := step_moves hstep
      exact ⟨⟨hreach.step hstep,handlerKept_moves hkept hkeeps hmoves⟩,
        hnew.step hreach hkept.registered hmoves⟩
  obtain ⟨-,new,hnew⟩ := hall
  exact ⟨new,hnew.log,hnew.first⟩

/-- The ACL reader of the first transport has called the handler. -/
theorem announced_first_acl : ∃ σ, machine.run (System.initial 1 (some 7)) arrivalRun = some σ ∧
    Event.entered 2 (.reader .acl 0) 7 hciAclDataPacket [2,0] 2 ∈ σ.log ∧
    EachAfter (fun before e => ∀ l, e.link = some l → l < announcements before) σ.log := by
  have hrun : ((machine.run (System.initial 1 (some 7)) arrivalRun).map fun σ =>
      decide (Event.entered 2 (.reader .acl 0) 7 hciAclDataPacket [2,0] 2 ∈ σ.log)) =
      some true := rfl
  obtain ⟨σ,hσ,hentered⟩ := Option.map_eq_some_iff.mp hrun
  have hkeeps : ∀ a ∈ arrivalRun, a.choice.clearsHandler = false := by decide
  have hinitial : Reachable (System.initial 1 (some 7)) := ⟨_,⟨1,some 7,rfl⟩,.refl _⟩
  obtain ⟨new,hlog,hfirst⟩ := announced_first hinitial ⟨rfl,rfl⟩ rfl
    ((Machine.steps_of_run hσ).mono fun _ a ha => hkeeps a ha)
  refine ⟨σ,hσ,of_decide_eq_true hentered,?_⟩
  intro before e after heq l hl
  have hless := hfirst before e after (hlog.symm.trans heq) l hl
  exact Nat.lt_of_lt_of_le hless (Nat.le_of_eq (Nat.zero_add _))

end BtstackRs.Transport
