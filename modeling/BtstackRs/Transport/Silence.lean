import BtstackRs.Transport.Calls
import BtstackRs.Transport.Crew
import BtstackRs.Transport.Nesting
import BtstackRs.Transport.Quiescence

/-!
# After a close

A `transport_close` that has taken a record joins the threads in it, and these are all that ever
run the loops of the link. So when it returns nothing of the transport is left, whichever other
opens, closes and sends overlap with it.
-/

namespace BtstackRs.Transport

open Concurrent

def Frame.Joined (σ : System) : Frame → Prop
  | .closeJoinReaders active remaining =>
      ∀ w ∈ active.readerThreads, w ∈ remaining ∨ σ.finished w = true
  | .closeJoinWriter active => ∀ w ∈ active.readerThreads, σ.finished w = true
  | _ => True

def AllJoined (σ : System) : Prop :=
  ∀ (t : Nat) th f, σ.threads[t]? = some th → f ∈ th.stack → f.Joined σ

theorem Frame.Joined.moves {σ σ' : System} {a : Action} (hmoves : Moves σ a σ') {f : Frame}
    (h : f.Joined σ) : f.Joined σ' := by
  cases f with
  | closeJoinReaders active remaining =>
    exact fun w hw => (h w hw).imp_right (finished_moves hmoves)
  | closeJoinWriter active => exact fun w hw => finished_moves hmoves (h w hw)
  | _ => trivial

private theorem move_joined {σ : System} {t : Nat} {c : Choice} {role : Role} {rest : List Frame}
    {d : Delta} (h : Move σ t c role rest d) (htop : ∀ f ∈ d.top, f.Joined σ) :
    ∀ f ∈ d.top', f.Joined σ := by
  cases h with
  | sectionGoto s state g hsection => cases hsection <;> simp [Frame.Joined]
  | spawn l pc => cases pc <;> simp [SpawnPc.after,Frame.Joined]
  | stop active link hlink =>
    simp [Frame.Joined]
    exact fun w hw => .inl hw
  | joinedReaders active => simpa [Frame.Joined] using htop
  | joinReader active w ws hfinished =>
    intro f hf
    obtain rfl := List.mem_singleton.mp hf
    intro v hv
    rcases htop _ (List.mem_singleton_self _) v hv with hmem | hv
    · rcases List.mem_cons.mp hmem with rfl | hmem
      · exact .inr hfinished
      · exact .inl hmem
    · exact .inr hv
  | _ => simp [Frame.Joined]

theorem Reachable.allJoined {σ : System} (h : Reachable σ) : AllJoined σ := by
  apply h.invariant
  · intro clients handler t th f hth hf
    rw [(initial_thread hth).2] at hf
    cases hf
  · intro σ a σ' _ hσ hmoves u th' f hth' hf
    induction hmoves with
    | intro th rest d hthread hstack hmove =>
      have hmoves : Moves σ a (σ.apply a.thread rest d) := .intro th rest d hthread hstack hmove
      apply Frame.Joined.moves hmoves
      rcases mem_stack_apply hthread hstack hth' hf with ⟨-,-,hpushed⟩ | ⟨th₀,hth₀,-,hold⟩
      · apply move_joined hmove _ f hpushed
        exact fun g hg => hσ _ th g hthread (by rw [hstack]; exact List.mem_append_left _ hg)
      · exact hσ u th₀ f hth₀ hold

/-- Each loop of the link has been run by a thread that has returned. -/
def Over (l : Nat) (σ : System) : Prop :=
  ∀ role : Role, role.workOn = some l → ∃ u, σ.threads.HasRole u role ∧ σ.finished u = true

theorem Over.step {l : Nat} {σ σ' : System} {a : Action} (h : Over l σ)
    (hstep : machine.step σ a = some σ') : Over l σ' := by
  intro role hrole
  obtain ⟨u,hu,hfinished⟩ := h role hrole
  exact ⟨u,hasRole_step hstep hu,finished_moves (step_moves hstep) hfinished⟩

/-- A close leaves nothing behind. -/
theorem over_of_close {σ σ' : System} (hreach : Reachable σ) {t : Nat} {c : Choice}
    {active : ActiveTransport} {base : List Frame} (hin : σ.In t (.closeJoinWriter active) base)
    (hstep : machine.step σ ⟨t,c⟩ = some σ') : Over active.link σ' := by
  have hjoined : ∀ w ∈ active.readerThreads, σ.finished w = true := by
    obtain ⟨th,hthread,hstack⟩ := hin
    exact hreach.allJoined t th _ hthread (by rw [hstack]; exact List.mem_cons_self)
  have hrecorded : active.Recorded σ.threads := by
    obtain ⟨th,hthread,hstack⟩ := hin
    exact hreach.wellRecorded.frames t th _ hthread (by rw [hstack]; exact List.mem_cons_self)
  have hwriter : σ.finished active.writerThread = true := by
    obtain ⟨th,d,-,-,hmove,htop,-,-⟩ := hin.move (step_moves hstep) (by simp)
    cases hmove with
    | joinWriter active hfinished =>
      cases htop
      exact hfinished
    | _ => cases htop
  have hover : Over active.link σ := by
    obtain ⟨⟨eventThread,aclThread,hthreads,hevent,hacl⟩,hrole⟩ := hrecorded
    simp only [hthreads,List.mem_cons,List.not_mem_nil,or_false,forall_eq_or_imp,forall_eq]
      at hjoined
    intro role hwork
    cases role with
    | client => cases hwork
    | reader kind l =>
      cases hwork
      cases kind with
      | event => exact ⟨eventThread,hevent,hjoined.1⟩
      | acl => exact ⟨aclThread,hacl,hjoined.2⟩
    | writer l =>
      cases hwork
      exact ⟨active.writerThread,hrole,hwriter⟩
  exact hover.step hstep

theorem Over.finished_of_role {l : Nat} {σ : System} (h : Over l σ) (hreach : Reachable σ)
    {role : Role} (hrole : role.workOn = some l) {u : Nat} (hu : σ.threads.HasRole u role) :
    σ.finished u = true := by
  obtain ⟨w,hw,hfinished⟩ := h role hrole
  rwa [hreach.role_unique hrole hu hw]

theorem Over.not_entered {l : Nat} {σ σ' : System} {a : Action} (h : Over l σ)
    (hreach : Reachable σ) (hstep : machine.step σ a = some σ') :
    ∃ events, σ'.log = σ.log ++ events ∧ (∀ u site handler packetType packet size,
      .entered u site handler packetType packet size ∈ events → site.link ≠ some l) := by
  obtain ⟨th,rest,d,hthread,hstack,hmove⟩ := step_moves hstep
  refine ⟨d.events,rfl,?_⟩
  intro u site handler packetType packet size hentered hlink
  cases hmove with
  | enter site' _ _ _ =>
    obtain ⟨rfl,rfl⟩ : u = a.thread ∧ site = site' := by
      simp only [List.mem_singleton,Event.entered.injEq] at hentered
      exact ⟨hentered.1,hentered.2.1⟩
    have hrole : th.role.site = some site :=
      hreach.role_of_site hthread (by rw [hstack]; exact List.mem_cons_self) rfl (by
        rintro rfl
        cases hlink)
    have hwork : th.role.workOn = some l := by
      cases hth : th.role <;> rw [hth] at hrole <;> cases hrole <;> exact hlink
    have hfinished := h.finished_of_role hreach hwork ⟨th,hthread,rfl⟩
    have hblocked := hreach.finished_blocked hfinished a.choice
    rw [hstep] at hblocked
    cases hblocked
  | _ => simp at hentered

theorem LinkMove.handedTransfers_eq {alive : Bool} {link link' : Link}
    (h : LinkMove alive link link') (hexited : link.writer.pc = .exited) :
    handedTransfers link'.history = handedTransfers link.history := by
  cases h with
  | send t call handles spurious pc _ next hsend => exact sendStep_handed hsend
  | reader kind poll r hreader => simp
  | writer control poll _ hwriter => simp [writerStep,hexited] at hwriter
  | resumeReader kind => simp
  | _ => rfl

theorem Over.handed_eq {l : Nat} {σ σ' : System} {a : Action} (h : Over l σ)
    (hstep : machine.step σ a = some σ') : σ'.handed l = σ.handed l := by
  obtain ⟨w,⟨th,hthread,hrole⟩,hfinished⟩ := h (.writer l) rfl
  simp only [System.finished,hthread,hrole] at hfinished
  obtain ⟨link,hlink,hpc⟩ := (Option.any_eq_true _ _).mp hfinished
  have hmoves := step_moves hstep
  obtain ⟨th',rest,d,-,-,hmove⟩ := hmoves
  obtain ⟨link',hlink',hlinkMove,-⟩ := hmove.linkMove hlink
  have hlinkAfter : (σ.apply a.thread rest d).links[l]? = some link' := hlink'
  have hsame := hlinkMove.handedTransfers_eq (by simpa using hpc)
  unfold System.handed
  rw [linkValue_of_getElem? hlink,linkValue_of_getElem? hlinkAfter,hsame]

/-- When a close that has taken a record returns, in any interleaving, the threads of the
transport have returned for good, the handler is not called from it any more and nothing more is
handed to USB. -/
theorem silent_after_close {σ σ₁ σ' : System} (hreach : Reachable σ) {t : Nat} {c : Choice}
    {active : ActiveTransport} {base : List Frame} (hin : σ.In t (.closeJoinWriter active) base)
    (hstep : machine.step σ ⟨t,c⟩ = some σ₁) (hrun : machine.Steps Machine.anyAction σ₁ σ') :
    (∀ role u, role.workOn = some active.link → σ'.threads.HasRole u role →
      σ'.finished u = true) ∧
    (∃ events, σ'.log = σ₁.log ++ events ∧ ∀ u site handler packetType packet size,
      .entered u site handler packetType packet size ∈ events → site.link ≠ some active.link) ∧
    σ'.handed active.link = σ₁.handed active.link := by
  have hreach₁ := hreach.step hstep
  have hover := over_of_close hreach hin hstep
  have hlater : Over active.link σ' ∧ (∃ events, σ'.log = σ₁.log ++ events ∧
      ∀ u site handler packetType packet size,
        .entered u site handler packetType packet size ∈ events →
          site.link ≠ some active.link) ∧ σ'.handed active.link = σ₁.handed active.link := by
    induction hrun with
    | refl => exact ⟨hover,⟨[],by simp,by simp⟩,rfl⟩
    | tail hbefore hlast ih =>
      obtain ⟨a,-,hnext⟩ := hlast
      obtain ⟨hover',⟨events,hlog,hquiet⟩,hhanded⟩ := ih
      have hreach' := hreach₁.steps hbefore
      obtain ⟨events',hlog',hquiet'⟩ := hover'.not_entered hreach' hnext
      refine ⟨hover'.step hnext,⟨events ++ events',?_,?_⟩,?_⟩
      · rw [hlog',hlog,List.append_assoc]
      · intro u site handler packetType packet size hentered
        rcases List.mem_append.mp hentered with hmem | hmem
        · exact hquiet _ _ _ _ _ _ hmem
        · exact hquiet' _ _ _ _ _ _ hmem
      · rw [hover'.handed_eq hnext,hhanded]
  obtain ⟨hover',hquiet,hhanded⟩ := hlater
  refine ⟨?_,hquiet,hhanded⟩
  intro role u hrole hu
  exact hover'.finished_of_role (hreach₁.steps hrun) hrole hu

private theorem hasRole_of_roles {σ : System} {w : Nat} {role : Role}
    (h : (σ.threads.map (·.role))[w]? = some role) : σ.threads.HasRole w role := by
  rw [List.getElem?_map] at h
  exact Option.map_eq_some_iff.mp h

/-- The transport has been opened again before the close returns, and the new event reader calls
the handler. -/
theorem silent_after_close_reopened : ∃ (σ σ' : System) (events : List Event),
    σ'.log = σ.log ++ events ∧
    σ'.log.getLast? = some (.entered 5 (.reader .event 1) 7 hciEventPacket [14] 1) ∧
    (∀ w ∈ [2,3,4], σ'.finished w = true) ∧
    ∀ u site handler packetType packet size,
      .entered u site handler packetType packet size ∈ events → site.link ≠ some 0 := by
  have hrun : ((machine.run (System.initial 2 (some 7))
      (openRun 0 dongle dongleInterface [.go,.go] ++
        Action.by 0 [.call .transportClose,.go,.go] ++
        openRun 1 dongle dongleInterface [.go,.go] ++ Action.by 0 [.go] ++
        Action.by 2 [.go,.completion ⟨.ok,[]⟩,.go,.go,.go,.go,.go,.go] ++
        Action.by 3 [.go,.completion ⟨.err .cancelled,[]⟩,.go,.go,.go,.go,.go,.go] ++
        Action.by 4 [.go,.go,.go] ++ Action.by 0 [.go,.go,.go])).bind fun σ =>
      (machine.step σ ⟨0,.go⟩).bind fun σ₁ =>
        (machine.run σ₁ (Action.by 5 [.go,.completion ⟨.ok,[14]⟩,.go,.go,.go,.go])).map
          fun σ' => (σ.threads[0]?,σ'.log.getLast?,σ'.threads.map (·.role))) =
      some (some ⟨.client,[.closeJoinWriter ⟨0,[2,3],4,outgoingQueueDepth,rfl⟩]⟩,
        some (.entered 5 (.reader .event 1) 7 hciEventPacket [14] 1),
        [.client,.client,.reader .event 0,.reader .acl 0,.writer 0,
          .reader .event 1,.reader .acl 1,.writer 1]) := rfl
  obtain ⟨σ,hσ,hrest⟩ := Option.bind_eq_some_iff.mp hrun
  obtain ⟨σ₁,hstep,hrest⟩ := Option.bind_eq_some_iff.mp hrest
  obtain ⟨σ',hσ',hvalues⟩ := Option.map_eq_some_iff.mp hrest
  simp only [Prod.mk.injEq] at hvalues
  obtain ⟨hthread,hlast,hroles⟩ := hvalues
  have hin : σ.In 0 (.closeJoinWriter ⟨0,[2,3],4,outgoingQueueDepth,rfl⟩) [] :=
    ⟨_,hthread,rfl⟩
  obtain ⟨hfinished,⟨events,hlog,hquiet⟩,-⟩ := silent_after_close (Reachable.of_run hσ) hin hstep
    (Machine.steps_of_run hσ').any
  refine ⟨σ₁,σ',events,hlog,hlast,?_,hquiet⟩
  simp only [List.forall_mem_cons,List.not_mem_nil,false_implies,implies_true,and_true]
  refine ⟨?_,?_,?_⟩
  · exact hfinished (.reader .event 0) 2 rfl (hasRole_of_roles (by rw [hroles]; rfl))
  · exact hfinished (.reader .acl 0) 3 rfl (hasRole_of_roles (by rw [hroles]; rfl))
  · exact hfinished (.writer 0) 4 rfl (hasRole_of_roles (by rw [hroles]; rfl))

end BtstackRs.Transport
