import BtstackRs.Concurrent.LeadsTo
import BtstackRs.Transport.Calls
import BtstackRs.Transport.Crew
import BtstackRs.Transport.Handover
import BtstackRs.Transport.Mutex
import BtstackRs.Transport.Receive

/-!
# Packets arrive

What a reader has taken from its queue comes to the handler in the end. The reader's thread needs
the mutex for the lookup of the handler, so it has to be scheduled although it cannot always go
on, and nobody may keep the mutex for ever.
-/

namespace BtstackRs.Transport

open Concurrent

structure Settled (kind : ReaderKind) (l : Nat) (σ : System) : Prop where
  received : (readerAt σ.links kind l).received = none
  onTheWay : σ.onTheWay (.reader kind l) = []

inductive Due (kind : ReaderKind) (l : Nat) (σ : System) (t : Nat) : Nat → Prop where
  | completed (c : Completion) (hidle : σ.threads[t]? = some ⟨.reader kind l,[]⟩)
      (hreceived : (readerAt σ.links kind l).received = some c) : Due kind l σ t 4
  | lock (packetType : UInt8) (packet : Bytes)
      (hin : σ.In t (.lock (.emitLookup (.reader kind l) packetType packet)) []) : Due kind l σ t 3
  | locked (packetType : UInt8) (packet : Bytes)
      (hin : σ.In t (.locked (.emitLookup (.reader kind l) packetType packet)) []) :
      Due kind l σ t 2
  | call (packetType : UInt8) (packet : Bytes) (handler : Handler)
      (hin : σ.In t (.emitCall (.reader kind l) packetType packet handler) []) : Due kind l σ t 1

theorem Frame.site_of_onTheWay {f : Frame} {site : EmitSite} (h : f.onTheWay site ≠ none) :
    f.site = some site ∧ ¬f.Waits := by
  cases f with
  | lock s | locked s =>
    cases s with
    | emitLookup site' packetType packet =>
      refine ⟨congrArg some (by_contra fun hne => h ?_),id⟩
      simp [onTheWay,Section.onTheWay,hne]
    | _ => exact absurd rfl h
  | emitCall site' packetType packet handler =>
    refine ⟨congrArg some (by_contra fun hne => h ?_),id⟩
    simp [onTheWay,hne]
  | _ => exact absurd rfl h

theorem Reachable.stack_of_onTheWay {σ : System} (h : Reachable σ) {t : Nat}
    {th : Thread Role Frame} (hthread : σ.threads[t]? = some th) {f : Frame} (hf : f ∈ th.stack)
    {kind : ReaderKind} {l : Nat} (hway : f.onTheWay (.reader kind l) ≠ none) :
    th.role = .reader kind l ∧ th.stack = [f] := by
  obtain ⟨hsite,hwaits⟩ := Frame.site_of_onTheWay hway
  have hrole : th.role = .reader kind l := by
    have hworker := h.role_of_site hthread hf hsite (by simp)
    cases hth : th.role <;> rw [hth] at hworker <;> cases hworker
    rfl
  obtain ⟨front,rest,hstack,hsits⟩ := (h.wellNested t th hthread).exists_below hf
  have hbottom : rest = [] := by
    simp only [Frame.Sits,hsite] at hsits
    exact hsits.1
  subst hbottom
  refine ⟨hrole,?_⟩
  rcases List.eq_nil_or_concat front with rfl | ⟨above,g,rfl⟩
  · exact hstack
  · -- Whatever had called this frame's successor would be waiting.
    have hwaited := h.waited t th hthread
    rw [hstack,List.concat_eq_append,List.append_assoc] at hwaited
    exact absurd (hwaited.of_append.1 f rfl) hwaits

theorem due_of_onTheWay {kind : ReaderKind} {l : Nat} {σ : System} {t : Nat} {f : Frame}
    (hin : σ.In t f []) (hway : f.onTheWay (.reader kind l) ≠ none) : ∃ n, Due kind l σ t n := by
  have hsite := (Frame.site_of_onTheWay hway).1
  cases f with
  | lock s =>
    cases s with
    | emitLookup site packetType packet =>
      obtain rfl : site = .reader kind l := Option.some_inj.mp hsite
      exact ⟨3,.lock packetType packet hin⟩
    | _ => exact absurd rfl hway
  | locked s =>
    cases s with
    | emitLookup site packetType packet =>
      obtain rfl : site = .reader kind l := Option.some_inj.mp hsite
      exact ⟨2,.locked packetType packet hin⟩
    | _ => exact absurd rfl hway
  | emitCall site packetType packet handler =>
    obtain rfl : site = .reader kind l := Option.some_inj.mp hsite
    exact ⟨1,.call packetType packet handler hin⟩
  | _ => exact absurd rfl hway

theorem Due.hasRole {kind : ReaderKind} {l : Nat} {σ : System} {t n : Nat} (h : Due kind l σ t n)
    (hreach : Reachable σ) : σ.threads.HasRole t (.reader kind l) := by
  have hframe : ∀ f : Frame, f.onTheWay (.reader kind l) ≠ none → σ.In t f [] →
      σ.threads.HasRole t (.reader kind l) := by
    rintro f hway ⟨th,hthread,hstack⟩
    exact ⟨th,hthread,(hreach.stack_of_onTheWay hthread (by simp [hstack]) hway).1⟩
  cases h with
  | completed c hidle hreceived => exact ⟨_,hidle,rfl⟩
  | lock packetType packet hin => exact hframe _ (by simp [Frame.onTheWay,Section.onTheWay]) hin
  | locked packetType packet hin => exact hframe _ (by simp [Frame.onTheWay,Section.onTheWay]) hin
  | call packetType packet handler hin => exact hframe _ (by simp [Frame.onTheWay]) hin

/-- A reader that runs is settled, or its thread has something to do. -/
theorem Reachable.settled_or_due {σ : System} (h : Reachable σ) {kind : ReaderKind} {l t : Nat}
    (hrole : σ.threads.HasRole t (.reader kind l)) : Settled kind l σ ∨ ∃ n, Due kind l σ t n := by
  obtain ⟨th,hthread,hth⟩ := hrole
  cases hreceived : (readerAt σ.links kind l).received with
  | some c =>
    have hquiet : emitting σ.links (.reader kind l) = 0 := by
      rw [emitting_reader]
      unfold Reader.received at hreceived
      split at hreceived
      · rename_i hpc
        rw [hpc]
        rfl
      · cases hreceived
    have hidle : th.stack = [] := by
      rcases h.outermost hthread (by simp [hth]) with hempty | ⟨f,hf,hsite⟩
      · exact hempty
      · have hle := Pool.le_total (Frame.emits (.reader kind l)) hthread hf
        rw [h.total_emits (by simp),hquiet,Frame.emits,if_pos (by rw [hsite,hth]; rfl)] at hle
        omega
    refine .inr ⟨4,.completed c ?_ hreceived⟩
    rw [hthread,← hth,← hidle]
  | none =>
    by_cases hway : σ.onTheWay (.reader kind l) = []
    · exact .inl ⟨hreceived,hway⟩
    · right
      obtain ⟨u,th',hthread',f,hf,hpacket⟩ := Pool.exists_of_gather_ne_nil hway
      obtain ⟨hrole',hstack⟩ := h.stack_of_onTheWay hthread' hf hpacket
      obtain rfl : t = u := h.role_unique rfl ⟨th,hthread,hth⟩ ⟨th',hthread',hrole'⟩
      exact due_of_onTheWay ⟨th',hthread',hstack⟩ hpacket

theorem Reader.pc_of_received {r : Reader} {c : Completion} (h : r.received = some c) :
    r.pc = .completed c := by
  unfold received at h
  split at h <;> cases h
  assumption

theorem Reader.resume_of_received {r : Reader} {c : Completion} (h : r.received = some c) :
    r.resume = r := by
  rw [resume,pc_of_received h]

theorem readerStep_received {kind : ReaderKind} {stop : Bool} {poll : Option Completion}
    {r r' : Reader} {c : Completion} (hreceived : r.received = some c)
    (h : readerStep kind stop poll r = some r') : r'.received = none := by
  have hpc := Reader.pc_of_received hreceived
  unfold readerStep at h
  rw [hpc] at h
  dsimp only at h
  split at h <;> cases h <;> rfl

theorem exists_readerStep {kind : ReaderKind} {stop : Bool} {poll : Option Completion}
    {r : Reader} {c : Completion} (hreceived : r.received = some c) :
    ∃ r', readerStep kind stop poll r = some r' := by
  unfold readerStep
  rw [Reader.pc_of_received hreceived]
  dsimp only
  split <;> exact ⟨_,rfl⟩

theorem Due.other {kind : ReaderKind} {l : Nat} {σ σ' : System} {t n : Nat} {a : Action}
    (h : Due kind l σ t n) (hreach : Reachable σ) (hregistered : σ.state.packetHandler.isSome)
    (hne : a.thread ≠ t) (hstep : machine.step σ a = some σ') : Due kind l σ' t n := by
  obtain ⟨th,rest,d,hthread,hstack,hmove⟩ := step_moves hstep
  cases h with
  | completed c hidle hreceived =>
    refine .completed c (getElem?_apply_ne rest d (Ne.symm hne) hidle) ?_
    show (readerAt d.links kind l).received = some c
    obtain ⟨begun,hturn,-⟩ := hmove.readerTurn hregistered kind l
    cases hturn with
    | own link r hrole =>
      exact absurd (hreach.role_unique rfl ⟨th,hthread,hrole⟩ ⟨_,hidle,rfl⟩) hne
    | resume hbusy hreader => rw [hreader,Reader.resume_of_received hreceived,hreceived]
    | other hbusy hreader => rw [hreader,hreceived]
  | lock packetType packet hin => exact .lock packetType packet (hin.of_other rest d hne)
  | locked packetType packet hin => exact .locked packetType packet (hin.of_other rest d hne)
  | call packetType packet handler hin =>
    exact .call packetType packet handler (hin.of_other rest d hne)

theorem Due.lt_of_received {kind : ReaderKind} {l : Nat} {σ : System} {t n : Nat}
    (h : Due kind l σ t n) (hreceived : (readerAt σ.links kind l).received = none) : n < 4 := by
  cases h with
  | completed c hidle hc =>
    rw [hreceived] at hc
    cases hc
  | _ => decide

theorem Due.not_running {kind : ReaderKind} {l : Nat} {σ : System} {t n : Nat}
    (h : Due kind l σ t n) {site : EmitSite} {packetType : UInt8} {packet : Bytes} :
    ¬σ.In t (.emitRunning site packetType packet) [] := by
  rintro ⟨th,hthread,hstack⟩
  cases h with
  | completed c hidle hc =>
    rw [hthread,Option.some_inj] at hidle
    rw [hidle] at hstack
    cases hstack
  | lock _ _ hin | locked _ _ hin | call _ _ _ hin =>
    obtain ⟨th',hthread',hstack'⟩ := hin
    rw [hthread,Option.some_inj] at hthread'
    rw [← hthread',hstack] at hstack'
    cases hstack'

theorem Due.own {kind : ReaderKind} {l : Nat} {σ σ' : System} {t n : Nat} {c : Choice}
    (h : Due kind l σ t n) (hreach : Reachable σ)
    (hregistered : σ.state.packetHandler.isSome) (hstep : machine.step σ ⟨t,c⟩ = some σ') :
    Settled kind l σ' ∨ ∃ m, m < n ∧ Due kind l σ' t m := by
  have hnext : Settled kind l σ' ∨ ∃ m, Due kind l σ' t m := by
    exact (hreach.step hstep).settled_or_due (hasRole_step hstep (h.hasRole hreach))
  cases h with
  | completed completion hidle hreceived =>
    obtain ⟨th,rest,d,hthread,hstack,hmove⟩ := step_moves hstep
    obtain rfl := Option.some_inj.mp (hidle.symm.trans hthread)
    have hempty : d.top ++ rest = [] := hstack.symm
    have hdone : (readerAt d.links kind l).received = none := by
      obtain ⟨begun,hturn,-⟩ := hmove.readerTurn hregistered kind l
      cases hturn with
      | resume hbusy => exact absurd hempty (hbusy rfl)
      | other hbusy => exact absurd hempty (hbusy rfl)
      | own link r hreader hidle hlink hstep' hlinks =>
        rw [readerAt_of_getElem? hlink] at hreceived
        rw [hlinks,readerAt_of_getElem?
          (List.getElem?_set_self (List.getElem?_eq_some_iff.mp hlink).1),Link.reader_setReader]
        exact readerStep_received hreceived hstep'
    rcases hnext with hsettled | ⟨m,hdue⟩
    · exact .inl hsettled
    · exact .inr ⟨m,hdue.lt_of_received hdone,hdue⟩
  | lock packetType packet hin =>
    obtain ⟨th,d,-,-,hmove,htop,rfl,hlater⟩ := hin.move (step_moves hstep) (by simp)
    cases hmove with
    | lock s hfree =>
      cases htop
      exact .inr ⟨2,by decide,.locked packetType packet (hlater _ rfl)⟩
    | _ => cases htop
  | locked packetType packet hin =>
    obtain ⟨th,d,-,-,hmove,htop,rfl,hlater⟩ := hin.move (step_moves hstep) (by simp)
    cases hmove with
    | sectionGoto s state g hsection =>
      cases htop
      cases hsection with
      | emitLookup _ _ _ handler hhandler =>
        exact .inr ⟨1,by decide,.call packetType packet handler (hlater _ rfl)⟩
    | sectionRet s state result hsection =>
      cases htop
      cases hsection with
      | emitLookup _ _ _ hnone =>
        rw [hnone] at hregistered
        cases hregistered
    | _ => cases htop
  | call packetType packet handler hin =>
    obtain ⟨th,d,-,-,hmove,htop,heq,hlater⟩ := hin.move (step_moves hstep) (by simp)
    cases hmove with
    | enter site _ _ _ =>
      cases htop
      rcases hnext with hsettled | ⟨m,hdue⟩
      · exact .inl hsettled
      · exact absurd (hlater _ rfl) hdue.not_running
    | _ => cases htop

theorem Due.enabled {kind : ReaderKind} {l : Nat} {σ : System} {t n : Nat} (h : Due kind l σ t n)
    (hfree : σ.mutex = none) : ∃ σ', machine.step σ ⟨t,.go⟩ = some σ' := by
  cases h with
  | completed c hidle hreceived =>
    cases hlink : σ.links[l]? with
    | none =>
      rw [readerAt,hlink] at hreceived
      cases hreceived
    | some link =>
      rw [readerAt_of_getElem? hlink] at hreceived
      obtain ⟨r,hr⟩ : ∃ r, readerStep kind link.stop Choice.go.readerPoll (link.reader kind) =
          some r := exists_readerStep hreceived
      simp only [machine,System.step,hidle,System.idleStep,hlink,hr]
      cases r.delivery <;> exact ⟨_,rfl⟩
  | lock packetType packet hin =>
    obtain ⟨σ',hstep,-⟩ := lock_step hin hfree
    exact ⟨σ',hstep⟩
  | locked packetType packet hin =>
    obtain ⟨σ',hstep,-⟩ := locked_step hin
    exact ⟨σ',hstep⟩
  | call packetType packet handler hin =>
    obtain ⟨th,hthread,hstack⟩ := hin
    simp [machine,System.step,hthread,hstack,System.frameStep]

/-- Infinite runs in which the handler stays registered and the threads that matter to a reader do
their part. -/
structure Attended (kind : ReaderKind) (l : Nat) (s : Nat → System) : Prop where
  endless : machine.Endless KeepsHandler s
  -- A thread that holds the mutex is scheduled.
  holders : ∀ n u, (s n).mutex = some u →
    ∃ m c, n ≤ m ∧ machine.step (s m) ⟨u,c⟩ = some (s (m+1))
  -- The reader's thread does not wait for ever for steps that it could take again and again.
  scheduled : ∀ n t, (s n).threads.HasRole t (.reader kind l) →
    (∀ m, n ≤ m → ∃ k c σ', m ≤ k ∧ machine.step (s k) ⟨t,c⟩ = some σ') →
    ∃ m c, n ≤ m ∧ machine.step (s m) ⟨t,c⟩ = some (s (m+1))

theorem locked_releases {σ σ' : System} {t : Nat} {c : Choice} {s : Section} {base : List Frame}
    (hin : σ.In t (.locked s) base) (hstep : machine.step σ ⟨t,c⟩ = some σ') :
    σ'.mutex = none := by
  obtain ⟨th,d,-,-,hmove,htop,rfl,-⟩ := hin.move (step_moves hstep) (by simp)
  cases hmove with
  | sectionGoto | sectionRet => rfl
  | _ => cases htop

theorem Reachable.holder_steps {σ σ' : System} (h : Reachable σ) {a : Action} {u : Nat}
    (hstep : machine.step σ a = some σ') (hheld : σ.mutex = some u) :
    σ'.mutex = some u ∨ a.thread = u ∧ σ'.mutex = none := by
  obtain ⟨th,rest,d,hthread,hstack,hmove⟩ := step_moves hstep
  cases hmove.mutexMove with
  | taken s s' hfree =>
    rw [hfree] at hheld
    cases hheld
  | released s htop htop' hmutex =>
    have hlocked : Frame.locked s ∈ th.stack := by simp [hstack,htop]
    have howner := h.mutexOwned.eq_of_locked hthread hlocked
    exact .inr ⟨Option.some_inj.mp (howner.symm.trans hheld),hmutex⟩
  | kept htop htop' hmutex => exact .inl (hmutex.trans hheld)

namespace Attended

variable {kind : ReaderKind} {l : Nat} {s : Nat → System}

/-- The mutex is free again and again. -/
theorem free_again (h : Attended kind l s) (hreach : ∀ n, Reachable (s n)) (n : Nat) :
    ∃ m, n ≤ m ∧ (s m).mutex = none := by
  cases hmutex : (s n).mutex with
  | none => exact ⟨n,Nat.le_refl n,hmutex⟩
  | some u =>
    by_contra hnever
    have hheld : ∀ m, n ≤ m → (s m).mutex = some u := by
      intro m hm
      induction hm with
      | refl => exact hmutex
      | @step m hm ih =>
        rcases h.endless m with hsame | ⟨a,-,hstep⟩
        · rwa [hsame]
        · rcases (hreach m).holder_steps hstep ih with hkept | ⟨-,hfree⟩
          · exact hkept
          · exact absurd ⟨m+1,Nat.le_succ_of_le hm,hfree⟩ hnever
    obtain ⟨m,c,hm,hstep⟩ := h.holders n u hmutex
    obtain ⟨th,section',base,hthread,hstack⟩ := (hreach m).mutexOwned.owner u (hheld m hm)
    exact hnever ⟨m+1,Nat.le_succ_of_le hm,locked_releases ⟨th,hthread,hstack⟩ hstep⟩

theorem settles (h : Attended kind l s) (hreach : ∀ n, Reachable (s n))
    (hkept : ∀ n, HandlerKept (s n)) {t k n : Nat} (hdue : Due kind l (s k) t n) :
    ∃ m, k ≤ m ∧ Settled kind l (s m) := by
  induction n using Nat.strongRecOn generalizing k with
  | ind n ih =>
    have hstays : ∀ m, Due kind l (s m) t n →
        (¬∃ c, machine.step (s m) ⟨t,c⟩ = some (s (m+1))) → Due kind l (s (m+1)) t n := by
      intro m hdue hnot
      rcases h.endless m with hsame | ⟨a,-,hstep⟩
      · rwa [hsame]
      · apply hdue.other (hreach m) (hkept m).registered _ hstep
        rintro rfl
        exact hnot ⟨a.choice,hstep⟩
    have hfair : ∀ j, (∀ m, j ≤ m → Due kind l (s m) t n) →
        ∃ m, j ≤ m ∧ ∃ c, machine.step (s m) ⟨t,c⟩ = some (s (m+1)) := by
      intro j hlasts
      have hrole := (hlasts j (Nat.le_refl j)).hasRole (hreach j)
      obtain ⟨m,c,hm,hstep⟩ := h.scheduled j t hrole (by
        intro m hm
        obtain ⟨i,hi,hfree⟩ := h.free_again hreach m
        obtain ⟨σ',hstep⟩ := (hlasts i (Nat.le_trans hm hi)).enabled hfree
        exact ⟨i,.go,σ',hi,hstep⟩)
      exact ⟨m,hm,c,hstep⟩
    obtain ⟨m,hm,hdue,c,hstep⟩ := LeadsTo.of_fair hstays hfair k hdue
    rcases hdue.own (hreach m) (hkept m).registered hstep with hsettled | ⟨i,hi,hnext⟩
    · exact ⟨m+1,Nat.le_succ_of_le hm,hsettled⟩
    · obtain ⟨j,hj,hsettled⟩ := ih i hi hnext
      exact ⟨j,Nat.le_trans (Nat.le_succ_of_le hm) hj,hsettled⟩

theorem taking_later (h : Attended kind l s) {n m : Nat} (hm : n ≤ m) {σ₀ : System}
    {taken : List Completion} (hrun : Taking kind l σ₀ (s n) taken) :
    ∃ more, Taking kind l σ₀ (s m) (taken ++ more) := by
  induction hm with
  | refl => exact ⟨[],by rwa [List.append_nil]⟩
  | @step m hm ih =>
    obtain ⟨more,hmore⟩ := ih
    rcases h.endless m with hsame | ⟨a,hkeeps,hstep⟩
    · exact ⟨more,by rwa [hsame]⟩
    · have hnext := hmore.step hkeeps hstep
      rw [List.append_assoc] at hnext
      exact ⟨_,hnext⟩

end Attended

theorem Taking.hasRole {kind : ReaderKind} {l : Nat} {σ₀ σ : System} {taken : List Completion}
    (h : Taking kind l σ₀ σ taken) (hne : taken ≠ []) :
    ∃ t, σ.threads.HasRole t (.reader kind l) := by
  induction h with
  | start => exact absurd rfl hne
  | @step σ σ' a taken h hkeeps hstep ih =>
    obtain ⟨th,rest,d,hthread,hstack,hmove⟩ := step_moves hstep
    by_cases hbefore : taken = []
    · have hown : th.role = .reader kind l := by
        by_contra hother
        apply hne
        simp [hbefore,System.takes,hthread,hother]
      exact ⟨a.thread,hasRole_apply rest d hthread ⟨th,hthread,hown⟩⟩
    · obtain ⟨t,ht⟩ := ih hbefore
      exact ⟨t,hasRole_step hstep ht⟩

/-- Whatever a reader has taken from its queue is handed to the handler in the end. -/
theorem arrivals_reach {kind : ReaderKind} {l : Nat} {s : Nat → System} (h : Attended kind l s)
    (h₀ : Reachable (s 0)) (hhandler : HandlerKept (s 0)) (hnew : (s 0).links.length ≤ l) {n : Nat}
    {taken : List Completion} (hrun : Taking kind l (s 0) (s n) taken) :
    ∃ m, n ≤ m ∧ deliveries kind taken <+: handedBy (.reader kind l) (s m).log := by
  have hall : ∀ m, Reachable (s m) ∧ HandlerKept (s m) := by
    intro m
    obtain ⟨more,hmore⟩ := h.taking_later (Nat.zero_le m) (.start : Taking kind l (s 0) (s 0) [])
    obtain ⟨hreach,hkept,-⟩ := hmore.receiving h₀ hhandler hnew
    exact ⟨hreach,hkept⟩
  by_cases hnone : taken = []
  · exact ⟨n,Nat.le_refl n,by simp [hnone,deliveries]⟩
  · obtain ⟨t,hrole⟩ := hrun.hasRole hnone
    have hsettles : ∃ m, n ≤ m ∧ Settled kind l (s m) := by
      rcases (hall n).1.settled_or_due hrole with hsettled | ⟨i,hdue⟩
      · exact ⟨n,Nat.le_refl n,hsettled⟩
      · exact h.settles (fun m => (hall m).1) (fun m => (hall m).2) hdue
    obtain ⟨m,hm,hsettled⟩ := hsettles
    refine ⟨m,hm,?_⟩
    obtain ⟨more,hmore⟩ := h.taking_later hm hrun
    obtain ⟨-,-,r,hr⟩ := hmore.receiving h₀ hhandler hnew
    obtain ⟨handled,hcompletions,hemitted⟩ := hr.sound.delivered
    rw [hr.completions,hr.reader,hsettled.received,Option.toList_none,List.append_nil]
      at hcompletions
    rw [hr.emitted,hsettled.onTheWay,List.append_nil,← hcompletions,deliveries_append] at hemitted
    exact ⟨_,hemitted.symm⟩

theorem attended_of_end {kind : ReaderKind} {l : Nat} {s : Nat → System} {σ : System} {N : Nat}
    (h₀ : Reachable (s 0)) (hendless : machine.Endless KeepsHandler s)
    (hend : ∀ n, N ≤ n → s n = σ) (hfree : σ.mutex = none)
    (hreturned : ∀ t, σ.threads.HasRole t (.reader kind l) → ∀ c, machine.step σ ⟨t,c⟩ = none) :
    Attended kind l s where
  endless := hendless
  holders n u hheld := by
    by_contra hnever
    have hkept : ∀ m, n ≤ m → (s m).mutex = some u := by
      intro m hm
      induction hm with
      | refl => exact hheld
      | @step m hm ih =>
        rcases hendless m with hsame | ⟨a,-,hstep⟩
        · rwa [hsame]
        · rcases (h₀.steps (hendless.steps m).any).holder_steps hstep ih with hkept | ⟨rfl,-⟩
          · exact hkept
          · exact absurd ⟨m,a.choice,hm,hstep⟩ hnever
    have hlast := hkept (max n N) (Nat.le_max_left n N)
    rw [hend _ (Nat.le_max_right n N),hfree] at hlast
    cases hlast
  scheduled n t hrole hcan := by
    obtain ⟨k,c,σ',hk,hstep⟩ := hcan (max n N) (Nat.le_max_left n N)
    have hlater : ∀ m, n ≤ m → (s m).threads.HasRole t (.reader kind l) := by
      intro m hm
      induction hm with
      | refl => exact hrole
      | @step m hm ih =>
        rcases hendless m with hsame | ⟨a,-,hstep⟩
        · rwa [hsame]
        · exact hasRole_step hstep ih
    have hrole' := hlater k (Nat.le_trans (Nat.le_max_left n N) hk)
    rw [hend k (Nat.le_trans (Nat.le_max_right n N) hk)] at hrole' hstep
    rw [hreturned t hrole' c] at hstep
    cases hstep

def settledRun : List Action :=
  Action.by 2 [.go,.go,.go] ++ Action.by 0 [.call .transportClose,.go,.go,.go] ++
    Action.by 2 [.go,.go,.go,.go,.go]

theorem arrivals_reach_acl : ∃ (s : Nat → System) (n : Nat), Attended .acl 0 s ∧
    handedBy (.reader .acl 0) (s n).log = [(hciAclDataPacket,[2,0])] ∧
    ∃ m, n ≤ m ∧ [(hciAclDataPacket,[2,0]),(hciAclDataPacket,[7])] <+:
      handedBy (.reader .acl 0) (s m).log := by
  have hrun : ((machine.run (System.initial 1 (some 7)) arrivalRun).bind fun σ =>
      (machine.run σ settledRun).bind fun σ' => σ'.links[0]?.map fun link =>
        ((readerAt σ.links .acl 0).received,handedBy (.reader .acl 0) σ.log,
          σ.onTheWay (.reader .acl 0),σ'.mutex,link.aclReader.pc,σ'.threads[2]?)) =
      some (none,[(hciAclDataPacket,[2,0])],[(hciAclDataPacket,[7])],none,.exited,
        some ⟨.reader .acl 0,[]⟩) := rfl
  obtain ⟨σ,hσ,hrun⟩ := Option.bind_eq_some_iff.mp hrun
  obtain ⟨σ',hσ',hrun⟩ := Option.bind_eq_some_iff.mp hrun
  obtain ⟨link,hlink,hvalues⟩ := Option.map_eq_some_iff.mp hrun
  simp only [Prod.mk.injEq] at hvalues
  obtain ⟨hreceived,hhanded,hway,hfree,hexited,hthread⟩ := hvalues
  have hinitial : Reachable (System.initial 1 (some 7)) := ⟨_,⟨1,some 7,rfl⟩,.refl _⟩
  have hkeeps : ∀ a ∈ arrivalRun, a.choice.clearsHandler = false := by decide
  have hkeeps' : ∀ a ∈ settledRun, a.choice.clearsHandler = false := by decide
  have hsteps : machine.Steps KeepsHandler (System.initial 1 (some 7)) σ :=
    (Machine.steps_of_run hσ).mono fun _ a ha => hkeeps a ha
  have hsteps' : machine.Steps KeepsHandler σ σ' :=
    (Machine.steps_of_run hσ').mono fun _ a ha => hkeeps' a ha
  obtain ⟨u,N,hstart,hend,hendless⟩ := Machine.endless_of_steps hsteps'
  obtain ⟨s,n,hfirst,hlater,hendless⟩ := hendless.after hsteps hstart
  have hσn : s n = σ := (hlater 0).trans hstart
  have hreturned : ∀ t, σ'.threads.HasRole t (.reader .acl 0) →
      ∀ c, machine.step σ' ⟨t,c⟩ = none := by
    intro t ht c
    have hreach := (hinitial.steps hsteps.any).steps hsteps'.any
    obtain rfl : t = 2 := hreach.role_unique rfl ht ⟨_,hthread,rfl⟩
    simp [machine,System.step,hthread,System.idleStep,hlink,Link.reader,readerStep,hexited]
  have hattended : Attended .acl 0 s := by
    apply attended_of_end (N := n+N) (hfirst ▸ hinitial) hendless _ hfree hreturned
    intro k hk
    obtain ⟨j,rfl⟩ := Nat.exists_eq_add_of_le (Nat.le_trans (Nat.le_add_right n N) hk)
    rw [hlater]
    exact hend j (by omega)
  have htaking : ∃ taken, Taking .acl 0 (System.initial 1 (some 7)) σ taken :=
    taking_of_run hσ hkeeps
  obtain ⟨taken,htaken⟩ := htaking
  have hdelivered : deliveries .acl taken =
      [(hciAclDataPacket,[2,0]),(hciAclDataPacket,[7])] := by
    obtain ⟨-,-,r,hr⟩ := htaken.receiving hinitial ⟨rfl,rfl⟩ (Nat.zero_le 0)
    obtain ⟨handled,hcompletions,hemitted⟩ := hr.sound.delivered
    rw [hr.completions,hr.reader,hreceived,Option.toList_none,List.append_nil] at hcompletions
    rw [hcompletions,← hemitted,hr.emitted,hhanded,hway]
    rfl
  rw [← hfirst,← hσn] at htaken
  refine ⟨s,n,hattended,by rw [hσn,hhanded],?_⟩
  rw [← hdelivered]
  exact arrivals_reach hattended (hfirst ▸ hinitial) (hfirst ▸ ⟨rfl,rfl⟩) (hfirst ▸ Nat.zero_le 0)
    htaken

end BtstackRs.Transport
