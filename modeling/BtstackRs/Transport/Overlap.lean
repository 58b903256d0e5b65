import BtstackRs.Transport.Lifecycle

/-!
# Overlapping deliveries

`emit_packet` calls the handler without the mutex, so deliveries of different workers overlap.
Those of one worker do not, and in turn with the opens and closes there are only the workers of
one link, or the `transport_open` that has not created its link yet.
-/

namespace BtstackRs.Transport

open Concurrent

def Frame.running : Frame → Option EmitSite
  | .emitRunning site _ _ => some site
  | _ => none

/-- The invocations of the handler that are in progress on a thread, by call site. -/
def System.deliveries (σ : System) (t : Nat) : List EmitSite :=
  (σ.threads[t]?).elim [] (fun th => th.stack.filterMap Frame.running)

def System.InHandler (σ : System) (t : Nat) (site : EmitSite) : Prop := site ∈ σ.deliveries t

theorem System.InHandler.exists_frame {σ : System} {t : Nat} {site : EmitSite}
    (h : σ.InHandler t site) : ∃ th packetType packet, σ.threads[t]? = some th ∧
      .emitRunning site packetType packet ∈ th.stack := by
  unfold InHandler deliveries at h
  cases hthread : σ.threads[t]? with
  | none => simp [hthread] at h
  | some th =>
    rw [hthread,Option.elim_some] at h
    obtain ⟨f,hf,hrunning⟩ := List.mem_filterMap.mp h
    cases f with
    | emitRunning site' packetType packet =>
      cases hrunning
      exact ⟨th,packetType,packet,rfl,hf⟩
    | _ => cases hrunning

theorem Reachable.inHandler_role {σ : System} (h : Reachable σ) {t : Nat} {site : EmitSite}
    (hin : σ.InHandler t site) (hworker : site ≠ .usbInfo) :
    ∃ role, σ.threads.HasRole t role ∧ role.site = some site := by
  obtain ⟨th,packetType,packet,hthread,hf⟩ := hin.exists_frame
  exact ⟨th.role,⟨th,hthread,rfl⟩,h.role_of_site hthread hf rfl hworker⟩

theorem Reachable.total_emits_le_one {σ : System} (h : Reachable σ) {site : EmitSite}
    (hworker : site ≠ .usbInfo) : Pool.total (Frame.emits site) σ.threads ≤ 1 := by
  rw [h.total_emits hworker]
  unfold emitting
  split
  · exact Nat.zero_le 1
  · rename_i l _
    cases hlink : σ.links[l]? with
    | none =>
      simp [linkValue,hlink]
    | some link =>
      rw [linkValue_of_getElem? hlink]
      exact link.emitting_le_one site

theorem Reachable.inHandler_unique {σ : System} (h : Reachable σ) {t u : Nat} {site : EmitSite}
    (ht : σ.InHandler t site) (hu : σ.InHandler u site) (hworker : site ≠ .usbInfo) : t = u := by
  obtain ⟨th,packetType,packet,hthread,hf⟩ := ht.exists_frame
  obtain ⟨thu,packetType',packet',hthu,hg⟩ := hu.exists_frame
  have hweight : ∀ packetType packet,
      0 < (Frame.emitRunning site packetType packet).emits site := by simp
  exact (Pool.eq_of_total_le_one (h.total_emits_le_one hworker) hthread hthu hf hg (hweight _ _)
    (hweight _ _)).1

theorem Frame.detached_of_workers {f : Frame} {w : Nat} (hw : w ∈ f.workers) : 0 < f.detached := by
  cases f with
  | lock s | locked s =>
    cases s with
    | openStore active => exact Nat.one_pos
    | _ => cases hw
  | openSpawn | closeStop | closeJoinReaders | closeJoinWriter => exact Nat.one_pos
  | _ => cases hw

def WorkersOf (threads : Pool Role Frame) (l w : Nat) : Prop :=
  ∃ role site, threads.HasRole w role ∧ role.site = some site ∧ site.link = some l

theorem WorkersOf.unique {threads : Pool Role Frame} {l l' w : Nat}
    (h : WorkersOf threads l w) (h' : WorkersOf threads l' w) : l = l' := by
  obtain ⟨role,site,hrole,hsite,hlink⟩ := h
  obtain ⟨role',site',hrole',hsite',hlink'⟩ := h'
  obtain rfl := hrole.unique hrole'
  rw [hsite] at hsite'
  cases hsite'
  rw [hlink] at hlink'
  exact Option.some.inj hlink'

theorem ActiveTransport.Recorded.workersOf {threads : Pool Role Frame} {active : ActiveTransport}
    (h : active.Recorded threads) {w : Nat} (hw : w ∈ active.workers) :
    WorkersOf threads active.link w := by
  obtain ⟨⟨eventThread,aclThread,hthreads,hevent,hacl⟩,hwriter⟩ := h
  simp only [workers,hthreads,List.cons_append,List.nil_append,List.mem_cons,List.not_mem_nil,
    or_false] at hw
  obtain rfl | rfl | rfl := hw
  · exact ⟨_,_,hevent,rfl,rfl⟩
  · exact ⟨_,_,hacl,rfl,rfl⟩
  · exact ⟨_,_,hwriter,rfl,rfl⟩

private theorem Frame.Recorded.workersOf {threads : Pool Role Frame} {f : Frame}
    (h : f.Recorded threads) : ∃ l, ∀ w ∈ f.workers, WorkersOf threads l w := by
  cases f with
  | lock s | locked s =>
    cases s with
    | openStore active => exact ⟨active.link,fun w hw => ActiveTransport.Recorded.workersOf h hw⟩
    | _ => exact ⟨0,fun w hw => by cases hw⟩
  | openSpawn l pc =>
    refine ⟨l,fun w hw => ?_⟩
    cases pc with
    | event => cases hw
    | acl eventThread =>
      cases List.mem_singleton.mp hw
      exact ⟨_,_,h,rfl,rfl⟩
    | writer eventThread aclThread =>
      simp only [workers,SpawnPc.workers,List.mem_cons,List.not_mem_nil,or_false] at hw
      obtain rfl | rfl := hw
      · exact ⟨_,_,h.1,rfl,rfl⟩
      · exact ⟨_,_,h.2,rfl,rfl⟩
  | closeStop active => exact ⟨active.link,fun w hw => ActiveTransport.Recorded.workersOf h hw⟩
  | closeJoinReaders active remaining =>
    refine ⟨active.link,fun w hw => ActiveTransport.Recorded.workersOf h.1 ?_⟩
    rcases List.mem_append.mp hw with hw | hw
    · exact List.mem_append_left _ (h.2 w hw)
    · exact List.mem_append_right _ hw
  | closeJoinWriter active =>
    exact ⟨active.link,fun w hw =>
      ActiveTransport.Recorded.workersOf h (List.mem_append_right _ hw)⟩
  | _ => exact ⟨0,fun w hw => by cases hw⟩

theorem ReachableInTurn.lists_workersOf {σ : System} (h : ReachableInTurn σ) {v w : Nat}
    (hv : σ.Lists v) (hw : σ.Lists w) :
    ∃ l, WorkersOf σ.threads l v ∧ WorkersOf σ.threads l w := by
  have hrecorded := h.reachable.wellRecorded
  have hone : Pool.total Frame.detached σ.threads ≤ 1 :=
    Nat.le_trans (Pool.total_mono Frame.detached_le_lifecycle _) h.lifecycleCalls_le_one
  -- A frame that lists workers leaves no record in `STATE`.
  have hseparate : ∀ {x y : Nat}, x ∈ σ.state.workers → ∀ (t : Nat) th f,
      σ.threads[t]? = some th → f ∈ th.stack → y ∈ f.workers → False := by
    intro x y hx t th f hth hf hy
    have hpos := Frame.detached_of_workers hy
    have hle := Pool.le_total Frame.detached hth hf
    have hclosed := h.active_of_detached (Nat.lt_of_lt_of_le hpos hle)
    simp [TransportState.workers,hclosed] at hx
  obtain hv | ⟨t,th,f,hth,hf,hv⟩ := hv
  · obtain hw | ⟨u,thu,g,hthu,hg,hw⟩ := hw
    · unfold TransportState.workers at hv hw
      cases hactive : σ.state.active with
      | none => simp [hactive] at hv
      | some active =>
        rw [hactive,Option.elim_some] at hv hw
        have hrec := hrecorded.active active hactive
        exact ⟨active.link,hrec.workersOf hv,hrec.workersOf hw⟩
    · exact (hseparate hv u thu g hthu hg hw).elim
  · obtain hw | ⟨u,thu,g,hthu,hg,hw⟩ := hw
    · exact (hseparate hw t th f hth hf hv).elim
    · obtain ⟨_,rfl⟩ := Pool.eq_of_total_le_one hone hth hthu hf hg
        (Frame.detached_of_workers hv) (Frame.detached_of_workers hw)
      obtain ⟨l,hl⟩ := (hrecorded.frames t th f hth hf).workersOf
      exact ⟨l,hl v hv,hl w hw⟩

private theorem ReachableInTurn.lists_of_inHandler {σ : System} (h : ReachableInTurn σ) {t : Nat}
    {site : EmitSite} (hin : σ.InHandler t site) (hworker : site ≠ .usbInfo) : σ.Lists t := by
  obtain ⟨role,hrole,hsite⟩ := h.reachable.inHandler_role hin hworker
  obtain ⟨th,packetType,packet,hthread,hf⟩ := hin.exists_frame
  have hclient : role ≠ .client := by
    rintro rfl
    cases hsite
  rcases h.finished_or_lists ⟨role,hrole,hclient⟩ with hfinished | hlists
  · rw [h.reachable.finished_stack hthread hfinished] at hf
    cases hf
  · exact hlists

private theorem ReachableInTurn.usbInfo_alone {σ : System} (h : ReachableInTurn σ) {t u : Nat}
    {site : EmitSite} (ht : σ.InHandler t .usbInfo) (hu : σ.InHandler u site) :
    u = t ∧ site = .usbInfo := by
  -- Below a delivery of the USB information is the `transport_open` that makes it.
  have hbelow : ∀ {v}, σ.InHandler v .usbInfo →
      ∃ th endpoints, σ.threads[v]? = some th ∧ .openCreate endpoints ∈ th.stack := by
    intro v hin
    obtain ⟨th,packetType,packet,hthread,hf⟩ := hin.exists_frame
    obtain ⟨front,rest,hstack,hsits⟩ := (h.reachable.wellNested v th hthread).exists_below hf
    obtain ⟨endpoints,rest',rfl⟩ := hsits
    exact ⟨th,endpoints,hthread,by simp [hstack]⟩
  obtain ⟨th,endpoints,hthread,hcreate⟩ := hbelow ht
  have hone := h.lifecycleCalls_le_one
  by_cases hsite : site = .usbInfo
  · subst hsite
    obtain ⟨thu,endpoints',hthu,hcreate'⟩ := hbelow hu
    exact ⟨(Pool.eq_of_total_le_one hone hthu hthread hcreate' hcreate Nat.one_pos Nat.one_pos).1,
      rfl⟩
  · exfalso
    obtain hstate | ⟨v,thv,g,hthv,hg,hw⟩ := h.lists_of_inHandler hu hsite
    · have hle := Pool.le_total Frame.detached hthread hcreate
      have hclosed := h.active_of_detached (Nat.lt_of_lt_of_le Nat.one_pos hle)
      simp [TransportState.workers,hclosed] at hstate
    · have hdetached := Frame.detached_of_workers hw
      have hpos := Nat.lt_of_lt_of_le hdetached g.detached_le_lifecycle
      obtain ⟨_,rfl⟩ := Pool.eq_of_total_le_one hone hthv hthread hg hcreate hpos Nat.one_pos
      cases hw

/-- Each worker has at most one delivery in progress, on its own thread. When the transport is
opened and closed in turn, all deliveries in progress are from workers of one link, or there is
only that of the USB information. -/
theorem deliveries_exclusive {σ : System} (h : Reachable σ) :
    (∀ t site, σ.InHandler t site → site ≠ .usbInfo →
      (∃ role, σ.threads.HasRole t role ∧ role.site = some site) ∧
        Pool.total (Frame.emits site) σ.threads ≤ 1 ∧ ∀ u, σ.InHandler u site → u = t) ∧
      (ReachableInTurn σ → ∀ t u site site', σ.InHandler t site → σ.InHandler u site' →
        (site = .usbInfo → u = t ∧ site' = .usbInfo) ∧
          ∀ l l', site.link = some l → site'.link = some l' → l = l') := by
  constructor
  · intro t site hin hworker
    exact ⟨h.inHandler_role hin hworker,h.total_emits_le_one hworker,
      fun u hu => h.inHandler_unique hu hin hworker⟩
  · intro hturn t u site site' ht hu
    refine ⟨?_,?_⟩
    · rintro rfl
      exact hturn.usbInfo_alone ht hu
    · intro l l' hl hl'
      have hsite : ∀ {site : EmitSite} {l : Nat}, site.link = some l → site ≠ .usbInfo := by
        rintro site l hl rfl
        cases hl
      have hworkers : ∀ {v site l}, σ.InHandler v site → site.link = some l →
          WorkersOf σ.threads l v := by
        intro v site l hin hl
        obtain ⟨role,hrole,hroleSite⟩ := h.inHandler_role hin (hsite hl)
        exact ⟨role,site,hrole,hroleSite,hl⟩
      obtain ⟨k,hk,hk'⟩ := hturn.lists_workersOf (hturn.lists_of_inHandler ht (hsite hl))
        (hturn.lists_of_inHandler hu (hsite hl'))
      rw [(hworkers ht hl).unique hk,(hworkers hu hl').unique hk']

/-- The handler is called with an event while it runs with an ACL packet. -/
theorem deliveries_overlap : ∃ σ, Reachable σ ∧ σ.InHandler 1 (.reader .event 0) ∧
    σ.InHandler 2 (.reader .acl 0) := by
  have hrun : ((machine.run (System.initial 1 (some 7))
      (openRun 0 dongle dongleInterface [.go,.go] ++
        Action.by 2 [.go,.completion ⟨.ok,[2]⟩,.go,.go,.go,.go] ++
        Action.by 1 [.go,.completion ⟨.ok,[14]⟩,.go,.go,.go,.go])).map fun σ =>
          (σ.deliveries 1,σ.deliveries 2)) =
      some ([.reader .event 0],[.reader .acl 0]) := rfl
  obtain ⟨σ,hσ,hdeliveries⟩ := Option.map_eq_some_iff.mp hrun
  rw [Prod.mk.injEq] at hdeliveries
  refine ⟨σ,.of_run hσ,?_,?_⟩
  · simp [System.InHandler,hdeliveries.1]
  · simp [System.InHandler,hdeliveries.2]

/-- An event is being delivered. -/
theorem deliveries_exclusive_event : ∃ σ : System, σ.InHandler 1 (.reader .event 0) ∧
    (∀ u, σ.InHandler u (.reader .event 0) → u = 1) ∧
    ∀ u (site : EmitSite), σ.InHandler u site → ∀ l, site.link = some l → 0 = l := by
  have hrun : ((machine.runWhere System.callsInTurn (System.initial 1 (some 7))
      (openRun 0 dongle dongleInterface [.go,.go] ++
        Action.by 1 [.go,.completion ⟨.ok,[14]⟩,.go,.go,.go,.go])).map fun σ =>
          σ.deliveries 1) = some [.reader .event 0] := rfl
  obtain ⟨σ,hσ,hdeliveries⟩ := Option.map_eq_some_iff.mp hrun
  have hturn : ReachableInTurn σ := ⟨_,⟨1,some 7,rfl⟩,Machine.steps_of_runWhere hσ⟩
  have hin : σ.InHandler 1 (.reader .event 0) := by simp [System.InHandler,hdeliveries]
  obtain ⟨hworkers,hlinks⟩ := deliveries_exclusive hturn.reachable
  refine ⟨σ,hin,(hworkers 1 _ hin (by simp)).2.2,?_⟩
  intro u site hu l hl
  exact (hlinks hturn 1 u _ site hin hu).2 0 l rfl hl

end BtstackRs.Transport
