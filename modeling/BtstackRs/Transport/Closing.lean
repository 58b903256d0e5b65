import BtstackRs.Concurrent.LeadsTo
import BtstackRs.Transport.Calls
import BtstackRs.Transport.Deadlock
import BtstackRs.Transport.Drain

/-!
# A close returns

A `transport_close` that has taken the record sets the stop flag and joins the two readers and the
writer. It returns on every run on which the workers go on, the device completes the transfers, and
the closing thread is scheduled when it can go on.
-/

namespace BtstackRs.Transport

open Concurrent

def Reader.toExit (r : Reader) : Nat :=
  match r.pc with
  | .start => 9
  | .head => if r.pending = 0 then 1 else 5+r.pending
  | .completed _ => 5+r.pending
  | .delivering _ => 4+r.pending
  | .delivered _ => 3+r.pending
  | .draining => 2+r.pending
  | .exited => 0

private theorem readerStep_toExit {kind : ReaderKind} {poll : Option Completion} {r r' : Reader}
    (h : readerStep kind true poll r = some r') : r'.toExit < r.toExit ∨ r' = r := by
  cases readerStep_cases h with
  | idle hpc hpending hpoll => exact .inr rfl
  | submit c hpc hstop => cases hstop
  | start hpc =>
    left
    cases kind <;> simp [Reader.toExit,hpc,ReaderKind.inFlight,eventInFlight,aclInFlight]
  | take hpc hpending c hpoll hsize | drain hpc hpending =>
    left
    simp only [Reader.toExit,hpc,hpending,if_false]
    omega
  | leave hpc hpending | drained hpc hpending =>
    left
    simp [Reader.toExit,hpc,hpending]
  | deliver c hpc | skip c hpc | cancel c hpc =>
    left
    simp only [Reader.toExit,hpc]
    omega

theorem LinkMove.toExit_lt {link link' : Link} (h : LinkMove true link link')
    (hstop : link.stop = true) (kind : ReaderKind) :
    (link'.reader kind).toExit < (link.reader kind).toExit ∨
      link'.reader kind = link.reader kind := by
  cases h with
  | same => exact .inr rfl
  | stop | resumeWriter => exact .inr (by cases kind <;> rfl)
  | send t call handles spurious pc _ next hsend => exact .inr (sendStep_reader hsend kind)
  | writer control poll _ hwriter => exact .inr (writerStep_reader hwriter kind)
  | reader kind' poll r hreader =>
    by_cases hkind : kind = kind'
    · subst hkind
      rw [hstop] at hreader
      simpa using readerStep_toExit hreader
    · exact .inr (link.reader_setReader_ne hkind r)
  | resumeReader kind' =>
    by_cases hkind : kind = kind'
    · subst hkind
      rw [Link.reader_setReader,Reader.resume]
      split
      · rename_i c hpc
        left
        simp [Reader.toExit,hpc]
      · exact .inr rfl
    · exact .inr (link.reader_setReader_ne hkind _)

def System.readerOf (σ : System) (l : Nat) (kind : ReaderKind) : Option Reader :=
  σ.links[l]?.map (fun link => link.reader kind)

def System.canClose (σ : System) (t : Nat) : Prop :=
  (∃ f base, σ.In t f base ∧ f.closes = true) ∧ ∃ σ', machine.step σ ⟨t,.go⟩ = some σ'

/-- Infinite runs on which the workers of a link, the device and the closing thread do their
part. -/
structure Closing (l t : Nat) (s : Nat → System) : Prop where
  draining : Draining l s
  -- A reader goes on until it has returned: it is scheduled, a transfer completes for it if it
  -- polls, its calls of the handler return, and `STATE` is released to it.
  readers : ∀ kind n, (∀ r, (s n).readerOf l kind = some r → r.pc ≠ .exited) →
    ∃ m, n ≤ m ∧ (s (m+1)).readerOf l kind ≠ (s m).readerOf l kind
  -- The closing thread does not wait for ever for a step that it could take.
  scheduled : ∀ n, (∀ m, n ≤ m → (s m).canClose t) →
    ∃ m c, n ≤ m ∧ machine.step (s m) ⟨t,c⟩ = some (s (m+1))

theorem System.In.stays {σ σ' : System} {t : Nat} {f : Frame} {base : List Frame}
    (h : σ.In t f base) {a : Action} (hstep : machine.step σ a = some σ') :
    σ'.In t f base ∨ ∃ c, machine.step σ ⟨t,c⟩ = some σ' := by
  by_cases ha : a.thread = t
  · right
    refine ⟨a.choice,?_⟩
    rw [← ha]
    exact hstep
  · left
    obtain ⟨th,rest,d,-,-,-⟩ := step_moves hstep
    exact h.of_other rest d ha

theorem System.In.closed {σ σ' : System} {t : Nat} {c : Choice} {f : Frame} {base : List Frame}
    (h : σ.In t f base) (hf : f.closes = true) (hstep : machine.step σ ⟨t,c⟩ = some σ') :
    (∃ active link, f = .closeStop active ∧ σ.links[active.link]? = some link ∧
        σ'.links[active.link]? = some { link with stop := true } ∧
        σ'.In t (.closeJoinReaders active active.readerThreads) base) ∨
      (∃ active, f = .closeJoinReaders active [] ∧ σ'.In t (.closeJoinWriter active) base) ∨
      (∃ active w ws, f = .closeJoinReaders active (w :: ws) ∧
        σ'.In t (.closeJoinReaders active ws) base) ∨
      (∃ active, f = .closeJoinWriter active ∧
        σ'.log = σ.log ++ [.returned t .transportClose (some 0)]) := by
  have hrunning : ∀ site packetType packet, f ≠ .emitRunning site packetType packet := by
    rintro site packetType packet rfl
    cases hf
  obtain ⟨th,d,-,-,hmove,htop,rfl,hnext⟩ := h.move (step_moves hstep) hrunning
  cases hmove with
  | stop active link hlink =>
    cases htop
    refine .inl ⟨active,link,rfl,hlink,?_,hnext _ rfl⟩
    exact List.getElem?_set_self (List.getElem?_eq_some_iff.mp hlink).1
  | joinedReaders active =>
    cases htop
    exact .inr (.inl ⟨active,rfl,hnext _ rfl⟩)
  | joinReader active w ws hfinished =>
    cases htop
    exact .inr (.inr (.inl ⟨active,w,ws,rfl,hnext _ rfl⟩))
  | joinWriter active hfinished =>
    cases htop
    exact .inr (.inr (.inr ⟨active,rfl,rfl⟩))
  | _ =>
    cases htop
    try cases hf

theorem Draining.shift {l : Nat} {s : Nat → System} (h : Draining l s) (n : Nat) :
    Draining l (fun k => s (n+k)) where
  endless k := h.endless (n+k)
  progresses k hruns := by
    obtain ⟨m,hm,hchange⟩ := h.progresses (n+k) hruns
    obtain ⟨j,rfl⟩ := Nat.exists_eq_add_of_le (Nat.le_trans (Nat.le_add_right n k) hm)
    exact ⟨j,by omega,hchange⟩
  completes k link hlink hcancelled := by
    obtain ⟨N,hN⟩ := h.completes (n+k) link hlink hcancelled
    exact ⟨N,fun m hm => hN (n+m) (by omega)⟩

theorem exited_later {links : Nat → Link} (hmoves : ∀ n, LinkMove true (links n) (links (n+1)))
    {n m : Nat} (hm : n ≤ m) :
    (∀ kind, ((links n).reader kind).pc = .exited → ((links m).reader kind).pc = .exited) ∧
      ((links n).writer.pc = .exited → (links m).writer.pc = .exited) := by
  induction hm with
  | refl => exact ⟨fun _ h => h,fun h => h⟩
  | step hm ih =>
    exact ⟨fun kind h => (hmoves _).reader_exited (ih.1 kind h),
      fun h => (hmoves _).writer_exited (ih.2 h)⟩

namespace Closing

variable {l t : Nat} {s : Nat → System} {base : List Frame}

theorem reachable (h : Closing l t s) (hreach : ReachableKeeping l (s 0)) (n : Nat) :
    ReachableKeeping l (s n) :=
  Machine.ReachableBy.steps hreach (h.draining.endless.steps n)

theorem fires (h : Closing l t s) {f : Frame} (hf : f.closes = true) {n k : Nat} (hk : n ≤ k)
    (hin : (s n).In t f base)
    (henabled : ∀ m, k ≤ m → (s m).In t f base → ∃ σ', machine.step (s m) ⟨t,.go⟩ = some σ') :
    ∃ m c, n ≤ m ∧ (s m).In t f base ∧ machine.step (s m) ⟨t,c⟩ = some (s (m+1)) := by
  by_contra hnever
  have hstays : ∀ m, n ≤ m → (s m).In t f base := by
    intro m hm
    induction hm with
    | refl => exact hin
    | @step m hm ih =>
      rcases h.draining.endless m with hsame | ⟨a,-,hstep⟩
      · rwa [hsame]
      · rcases ih.stays hstep with hin' | ⟨c,hown⟩
        · exact hin'
        · exact absurd ⟨m,c,hm,ih,hown⟩ hnever
  obtain ⟨m,c,hm,hstep⟩ := h.scheduled k (fun m hm =>
    ⟨⟨f,base,hstays m (Nat.le_trans hk hm),hf⟩,henabled m hm (hstays m (Nat.le_trans hk hm))⟩)
  exact hnever ⟨m,c,Nat.le_trans hk hm,hstays m (Nat.le_trans hk hm),hstep⟩

section Path

variable {links : Nat → Link} (hlinks : ∀ n, (s n).links[l]? = some (links n))
  (hmoves : ∀ n, LinkMove true (links n) (links (n+1)))
include hlinks hmoves

theorem reader_exits (h : Closing l t s) {n : Nat} (hstop : (links n).stop = true)
    (kind : ReaderKind) : ∃ m, n ≤ m ∧ ((links m).reader kind).pc = .exited := by
  have hreader : ∀ m, (s m).readerOf l kind = some ((links m).reader kind) := by
    intro m
    rw [System.readerOf,hlinks]
    rfl
  apply reaches_of_rank (n := n) (fun m => ((links m).reader kind).toExit)
    (fun m => ((links m).reader kind).pc = .exited)
    (fun m => (links (m+1)).reader kind = (links m).reader kind)
  · intro m hm _
    rcases (hmoves m).toExit_lt (stop_later hmoves hm hstop) kind with hlt | hsame
    · exact .inr (.inl hlt)
    · exact .inr (.inr ⟨hsame,congrArg Reader.toExit hsame⟩)
  · intro m _ hruns
    obtain ⟨k,hk,hchange⟩ := h.readers kind m (by
      intro r hr
      rw [hreader,Option.some_inj] at hr
      rw [← hr]
      exact hruns)
    rw [hreader,hreader] at hchange
    exact ⟨k,hk,fun hsame => hchange (congrArg some hsame)⟩

/-- From some moment on both readers can be joined. -/
theorem readers_finish (h : Closing l t s) {n : Nat} (hstop : (links n).stop = true) :
    ∃ k, n ≤ k ∧ ∀ m, k ≤ m → ∀ active : ActiveTransport, active.link = l →
      active.Recorded (s m).threads → ∀ w ∈ active.readerThreads, (s m).finished w = true := by
  obtain ⟨i,hi,hevent⟩ := h.reader_exits hlinks hmoves hstop .event
  obtain ⟨j,hj,hacl⟩ := h.reader_exits hlinks hmoves hstop .acl
  refine ⟨max i j,Nat.le_trans hi (Nat.le_max_left i j),?_⟩
  rintro m hm active rfl ⟨⟨eventThread,aclThread,hthreads,hrole,hrole'⟩,-⟩ w hw
  have hevent' := (exited_later hmoves (Nat.le_trans (Nat.le_max_left i j) hm)).1 _ hevent
  have hacl' := (exited_later hmoves (Nat.le_trans (Nat.le_max_right i j) hm)).1 _ hacl
  rw [hthreads] at hw
  rcases List.mem_cons.mp hw with rfl | hw
  · obtain ⟨th,hth,hrole⟩ := hrole
    simp [System.finished,hth,hrole,hlinks,hevent']
  · obtain rfl := List.mem_singleton.mp hw
    obtain ⟨th,hth,hrole'⟩ := hrole'
    simp [System.finished,hth,hrole',hlinks,hacl']

theorem writer_finishes (h : Closing l t s) (hreach : ReachableKeeping l (s 0)) {n : Nat}
    (hstop : (links n).stop = true) :
    ∃ k, n ≤ k ∧ ∀ m, k ≤ m → ∀ active : ActiveTransport, active.link = l →
      active.Recorded (s m).threads → (s m).finished active.writerThread = true := by
  obtain ⟨k,hk⟩ := (h.draining.shift n).exits (h.reachable hreach n) (hlinks n) hstop
  rw [System.writerPc,hlinks,Option.map_some,Option.some_inj] at hk
  refine ⟨n+k,Nat.le_add_right n k,?_⟩
  rintro m hm active rfl hrecorded
  obtain ⟨th,hth,hrole⟩ := hrecorded.writer
  simp [System.finished,hth,hrole,hlinks,(exited_later hmoves hm).2 hk]

theorem joins_readers (h : Closing l t s) (hreach : ReachableKeeping l (s 0))
    {active : ActiveTransport} (hl : active.link = l) (ws : List Nat) {n : Nat}
    (hstop : (links n).stop = true) (hin : (s n).In t (.closeJoinReaders active ws) base) :
    ∃ m, n ≤ m ∧ (s m).In t (.closeJoinWriter active) base := by
  induction ws generalizing n with
  | nil =>
    obtain ⟨m,c,hm,hin,hstep⟩ := h.fires rfl (Nat.le_refl n) hin (by
      rintro m - ⟨th,hthread,hstack⟩
      simp [machine,System.step,hthread,hstack,System.frameStep])
    rcases hin.closed rfl hstep with ⟨_,_,hf,-⟩ | ⟨_,hf,hnext⟩ | ⟨_,_,_,hf,-⟩ | ⟨_,hf,-⟩
    all_goals cases hf
    exact ⟨m+1,Nat.le_succ_of_le hm,hnext⟩
  | cons w ws ih =>
    obtain ⟨k,hk,hfinish⟩ := h.readers_finish hlinks hmoves hstop
    obtain ⟨m,c,hm,hin,hstep⟩ := h.fires rfl hk hin (by
      rintro m hm ⟨th,hthread,hstack⟩
      obtain ⟨hrecorded,hlisted⟩ : (Frame.closeJoinReaders active (w :: ws)).Recorded _ :=
        (h.reachable hreach m).reachable.wellRecorded.frames t th _ hthread
          (by rw [hstack]; exact List.mem_cons_self)
      have hfinished := hfinish m hm active hl hrecorded w (hlisted w List.mem_cons_self)
      simp [machine,System.step,hthread,hstack,System.frameStep,hfinished])
    rcases hin.closed rfl hstep with ⟨_,_,hf,-⟩ | ⟨_,hf,-⟩ | ⟨_,_,_,hf,hnext⟩ | ⟨_,hf,-⟩
    all_goals cases hf
    obtain ⟨j,hj,hjoined⟩ := ih (stop_later hmoves (Nat.le_succ_of_le hm) hstop) hnext
    exact ⟨j,Nat.le_trans (Nat.le_succ_of_le hm) hj,hjoined⟩

end Path

/-- A close that has taken the record of an open transport returns 0. -/
theorem close_returns (h : Closing l t s) (hreach : ReachableKeeping l (s 0))
    {active : ActiveTransport} (hl : active.link = l) (hin : (s 0).In t (.closeStop active) base) :
    ∃ n, (s (n+1)).log = (s n).log ++ [.returned t .transportClose (some 0)] := by
  have hlink : ∃ link, (s 0).links[l]? = some link := by
    obtain ⟨th,hthread,hstack⟩ := hin
    have hlt : l < (s 0).links.length := by
      by_contra hge
      have hzero := hreach.reachable.wellScoped.frames l (Nat.not_lt.mp hge)
      have hle := Pool.le_total (Frame.mentions l) hthread
        (by rw [hstack]; exact List.mem_cons_self)
      rw [hzero,Frame.mentions,if_pos hl] at hle
      omega
    exact ⟨_,List.getElem?_eq_getElem hlt⟩
  obtain ⟨link,hlink⟩ := hlink
  obtain ⟨links,hlinks,hmoves⟩ := hreach.path h.draining.endless
    (List.getElem?_eq_some_iff.mp hlink).1
  obtain ⟨n,c,-,hin,hstep⟩ := h.fires rfl (Nat.le_refl 0) hin (by
    rintro m - ⟨th,hthread,hstack⟩
    simp [machine,System.step,hthread,hstack,System.frameStep,hl,hlinks m])
  rcases hin.closed rfl hstep with ⟨_,link,hf,-,hlink,hnext⟩ | ⟨_,hf,-⟩ | ⟨_,_,_,hf,-⟩ | ⟨_,hf,-⟩
  all_goals cases hf
  have hstop : (links (n+1)).stop = true := by
    rw [hl,hlinks,Option.some_inj] at hlink
    rw [hlink]
  obtain ⟨m,hm,hjoining⟩ := h.joins_readers hlinks hmoves hreach hl _ hstop hnext
  obtain ⟨k,hk,hfinish⟩ := h.writer_finishes hlinks hmoves hreach (stop_later hmoves hm hstop)
  obtain ⟨j,c,-,hin,hstep⟩ := h.fires rfl hk hjoining (by
    rintro j hj ⟨th,hthread,hstack⟩
    have hrecorded : (Frame.closeJoinWriter active).Recorded _ :=
      (h.reachable hreach j).reachable.wellRecorded.frames t th _ hthread
        (by rw [hstack]; exact List.mem_cons_self)
    have hfinished := hfinish j hj active hl hrecorded
    simp [machine,System.step,hthread,hstack,System.frameStep,hfinished])
  rcases hin.closed rfl hstep with ⟨_,_,hf,-⟩ | ⟨_,hf,-⟩ | ⟨_,_,_,hf,-⟩ | ⟨_,hf,hlog⟩
  all_goals cases hf
  exact ⟨j,hlog⟩

end Closing

theorem closing_of_steps {l t : Nat} {σ σ' : System} (h : machine.Steps (KeepsRecord l) σ σ')
    (hwriter : σ'.writerPc l = some .exited)
    (hreaders : ∀ kind, ∃ r, σ'.readerOf l kind = some r ∧ r.pc = .exited)
    (hclosed : ¬σ'.canClose t) : ∃ s : Nat → System, s 0 = σ ∧ Closing l t s := by
  obtain ⟨s,N,hstart,hend,hendless⟩ := Machine.endless_of_steps h
  refine ⟨s,hstart,draining_of_end hendless hend hwriter,?_,?_⟩
  · intro kind n hruns
    obtain ⟨r,hr,hexited⟩ := hreaders kind
    by_cases hn : N ≤ n
    · rw [hend n hn] at hruns
      exact absurd hexited (hruns r hr)
    · apply exists_change (f := fun n => (s n).readerOf l kind) (Nat.le_of_not_le hn)
      intro hsame
      have hr' : (s n).readerOf l kind = some r := by rw [← hsame,hend N (Nat.le_refl N),hr]
      exact hruns r hr' hexited
  · intro n hcan
    have hlast := hcan (max n N) (Nat.le_max_left n N)
    rw [hend _ (Nat.le_max_right n N)] at hlast
    exact absurd hlast hclosed

def takenRun : List Action :=
  openRun 0 dongle dongleInterface [] ++ Action.by 0 [.call .transportClose,.go,.go]

def joinedRun : List Action :=
  Action.by 0 [.go] ++
    Action.by 1 [.go,.completion ⟨.ok,[]⟩,.go,.go,.go,.go,.go,.go] ++
    Action.by 2 [.go,.completion ⟨.err .cancelled,[]⟩,.go,.go,.go,.go,.go,.go] ++
    Action.by 3 [.go,.go,.go] ++ Action.by 0 [.go,.go,.go,.go]

def System.closes (σ : System) (t : Nat) : Option Nat :=
  σ.threads[t]?.bind fun th =>
    match th.stack with
    | [.closeStop active] => some active.link
    | _ => none

private theorem in_of_closes {σ : System} {t l : Nat} (h : σ.closes t = some l) :
    ∃ active : ActiveTransport, active.link = l ∧ σ.In t (.closeStop active) [] := by
  obtain ⟨th,hthread,hmatch⟩ := Option.bind_eq_some_iff.mp h
  split at hmatch
  · rename_i active hstack
    exact ⟨active,Option.some_inj.mp hmatch,th,hthread,hstack⟩
  · cases hmatch

theorem close_returns_undisturbed : ∃ s : Nat → System, Closing 0 0 s ∧ (s 0).closes 0 = some 0 ∧
    ∃ n, (s (n+1)).log = (s n).log ++ [.returned 0 .transportClose (some 0)] := by
  have hrun : ((machine.runWhere (fun σ a => !σ.overwrites 0 a) (System.initial 1 none)
      takenRun).bind fun σ => (machine.runWhere (fun σ a => !σ.overwrites 0 a) σ joinedRun).map
        fun σ' => (σ.closes 0,σ'.threads[0]?,σ'.writerPc 0,σ'.readerOf 0 .event,
          σ'.readerOf 0 .acl)) =
      some (some 0,some ⟨.client,[]⟩,some .exited,some ⟨.exited,0,true⟩,
        some ⟨.exited,0,true⟩) := rfl
  obtain ⟨σ,hσ,hrest⟩ := Option.bind_eq_some_iff.mp hrun
  obtain ⟨σ',hσ',hvalues⟩ := Option.map_eq_some_iff.mp hrest
  simp only [Prod.mk.injEq] at hvalues
  obtain ⟨hcloses,hthread,hwriter,hevent,hacl⟩ := hvalues
  have hreaders : ∀ kind, ∃ r, σ'.readerOf 0 kind = some r ∧ r.pc = .exited := by
    intro kind
    cases kind with
    | event => exact ⟨_,hevent,rfl⟩
    | acl => exact ⟨_,hacl,rfl⟩
  have hclosed : ¬σ'.canClose 0 := by
    rintro ⟨⟨f,base,⟨th,hth,hstack⟩,-⟩,-⟩
    rw [hthread,Option.some_inj] at hth
    rw [← hth] at hstack
    cases hstack
  obtain ⟨s,rfl,hclosing⟩ := closing_of_steps (keepsRecord_of_runWhere hσ') hwriter hreaders
    hclosed
  obtain ⟨active,hl,hin⟩ := in_of_closes hcloses
  exact ⟨s,hclosing,hcloses,hclosing.close_returns (ReachableKeeping.of_runWhere hσ) hl hin⟩

end BtstackRs.Transport
