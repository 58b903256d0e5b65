import BtstackRs.Transport.Erasure
import BtstackRs.Transport.Lifecycle

/-!
# Opens without effect

A `transport_open` that fails, or that finds the transport open, returns before it has emitted an
event, created a link or spawned a worker. Without it the other threads take the same steps to
the same system.
-/

namespace BtstackRs.Transport

open Concurrent

def Event.startsLifecycle : Event → Bool
  | called _ fn => fn.isLifecycle
  | _ => false

def Event.endsLifecycle : Event → Bool
  | returned _ fn _ => fn.isLifecycle
  | _ => false

def lifecycleEvents (events : List Event) : List Event :=
  events.filter (fun e => e.startsLifecycle || e.endsLifecycle)

@[simp] theorem lifecycleEvents_append (events events' : List Event) :
    lifecycleEvents (events ++ events') = lifecycleEvents events ++ lifecycleEvents events' :=
  List.filter_append _ _

private theorem move_balance {σ : System} {t : Nat} {c : Choice} {role : Role}
    {rest : List Frame} {d : Delta} (h : Move σ t c role rest d) :
    Pool.stackWeight Frame.lifecycle d.top' + d.events.countP Event.endsLifecycle =
      Pool.stackWeight Frame.lifecycle d.top + d.events.countP Event.startsLifecycle := by
  cases h with
  | sectionGoto s state g hsection => cases hsection <;> rfl
  | sectionRet s state result hsection => cases hsection <;> rfl
  | spawn l pc => cases pc <;> rfl
  | call op s hchoice hcan henters => cases henters <;> rfl
  | callRet op result hchoice hcan henter => cases op <;> rfl
  | _ => rfl

private theorem opened_eq_of_lifecycleEvents (log events : List Event) :
    opened (log ++ events) = (lifecycleEvents events).foldl openAfter (opened log) := by
  have hskip : ∀ isOpen e, (e.startsLifecycle || e.endsLifecycle) = false →
      openAfter isOpen e = isOpen := by
    intro isOpen e he
    cases e with
    | called | entered | left => rfl
    | returned t fn result => cases fn <;> first | rfl | cases he
  have hall : ∀ isOpen, events.foldl openAfter isOpen =
      (lifecycleEvents events).foldl openAfter isOpen := by
    induction events with
    | nil => exact fun _ => rfl
    | cons e events ih =>
      intro isOpen
      unfold lifecycleEvents at ih ⊢
      rw [List.foldl_cons,ih,List.filter_cons]
      split
      · rfl
      · rename_i he
        rw [hskip isOpen e (by simpa using he)]
  rw [opened_append,hall]

inductive NoEffect (t : Nat) (wasOpen : Bool) : List Frame → List Event → Prop where
  | before : NoEffect t wasOpen [] []
  | checking (f : Frame) (hf : f = .lock .openCheck ∨ f = .locked .openCheck) :
      NoEffect t wasOpen [f] [.called t .transportOpen]
  | opening (pc : OpenPc) (hclosed : wasOpen = false) :
      NoEffect t wasOpen [.opening pc] [.called t .transportOpen]
  | returned : NoEffect t wasOpen []
      [.called t .transportOpen,
        .returned t .transportOpen (some (if wasOpen then 0 else -1))]

def Frame.claimed : Frame → Bool
  | .openCreate _ | .openSpawn _ _ | .lock (.openStore _) | .locked (.openStore _) => true
  | _ => false

def Effective (t : Nat) (stack : List Frame) (events : List Event) : Prop :=
  (events = [.called t .transportOpen] ∧ ∃ f ∈ stack, f.claimed = true) ∨
    ∃ later, events = .called t .transportOpen :: .returned t .transportOpen (some 0) :: later

/-- Not a single call of `transport_open`, by thread `t`: another thread opens or closes, or
thread `t` makes another call first or a further one. -/
def OffCourse (t : Nat) (events : List Event) : Prop :=
  (∃ e ∈ lifecycleEvents events, e.thread ≠ t) ∨
    (∃ fn later, ownEvents t events = .called t fn :: later ∧ fn ≠ .transportOpen) ∨
    ∃ result later, ownEvents t events =
      .called t .transportOpen :: .returned t .transportOpen result :: later ∧ later ≠ []

structure Course (t : Nat) (wasOpen : Bool) (stack : List Frame) (events : List Event)
    (same : Prop) : Prop where
  cases : OffCourse t events ∨
    (NoEffect t wasOpen stack (ownEvents t events) ∧
      lifecycleEvents events = ownEvents t events ∧ same) ∨
    (wasOpen = false ∧ Effective t stack (lifecycleEvents events))

theorem OffCourse.append {t : Nat} {events : List Event} (h : OffCourse t events)
    (events' : List Event) : OffCourse t (events ++ events') := by
  obtain ⟨e,he,hne⟩ | ⟨fn,later,hown,hfn⟩ | ⟨result,later,hown,hlater⟩ := h
  · refine .inl ⟨e,?_,hne⟩
    rw [lifecycleEvents_append]
    exact List.mem_append_left _ he
  · exact .inr (.inl ⟨fn,later ++ ownEvents t events',by simp [hown],hfn⟩)
  · exact .inr (.inr ⟨result,later ++ ownEvents t events',by simp [hown],by simp [hlater]⟩)

private theorem NoEffect.holdsSender {t : Nat} {wasOpen : Bool} {stack : List Frame}
    {events : List Event} (h : NoEffect t wasOpen stack events) :
    ∀ f ∈ stack, ∀ l, f.holdsSender l = false := by
  intro f hf l
  cases h with
  | before | returned => cases hf
  | checking g hg =>
    cases List.mem_singleton.mp hf
    obtain rfl | rfl := hg <;> rfl
  | opening pc hclosed =>
    cases List.mem_singleton.mp hf
    rfl

private theorem Course.other {t : Nat} {wasOpen : Bool} {stack : List Frame}
    {events events' : List Event} {same same' : Prop} (h : Course t wasOpen stack events same)
    (hother : ∀ e ∈ events', e.thread ≠ t)
    (hsame : (∀ f ∈ stack, ∀ l, f.holdsSender l = false) → same → same') :
    Course t wasOpen stack (events ++ events') same' := by
  constructor
  have hown := ownEvents_eq_nil hother
  by_cases hcalls : lifecycleEvents events' = []
  · obtain hoff | ⟨hnone,hevents,hs⟩ | heffective := h.cases
    · exact .inl (hoff.append events')
    · refine .inr (.inl ?_)
      rw [ownEvents_append,lifecycleEvents_append,hown,hcalls,List.append_nil,List.append_nil]
      exact ⟨hnone,hevents,hsame hnone.holdsSender hs⟩
    · refine .inr (.inr ?_)
      rw [lifecycleEvents_append,hcalls,List.append_nil]
      exact heffective
  · obtain ⟨e,he⟩ := List.exists_mem_of_ne_nil _ hcalls
    refine .inl (.inl ⟨e,?_,hother e (List.mem_of_mem_filter he)⟩)
    rw [lifecycleEvents_append]
    exact List.mem_append_right _ he

private theorem lifecycleEvents_eq_nil {events : List Event}
    (hstarts : events.countP Event.startsLifecycle = 0)
    (hends : events.countP Event.endsLifecycle = 0) : lifecycleEvents events = [] := by
  rw [lifecycleEvents,List.filter_eq_nil_iff]
  intro e he
  rw [List.countP_eq_zero] at hstarts hends
  simp [hstarts e he,hends e he]

private theorem move_starts {σ : System} {t : Nat} {c : Choice} {role : Role}
    {rest : List Frame} {d : Delta} (h : Move σ t c role rest d) (hallow : InTurn σ ⟨t,c⟩)
    (hcalls : 0 < σ.lifecycleCalls) : d.events.countP Event.startsLifecycle = 0 := by
  have hturn : ∀ op, c = .call op → op.fn.isLifecycle = false := by
    rintro op rfl
    simp only [InTurn,System.callsInTurn,Bool.or_eq_true,Bool.not_eq_true',beq_iff_eq] at hallow
    exact hallow.resolve_right (Nat.ne_of_gt hcalls)
  cases h with
  | call op s hchoice hcan henters =>
    simp [Event.startsLifecycle,hturn op hchoice]
  | callRet op result hchoice hcan henter =>
    simp [Event.startsLifecycle,hturn op hchoice]
  | _ => rfl

private theorem move_claimed {σ : System} {t : Nat} {c : Choice} {role : Role}
    {rest : List Frame} {d : Delta} (h : Move σ t c role rest d)
    (htop : ∃ f ∈ d.top, f.claimed = true) :
    ((∃ f ∈ d.top', f.claimed = true) ∧ lifecycleEvents d.events = []) ∨
      lifecycleEvents d.events = [.returned t .transportOpen (some 0)] := by
  obtain ⟨f,hf,hclaimed⟩ := htop
  cases h with
  | lock s hfree =>
    cases List.mem_singleton.mp hf
    refine .inl ⟨⟨_,List.mem_singleton_self _,?_⟩,rfl⟩
    cases s <;> first | rfl | cases hclaimed
  | sectionGoto s state g hsection =>
    cases List.mem_singleton.mp hf
    cases hsection <;> cases hclaimed
  | sectionRet s state result hsection =>
    cases List.mem_singleton.mp hf
    cases hsection with
    | openStore active => exact .inr rfl
    | _ => cases hclaimed
  | create endpoints => exact .inl ⟨⟨_,List.mem_singleton_self _,rfl⟩,rfl⟩
  | spawn l pc => exact .inl ⟨⟨_,List.mem_singleton_self _,by cases pc <;> rfl⟩,rfl⟩
  | call | callRet | reader | readerDeliver | writer | writerAcknowledge => cases hf
  | _ =>
    cases List.mem_singleton.mp hf
    cases hclaimed

private theorem Effective.own {σ : System} {t : Nat} {c : Choice} {th : Thread Role Frame}
    {rest : List Frame} {d : Delta} {events : List Event} (hreach : ReachableInTurn σ)
    (hthread : σ.threads[t]? = some th) (hstack : th.stack = d.top ++ rest)
    (hmove : Move σ t c th.role rest d) (hallow : InTurn σ ⟨t,c⟩)
    (h : Effective t th.stack events) :
    Effective t (d.top' ++ rest) (events ++ lifecycleEvents d.events) := by
  obtain ⟨rfl,f,hf,hclaimed⟩ | ⟨later,rfl⟩ := h
  · rw [hstack] at hf
    have hkept : (∃ f ∈ d.top' ++ rest, f.claimed = true) → lifecycleEvents d.events = [] →
        Effective t (d.top' ++ rest) ([.called t .transportOpen] ++ lifecycleEvents d.events) := by
      intro hframe hnone
      rw [hnone]
      exact .inl ⟨rfl,hframe⟩
    rcases List.mem_append.mp hf with hf | hf
    · obtain ⟨⟨g,hg,hclaimed'⟩,hnone⟩ | hreturned := move_claimed hmove ⟨f,hf,hclaimed⟩
      · exact hkept ⟨g,List.mem_append_left _ hg,hclaimed'⟩ hnone
      · rw [hreturned]
        exact .inr ⟨[],rfl⟩
    · refine hkept ⟨f,List.mem_append_right _ hf,hclaimed⟩ ?_
      have hlifecycle : f.lifecycle = 1 := by
        cases f with
        | lock s | locked s => cases s <;> first | rfl | cases hclaimed
        | openCreate | openSpawn => rfl
        | _ => cases hclaimed
      have hone := hreach.lifecycleCalls_le_one
      have htotal := Pool.stackWeight_le_total Frame.lifecycle hthread
      have hrest := Pool.le_stackWeight Frame.lifecycle hf
      rw [hstack,Pool.stackWeight_append] at htotal
      unfold System.lifecycleCalls at hone
      have hstarts := move_starts hmove hallow (by unfold System.lifecycleCalls; omega)
      have hbalance := move_balance hmove
      exact lifecycleEvents_eq_nil hstarts (by omega)
  · exact .inr ⟨later ++ lifecycleEvents d.events,rfl⟩

private theorem NoEffect.call {σ : System} {t : Nat} {c : Choice} {rest : List Frame} {d : Delta}
    (h : Move σ t c .client rest d) (htop : d.top = []) :
    (d.top' = [.lock .openCheck] ∧ d.events = [.called t .transportOpen] ∧
        (σ.apply t rest d).without t = σ.without t) ∨
      ∃ fn later, d.events = .called t fn :: later ∧ fn ≠ .transportOpen := by
  cases h with
  | call op s hchoice hcan henters =>
    by_cases hop : op.fn = .transportOpen
    · refine .inl ⟨?_,by rw [hop],?_⟩
      · cases henters <;> first | rfl | cases hop
      · apply System.apply_without rest rfl rfl rfl _ rfl
        simp [Event.thread]
    · exact .inr ⟨op.fn,[],rfl,hop⟩
  | callRet op result hchoice hcan henter =>
    refine .inr ⟨op.fn,_,rfl,?_⟩
    intro hop
    cases op with
    | transportOpen => cases henter
    | _ => cases hop
  | reader _ _ _ _ hrole | readerDeliver _ _ _ _ _ hrole | writer _ _ _ hrole
  | writerAcknowledge _ _ _ hrole => cases hrole
  | _ => cases htop

private theorem NoEffect.own {σ : System} {t : Nat} {c : Choice} {th : Thread Role Frame}
    {rest : List Frame} {d : Delta} {wasOpen : Bool} {events : List Event}
    (howned : MutexOwned σ) (hthread : σ.threads[t]? = some th) (hrole : th.role = .client)
    (hstack : th.stack = d.top ++ rest) (hmove : Move σ t c th.role rest d)
    (hopen : events = [.called t .transportOpen] → σ.state.active.isSome = wasOpen)
    (h : NoEffect t wasOpen th.stack events) :
    (NoEffect t wasOpen (d.top' ++ rest) (events ++ d.events) ∧
        lifecycleEvents d.events = d.events ∧ (σ.apply t rest d).without t = σ.without t) ∨
      (∃ fn later, events ++ d.events = .called t fn :: later ∧ fn ≠ .transportOpen) ∨
      (∃ result later, events ++ d.events =
        .called t .transportOpen :: .returned t .transportOpen result :: later ∧ later ≠ []) ∨
      (wasOpen = false ∧ events = [.called t .transportOpen] ∧ d.events = [] ∧
        ∃ f ∈ d.top' ++ rest, f.claimed = true) := by
  rw [hrole] at hmove
  have hlocked : ∀ s, Frame.locked s ∈ th.stack → σ.mutex = some t :=
    fun s hs => howned.eq_of_locked hthread hs
  generalize th.stack = stack at hstack h hlocked
  cases h with
  | before =>
    obtain ⟨htop,rfl⟩ := List.append_eq_nil_iff.mp hstack.symm
    obtain ⟨htop',hevents,hsame⟩ | ⟨fn,later,hevents,hfn⟩ := NoEffect.call hmove htop
    · refine .inl ⟨?_,by rw [hevents]; rfl,hsame⟩
      rw [htop',hevents]
      exact .checking _ (.inl rfl)
    · exact .inr (.inl ⟨fn,later,hevents,hfn⟩)
  | returned =>
    obtain ⟨htop,rfl⟩ := List.append_eq_nil_iff.mp hstack.symm
    refine .inr (.inr (.inl ⟨_,d.events,rfl,?_⟩))
    obtain ⟨_,hevents,_⟩ | ⟨fn,later,hevents,_⟩ := NoEffect.call hmove htop <;> simp [hevents]
  | checking f hf =>
    have hwas := hopen rfl
    obtain ⟨htop,rfl⟩ := hmove.top_eq hstack (by obtain rfl | rfl := hf <;> simp)
    cases hmove with
    | lock s hfree =>
      cases htop
      obtain hs | hs := hf <;> cases hs
      refine .inl ⟨.checking _ (.inr rfl),rfl,?_⟩
      apply System.apply_without [] rfl rfl rfl (by simp)
      simp [hfree]
    | sectionGoto s state g hsection =>
      cases htop
      obtain hs | hs := hf <;> cases hs
      have hmutex := hlocked _ (List.mem_singleton_self _)
      cases hsection with
      | openCheck hclosed =>
        refine .inl ⟨.opening _ ?_,rfl,?_⟩
        · rw [← hwas,hclosed]
          rfl
        · apply System.apply_without [] rfl rfl rfl (by simp)
          simp [hmutex,Option.filter]
    | sectionRet s state result hsection =>
      cases htop
      obtain hs | hs := hf <;> cases hs
      have hmutex := hlocked _ (List.mem_singleton_self _)
      cases hsection with
      | openCheck active hactive =>
        have htrue : wasOpen = true := by rw [← hwas,hactive]; rfl
        subst htrue
        refine .inl ⟨.returned,rfl,?_⟩
        apply System.apply_without [] rfl rfl rfl (by simp [Event.thread])
        simp [hmutex,Option.filter]
    | _ => cases htop <;> (obtain hs | hs := hf <;> cases hs)
  | opening pc hclosed =>
    obtain ⟨htop,rfl⟩ := hmove.top_eq hstack (by simp)
    subst hclosed
    cases hmove with
    | openingGoto pc₀ pc' =>
      exact .inl ⟨.opening pc' rfl,rfl,System.apply_without [] rfl rfl rfl (by simp) rfl⟩
    | openingFail pc₀ =>
      exact .inl ⟨.returned,rfl,System.apply_without [] rfl rfl rfl (by simp [Event.thread]) rfl⟩
    | openingClaim pc₀ endpoints packet =>
      refine .inr (.inr (.inr ⟨rfl,rfl,rfl,.openCreate endpoints,?_,rfl⟩))
      simp
    | _ => cases htop

private theorem Course.own {σ : System} {t : Nat} {c : Choice} {th : Thread Role Frame}
    {rest : List Frame} {d : Delta} {wasOpen : Bool} {events : List Event} {same same' : Prop}
    (hreach : ReachableInTurn σ) (hthread : σ.threads[t]? = some th) (hrole : th.role = .client)
    (hstack : th.stack = d.top ++ rest) (hmove : Move σ t c th.role rest d)
    (hallow : InTurn σ ⟨t,c⟩)
    (hopen : lifecycleEvents events = [.called t .transportOpen] →
      Pool.total Frame.closing σ.threads = 0 → σ.state.active.isSome = wasOpen)
    (hsame : (σ.apply t rest d).without t = σ.without t → same → same')
    (h : Course t wasOpen th.stack events same) :
    Course t wasOpen (d.top' ++ rest) (events ++ d.events) same' := by
  constructor
  have hown : ownEvents t (events ++ d.events) = ownEvents t events ++ d.events := by
    rw [ownEvents_append,ownEvents_eq_self hmove.events_thread]
  obtain hoff | ⟨hnone,hevents,hs⟩ | ⟨hclosed,heffective⟩ := h.cases
  · exact .inl (hoff.append _)
  · have hopen' : ownEvents t events = [.called t .transportOpen] →
        σ.state.active.isSome = wasOpen := by
      intro hcalled
      apply hopen (hevents.trans hcalled)
      -- The call itself is the one in progress, and it closes nothing.
      have hone := hreach.lifecycleCalls_le_one
      have hclosing := Pool.total_setStack Frame.closing hthread []
      have hcalls := Pool.total_setStack Frame.lifecycle hthread []
      have hmono := Pool.total_mono Frame.closing_le_detached (σ.threads.setStack t [])
      have hmono' := Pool.total_mono Frame.detached_le_lifecycle (σ.threads.setStack t [])
      rw [hcalled] at hnone
      unfold System.lifecycleCalls at hone
      generalize th.stack = stack at hnone hclosing hcalls
      cases hnone with
      | checking f hf =>
        obtain rfl | rfl := hf <;>
          simp only [Pool.stackWeight_cons,Pool.stackWeight_nil,Frame.closing,Frame.lifecycle,
            Frame.fn,Section.fn,Fn.isLifecycle,if_true] at hclosing hcalls <;> omega
      | opening pc hclosed =>
        simp only [Pool.stackWeight_cons,Pool.stackWeight_nil,Frame.closing,Frame.lifecycle,
          Frame.fn,Fn.isLifecycle,if_true] at hclosing hcalls
        omega
    obtain ⟨hnone',hlifecycle,hunchanged⟩ | hother | htwice | ⟨hclosed,hcalled,hquiet,hclaimed⟩ :=
      hnone.own hreach.reachable.mutexOwned hthread hrole hstack hmove hopen'
    · refine .inr (.inl ⟨by rw [hown]; exact hnone',?_,hsame hunchanged hs⟩)
      rw [lifecycleEvents_append,hlifecycle,hevents,hown]
    · exact .inl (.inr (.inl (by rw [hown]; exact hother)))
    · exact .inl (.inr (.inr (by rw [hown]; exact htwice)))
    · refine .inr (.inr ⟨hclosed,.inl ⟨?_,hclaimed⟩⟩)
      rw [hquiet,List.append_nil,hevents,hcalled]
  · refine .inr (.inr ⟨hclosed,?_⟩)
    rw [lifecycleEvents_append]
    exact heffective.own hreach hthread hstack hmove hallow

/-- A run from `σ` to `σ'` that contains one call of `transport_open`, by thread `t`, and any steps
of other threads that neither open nor close. `during` are the events of the call itself. -/
structure OpenCall (σ : System) (actions : List Action) (σ' : System) (t : Nat)
    (during : List Event) (result : Int) : Prop where
  start : ReachableInTurn σ
  boundary : σ.lifecycleCalls = 0
  idle : σ.threads[t]? = some { role := .client, stack := [] }
  run : machine.runWhere System.callsInTurn σ actions = some σ'
  log : ∃ events, σ'.log = σ.log ++ events ∧
    lifecycleEvents events =
      [.called t .transportOpen,.returned t .transportOpen (some result)] ∧
    ownEvents t events =
      .called t .transportOpen :: during ++ [.returned t .transportOpen (some result)]

/-- Without thread `t` the other threads take the same steps to the same system. -/
def Unchanged (σ : System) (actions : List Action) (σ' : System) (t : Nat) : Prop :=
  machine.run (σ.without t) (actions.filter (fun a => a.thread != t)) = some (σ'.without t)

private def Followed (σ : System) (t : Nat) (actions : List Action) (σ' : System) : Prop :=
  ∃ events th, σ'.log = σ.log ++ events ∧ σ'.threads[t]? = some th ∧ th.role = .client ∧
    σ'.lifecycleCalls + events.countP Event.endsLifecycle =
      events.countP Event.startsLifecycle ∧
    Course t σ.state.active.isSome th.stack events (Unchanged σ actions σ' t)

theorem closing_eq_zero {σ : System} (h : σ.lifecycleCalls = 0) :
    Pool.total Frame.closing σ.threads = 0 := by
  have hmono := Pool.total_mono Frame.closing_le_detached σ.threads
  have hmono' := Pool.total_mono Frame.detached_le_lifecycle σ.threads
  unfold System.lifecycleCalls at h
  omega

private theorem run_followed {σ : System} {t : Nat} (hstart : ReachableInTurn σ)
    (hboundary : σ.lifecycleCalls = 0)
    (hidle : σ.threads[t]? = some { role := .client, stack := [] }) {actions : List Action}
    {σ' : System} (hrun : machine.runWhere System.callsInTurn σ actions = some σ') :
    Followed σ t actions σ' := by
  have hwas := hstart.active_isSome (closing_eq_zero hboundary)
  apply Machine.runWhere_induction _ _ hrun
  · exact ⟨[],_,by simp,hidle,rfl,by simpa using hboundary,⟨.inr (.inl ⟨.before,rfl,rfl⟩)⟩⟩
  · intro actions σ₁ a σ₂ hrun₁ ih hallow hstep
    obtain ⟨events,th,hlog,hthread,hrole,hbalance,hcourse⟩ := ih
    have hreach : ReachableInTurn σ₁ :=
      Machine.ReachableBy.steps hstart (Machine.steps_of_runWhere hrun₁)
    obtain ⟨thread,rest,d,hthread',hstack,hmove⟩ := step_moves hstep
    have hbalance' := move_balance hmove
    have hcalls := total_apply Frame.lifecycle hthread' hstack
    refine ⟨events ++ d.events,?_⟩
    have hlog' : (σ₁.apply a.thread rest d).log = σ.log ++ (events ++ d.events) := by
      rw [System.apply,hlog,List.append_assoc]
    have hcount : (σ₁.apply a.thread rest d).lifecycleCalls +
        (events ++ d.events).countP Event.endsLifecycle =
          (events ++ d.events).countP Event.startsLifecycle := by
      unfold System.lifecycleCalls at hbalance ⊢
      rw [List.countP_append,List.countP_append]
      omega
    by_cases ht : a.thread = t
    · subst ht
      rw [hthread] at hthread'
      cases hthread'
      refine ⟨_,hlog',getElem?_apply_self rest d hthread,hrole,hcount,?_⟩
      apply hcourse.own hreach hthread hrole hstack hmove hallow
      · intro hcalled hnotClosing
        rw [hreach.active_isSome hnotClosing,hlog,opened_eq_of_lifecycleEvents,hcalled,hwas]
        rfl
      · intro hsame hunchanged
        unfold Unchanged at hunchanged ⊢
        rw [List.filter_append,hsame]
        simpa using hunchanged
    · have hother := getElem?_apply_ne rest d (Ne.symm ht) hthread
      refine ⟨th,hlog',hother,hrole,hcount,?_⟩
      apply hcourse.other
      · intro e he
        rw [hmove.events_thread e he]
        exact ht
      · intro hholds hunchanged
        unfold Unchanged at hunchanged ⊢
        rw [List.filter_append]
        have hlast : [a].filter (fun a => a.thread != t) = [a] := by simp [ht]
        rw [hlast]
        exact Machine.run_concat hunchanged (System.step_without ht hthread hholds hstep)

private theorem countP_lifecycleEvents (events : List Event) :
    (lifecycleEvents events).countP Event.startsLifecycle = events.countP Event.startsLifecycle ∧
      (lifecycleEvents events).countP Event.endsLifecycle =
        events.countP Event.endsLifecycle := by
  rw [lifecycleEvents,List.countP_filter,List.countP_filter]
  constructor <;>
    · apply List.countP_congr
      intro e _
      simp +contextual

private theorem OpenCall.during_quiet {σ σ' : System} {actions : List Action} {t : Nat}
    {during : List Event} {result : Int} (h : OpenCall σ actions σ' t during result) :
    lifecycleEvents during = [] := by
  obtain ⟨events,_,hcalls,hown⟩ := h.log
  have hfilter : lifecycleEvents (ownEvents t events) = ownEvents t (lifecycleEvents events) :=
    List.filter_comm _ _ _
  rw [hown,hcalls] at hfilter
  simpa [lifecycleEvents,ownEvents,List.filter_cons,Event.startsLifecycle,Event.endsLifecycle,
    Fn.isLifecycle,Event.thread] using hfilter

private theorem OpenCall.cases {σ σ' : System} {actions : List Action} {t : Nat}
    {during : List Event} {result : Int} (h : OpenCall σ actions σ' t during result) :
    (result = (if σ.state.active.isSome then 0 else -1) ∧ during = [] ∧
        Unchanged σ actions σ' t) ∨
      (σ.state.active.isSome = false ∧ result = 0) := by
  obtain ⟨events,hlog,hcalls,hown⟩ := h.log
  obtain ⟨events',th,hlog',_,_,_,hcourse⟩ := run_followed h.start h.boundary h.idle h.run
  obtain rfl : events' = events := List.append_cancel_left (hlog'.symm.trans hlog)
  obtain hoff | ⟨hnone,hevents,hunchanged⟩ | ⟨hclosed,heffective⟩ := hcourse.cases
  · exfalso
    obtain ⟨e,he,hne⟩ | ⟨fn,later,hother,hfn⟩ | ⟨r,later,htwice,hlater⟩ := hoff
    · simp only [hcalls,List.mem_cons,List.not_mem_nil,or_false] at he
      obtain rfl | rfl := he <;> exact hne rfl
    · rw [hown] at hother
      simp only [List.cons_append,List.cons.injEq,Event.called.injEq,true_and] at hother
      exact hfn hother.1.symm
    · have hquiet := h.during_quiet
      rw [hown] at htwice
      cases during with
      | nil =>
        simp only [List.cons_append,List.nil_append,List.cons.injEq] at htwice
        exact hlater htwice.2.2.symm
      | cons e es =>
        simp only [List.cons_append,List.cons.injEq] at htwice
        obtain ⟨-,rfl,-⟩ := htwice
        simp [lifecycleEvents,Event.startsLifecycle,Event.endsLifecycle,Fn.isLifecycle] at hquiet
  · have hboth := hevents.symm.trans hcalls
    rw [hboth] at hown hnone
    have hduring : during = [] := by simpa using hown
    refine .inl ⟨?_,hduring,hunchanged⟩
    generalize th.stack = stack at hnone
    generalize σ.state.active.isSome = wasOpen at hnone ⊢
    cases hnone
    rfl
  · rw [hcalls] at heffective
    obtain ⟨hshort,_⟩ | ⟨later,hlong⟩ := heffective
    · simp at hshort
    · simp only [List.cons.injEq,Event.returned.injEq,Option.some.injEq,true_and] at hlong
      exact .inr ⟨hclosed,hlong.1⟩

/-- Afterwards there is a record if and only if the call returned 0. A call that finds a record,
or returns anything else than 0, then returns -1 and has had no effect. -/
theorem OpenCall.result_cases {σ σ' : System} {actions : List Action} {t : Nat}
    {during : List Event} {result : Int} (h : OpenCall σ actions σ' t during result) :
    (σ'.state.active.isSome = true ↔ result = 0) ∧
      (σ.state.active.isSome = true → result = 0 ∧ during = [] ∧ Unchanged σ actions σ' t) ∧
      (result ≠ 0 → result = -1 ∧ during = [] ∧ Unchanged σ actions σ' t) := by
  have hwas := h.start.active_isSome (closing_eq_zero h.boundary)
  have hreach : ReachableInTurn σ' :=
    Machine.ReachableBy.steps h.start (Machine.steps_of_runWhere h.run)
  obtain ⟨events,hlog,hcalls,_⟩ := h.log
  obtain ⟨events',_,hlog',_,_,hbalance,_⟩ := run_followed h.start h.boundary h.idle h.run
  obtain rfl : events' = events := List.append_cancel_left (hlog'.symm.trans hlog)
  have hends : σ'.lifecycleCalls = 0 := by
    obtain ⟨hstarts,hreturns⟩ := countP_lifecycleEvents events'
    rw [← hstarts,← hreturns,hcalls] at hbalance
    simpa [List.countP_cons,Event.startsLifecycle,Event.endsLifecycle,Fn.isLifecycle]
      using hbalance
  have hopened := hreach.active_isSome (closing_eq_zero hends)
  rw [hlog,opened_eq_of_lifecycleEvents,hcalls,← hwas] at hopened
  simp only [List.foldl_cons,List.foldl_nil,openAfter,Option.some.injEq] at hopened
  refine ⟨?_,?_,?_⟩
  · obtain ⟨hresult,_⟩ | ⟨hclosed,hresult⟩ := h.cases
    · rw [hopened,hresult]
      cases σ.state.active.isSome <;> simp
    · rw [hopened,hresult]
      simp
  · intro hopen
    obtain ⟨hresult,hquiet⟩ | ⟨hclosed,_⟩ := h.cases
    · rw [hopen] at hresult
      exact ⟨hresult,hquiet⟩
    · rw [hopen] at hclosed
      cases hclosed
  · intro hne
    obtain ⟨hresult,hquiet⟩ | ⟨_,hresult⟩ := h.cases
    · split at hresult
      · exact absurd hresult hne
      · exact ⟨hresult,hquiet⟩
    · exact absurd hresult hne

end BtstackRs.Transport
