import BtstackRs.Transport.Step

/-!
# Calls and their returns

A call of a transport operation takes its first step in a client or in the handler, runs
interleaved with the other threads, and returns. The log tells when: while a thread is in the
call, nothing else is logged under its number.
-/

namespace BtstackRs.Transport

open Concurrent

/-- Thread `t` is in the given frame, above `base`. -/
def System.In (σ : System) (t : Nat) (f : Frame) (base : List Frame) : Prop :=
  ∃ th, σ.threads[t]? = some th ∧ th.stack = f :: base

theorem System.In.of_other {σ : System} {t u : Nat} {f : Frame} {base : List Frame}
    (h : σ.In t f base) (rest : List Frame) (d : Delta) (hne : u ≠ t) :
    (σ.apply u rest d).In t f base := by
  obtain ⟨th,hthread,hstack⟩ := h
  exact ⟨th,getElem?_apply_ne rest d (Ne.symm hne) hthread,hstack⟩

theorem System.In.move {σ σ' : System} {a : Action} {f : Frame} {base : List Frame}
    (h : σ.In a.thread f base) (hmoves : Moves σ a σ')
    (hf : ∀ site packetType packet, f ≠ .emitRunning site packetType packet) :
    ∃ th d, σ.threads[a.thread]? = some th ∧ th.stack = d.top ++ base ∧
      Move σ a.thread a.choice th.role base d ∧ d.top = [f] ∧ σ' = σ.apply a.thread base d ∧
      ∀ g, d.top' = [g] → σ'.In a.thread g base := by
  obtain ⟨th,hthread,hstack⟩ := h
  obtain ⟨th',rest,d,hthread',hstack',hmove⟩ := hmoves
  rw [hthread] at hthread'
  cases hthread'
  obtain ⟨htop,rfl⟩ := hmove.top_eq (hstack.symm.trans hstack') hf
  refine ⟨th,d,hthread,hstack',hmove,htop,rfl,fun g hg => ?_⟩
  exact ⟨_,getElem?_apply_self rest d hthread,by simp [hg]⟩

inductive SectionStep (σ : System) (t : Nat) (s : Section) (base : List Frame) (σ' : System) :
    Prop where
  | lock (hin' : σ'.In t (.locked s) base) (hstate : σ'.state = σ.state)
      (hlinks : σ'.links = σ.links) (hlog : σ'.log = σ.log)
  | goto (state : TransportState) (g : Frame) (hin : σ.In t (.locked s) base)
      (hsection : SectionGoto σ s state g) (hin' : σ'.In t g base) (hstate : σ'.state = state)
      (hlinks : σ'.links = σ.links) (hlog : σ'.log = σ.log)
  | ret (state : TransportState) (result : Option Int) (hin : σ.In t (.locked s) base)
      (hsection : SectionRet σ s state result) (hstate : σ'.state = state)
      (hlinks : σ'.links = resumeSite s.site σ.links)
      (hlog : σ'.log = σ.log ++ [.returned t s.fn result])

theorem System.In.section_step {σ σ' : System} {a : Action} {s : Section} {f : Frame}
    {base : List Frame} (hf : f = .lock s ∨ f = .locked s) (hin : σ.In a.thread f base)
    (hmoves : Moves σ a σ') : SectionStep σ a.thread s base σ' := by
  obtain ⟨th,d,hthread,hstack,hmove,htop,rfl,hnext⟩ :=
    hin.move hmoves (by obtain rfl | rfl := hf <;> simp)
  obtain rfl | rfl := hf
  · cases hmove with
    | lock s' hfree =>
      cases htop
      exact .lock (hnext _ rfl) rfl rfl (List.append_nil _)
    | _ => cases htop
  · cases hmove with
    | sectionGoto s' state g hsection =>
      cases htop
      exact .goto state g hin hsection (hnext _ rfl) rfl rfl (List.append_nil _)
    | sectionRet s' state result hsection =>
      cases htop
      exact .ret state result hin hsection rfl rfl rfl
    | _ => cases htop

/-- A run of allowed steps from `σ` to `σ'` that ends with the return of thread `t` from the call
it is in. -/
def Returns (allow : System → Action → Prop) (t : Nat) (fn : Fn) (σ σ' : System) (result : Int) :
    Prop :=
  ∃ σ₁ a events, machine.Steps allow σ σ₁ ∧ σ₁.log = σ.log ++ events ∧ ownEvents t events = [] ∧
    allow σ₁ a ∧ machine.step σ₁ a = some σ' ∧
    σ'.log = σ₁.log ++ [.returned t fn (some result)]

theorem Returns.of_run {σ σ₁ σ' : System} {t : Nat} {fn : Fn} {as : List Action} {a : Action}
    {result : Int} (hrun : machine.run σ as = some σ₁) (hquiet : σ₁.log = σ.log)
    (hlast : machine.step σ₁ a = some σ')
    (hlog : σ'.log = σ₁.log ++ [.returned t fn (some result)]) :
    Returns Machine.anyAction t fn σ σ' result :=
  ⟨σ₁,a,[],(Machine.steps_of_run hrun).any,by simp [hquiet],rfl,trivial,hlast,hlog⟩

theorem Returns.mono {allow allow' : System → Action → Prop} (hsub : ∀ σ a, allow σ a → allow' σ a)
    {t : Nat} {fn : Fn} {σ σ' : System} {result : Int} (h : Returns allow t fn σ σ' result) :
    Returns allow' t fn σ σ' result := by
  obtain ⟨σ₁,a,events,hrun,hlog,hown,ha,hlast,hreturn⟩ := h
  exact ⟨σ₁,a,events,hrun.mono hsub,hlog,hown,hsub _ _ ha,hlast,hreturn⟩

theorem Returns.invariant {allow : System → Action → Prop} {t : Nat} {fn : Fn} {σ σ' : System}
    {result : Int} (h : Returns allow t fn σ σ' result) {P : System → Prop} (hreach : Reachable σ)
    (hstart : P σ)
    (hstep : ∀ σ a σ', Reachable σ → P σ → allow σ a → Moves σ a σ' →
      (∀ events, σ'.log = σ.log ++ events → ownEvents t events = []) → P σ') :
    ∃ σ₁ a, Reachable σ₁ ∧ P σ₁ ∧ a.thread = t ∧ allow σ₁ a ∧ Moves σ₁ a σ' ∧
      σ'.log = σ₁.log ++ [.returned t fn (some result)] := by
  obtain ⟨σ₁,a,events,hrun,hlog,hown,hallow,hlast,hreturn⟩ := h
  have hphase : ∃ events, σ₁.log = σ.log ++ events ∧ (ownEvents t events = [] → P σ₁) := by
    clear hlog hallow hlast hreturn
    induction hrun with
    | refl => exact ⟨[],by simp,fun _ => hstart⟩
    | @tail σ₂ σ₃ hpre hnext ih =>
      obtain ⟨b,hb,hmoves⟩ := hnext
      obtain ⟨before,hbefore,hP⟩ := ih
      have hlog : ∃ new, σ₃.log = σ₂.log ++ new := by
        obtain ⟨th,rest,d,_,_,_⟩ := step_moves hmoves
        exact ⟨d.events,rfl⟩
      obtain ⟨new,hnew⟩ := hlog
      refine ⟨before ++ new,by rw [hnew,hbefore,List.append_assoc],fun hquiet => ?_⟩
      rw [ownEvents_append,List.append_eq_nil_iff] at hquiet
      apply hstep σ₂ b σ₃ (hreach.steps hpre) (hP hquiet.1) hb (step_moves hmoves)
      intro events hevents
      rw [List.append_cancel_left (hevents.symm.trans hnew)]
      exact hquiet.2
  obtain ⟨events',hevents',hP⟩ := hphase
  obtain rfl : events' = events := List.append_cancel_left (hevents'.symm.trans hlog)
  refine ⟨σ₁,a,hreach.steps hrun,hP hown,?_,hallow,step_moves hlast,hreturn⟩
  obtain ⟨th,rest,d,_,_,hmove⟩ := step_moves hlast
  have hevents : d.events = [.returned t fn (some result)] := List.append_cancel_left hreturn
  have hthread := hmove.events_thread (.returned t fn (some result)) (by simp [hevents])
  exact hthread.symm

def Alone (t : Nat) (_ : System) (a : Action) : Prop := a.thread = t

/-- From `σ` thread `t`, running alone, returns from the call it is in. -/
def ReturnsAlone (σ : System) (t : Nat) (fn : Fn) : Prop :=
  ∃ σ' result, Returns (Alone t) t fn σ σ' result

theorem ReturnsAlone.of_step {σ σ' : System} {t : Nat} {fn : Fn} {c : Choice} {result : Int}
    (hstep : machine.step σ ⟨t,c⟩ = some σ')
    (hlog : σ'.log = σ.log ++ [.returned t fn (some result)]) : ReturnsAlone σ t fn :=
  ⟨σ',result,σ,⟨t,c⟩,[],.refl σ,by simp,rfl,rfl,hstep,hlog⟩

theorem ReturnsAlone.head {σ σ₁ : System} {t : Nat} {fn : Fn} {c : Choice}
    (hstep : machine.step σ ⟨t,c⟩ = some σ₁) (hlog : σ₁.log = σ.log)
    (h : ReturnsAlone σ₁ t fn) : ReturnsAlone σ t fn := by
  obtain ⟨σ',result,σ₂,a,events,hrun,hevents,hown,ha,hlast,hreturn⟩ := h
  rw [hlog] at hevents
  exact ⟨σ',result,σ₂,a,events,.head (a := ⟨t,c⟩) rfl hstep hrun,hevents,hown,ha,hlast,hreturn⟩

/-- Thread `t` calls an operation in `σ` and returns from it by allowed steps. -/
inductive CallReturns (allow : System → Action → Prop) (σ : System) (t : Nat) (op : ApiCall)
    (σ' : System) (result : Int) : Prop where
  | atOnce (hstep : machine.step σ ⟨t,.call op⟩ = some σ')
      (hlog : σ'.log = σ.log ++ [.called t op.fn,.returned t op.fn (some result)])
  | entered (σ₁ : System) (hstep : machine.step σ ⟨t,.call op⟩ = some σ₁)
      (hlog : σ₁.log = σ.log ++ [.called t op.fn])
      (hreturns : Returns allow t op.fn σ₁ σ' result)

/-- Thread `t` calls an operation in `σ`. From `σ₀`, where the call has begun, all threads take the
steps `as`, and with the next one the call returns. -/
structure CallSpans (σ : System) (t : Nat) (op : ApiCall) (σ₀ : System) (as : List Action)
    (σ' : System) (result : Int) : Prop where
  call : machine.step σ ⟨t,.call op⟩ = some σ₀
  called : σ₀.log = σ.log ++ [.called t op.fn]
  returns : ∃ σ₁ a events, machine.run σ₀ as = some σ₁ ∧ σ₁.log = σ₀.log ++ events ∧
    ownEvents t events = [] ∧ machine.step σ₁ a = some σ' ∧
    σ'.log = σ₁.log ++ [.returned t op.fn (some result)]

theorem CallReturns.mono {allow allow' : System → Action → Prop}
    (hsub : ∀ σ a, allow σ a → allow' σ a) {σ σ' : System} {t : Nat} {op : ApiCall} {result : Int}
    (h : CallReturns allow σ t op σ' result) : CallReturns allow' σ t op σ' result := by
  cases h with
  | atOnce hstep hlog => exact .atOnce hstep hlog
  | entered σ₁ hstep hlog hreturns => exact .entered σ₁ hstep hlog (hreturns.mono hsub)

theorem Reachable.callReturns {allow : System → Action → Prop} {σ σ' : System} {t : Nat}
    {op : ApiCall} {result : Int} (h : Reachable σ) (hcall : CallReturns allow σ t op σ' result) :
    Reachable σ' := by
  cases hcall with
  | atOnce hstep hlog => exact h.step hstep
  | entered σ₁ hstep hlog hreturns =>
    obtain ⟨σ₂,a,events,hrun,_,_,_,hlast,_⟩ := hreturns
    exact ((h.step hstep).steps hrun).step hlast

structure Entered (σ : System) (t : Nat) (op : ApiCall) (s : Section) (base : List Frame)
    (σ₁ : System) : Prop where
  step : machine.step σ ⟨t,.call op⟩ = some σ₁
  caller : ∃ th, σ.threads[t]? = some th ∧ th.stack = base ∧ CanCall th.role base
  at_lock : σ₁.In t (.lock s) base
  mutex_eq : σ₁.mutex = σ.mutex
  state_eq : σ₁.state = σ.state
  links_eq : σ₁.links = σ.links
  log_eq : σ₁.log = σ.log ++ [.called t op.fn]

theorem Enters.enter_eq {op : ApiCall} {s : Section} (h : Enters op s) :
    op.enter = .inl (.lock s) := by
  cases h with
  | canSend packetType hsupported => simp [ApiCall.enter,hsupported]
  | sendLookup call haccepted => simp [ApiCall.enter,haccepted]
  | _ => rfl

private theorem step_called_at_once {σ σ' : System} {t : Nat} {op : ApiCall} {result : Int}
    (hstep : machine.step σ ⟨t,.call op⟩ = some σ')
    (hlog : σ'.log = σ.log ++ [.called t op.fn,.returned t op.fn (some result)]) :
    op.enter = .inr result ∧ σ'.state = σ.state ∧ σ'.links = σ.links := by
  obtain ⟨th,rest,d,hthread,hstack,hmove⟩ := step_moves hstep
  have hevents : d.events = [.called t op.fn,.returned t op.fn (some result)] :=
    List.append_cancel_left hlog
  cases hmove with
  | callRet op' result' hchoice hcan henter =>
    cases hchoice
    obtain rfl : result' = result := by simpa using hevents
    exact ⟨henter,rfl,rfl⟩
  | _ => simp at hevents

theorem step_called {σ σ' : System} {t : Nat} {op : ApiCall}
    (hstep : machine.step σ ⟨t,.call op⟩ = some σ') (hlog : σ'.log = σ.log ++ [.called t op.fn]) :
    ∃ s base, op.enter = .inl (.lock s) ∧ Entered σ t op s base σ' := by
  obtain ⟨th,rest,d,hthread,hstack,hmove⟩ := step_moves hstep
  have hevents : d.events = [.called t op.fn] := List.append_cancel_left hlog
  cases hmove with
  | call op' s hchoice hcan henters =>
    cases hchoice
    refine ⟨s,rest,henters.enter_eq,hstep,⟨th,hthread,hstack,hcan⟩,?_,rfl,rfl,rfl,rfl⟩
    exact ⟨_,getElem?_apply_self rest _ hthread,rfl⟩
  | _ => simp at hevents

theorem CallReturns.entered_lock {allow : System → Action → Prop} {σ σ' : System} {t : Nat}
    {op : ApiCall} {s : Section} (henters : Enters op s) {result : Int}
    (h : CallReturns allow σ t op σ' result) :
    ∃ base σ₁, Entered σ t op s base σ₁ ∧ Returns allow t op.fn σ₁ σ' result := by
  have henter := henters.enter_eq
  cases h with
  | atOnce hstep hlog =>
    obtain ⟨hreturned,_,_⟩ := step_called_at_once hstep hlog
    rw [henter] at hreturned
    cases hreturned
  | entered σ₁ hstep hlog hreturns =>
    obtain ⟨s',base,hlock,hentered⟩ := step_called hstep hlog
    rw [henter] at hlock
    cases hlock
    exact ⟨base,σ₁,hentered,hreturns⟩

theorem CallReturns.at_once {allow : System → Action → Prop} {σ σ' : System} {t : Nat}
    {op : ApiCall} {r result : Int} (henter : op.enter = .inr r)
    (h : CallReturns allow σ t op σ' result) :
    result = r ∧ σ'.state = σ.state ∧ σ'.links = σ.links := by
  cases h with
  | atOnce hstep hlog =>
    obtain ⟨hreturned,hsame⟩ := step_called_at_once hstep hlog
    rw [henter] at hreturned
    cases hreturned
    exact ⟨rfl,hsame⟩
  | entered σ₁ hstep hlog hreturns =>
    obtain ⟨s,base,hlock,_⟩ := step_called hstep hlog
    rw [henter] at hlock
    cases hlock

private theorem call_step {σ : System} {t : Nat} {th : Thread Role Frame}
    (hthread : σ.threads[t]? = some th) (hcan : CanCall th.role th.stack) (op : ApiCall) :
    machine.step σ ⟨t,.call op⟩ = some (σ.startCall t th.stack op) := by
  obtain ⟨role,stack⟩ := th
  cases hcan with
  | client => simp only [machine,System.step,hthread,System.idleStep]
  | handler role site packetType packet rest =>
    simp only [machine,System.step,hthread,System.frameStep]

theorem callReturns_of_enter {allow : System → Action → Prop} {σ : System} {t : Nat}
    {th : Thread Role Frame} (hthread : σ.threads[t]? = some th)
    (hcan : CanCall th.role th.stack) {op : ApiCall} {r : Int} (henter : op.enter = .inr r) :
    ∃ σ', CallReturns allow σ t op σ' r := by
  refine ⟨_,.atOnce (call_step hthread hcan op) ?_⟩
  simp [System.startCall,henter,System.record]

theorem entered_of_canCall {σ : System} {t : Nat} {th : Thread Role Frame}
    (hthread : σ.threads[t]? = some th) (hcan : CanCall th.role th.stack) {op : ApiCall}
    {s : Section} (henters : Enters op s) : ∃ σ₁, Entered σ t op s th.stack σ₁ := by
  have hstart : σ.startCall t th.stack op =
      (σ.setStack t (.lock s :: th.stack)).record (.called t op.fn) := by
    simp only [System.startCall,henters.enter_eq]
  refine ⟨_,call_step hthread hcan op,⟨th,hthread,rfl,hcan⟩,?_,?_,?_,?_,?_⟩ <;> rw [hstart]
  · exact ⟨_,Pool.getElem?_setStack_self hthread _,rfl⟩
  all_goals rfl

theorem Entered.callReturns {σ σ₁ : System} {t : Nat} {op : ApiCall} {s : Section}
    {base : List Frame} (h : Entered σ t op s base σ₁) (hreturns : ReturnsAlone σ₁ t op.fn) :
    ∃ σ' result, CallReturns (Alone t) σ t op σ' result := by
  obtain ⟨σ',result,hreturns⟩ := hreturns
  exact ⟨σ',result,.entered σ₁ h.step h.log_eq hreturns⟩

theorem lock_step {σ : System} {t : Nat} {s : Section} {base : List Frame}
    (hin : σ.In t (.lock s) base) (hfree : σ.mutex = none) :
    ∃ σ', machine.step σ ⟨t,.go⟩ = some σ' ∧ σ'.In t (.locked s) base ∧ σ'.log = σ.log := by
  obtain ⟨th,hthread,hstack⟩ := hin
  refine ⟨{ σ with mutex := some t }.setStack t (.locked s :: base),?_,?_,rfl⟩
  · simp only [machine,System.step,hthread,hstack,System.frameStep,hfree,if_true]
  · exact ⟨_,Pool.getElem?_setStack_self hthread _,rfl⟩

theorem locked_step {σ : System} {t : Nat} {s : Section} {base : List Frame}
    (hin : σ.In t (.locked s) base) :
    ∃ σ', machine.step σ ⟨t,.go⟩ = some σ' ∧
      match (σ.criticalSection s).2 with
      | .goto g => σ'.In t g base ∧ σ'.log = σ.log
      | .call _ _ => True
      | .ret result => σ'.log = σ.log ++ [.returned t s.fn result] := by
  obtain ⟨th,hthread,hstack⟩ := hin
  have hstep : machine.step σ ⟨t,.go⟩ = some
      ({ σ with state := (σ.criticalSection s).1, mutex := none }.proceed t (.locked s) base
        (σ.criticalSection s).2) := by
    simp only [machine,System.step,hthread,hstack,System.frameStep]
  refine ⟨_,hstep,?_⟩
  cases (σ.criticalSection s).2 with
  | goto g => exact ⟨⟨_,Pool.getElem?_setStack_self hthread _,rfl⟩,rfl⟩
  | call g callee => trivial
  | ret result => rfl

end BtstackRs.Transport
