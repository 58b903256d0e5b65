import BtstackRs.Transport.Nesting

/-!
# Handing over to another packet handler

`emit_packet` copies the handler under the mutex and calls it after the guard is dropped, so that
a handler may still be called after `transport_register_packet_handler` has replaced it. This
happens at most once in every thread, and only where the thread had copied the handler before.
-/

namespace BtstackRs.Transport

open Concurrent

/-- A call of the handler that `emit_packet` has copied and not made yet. -/
def Frame.copies (handler : Handler) : Frame → Nat
  | .emitCall _ _ _ copied => if copied = handler then 1 else 0
  | _ => 0

def System.copies (σ : System) (t : Nat) (handler : Handler) : Nat :=
  (σ.threads[t]?).elim 0 (fun th => Pool.stackWeight (Frame.copies handler) th.stack)

def Event.entersWith (t : Nat) (handler : Handler) : Event → Bool
  | .entered t' _ handler' _ _ _ => t' == t && handler' == handler
  | _ => false

def callsWith (t : Nat) (handler : Handler) (log : List Event) : Nat :=
  log.countP (Event.entersWith t handler)

@[simp] theorem callsWith_append (t : Nat) (handler : Handler) (log log' : List Event) :
    callsWith t handler (log ++ log') = callsWith t handler log + callsWith t handler log' :=
  List.countP_append

/-- Steps taken while another handler, or none, is registered. -/
def Retired (handler : Handler) (σ : System) (_ : Action) : Prop :=
  σ.state.packetHandler ≠ some handler

/-- A step of thread `t` does not copy a retired handler, and calls it only by using up a copy. -/
theorem Move.copies_eq {σ : System} {t : Nat} {c : Choice} {role : Role} {rest : List Frame}
    {d : Delta} (h : Move σ t c role rest d) {handler : Handler}
    (hretired : σ.state.packetHandler ≠ some handler) :
    callsWith t handler d.events + Pool.stackWeight (Frame.copies handler) d.top' =
      Pool.stackWeight (Frame.copies handler) d.top := by
  cases h with
  | sectionGoto s state g hsection =>
    cases hsection with
    | emitLookup site packetType packet copied hcopied =>
      have hne : copied ≠ handler := by
        rintro rfl
        exact hretired hcopied
      simp [callsWith,Frame.copies,hne]
    | _ => rfl
  | spawn l pc => cases pc <;> rfl
  | enter site packetType packet copied =>
    by_cases hsame : copied = handler <;> simp [callsWith,Event.entersWith,Frame.copies,hsame]
  | _ => rfl

theorem Move.callsWith_ne {σ : System} {t u : Nat} {c : Choice} {role : Role} {rest : List Frame}
    {d : Delta} (h : Move σ t c role rest d) (hne : u ≠ t) (handler : Handler) :
    callsWith u handler d.events = 0 := by
  rw [callsWith,List.countP_eq_zero]
  intro e he
  have hthread := h.events_thread e he
  cases e with
  | entered t' site handler' packetType packet size =>
    obtain rfl : t' = t := hthread
    simp [Event.entersWith,Ne.symm hne]
  | _ => simp [Event.entersWith]

theorem copies_apply_self {σ : System} {t : Nat} {th : Thread Role Frame}
    (hthread : σ.threads[t]? = some th) (rest : List Frame) (d : Delta) (handler : Handler) :
    (σ.apply t rest d).copies t handler =
      Pool.stackWeight (Frame.copies handler) d.top' +
        Pool.stackWeight (Frame.copies handler) rest := by
  rw [System.copies,getElem?_apply_self rest d hthread]
  exact Pool.stackWeight_append _ _ _

theorem copies_apply_ne {σ : System} {t u : Nat} (hne : u ≠ t) (rest : List Frame) (d : Delta)
    (handler : Handler) : (σ.apply t rest d).copies u handler = σ.copies u handler := by
  unfold System.copies
  cases hold : σ.threads[u]? with
  | some th => rw [getElem?_apply_ne rest d hne hold]
  | none =>
    cases hnew : (σ.apply t rest d).threads[u]? with
    | none => rfl
    | some th =>
      -- A thread that was not there is one that has just been spawned.
      rcases getElem?_apply_cases hnew with ⟨rfl,_⟩ | ⟨_,hsame⟩ | ⟨_,hempty,_⟩
      · exact absurd rfl hne
      · rw [hold] at hsame
        cases hsame
      · simp [hempty]

theorem retired_step {σ σ' : System} {a : Action} {handler : Handler}
    (hretired : Retired handler σ a) (hstep : machine.step σ a = some σ') (t : Nat) :
    ∃ events, σ'.log = σ.log ++ events ∧
      callsWith t handler events + σ'.copies t handler = σ.copies t handler := by
  obtain ⟨th,rest,d,hthread,hstack,hmove⟩ := step_moves hstep
  refine ⟨d.events,rfl,?_⟩
  by_cases hown : t = a.thread
  · subst hown
    have hcopies := hmove.copies_eq hretired
    rw [copies_apply_self hthread rest d handler]
    simp only [System.copies,hthread,Option.elim_some,hstack,Pool.stackWeight_append]
    omega
  · rw [hmove.callsWith_ne hown,copies_apply_ne hown,Nat.zero_add]

def Frame.Waits : Frame → Prop
  | .openCreate _ | .emitRunning _ _ _ => True
  | _ => False

def Waited (σ : System) : Prop :=
  ∀ (t : Nat) th, σ.threads[t]? = some th →
    Pool.Nested (fun _ rest => ∀ g ∈ rest.head?, Frame.Waits g) th.stack

private theorem move_waited {σ : System} {t : Nat} {c : Choice} {role : Role} {rest : List Frame}
    {d : Delta} (h : Move σ t c role rest d)
    (hσ : Pool.Nested (fun _ below => ∀ g ∈ below.head?, Frame.Waits g) (d.top ++ rest)) :
    Pool.Nested (fun _ below => ∀ g ∈ below.head?, Frame.Waits g) (d.top' ++ rest) := by
  have hrest := hσ.of_append
  cases h with
  | sectionGoto s state g hsection => cases hsection <;> exact hσ
  | spawn l pc => cases pc <;> exact hσ
  | openingClaim pc endpoints packet => exact ⟨by simp [Frame.Waits],hσ⟩
  | call op s hchoice hcan henters =>
    cases hcan with
    | client => simp [Pool.Nested]
    | handler site packetType packet rest => exact ⟨by simp [Frame.Waits],hrest⟩
  | readerDeliver kind l link r data hrole hrest' hlink hreader hdata => simp [hrest',Pool.Nested]
  | writerAcknowledge l link link' hrole hrest' hlink hwriter hack => simp [hrest',Pool.Nested]
  | sectionRet | openingFail | joinWriter | sendRet | leave | callRet | reader | writer =>
    exact hrest
  | _ => exact hσ

theorem Reachable.waited {σ : System} (h : Reachable σ) : Waited σ := by
  apply h.invariant
  · intro clients handler t th hth
    rw [(initial_thread hth).2]
    trivial
  · intro σ a σ' _ hσ hmoves t th' hth'
    obtain ⟨th,rest,d,hthread,hstack,hmove⟩ := hmoves
    rcases getElem?_apply_cases hth' with ⟨rfl,th₀,hth₀,rfl⟩ | ⟨_,hold⟩ | ⟨_,hempty,_⟩
    · exact move_waited hmove (hstack ▸ hσ _ th hthread)
    · exact hσ t th' hold
    · rw [hempty]
      trivial

theorem Frame.Waits.copies_eq {f : Frame} (h : f.Waits) (handler : Handler) :
    f.copies handler = 0 := by
  cases f with
  | emitCall => cases h
  | _ => rfl

private theorem copies_below {handler : Handler} {f : Frame} {rest : List Frame}
    (h : Pool.Nested (fun _ below => ∀ g ∈ below.head?, Frame.Waits g) (f :: rest)) :
    Pool.stackWeight (Frame.copies handler) rest = 0 := by
  induction rest generalizing f with
  | nil => rfl
  | cons g rest ih =>
    have hwaits : g.Waits := h.1 g rfl
    rw [Pool.stackWeight_cons,hwaits.copies_eq handler,ih h.2]

theorem Frame.copies_le_one (handler : Handler) (f : Frame) : f.copies handler ≤ 1 := by
  cases f with
  | emitCall site packetType packet copied =>
    by_cases hsame : copied = handler <;> simp [copies,hsame]
  | _ => exact Nat.zero_le 1

theorem Reachable.copies_le_one {σ : System} (h : Reachable σ) (t : Nat) (handler : Handler) :
    σ.copies t handler ≤ 1 := by
  unfold System.copies
  cases hthread : σ.threads[t]? with
  | none => exact Nat.zero_le 1
  | some th =>
    have hnested := h.waited t th hthread
    rw [Option.elim_some]
    cases hstack : th.stack with
    | nil => exact Nat.zero_le 1
    | cons f rest =>
      rw [hstack] at hnested
      rw [Pool.stackWeight_cons,copies_below hnested]
      exact f.copies_le_one handler

/-- While other handlers are registered, a thread calls the handler exactly as often as it uses up
copies that it had made before, and this is once at most. -/
theorem retired_handler {σ σ' : System} (hreach : Reachable σ) {handler : Handler}
    (hrun : machine.Steps (Retired handler) σ σ') (t : Nat) :
    ∃ events, σ'.log = σ.log ++ events ∧
      callsWith t handler events + σ'.copies t handler = σ.copies t handler ∧
      σ.copies t handler ≤ 1 := by
  have hconserved : ∃ events, σ'.log = σ.log ++ events ∧
      callsWith t handler events + σ'.copies t handler = σ.copies t handler := by
    induction hrun with
    | refl => exact ⟨[],by simp,by simp [callsWith]⟩
    | tail _ hlast ih =>
      obtain ⟨a,hretired,hstep⟩ := hlast
      obtain ⟨events,hlog,hcalls⟩ := ih
      obtain ⟨events',hlog',hcalls'⟩ := retired_step hretired hstep t
      refine ⟨events ++ events',by rw [hlog',hlog,List.append_assoc],?_⟩
      rw [callsWith_append]
      omega
  obtain ⟨events,hlog,hcalls⟩ := hconserved
  exact ⟨events,hlog,hcalls,hreach.copies_le_one t handler⟩

/-- The ACL reader calls the handler that it has copied, once, after it has been replaced. -/
theorem retired_handler_acl : ∃ (σ σ' : System) (events : List Event),
    σ.state.packetHandler = some 8 ∧ σ'.log = σ.log ++ events ∧ callsWith 2 7 events = 1 := by
  have hrun : ((machine.run (System.initial 1 (some 7))
      (openRun 0 dongle dongleInterface [.go,.go] ++
        Action.by 2 [.go,.completion ⟨.ok,[2,0]⟩,.go,.go,.go] ++
        Action.by 0 [.call (.transportRegisterPacketHandler (some 8)),.go,.go])).bind fun σ =>
      (machine.step σ ⟨2,.go⟩).map fun σ' =>
        (σ.state.packetHandler,σ.copies 2 7,σ'.copies 2 7)) = some (some 8,1,0) := rfl
  obtain ⟨σ,hσ,hrun⟩ := Option.bind_eq_some_iff.mp hrun
  obtain ⟨σ',hσ',hvalues⟩ := Option.map_eq_some_iff.mp hrun
  simp only [Prod.mk.injEq] at hvalues
  obtain ⟨hhandler,hbefore,hafter⟩ := hvalues
  have hretired : Retired 7 σ ⟨2,.go⟩ := by simp [Retired,hhandler]
  obtain ⟨events,hlog,hcalls,-⟩ :=
    retired_handler (Reachable.of_run hσ) (.tail (.refl σ) hretired hσ') 2
  rw [hbefore,hafter] at hcalls
  exact ⟨σ,σ',events,hhandler,hlog,hcalls⟩

end BtstackRs.Transport
