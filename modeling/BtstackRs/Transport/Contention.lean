import BtstackRs.Concurrent.Cost
import BtstackRs.Transport.Sending

/-!
# Contention

A send holds `STATE`'s mutex for its lookup only, and its reservation is a loop around a
`compare_exchange_weak`. The loop is lock-free: an exchange that fails, and not spuriously, has
met a counter that another thread has changed in the meantime. So the steps of a send are bounded
by its spurious failures and by what others have done to the counter it works on.
-/

namespace BtstackRs.Transport

open Concurrent

def ownStep (t : Nat) (_ : System) (a : Action) (_ : System) : Nat :=
  if a.thread = t then 1 else 0

/-- A step of thread `t` in which an exchange fails though the counter is as expected. -/
def spuriousFailure (t : Nat) (_ : System) (a : Action) (_ : System) : Nat :=
  if a.thread = t ∧ a.choice.isSpurious = true then 1 else 0

def System.sendingLink (σ : System) (t : Nat) : Option Nat :=
  match σ.threads[t]? with
  | some ⟨_,.send _ handles _ :: _⟩ => some handles.link
  | _ => none

/-- A step of another thread that changes the counter on which a send of thread `t` is at
work. -/
def interference (t : Nat) (σ : System) (a : Action) (σ' : System) : Nat :=
  match σ.sendingLink t with
  | none => 0
  | some l =>
      if a.thread ≠ t ∧ (ledger σ'.links l).pending ≠ (ledger σ.links l).pending then 1 else 0

theorem System.In.sendingLink_eq {σ : System} {t : Nat} {call : SendCall} {handles : SendHandles}
    {pc : SendPc call} {base : List Frame} (h : σ.In t (.send call handles pc) base) :
    σ.sendingLink t = some handles.link := by
  obtain ⟨⟨role,stack⟩,hthread,hstack⟩ := h
  dsimp only at hstack
  subst hstack
  simp [System.sendingLink,hthread]

def SendPc.ahead {call : SendCall} (pending : Nat) : SendPc call → Nat
  | load => 4
  | pc => pc.rank pending

inductive Ahead (σ : System) (t : Nat) (call : SendCall) (base : List Frame) : Nat → Prop where
  | lock (hin : σ.In t (.lock (.sendLookup call)) base) : Ahead σ t call base 6
  | locked (hin : σ.In t (.locked (.sendLookup call)) base) : Ahead σ t call base 5
  | sending (handles : SendHandles) (pc : SendPc call) (hin : σ.In t (.send call handles pc) base) :
      Ahead σ t call base (pc.ahead (ledger σ.links handles.link).pending)

theorem SendPc.ahead_pos {call : SendCall} (pc : SendPc call) (pending : Nat) :
    0 < pc.ahead pending := by
  cases pc with
  | reserve current =>
    simp only [ahead,rank]
    split <;> omega
  | _ => simp [ahead,rank]

theorem SendPc.ahead_le {call : SendCall} (pc : SendPc call) (pending pending' : Nat) :
    pc.ahead pending' ≤ pc.ahead pending + if pending' ≠ pending then 1 else 0 := by
  cases pc with
  | reserve current =>
    simp only [ahead,rank]
    split <;> split <;> split <;> omega
  | _ => exact Nat.le_add_right _ _

theorem Ahead.pos {σ : System} {t : Nat} {call : SendCall} {base : List Frame} {n : Nat}
    (h : Ahead σ t call base n) : 0 < n := by
  cases h with
  | lock | locked => omega
  | sending handles pc hin => exact pc.ahead_pos _

theorem Ahead.other {σ σ' : System} {t : Nat} {a : Action} {call : SendCall} {base : List Frame}
    {n : Nat} (h : Ahead σ t call base n) (hne : a.thread ≠ t)
    (hstep : machine.step σ a = some σ') :
    ∃ m, Ahead σ' t call base m ∧ m ≤ n + interference t σ a σ' := by
  obtain ⟨th,rest,d,hthread,hstack,hmove⟩ := step_moves hstep
  cases h with
  | lock hin => exact ⟨6,.lock (hin.of_other rest d hne),Nat.le_add_right _ _⟩
  | locked hin => exact ⟨5,.locked (hin.of_other rest d hne),Nat.le_add_right _ _⟩
  | sending handles pc hin =>
    refine ⟨_,.sending handles pc (hin.of_other rest d hne),?_⟩
    simp only [interference,hin.sendingLink_eq,ne_eq,hne,not_false_eq_true,true_and]
    exact pc.ahead_le _ _

theorem SendPc.classified_ahead (call : SendCall) (pending : Nat) :
    (SendPc.classified call).ahead pending ≤ 2 := by
  unfold classified
  split <;> simp [ahead,rank]

/-- A step of a send, by an exchange that may fail spuriously. -/
theorem sendStep_ahead {t : Nat} {call : SendCall} {handles : SendHandles} {spurious : Bool}
    {pc pc' : SendPc call} {link link' : Link}
    (h : sendStep t call handles spurious pc link = (link',.goto pc')) :
    pc'.ahead link'.outgoingPending + 1 ≤
      pc.ahead link.outgoingPending + if spurious = true then 1 else 0 := by
  cases sendStep_cases h with
  | load => simp [SendPc.ahead,SendPc.rank]
  | reserve current hroom hcurrent hswaps =>
    have hclassified := SendPc.classified_ahead call (current+1)
    simp only [SendPc.ahead,SendPc.rank,hcurrent,if_true]
    exact Nat.le_trans (Nat.succ_le_succ hclassified) (Nat.le_add_right _ _)
  | retry current hroom hother =>
    simp only [SendPc.ahead,SendPc.rank,if_true]
    cases spurious with
    | true => split <;> simp
    | false =>
      have hne : current ≠ link.outgoingPending := fun heq => hother ⟨heq.symm,rfl⟩
      simp [hne]
  | fail packet hpacket hblocked => simp [SendPc.ahead,SendPc.rank]

theorem Ahead.own {σ σ' : System} {a : Action} {call : SendCall} {base : List Frame} {n : Nat}
    (h : Ahead σ a.thread call base n) (hstep : machine.step σ a = some σ') :
    (∃ m, Ahead σ' a.thread call base m ∧ m + 1 ≤ n + spuriousFailure a.thread σ a σ') ∨
      ∃ result, σ'.log = σ.log ++ [.returned a.thread .transportSendPacket result] := by
  cases h with
  | lock hin =>
    obtain ⟨th,d,hthread,hstack,hmove,htop,heq,hnext⟩ := hin.move (step_moves hstep) (by simp)
    cases hmove with
    | lock s hfree =>
      cases htop
      exact .inl ⟨5,.locked (hnext _ rfl),Nat.le_add_right _ _⟩
    | _ => cases htop
  | locked hin =>
    obtain ⟨th,d,hthread,hstack,hmove,htop,heq,hnext⟩ := hin.move (step_moves hstep) (by simp)
    cases hmove with
    | sectionGoto s state g hsection =>
      cases htop
      cases hsection with
      | sendLookup call active hactive =>
        exact .inl ⟨4,.sending active.sendHandles .load (hnext _ rfl),Nat.le_add_right _ _⟩
    | sectionRet s state result hsection =>
      cases htop
      exact .inr ⟨result,by rw [heq]; rfl⟩
    | _ => cases htop
  | sending handles pc hin =>
    obtain ⟨th,d,hthread,hstack,hmove,htop,heq,hnext⟩ := hin.move (step_moves hstep) (by simp)
    cases hmove with
    | sendGoto call₀ handles₀ pc₀ pc' link link' hlink hsend =>
      cases htop
      have hahead := sendStep_ahead hsend
      refine .inl ⟨_,.sending handles pc' (hnext _ rfl),?_⟩
      rw [heq,System.apply,ledger_set link' hlink,if_pos rfl,ledger_of_getElem? hlink]
      simpa [spuriousFailure,Link.ledger] using hahead
    | sendRet call₀ handles₀ pc₀ link link' result hlink hsend =>
      cases htop
      exact .inr ⟨some result,by rw [heq]; rfl⟩
    | _ => cases htop

theorem ownEvents_length_le {σ σ' : System} {a : Action} (t : Nat)
    (hstep : machine.step σ a = some σ') :
    (ownEvents t σ.log).length ≤ (ownEvents t σ'.log).length := by
  obtain ⟨th,rest,d,hthread,hstack,hmove⟩ := step_moves hstep
  simp [System.apply]

theorem Ahead.step {σ σ' : System} {t : Nat} {a : Action} {call : SendCall} {base : List Frame}
    {n : Nat} (h : Ahead σ t call base n) (hstep : machine.step σ a = some σ')
    (hquiet : (ownEvents t σ'.log).length ≤ (ownEvents t σ.log).length) :
    ∃ m, Ahead σ' t call base m ∧
      ownStep t σ a σ' + m ≤ n + (spuriousFailure t σ a σ' + interference t σ a σ') := by
  by_cases hthread : a.thread = t
  · subst hthread
    rcases h.own hstep with ⟨m,hm,hle⟩ | ⟨result,hlog⟩
    · refine ⟨m,hm,?_⟩
      rw [ownStep,if_pos rfl]
      omega
    · have hgrown : (ownEvents a.thread σ'.log).length = (ownEvents a.thread σ.log).length + 1 := by
        rw [hlog]
        simp [ownEvents,Event.thread]
      omega
  · obtain ⟨m,hm,hle⟩ := h.other hthread hstep
    refine ⟨m,hm,?_⟩
    rw [ownStep,if_neg hthread]
    omega

/-- A call of `transport_send_packet` that has not returned has taken less than six steps, its
spurious failures and the interferences it met apart. -/
theorem send_steps_lt {σ σ₁ σ' : System} {t : Nat} {call : SendCall} {as : List Action}
    (hstep : machine.step σ ⟨t,.call (.transportSendPacket call)⟩ = some σ₁)
    (hcalled : σ₁.log = σ.log ++ [.called t .transportSendPacket])
    (hrun : machine.run σ₁ as = some σ') (hpending : ownEvents t σ'.log = ownEvents t σ₁.log) :
    machine.cost (ownStep t) σ₁ as < 6 +
      (machine.cost (spuriousFailure t) σ₁ as + machine.cost (interference t) σ₁ as) := by
  obtain ⟨s,base,henter,hentered⟩ := step_called hstep hcalled
  have hlookup : s = .sendLookup call := by
    simp only [ApiCall.enter] at henter
    split at henter <;> cases henter
    rfl
  subst hlookup
  have hmono : ∀ σ₂ a σ₃, machine.step σ₂ a = some σ₃ →
      (ownEvents t σ₂.log).length ≤ (ownEvents t σ₃.log).length :=
    fun _ _ _ hnext => ownEvents_length_le t hnext
  have hahead : ∀ σ₂ a σ₃ n, Ahead σ₂ t call base n → machine.step σ₂ a = some σ₃ →
      (ownEvents t σ₃.log).length ≤ (ownEvents t σ₂.log).length → ∃ m, Ahead σ₃ t call base m ∧
        ownStep t σ₂ a σ₃ + m ≤ n + (spuriousFailure t σ₂ a σ₃ + interference t σ₂ a σ₃) :=
    fun _ _ _ _ hahead => hahead.step
  obtain ⟨m,hm,hle⟩ := Machine.cost_le_of_potential hmono hahead (.lock hentered.at_lock) hrun
    (by rw [hpending])
  have hpos := hm.pos
  rw [Machine.cost_add] at hle
  omega

/-- The counter is read, changed by another send, exchanged in vain and exchanged again. -/
theorem send_steps_lt_contended : ∃ σ σ₁ σ' as, Reachable σ ∧
    machine.step σ ⟨0,.call (.transportSendPacket ⟨1,some [3,12,0],3⟩)⟩ = some σ₁ ∧
    σ₁.log = σ.log ++ [.called 0 .transportSendPacket] ∧ machine.run σ₁ as = some σ' ∧
    ownEvents 0 σ'.log = ownEvents 0 σ₁.log ∧ machine.cost (ownStep 0) σ₁ as = 5 ∧
    machine.cost (spuriousFailure 0) σ₁ as + machine.cost (interference 0) σ₁ as = 1 ∧
    machine.cost (ownStep 0) σ₁ as < 6 +
      (machine.cost (spuriousFailure 0) σ₁ as + machine.cost (interference 0) σ₁ as) := by
  let as := Action.by 0 [.go,.go,.go] ++
    Action.by 1 [.call (.transportSendPacket ⟨1,some [3,12,0],3⟩),.go,.go,.go,.go] ++
    Action.by 0 [.go,.go]
  have hrun : ((machine.run (System.initial 2 none) (openRun 0 dongle dongleInterface [])).bind
      fun σ => (machine.step σ ⟨0,.call (.transportSendPacket ⟨1,some [3,12,0],3⟩)⟩).bind fun σ₁ =>
      (machine.run σ₁ as).map fun σ' =>
        (decide (σ₁.log = σ.log ++ [.called 0 .transportSendPacket]),
          decide (ownEvents 0 σ'.log = ownEvents 0 σ₁.log),machine.cost (ownStep 0) σ₁ as,
          machine.cost (spuriousFailure 0) σ₁ as + machine.cost (interference 0) σ₁ as)) =
      some (true,true,5,1) := rfl
  obtain ⟨σ,hσ,hrun⟩ := Option.bind_eq_some_iff.mp hrun
  obtain ⟨σ₁,hσ₁,hrun⟩ := Option.bind_eq_some_iff.mp hrun
  obtain ⟨σ',hσ',hvalues⟩ := Option.map_eq_some_iff.mp hrun
  simp only [Prod.mk.injEq,decide_eq_true_eq] at hvalues
  obtain ⟨hcalled,hpending,hown,hmet⟩ := hvalues
  exact ⟨σ,σ₁,σ',as,Reachable.of_run hσ,hσ₁,hcalled,hσ',hpending,hown,hmet,
    send_steps_lt hσ₁ hcalled hσ' hpending⟩

end BtstackRs.Transport
