import BtstackRs.Transport.OpenCall
import BtstackRs.Transport.Quiescence

/-!
# Epochs

What `transport_open` and `transport_close` promise to a caller that uses them in turn: between
the calls the transport is open with its three workers or closed without any, a call that cannot
open it leaves everything as it was, and a closed transport stays silent.
-/

namespace BtstackRs.Transport

open Concurrent

/-- What holds between the calls. -/
structure AtBoundary (σ : System) : Prop where
  active_iff : σ.state.active.isSome = opened σ.log
  workers_iff : ∀ w, (IsWorker σ.threads w ∧ σ.finished w = false) ↔ w ∈ σ.state.workers
  recorded : ∀ active, σ.state.active = some active → active.Recorded σ.threads
  three_workers : ∀ active, σ.state.active = some active →
    active.workers.Nodup ∧ active.workers.length = 3

/-- What a single call of `transport_open` leads to. -/
def OpensOrUnchanged (σ : System) : Prop :=
  ∀ actions σ' t during result, OpenCall σ actions σ' t during result →
    (σ'.state.active.isSome = true ↔ result = 0) ∧
      (σ.state.active.isSome = true → result = 0 ∧ during = [] ∧ Unchanged σ actions σ' t) ∧
      (result ≠ 0 → result = -1 ∧ during = [] ∧ Unchanged σ actions σ' t)

/-- Nothing is delivered, handed to USB or accepted before `transport_open` is called. -/
def QuietUntilOpen (σ : System) : Prop :=
  ∀ allow σ', machine.Steps allow σ σ' → ∃ events, σ'.log = σ.log ++ events ∧
    ((∀ t, .called t .transportOpen ∉ events) → QuietRun σ σ' events)

theorem transportLifecycle {σ : System} (h : ReachableInTurn σ) (hboundary : σ.lifecycleCalls = 0) :
    AtBoundary σ ∧ OpensOrUnchanged σ ∧ (σ.state.active = none → QuietUntilOpen σ) := by
  refine ⟨⟨?_,h.workers_iff hboundary,?_,?_⟩,?_,?_⟩
  · exact h.active_isSome (closing_eq_zero hboundary)
  · exact fun active hactive => h.reachable.wellRecorded.active active hactive
  · exact fun active hactive => (h.reachable.wellRecorded.active active hactive).nodup
  · exact fun actions σ' t during result hcall => hcall.result_cases
  · exact fun hclosed allow σ' hrun => (h.quiet hboundary hclosed).steps h.reachable hrun

/-- A transport is opened, and closed while its device is silent but for one empty event and one
empty ACL transfer. -/
theorem transportLifecycle_closed : ∃ σ,
    machine.runWhere System.callsInTurn (System.initial 1 none)
      (openRun 0 dongle dongleInterface [] ++ Action.by 1 [.go] ++ Action.by 2 [.go] ++
        Action.by 0 [.call .transportClose,.go,.go,.go] ++
        Action.by 1 [.completion ⟨.ok,[]⟩,.go,.go,.go,.go,.go,.go] ++
        Action.by 2 [.completion ⟨.ok,[]⟩,.go,.go,.go,.go,.go,.go] ++
        Action.by 3 [.go,.go,.go] ++ Action.by 0 [.go,.go,.go,.go]) = some σ ∧
    σ.threads.length = 4 ∧ AtBoundary σ ∧ OpensOrUnchanged σ ∧ QuietUntilOpen σ := by
  have hrun : ((machine.runWhere System.callsInTurn (System.initial 1 none)
      (openRun 0 dongle dongleInterface [] ++ Action.by 1 [.go] ++ Action.by 2 [.go] ++
        Action.by 0 [.call .transportClose,.go,.go,.go] ++
        Action.by 1 [.completion ⟨.ok,[]⟩,.go,.go,.go,.go,.go,.go] ++
        Action.by 2 [.completion ⟨.ok,[]⟩,.go,.go,.go,.go,.go,.go] ++
        Action.by 3 [.go,.go,.go] ++ Action.by 0 [.go,.go,.go,.go])).map fun σ =>
          (σ.threads.length,σ.lifecycleCalls,σ.state.active.isSome)) = some (4,0,false) := rfl
  obtain ⟨σ,hσ,hvalues⟩ := Option.map_eq_some_iff.mp hrun
  simp only [Prod.mk.injEq,Option.isSome_eq_false_iff,Option.isNone_iff_eq_none] at hvalues
  obtain ⟨hthreads,hboundary,hclosed⟩ := hvalues
  have hreach : ReachableInTurn σ := ⟨_,⟨1,none,rfl⟩,Machine.steps_of_runWhere hσ⟩
  obtain ⟨hbetween,hopens,hquiet⟩ := transportLifecycle hreach hboundary
  exact ⟨σ,hσ,hthreads,hbetween,hopens,hquiet hclosed⟩

end BtstackRs.Transport
