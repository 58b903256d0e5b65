import BtstackRs.Gatt.Release

/-!
# What callers are told

Of the operations on a handle only the first one waits for the loop thread, and it alone can tell
that the thread has panicked; a drop keeps that to itself. All later results are `Ok`.
-/

namespace BtstackRs.Gatt

open Concurrent

def Event.answerOn (h : Nat) : Event → Option (Op × Option BtstackRuntimeError)
  | returned h' op error => if h' = h then some (op,error) else none
  | _ => none

/-- The operations on a handle that have returned and their results, oldest first. -/
def answersOf (h : Nat) (log : List Event) : List (Op × Option BtstackRuntimeError) :=
  log.filterMap (Event.answerOn h)

theorem answersOf_append (h : Nat) (log new : List Event) :
    answersOf h (log ++ new) = answersOf h log ++ answersOf h new :=
  List.filterMap_append

@[simp] theorem answersOf_nil (h : Nat) : answersOf h [] = [] := rfl

@[simp] theorem answersOf_returned (h : Nat) (op : Op) (error : Option BtstackRuntimeError)
    (log : List Event) :
    answersOf h (.returned h op error :: log) = (op,error) :: answersOf h log := by
  simp [answersOf,Event.answerOn]

@[simp] theorem answersOf_called (h h' : Nat) (op : Op) (log : List Event) :
    answersOf h (.called h' op :: log) = answersOf h log := rfl

@[simp] theorem answersOf_triggerExit (h h' : Nat) (log : List Event) :
    answersOf h (.triggerExit h' :: log) = answersOf h log := rfl

@[simp] theorem answersOf_deactivated (h h' : Nat) (log : List Event) :
    answersOf h (.deactivated h' :: log) = answersOf h log := rfl

/-- What the first operation finds out about the loop thread. -/
def firstAnswer (panicked : Bool) (op : Op) : Op × Option BtstackRuntimeError :=
  (op,if panicked = true ∧ op ≠ .drop then some .loopThreadPanicked else none)

def answers (panicked : Bool) : List Op → List (Op × Option BtstackRuntimeError)
  | [] => []
  | op :: later => firstAnswer panicked op :: later.map (·,none)

theorem answers_concat {panicked : Bool} {ops : List Op} (hfirst : ops = [] → panicked = false)
    (op : Op) : answers panicked (ops ++ [op]) = answers panicked ops ++ [(op,none)] := by
  cases ops with
  | nil => simp [answers,firstAnswer,hfirst rfl]
  | cons first later => simp [answers]

inductive Answered : BtstackRuntime → List Op → List (Op × Option BtstackRuntimeError) → Prop where
  | starting (calls : List InitCall) : Answered ⟨.starting calls,false,.notSpawned⟩ [] []
  | owning (loop : LoopThread) : Answered ⟨.idle,true,loop⟩ [] []
  | joining (op : Op) (loop : LoopThread) : Answered ⟨.joining op,false,loop⟩ [op] []
  | idle (panicked : Bool) (ops : List Op) (hne : ops ≠ []) :
      Answered ⟨.idle,false,.ended panicked⟩ ops (answers panicked ops)
  | deinitialising (panicked : Bool) (calls : List DeinitCall) (op : Op) (ops : List Op)
      (hfirst : ops = [] → panicked = false) :
      Answered ⟨.deinitialising calls op,false,.ended panicked⟩ (ops ++ [op]) (answers panicked ops)
  | dropped (panicked : Bool) (ops : List Op) :
      Answered ⟨.dropped,false,.ended panicked⟩ ops (answers panicked ops)

theorem Answered.returned (panicked : Bool) (op : Op) (ops : List Op) :
    Answered ⟨op.after,false,.ended panicked⟩ (ops ++ [op]) (answers panicked (ops ++ [op])) := by
  cases op with
  | join | shutdown => exact .idle panicked _ (by simp)
  | drop => exact .dropped panicked _

theorem BtstackRuntime.error_of_joined {h : Nat} {r : BtstackRuntime} {c : Choice} {op : Op}
    {panicked : Bool} {error : Option BtstackRuntimeError}
    (hstep : r.step h c = some ⟨{ r with pc := op.after },[.returned h op error],false⟩)
    (hpc : r.pc = .joining op) (hloop : r.loop = .ended panicked) :
    (op,error) = firstAnswer panicked op := by
  unfold BtstackRuntime.step at hstep
  cases c with
  | call op' => simp [hpc] at hstep
  | exit panicked' => simp [hloop] at hstep
  | go =>
    simp only [hpc,hloop] at hstep
    cases op <;> cases panicked <;> simp_all [BtstackRuntime.joined,firstAnswer]

theorem Answered.step {h : Nat} {r : BtstackRuntime} {c : Choice} {e : Effect} {ops : List Op}
    {given : List (Op × Option BtstackRuntimeError)} (hr : Answered r ops given)
    (hstep : r.step h c = some e) :
    Answered e.runtime (ops ++ callsOf h e.events) (given ++ answersOf h e.events) := by
  have hdoes := BtstackRuntime.does_of_step hstep
  obtain ⟨pc,thread,loop⟩ := r
  cases hdoes with
  | init call calls hpc =>
    cases hpc
    cases hr with
    | starting => exact .starting calls
  | spawn hpc =>
    cases hpc
    cases hr with
    | starting => exact .owning .running
  | exit panicked hloop =>
    cases hloop
    cases hr with
    | owning => exact .owning _
    | joining op => exact .joining op _
  | take op hpc hthread =>
    cases hpc
    cases hthread
    cases hr with
    | owning =>
      have hjoining := Answered.joining op loop
      cases op <;> simpa using hjoining
  | again hpc hthread =>
    cases hpc
    cases hthread
    cases hr with
    | idle panicked ops hne =>
      have hreturned := Answered.returned panicked .join ops
      rw [answers_concat (fun hempty => absurd hempty hne)] at hreturned
      simpa [Op.after] using hreturned
  | shutdown hpc hthread =>
    cases hpc
    cases hthread
    cases hr with
    | idle panicked ops hne =>
      have hdeinit := Answered.deinitialising panicked deinitCalls .shutdown ops
        (fun hempty => absurd hempty hne)
      simpa using hdeinit
  | drop hpc hthread =>
    cases hpc
    cases hthread
    cases hr with
    | idle panicked ops hne =>
      have hreturned := Answered.returned panicked .drop ops
      rw [answers_concat (fun hempty => absurd hempty hne)] at hreturned
      simpa [Op.after] using hreturned
  | joined op panicked error hpc hloop hends =>
    cases hpc
    cases hloop
    cases hr with
    | joining =>
      have herror := BtstackRuntime.error_of_joined hstep rfl rfl
      have hgiven : answers panicked [op] = [(op,error)] := by rw [answers,herror,List.map_nil]
      have hcalls : callsOf h [.returned h op error] = [] := rfl
      have hreturned := Answered.returned panicked op []
      rw [List.nil_append,hgiven] at hreturned
      simpa [hcalls] using hreturned
  | passed op hpc hloop hop =>
    cases hpc
    cases hloop
    cases hr with
    | joining => exact .deinitialising false deinitCalls op [] (fun _ => rfl)
  | deinit call calls op hpc =>
    cases hpc
    cases hr with
    | deinitialising panicked _ _ ops hfirst =>
      have hnext := Answered.deinitialising panicked calls op ops hfirst
      have hcalls : callsOf h [.deinit h call] = [] := rfl
      have hgiven : answersOf h [.deinit h call] = [] := rfl
      simpa [hcalls,hgiven] using hnext
  | deactivate op hpc =>
    cases hpc
    cases hr with
    | deinitialising panicked _ _ ops hfirst =>
      have hcalls : callsOf h [.deactivated h,.returned h op none] = [] := rfl
      have hgiven : answersOf h [.deactivated h,.returned h op none] = [(op,none)] := by simp
      rw [hcalls,hgiven,List.append_nil,← answers_concat hfirst]
      exact .returned panicked op ops

theorem answersOf_eventsOf (h : Nat) (log : List Event) :
    answersOf h (eventsOf h log) = answersOf h log := by
  rw [answersOf,eventsOf,about,List.filterMap_filter,answersOf]
  apply List.filterMap_congr
  intro e _
  cases e with
  | returned h' op error => by_cases hh : h' = h <;> simp [Event.answerOn,Event.handle,hh]
  | _ =>
    split
    · rfl
    · rfl

theorem Reached.answered {p : Process} (hp : Reached p) {h : Nat} {r : BtstackRuntime}
    (hhandle : p.handles[h]? = some r) : Answered r (callsOf h p.log) (answersOf h p.log) := by
  have hown : Answered r (callsOf h (eventsOf h p.log)) (answersOf h (eventsOf h p.log)) := by
    apply hp.step_invariant (P := fun h r events => Answered r (callsOf h events)
      (answersOf h events)) _ _ hhandle
    · exact fun h => .starting _
    · intro h r c e events hr hstep
      have hnext := hr.step hstep
      rwa [← callsOf_append,← answersOf_append] at hnext
  rwa [callsOf_eventsOf,answersOf_eventsOf] at hown

/-- In every run the results on a handle are those of its operations in turn, at most one of which
has not returned yet; none has returned before the loop thread has ended, and only the first one
can tell that it has panicked. -/
theorem answers_of_run {p : Process} (hp : Reached p) {h : Nat} {r : BtstackRuntime}
    (hhandle : p.handles[h]? = some r) :
    ∃ pending, pending.length ≤ 1 ∧ ∃ done, callsOf h p.log = done ++ pending ∧
      answersOf h p.log = answers (p.log.contains (.exited h true)) done ∧
      (done ≠ [] → ∃ panicked, .exited h panicked ∈ p.log) := by
  have hexited := hp.exited_iff hhandle
  have hanswered := hp.answered hhandle
  obtain ⟨pc,thread,loop⟩ := r
  have hpanicked : ∀ panicked, loop = .ended panicked →
      p.log.contains (.exited h true) = panicked := by
    intro panicked hloop
    rw [Bool.eq_iff_iff,List.contains_iff_mem,← hexited true,hloop]
    simp
  generalize callsOf h p.log = ops at hanswered ⊢
  generalize answersOf h p.log = given at hanswered ⊢
  cases hanswered with
  | starting | owning => exact ⟨[],by simp,[],rfl,rfl,fun hne => absurd rfl hne⟩
  | joining op => exact ⟨[op],by simp,[],rfl,rfl,fun hne => absurd rfl hne⟩
  | idle panicked ops | dropped panicked ops =>
    rw [hpanicked panicked rfl]
    exact ⟨[],by simp,ops,by simp,rfl,fun _ => ⟨panicked,(hexited panicked).mp rfl⟩⟩
  | deinitialising panicked calls op ops =>
    rw [hpanicked panicked rfl]
    exact ⟨[op],by simp,ops,rfl,rfl,fun _ => ⟨panicked,(hexited panicked).mp rfl⟩⟩

/-- The loop thread panics while it is joined, and the runtime is shut down after that. -/
theorem answers_of_run_panicked : ∃ p r,
    lifecycle.run {} (startRun 0 ++ Action.on 0 [.call .join,.exit true,.go,.call .shutdown]) =
      some p ∧
    p.handles[0]? = some r ∧ callsOf 0 p.log = [.join,.shutdown] ∧
    ∃ pending, pending.length ≤ 1 ∧ ∃ done, [.join,.shutdown] = done ++ pending ∧
      answersOf 0 p.log = answers true done ∧
      (done ≠ [] → ∃ panicked, .exited 0 panicked ∈ p.log) := by
  have hrun : (lifecycle.run {} (startRun 0 ++ Action.on 0 [.call .join,.exit true,.go,
      .call .shutdown])).map (fun p => (p.handles[0]?,callsOf 0 p.log,
        p.log.contains (.exited 0 true))) =
      some (some ⟨.deinitialising deinitCalls .shutdown,false,.ended true⟩,[.join,.shutdown],
        true) := rfl
  obtain ⟨p,hp,hvalues⟩ := Option.map_eq_some_iff.mp hrun
  simp only [Prod.mk.injEq] at hvalues
  obtain ⟨hhandle,hcalls,hpanicked⟩ := hvalues
  have hanswers := answers_of_run (Reached.of_run hp) hhandle
  rw [hcalls,hpanicked] at hanswers
  exact ⟨p,_,hp,hhandle,hcalls,hanswers⟩

end BtstackRs.Gatt
