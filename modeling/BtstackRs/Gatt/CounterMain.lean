import BtstackRs.Gatt.LoopThread

/-!
# The counter program

`gatt_counter_main` starts a runtime, joins it and drops it. The join takes the loop thread out of
the handle, so that the drop does not shut the runtime down: whoever calls the function, and however
often, one call runs the service and the runtime stays active for the rest of the process.
-/

namespace BtstackRs.Gatt.CounterMain

open Concurrent

/-- Where a call of `gatt_counter_main` is, with the number of its runtime handle. -/
inductive Pc where
  -- Before the exchange of `start_with_init`.
  | entry
  | starting (h : Nat)
  -- Before `runtime.join()`.
  | join (h : Nat)
  | joining (h : Nat)
  -- The value of the function is there, and `runtime` goes out of scope.
  | leaving (h : Nat) (code : Int)
  | returned (code : Int)
  deriving DecidableEq, Repr

def joinCode (p : Process) : Int :=
  match p.log.getLast? with
  | some (.returned _ .join none) => 0
  | _ => -1

/-- `start_with_init` with the closure that calls `btstack_main`, and what follows it. -/
def Pc.step (p : Process) : Pc → Option (Process × Pc)
  | .entry =>
      some (p.startWithInit,if p.runtimeActive then .returned (-1) else .starting p.handles.length)
  | .starting h => (p.step (.own h .go)).map fun p' =>
      (p',if p'.handles[h]?.map BtstackRuntime.pc = some .idle then .join h else .starting h)
  | .join h => (p.step (.own h (.call .join))).map fun p' => (p',.joining h)
  | .joining h => (p.step (.own h .go)).map fun p' => (p',.leaving h (joinCode p'))
  | .leaving h code => (p.step (.own h (.call .drop))).map fun p' => (p',.returned code)
  | .returned _ => none

/-- A process whose threads call nothing but `gatt_counter_main`. -/
structure World where
  process : Process := {}
  callers : List Pc := []

inductive Action where
  | call
  | step (i : Nat)
  | exit (h : Nat) (panicked : Bool)

def World.step (s : World) : Action → Option World
  | .call => some { s with callers := s.callers ++ [.entry] }
  | .step i => s.callers[i]?.bind fun pc => (pc.step s.process).map fun (process,pc') =>
      { process := process, callers := s.callers.set i pc' }
  | .exit h panicked => (s.process.step (.own h (.exit panicked))).map fun process =>
      { s with process := process }

def program : Machine World Action := ⟨World.step⟩

def tearsDown : Event → Bool
  | .triggerExit _ | .deinit _ _ | .deactivated _ => true
  | _ => false

/-- What a call returns when its loop thread has ended. -/
def exitCode (panicked : Bool) : Int := if panicked then -1 else 0

inductive Stage : Pc → BtstackRuntime → Prop where
  | starting (calls : List InitCall) : Stage (.starting 0) ⟨.starting calls,false,.notSpawned⟩
  | join (loop : LoopThread) : Stage (.join 0) ⟨.idle,true,loop⟩
  | joining (loop : LoopThread) : Stage (.joining 0) ⟨.joining .join,false,loop⟩
  | leaving (panicked : Bool) : Stage (.leaving 0 (exitCode panicked)) ⟨.idle,false,.ended panicked⟩
  | returned (panicked : Bool) :
      Stage (.returned (exitCode panicked)) ⟨.dropped,false,.ended panicked⟩

def Pc.Outside (pc : Pc) : Prop := pc = .entry ∨ pc = .returned (-1)

structure OwnedBy (i : Nat) (s : World) : Prop where
  active : s.process.runtimeActive = true
  kept : ∀ e ∈ s.process.log, tearsDown e = false
  stage : ∃ pc r, s.process.handles = [r] ∧ s.callers[i]? = some pc ∧ Stage pc r
  others : ∀ (j : Nat) (pc : Pc), j ≠ i → s.callers[j]? = some pc → pc.Outside

inductive Phase (s : World) : Prop where
  | before (hprocess : s.process = {}) (hcallers : ∀ pc ∈ s.callers, pc = .entry)
  | owned (i : Nat) (howned : OwnedBy i s)

theorem own_eq {p p' : Process} {r : BtstackRuntime} {c : Choice} (hhandles : p.handles = [r])
    (h : p.step (.own 0 c) = some p') : ∃ e, r.step 0 c = some e ∧
      p' = ⟨if e.stores then false else p.runtimeActive,[e.runtime],p.log ++ e.events⟩ := by
  simp only [Process.step,hhandles,List.getElem?_cons_zero] at h
  obtain ⟨e,he,rfl⟩ := Option.map_eq_some_iff.mp h
  exact ⟨e,he,by rw [Process.apply,hhandles,List.set_cons_zero]⟩

theorem Stage.step {p p' : Process} {r : BtstackRuntime} {pc pc' : Pc} (hstage : Stage pc r)
    (hhandles : p.handles = [r]) (h : pc.step p = some (p',pc')) :
    ∃ r' events, p' = ⟨p.runtimeActive,[r'],p.log ++ events⟩ ∧ Stage pc' r' ∧
      ∀ e ∈ events, tearsDown e = false := by
  cases hstage with
  | starting calls =>
    obtain ⟨q,hq,heq⟩ := Option.map_eq_some_iff.mp h
    obtain ⟨e,he,rfl⟩ := own_eq hhandles hq
    cases calls with
    | nil =>
      cases he
      cases heq
      exact ⟨_,_,rfl,.join .running,by simp [tearsDown]⟩
    | cons call calls =>
      cases he
      cases heq
      exact ⟨_,_,rfl,.starting calls,by simp [tearsDown]⟩
  | join loop =>
    obtain ⟨q,hq,heq⟩ := Option.map_eq_some_iff.mp h
    obtain ⟨e,he,rfl⟩ := own_eq hhandles hq
    cases he
    cases heq
    exact ⟨_,_,rfl,.joining loop,by simp [BtstackRuntime.call,BtstackRuntime.join,tearsDown]⟩
  | joining loop =>
    obtain ⟨q,hq,heq⟩ := Option.map_eq_some_iff.mp h
    obtain ⟨e,he,rfl⟩ := own_eq hhandles hq
    cases loop with
    | ended panicked =>
      cases he
      cases heq
      -- the code is read off the event that the join has just logged
      cases panicked with
      | false => exact ⟨_,[.returned 0 .join none],rfl,by simpa [joinCode] using .leaving false,
          by simp [tearsDown]⟩
      | true => exact ⟨_,[.returned 0 .join (some .loopThreadPanicked)],rfl,
          by simpa [joinCode] using .leaving true,by simp [tearsDown]⟩
    | notSpawned => cases he
    | running => cases he
  | leaving panicked =>
    obtain ⟨q,hq,heq⟩ := Option.map_eq_some_iff.mp h
    obtain ⟨e,he,rfl⟩ := own_eq hhandles hq
    cases he
    cases heq
    exact ⟨_,_,rfl,.returned panicked,by simp [BtstackRuntime.call,BtstackRuntime.drop,tearsDown]⟩
  | returned panicked => cases h

theorem Stage.exit {p p' : Process} {r : BtstackRuntime} {pc : Pc} {h : Nat} {panicked : Bool}
    (hstage : Stage pc r) (hhandles : p.handles = [r])
    (hstep : p.step (.own h (.exit panicked)) = some p') :
    ∃ r' events, p' = ⟨p.runtimeActive,[r'],p.log ++ events⟩ ∧ Stage pc r' ∧
      ∀ e ∈ events, tearsDown e = false := by
  cases h with
  | succ h =>
    simp only [Process.step,hhandles,List.getElem?_cons_succ,List.getElem?_nil] at hstep
    cases hstep
  | zero =>
    obtain ⟨e,he,rfl⟩ := own_eq hhandles hstep
    rw [BtstackRuntime.step] at he
    split at he
    · rename_i hrunning
      cases he
      refine ⟨_,_,rfl,?_,by simp [tearsDown]⟩
      cases hstage with
      | join loop => exact .join _
      | joining loop => exact .joining _
      | _ => cases hrunning
    · cases he

variable {s t : World} {a : Action} {i : Nat}

theorem OwnedBy.step (h : OwnedBy i s) (hstep : program.step s a = some t) : OwnedBy i t := by
  obtain ⟨hactive,hkept,⟨pc,r,hhandles,hpc,hstage⟩,hothers⟩ := h
  change s.step a = some t at hstep
  -- the log after a step of the owner's runtime
  have hlonger : ∀ events : List Event, (∀ e ∈ events, tearsDown e = false) →
      ∀ e ∈ s.process.log ++ events, tearsDown e = false :=
    fun events hnew e he => (List.mem_append.mp he).elim (hkept e) (hnew e)
  cases a with
  | call =>
    cases hstep
    refine ⟨hactive,hkept,⟨pc,r,hhandles,?_,hstage⟩,fun j pc' hj hpc' => ?_⟩
    · rw [List.getElem?_append_left (List.getElem?_eq_some_iff.mp hpc).1]
      exact hpc
    · rw [List.getElem?_append] at hpc'
      split at hpc'
      · exact hothers j pc' hj hpc'
      · rw [List.getElem?_singleton] at hpc'
        split at hpc' <;> cases hpc'
        exact .inl rfl
  | exit h panicked =>
    obtain ⟨p',hp',rfl⟩ := Option.map_eq_some_iff.mp hstep
    obtain ⟨r',events,rfl,hstage',hnew⟩ := hstage.exit hhandles hp'
    exact ⟨hactive,hlonger events hnew,⟨pc,r',rfl,hpc,hstage'⟩,hothers⟩
  | step j =>
    obtain ⟨pcj,hpcj,hstep⟩ := Option.bind_eq_some_iff.mp hstep
    obtain ⟨⟨p',pc'⟩,hp',rfl⟩ := Option.map_eq_some_iff.mp hstep
    have hlt := (List.getElem?_eq_some_iff.mp hpcj).1
    by_cases hj : j = i
    · subst hj
      rw [hpcj] at hpc
      cases hpc
      obtain ⟨r',events,rfl,hstage',hnew⟩ := hstage.step hhandles hp'
      refine ⟨hactive,hlonger events hnew,⟨pc',r',rfl,List.getElem?_set_self hlt,hstage'⟩,?_⟩
      intro k pck hk hpck
      rw [List.getElem?_set_ne (Ne.symm hk)] at hpck
      exact hothers k pck hk hpck
    · rcases hothers j pcj hj hpcj with rfl | rfl
      · have hrefused : p' = ⟨true,s.process.handles,s.process.log ++ [.refused .alreadyStarted]⟩ ∧
            pc' = .returned (-1) := by
          simp only [Pc.step,Process.startWithInit,hactive,if_true] at hp'
          cases hp'
          exact ⟨rfl,rfl⟩
        obtain ⟨rfl,rfl⟩ := hrefused
        refine ⟨rfl,hlonger _ (by simp [tearsDown]),⟨pc,r,hhandles,?_,hstage⟩,?_⟩
        · rw [List.getElem?_set_ne hj]
          exact hpc
        · intro k pck hk hpck
          by_cases hkj : j = k
          · subst hkj
            rw [List.getElem?_set_self hlt] at hpck
            cases hpck
            exact .inr rfl
          · rw [List.getElem?_set_ne hkj] at hpck
            exact hothers k pck hk hpck
      · cases hp'

theorem Phase.step (h : Phase s) (hstep : program.step s a = some t) : Phase t := by
  cases h with
  | owned i howned => exact .owned i (howned.step hstep)
  | before hprocess hcallers =>
    change s.step a = some t at hstep
    cases a with
    | call =>
      cases hstep
      refine .before hprocess fun pc hpc => ?_
      rcases List.mem_append.mp hpc with hold | hnew
      · exact hcallers pc hold
      · exact List.mem_singleton.mp hnew
    | exit h panicked =>
      rw [World.step,hprocess] at hstep
      cases hstep
    | step j =>
      obtain ⟨pc,hpc,hstep⟩ := Option.bind_eq_some_iff.mp hstep
      obtain ⟨⟨p',pc'⟩,hp',rfl⟩ := Option.map_eq_some_iff.mp hstep
      cases hcallers pc (List.mem_of_getElem? hpc)
      rw [hprocess] at hp'
      cases hp'
      refine .owned j ⟨rfl,by simp [Process.startWithInit,tearsDown],
        ⟨_,_,rfl,List.getElem?_set_self (List.getElem?_eq_some_iff.mp hpc).1,.starting initCalls⟩,?_⟩
      intro k pck hk hpck
      rw [List.getElem?_set_ne (Ne.symm hk)] at hpck
      exact .inl (hcallers pck (List.mem_of_getElem? hpck))

theorem phase_of_run {as : List Action} (h : program.run {} as = some s) : Phase s := by
  apply Machine.run_induction (P := fun _ s => Phase s) _ _ h
  · exact .before rfl (by simp)
  · intro as s a t _ hbefore hstep
    exact hbefore.step hstep

/-- One process serves one `gatt_counter_main`: at most one call gets a runtime, and all others
return -1. That call returns 0 or -1 for the way its loop thread ended, and neither it nor
anybody else shuts BTstack down. -/
structure ServesOnce (s : World) : Prop where
  single : s.process.handles.length ≤ 1
  active : s.process.runtimeActive = true ↔ ∃ pc ∈ s.callers, pc ≠ .entry
  kept : ∀ e ∈ s.process.log, tearsDown e = false
  others : ∀ (i j : Nat) (pc pc' : Pc), i ≠ j → s.callers[i]? = some pc →
    s.callers[j]? = some pc' → pc.Outside ∨ pc'.Outside
  code : ∀ code, .returned code ∈ s.callers → code = -1 ∨
    code = 0 ∧ ∃ r, s.process.handles = [r] ∧ r.loop = .ended false

theorem Stage.ne_entry {pc : Pc} {r : BtstackRuntime} (h : Stage pc r) : pc ≠ .entry := by
  cases h <;> nofun

theorem Stage.code {code : Int} {r : BtstackRuntime} (h : Stage (.returned code) r) :
    code = -1 ∨ code = 0 ∧ r.loop = .ended false := by
  generalize hpc : Pc.returned code = pc at h
  cases h with
  | returned panicked =>
    cases hpc
    cases panicked with
    | true => exact .inl rfl
    | false => exact .inr ⟨rfl,rfl⟩
  | _ => cases hpc

/-- Every run, of any number of calls from any threads. -/
theorem servesOnce_of_run {as : List Action} (h : program.run {} as = some s) : ServesOnce s := by
  cases phase_of_run h with
  | before hprocess hcallers =>
    refine ⟨by simp [hprocess],⟨?_,?_⟩,by simp [hprocess],?_,?_⟩
    · intro hactive
      rw [hprocess] at hactive
      cases hactive
    · rintro ⟨pc,hpc,hne⟩
      exact absurd (hcallers pc hpc) hne
    · intro i j pc pc' _ hpc _
      exact .inl (.inl (hcallers pc (List.mem_of_getElem? hpc)))
    · intro code hcode
      cases hcallers _ hcode
  | owned i howned =>
    obtain ⟨hactive,hkept,⟨pc,r,hhandles,hpc,hstage⟩,hothers⟩ := howned
    refine ⟨by simp [hhandles],?_,hkept,?_,?_⟩
    · exact iff_of_true hactive ⟨pc,List.mem_of_getElem? hpc,hstage.ne_entry⟩
    · intro j k pcj pck hne hpcj hpck
      by_cases hj : j = i
      · exact .inr (hothers k pck (fun hk => hne (hj.trans hk.symm)) hpck)
      · exact .inl (hothers j pcj hj hpcj)
    · intro code hcode
      obtain ⟨j,hj⟩ := List.mem_iff_getElem?.mp hcode
      by_cases hji : j = i
      · rw [hji,hpc] at hj
        cases hj
        rcases hstage.code with hminus | ⟨hzero,hloop⟩
        · exact .inl hminus
        · exact .inr ⟨hzero,r,hhandles,hloop⟩
      · rcases hothers j _ hji hj with hentry | hreturned
        · cases hentry
        · cases hreturned
          exact .inl rfl

def twoCalls : List Action :=
  [.call,.step 0,.step 0,.step 0,.step 0,.step 0,.step 0,.call,.exit 0 false,.step 0,.step 0,.step 1]

theorem servesOnce_of_run_twoCalls : ∃ s, program.run {} twoCalls = some s ∧
    s.callers = [.returned 0,.returned (-1)] ∧ ServesOnce s := by
  have hruns : (program.run {} twoCalls).map World.callers = some [.returned 0,.returned (-1)] := by
    decide
  obtain ⟨s,hs,hcallers⟩ := Option.map_eq_some_iff.mp hruns
  exact ⟨s,hs,hcallers,servesOnce_of_run hs⟩

end BtstackRs.Gatt.CounterMain
