import BtstackRs.Transport.Mutex

/-!
# Leaving a thread out

The system without a thread's stack, its guard and its part of the log is what the other threads
see of it. As long as that thread keeps no sender alive, they take the same steps without it.
-/

namespace BtstackRs.Transport

open Concurrent

namespace System

/-- The system as it is without the call that thread `t` makes. -/
def without (σ : System) (t : Nat) : System :=
  { σ with
    mutex := σ.mutex.filter (fun u => u != t)
    threads := σ.threads.setStack t []
    log := σ.log.filter (fun e => e.thread ≠ t) }

@[simp] theorem without_state (σ : System) (t : Nat) : (σ.without t).state = σ.state := rfl

@[simp] theorem without_links (σ : System) (t : Nat) : (σ.without t).links = σ.links := rfl

@[simp] theorem without_setLink (σ : System) (t l : Nat) (link : Link) :
    (σ.setLink l link).without t = (σ.without t).setLink l link := rfl

theorem without_record (σ : System) {t : Nat} {e : Event} (h : e.thread ≠ t) :
    (σ.record e).without t = (σ.without t).record e := by
  simp [without,record,List.filter_append,h]

theorem without_setStack (σ : System) {t u : Nat} (h : u ≠ t) (stack : List Frame) :
    (σ.setStack u stack).without t = (σ.without t).setStack u stack := by
  have hswap : (σ.threads.setStack u stack).setStack t [] =
      (σ.threads.setStack t []).setStack u stack := by
    apply List.ext_getElem?
    intro v
    simp only [Pool.getElem?_setStack]
    by_cases hvt : v = t
    · have hvu : v ≠ u := by omega
      simp [hvt,h.symm]
    · simp [hvt]
  simp [without,setStack,hswap]

theorem without_spawn (σ : System) {t : Nat} (h : t < σ.threads.length) (role : Role) :
    (σ.spawn role).without t = (σ.without t).spawn role := by
  have hswap := Pool.setStack_append h [{ role := role, stack := [] }] []
  simp [without,spawn,hswap]

theorem without_proceed (σ : System) {t u : Nat} (h : u ≠ t) (f : Frame) (rest : List Frame)
    (next : Next) : (σ.proceed u f rest next).without t = (σ.without t).proceed u f rest next := by
  cases next with
  | goto g => exact without_setStack σ h _
  | call g callee => exact without_setStack σ h _
  | ret result =>
    simp only [proceed]
    rw [without_record _ (e := .returned u f.fn result) h,without_setStack _ h]
    rfl

theorem without_startCall (σ : System) {t u : Nat} (h : u ≠ t) (stack : List Frame)
    (op : ApiCall) : (σ.startCall u stack op).without t = (σ.without t).startCall u stack op := by
  unfold startCall
  cases op.enter with
  | inl f => rw [without_record _ (e := .called u op.fn) h,without_setStack _ h]
  | inr result =>
    rw [without_record _ (e := .returned u op.fn (some result)) h,
      without_record _ (e := .called u op.fn) h]

theorem finished_without (σ : System) (t w : Nat) : (σ.without t).finished w = σ.finished w := by
  unfold finished without
  rw [Pool.getElem?_setStack]
  by_cases hw : w = t
  · subst hw
    cases σ.threads[w]? <;> simp
  · simp [hw]

theorem criticalSection_without (σ : System) (t : Nat) (s : Section) :
    (σ.without t).criticalSection s = σ.criticalSection s := by
  cases s <;> rfl

theorem senderAlive_without {σ : System} {t : Nat} {th : Thread Role Frame}
    (hthread : σ.threads[t]? = some th) (l : Nat)
    (hholds : ∀ f ∈ th.stack, f.holdsSender l = false) :
    (σ.without t).senderAlive l = σ.senderAlive l := by
  unfold senderAlive without
  rw [Pool.any_setStack_nil (Frame.holdsSender l) hthread hholds]

section Others

variable {σ σ' : System} {t u : Nat} {th : Thread Role Frame}
  (hne : u ≠ t) (hthread : σ.threads[t]? = some th)
include hne hthread

private theorem frameStep_without {f : Frame} {rest : List Frame} {c : Choice}
    (h : σ.frameStep u f rest c = some σ') :
    (σ.without t).frameStep u f rest c = some (σ'.without t) := by
  have hlt := (List.getElem?_eq_some_iff.mp hthread).1
  cases f with
  | lock s =>
    simp only [frameStep] at h ⊢
    split at h
    · rename_i hfree
      cases h
      rw [without_setStack _ hne]
      have hkept : (some u).filter (fun v => v != t) = some u := by simp [Option.filter,hne]
      simp [without,hfree,hkept]
    · cases h
  | locked s =>
    cases h
    simp only [frameStep]
    rw [without_proceed _ hne,criticalSection_without]
    rfl
  | opening pc =>
    cases h
    simp only [frameStep]
    rw [without_proceed _ hne]
  | openCreate endpoints =>
    cases h
    simp only [frameStep]
    rw [without_proceed _ hne]
    rfl
  | openSpawn l pc =>
    cases h
    have hlength : (σ.without t).threads.length = σ.threads.length := by simp [without]
    simp only [frameStep]
    rw [without_spawn _ (by simpa [proceed,setStack] using hlt),without_proceed _ hne,hlength]
  | closeStop active =>
    simp only [frameStep,without_links] at h ⊢
    split at h
    · cases h
    · rename_i link hlink
      cases h
      rw [without_proceed _ hne]
      rfl
  | closeJoinReaders active remaining =>
    cases remaining with
    | nil =>
      cases h
      simp only [frameStep]
      rw [without_proceed _ hne]
    | cons w ws =>
      simp only [frameStep,finished_without] at h ⊢
      split at h
      · cases h
        rw [without_proceed _ hne]
        simp_all
      · cases h
  | closeJoinWriter active =>
    simp only [frameStep,finished_without] at h ⊢
    split at h
    · cases h
      rw [without_proceed _ hne]
      simp_all
    · cases h
  | send call handles pc =>
    simp only [frameStep,without_links] at h ⊢
    split at h
    · cases h
    · rename_i link hlink
      cases h
      rw [without_proceed _ hne]
      rfl
  | emitCall site packetType packet handler =>
    cases h
    simp only [frameStep]
    rw [without_record _ (by exact hne),without_setStack _ hne]
  | emitRunning site packetType packet =>
    simp only [frameStep] at h ⊢
    split at h
    · cases h
      rw [without_startCall _ hne]
    · cases h
      rw [without_proceed _ hne,without_record _ (by exact hne)]

private theorem idleStep_without (hholds : ∀ f ∈ th.stack, ∀ l, f.holdsSender l = false)
    {role : Role} {c : Choice} (h : σ.idleStep u role c = some σ') :
    (σ.without t).idleStep u role c = some (σ'.without t) := by
  cases role with
  | client =>
    simp only [idleStep] at h ⊢
    split at h
    · cases h
      rw [without_startCall _ hne]
    · cases h
  | reader kind l =>
    simp only [idleStep,without_links] at h ⊢
    split at h
    · cases h
    · rename_i link hlink
      split at h
      · cases h
      · rename_i r hreader
        split at h
        · cases h
          simp_all
        · cases h
          rw [without_setStack _ hne]
          simp_all
  | writer l =>
    have halive := senderAlive_without hthread l (fun f hf => hholds f hf l)
    simp only [idleStep,without_links,halive] at h ⊢
    split at h
    · cases h
    · rename_i link hlink
      split at h
      · cases h
      · rename_i link' hwriter
        split at h
        · cases h
          rw [without_setStack _ hne]
          simp_all
        · cases h
          simp_all

end Others

/-- The other threads do not notice that a thread is missing. -/
theorem step_without {σ σ' : System} {a : Action} {t : Nat} {th : Thread Role Frame}
    (hne : a.thread ≠ t) (hthread : σ.threads[t]? = some th)
    (hholds : ∀ f ∈ th.stack, ∀ l, f.holdsSender l = false) (h : σ.step a = some σ') :
    (σ.without t).step a = some (σ'.without t) := by
  have hother : (σ.without t).threads[a.thread]? = σ.threads[a.thread]? :=
    Pool.getElem?_setStack_ne _ hne _
  unfold step at h ⊢
  rw [hother]
  split at h
  · cases h
  · rename_i thu hthu
    split at h
    · rename_i hstack
      exact idleStep_without hne hthread hholds h
    · rename_i f rest hstack
      exact frameStep_without hne hthread h

theorem apply_without {σ : System} {t : Nat} (rest : List Frame) {d : Delta}
    (hstate : d.state = σ.state) (hlinks : d.links = σ.links) (hspawned : d.spawned = [])
    (hevents : ∀ e ∈ d.events, e.thread = t)
    (hmutex : d.mutex.filter (fun u => u != t) = σ.mutex.filter (fun u => u != t)) :
    (σ.apply t rest d).without t = σ.without t := by
  have hlog : d.events.filter (fun e => e.thread ≠ t) = [] := by
    rw [List.filter_eq_nil_iff]
    intro e he
    simp [hevents e he]
  simp only [apply,without,hstate,hlinks,hspawned,hmutex,List.map_nil,List.append_nil,
    List.filter_append,hlog,Pool.setStack_setStack]

end System

end BtstackRs.Transport
