import BtstackRs.Concurrent.History
import BtstackRs.Concurrent.Refinement

/-!
# A pipeline with a bounded number of items

Items are accepted into a queue, handed over to a device in the same order, and settled there. At
most `capacity` of them are on their way. Some items hold up the others: nothing more is handed over
before such an item is settled.
-/

namespace Concurrent

universe u

structure Pipeline (Item : Type u) where
  -- Accepted and not handed over, oldest first.
  waiting : List Item := []
  -- Handed over and not settled, not counting an item that holds up the others.
  shared : Nat := 0
  -- An item that holds up the others has not been settled.
  heldUp : Bool := false

namespace Pipeline

inductive Event (Item : Type u) where
  | accept (x : Item)
  | handOver (x : Item)
  | settle

variable {Item : Type u}

def outstanding (p : Pipeline Item) : Nat := p.shared + p.heldUp.toNat

def load (p : Pipeline Item) : Nat := p.waiting.length + p.outstanding

variable [DecidableEq Item]

def step (capacity : Nat) (holdsUp : Item → Bool) (p : Pipeline Item) :
    Event Item → Option (Pipeline Item)
  | .accept x =>
      if p.load < capacity then some { p with waiting := p.waiting ++ [x] } else none
  | .handOver x =>
      match p.waiting with
      | [] => none
      | y :: rest =>
          if y = x ∧ p.heldUp = false then
            if holdsUp x then some { p with waiting := rest, heldUp := true }
            else some { p with waiting := rest, shared := p.shared+1 }
          else none
  | .settle =>
      if p.heldUp then some { p with heldUp := false }
      else if 0 < p.shared then some { p with shared := p.shared-1 }
      else none

end Pipeline

def pipeline {Item : Type u} [DecidableEq Item] (capacity : Nat) (holdsUp : Item → Bool) :
    Machine (Pipeline Item) (Pipeline.Event Item) := ⟨Pipeline.step capacity holdsUp⟩

namespace Pipeline

variable {Item : Type u}

def Event.accepted : Event Item → Option Item
  | .accept x => some x
  | _ => none

def Event.handed : Event Item → Option Item
  | .handOver x => some x
  | _ => none

def Event.settles : Event Item → Bool
  | .settle => true
  | _ => false

def accepted (events : List (Event Item)) : List Item := events.filterMap Event.accepted

def handed (events : List (Event Item)) : List Item := events.filterMap Event.handed

def settled (events : List (Event Item)) : Nat := events.countP Event.settles

section Reading

variable (events : List (Event Item)) (x : Item)

@[simp] theorem accepted_accept : accepted (events ++ [.accept x]) = accepted events ++ [x] := by
  simp [accepted,Event.accepted]

@[simp] theorem accepted_handOver : accepted (events ++ [.handOver x]) = accepted events := by
  simp [accepted,Event.accepted]

@[simp] theorem accepted_settle : accepted (events ++ [.settle]) = accepted events := by
  simp [accepted,Event.accepted]

@[simp] theorem handed_accept : handed (events ++ [.accept x]) = handed events := by
  simp [handed,Event.handed]

@[simp] theorem handed_handOver : handed (events ++ [.handOver x]) = handed events ++ [x] := by
  simp [handed,Event.handed]

@[simp] theorem handed_settle : handed (events ++ [.settle]) = handed events := by
  simp [handed,Event.handed]

@[simp] theorem settled_accept : settled (events ++ [.accept x]) = settled events := by
  simp [settled,Event.settles]

@[simp] theorem settled_handOver : settled (events ++ [.handOver x]) = settled events := by
  simp [settled,Event.settles]

@[simp] theorem settled_settle : settled (events ++ [.settle]) = settled events + 1 := by
  simp [settled,Event.settles]

end Reading

variable {capacity : Nat} {holdsUp : Item → Bool}

inductive Step (capacity : Nat) (holdsUp : Item → Bool) (p : Pipeline Item) :
    Event Item → Pipeline Item → Prop where
  | accept (x : Item) (hroom : p.load < capacity) :
      Step capacity holdsUp p (.accept x) { p with waiting := p.waiting ++ [x] }
  | handShared (x : Item) (rest : List Item) (hwaiting : p.waiting = x :: rest)
      (hfree : p.heldUp = false) (hshared : holdsUp x = false) :
      Step capacity holdsUp p (.handOver x) { p with waiting := rest, shared := p.shared+1 }
  | handHolding (x : Item) (rest : List Item) (hwaiting : p.waiting = x :: rest)
      (hfree : p.heldUp = false) (hheld : holdsUp x = true) :
      Step capacity holdsUp p (.handOver x) { p with waiting := rest, heldUp := true }
  | settleHolding (hheld : p.heldUp = true) :
      Step capacity holdsUp p .settle { p with heldUp := false }
  | settleShared (hfree : p.heldUp = false) (hpos : 0 < p.shared) :
      Step capacity holdsUp p .settle { p with shared := p.shared-1 }

/-- What every run satisfies: first in, first out; every item handed over is settled or
outstanding; and the load stays within the capacity. -/
structure Lawful (capacity : Nat) (events : List (Event Item)) (p : Pipeline Item) : Prop where
  accepted_eq : accepted events = handed events ++ p.waiting
  handed_eq : (handed events).length = settled events + p.outstanding
  load_le : p.load ≤ capacity

theorem Lawful.concat {events : List (Event Item)} {p q : Pipeline Item} {e : Event Item}
    (h : Lawful capacity events p) (hstep : Step capacity holdsUp p e q) :
    Lawful capacity (events ++ [e]) q := by
  have hhanded := h.handed_eq
  have hload := h.load_le
  unfold load outstanding at *
  cases hstep with
  | accept x hroom =>
    refine ⟨by simp [h.accepted_eq],by simpa [outstanding] using hhanded,?_⟩
    simp only [load,outstanding,List.length_append,List.length_singleton] at hroom ⊢
    omega
  | handShared x rest hwaiting hfree hshared =>
    simp only [hwaiting,hfree,List.length_cons,Bool.toNat_false] at hhanded hload
    refine ⟨by simp [h.accepted_eq,hwaiting],?_,?_⟩
    · simp [hfree,hhanded,outstanding,Nat.add_assoc]
    · simp only [load,outstanding,hfree,Bool.toNat_false]
      omega
  | handHolding x rest hwaiting hfree hheld =>
    simp only [hwaiting,hfree,List.length_cons,Bool.toNat_false] at hhanded hload
    refine ⟨by simp [h.accepted_eq,hwaiting],?_,?_⟩
    · simp [hhanded,outstanding,Nat.add_assoc]
    · simp only [load,outstanding,Bool.toNat_true]
      omega
  | settleHolding hheld =>
    simp only [hheld,Bool.toNat_true] at hhanded hload
    refine ⟨by simp [h.accepted_eq],?_,?_⟩
    · simp [hhanded,outstanding,Nat.add_assoc,Nat.add_comm 1]
    · simp only [load,outstanding,Bool.toNat_false]
      omega
  | settleShared hfree hpos =>
    simp only [hfree,Bool.toNat_false] at hhanded hload
    refine ⟨by simp [h.accepted_eq],?_,?_⟩
    · simp only [handed_settle,settled_settle,outstanding,hfree,Bool.toNat_false]
      omega
    · simp only [load,outstanding,hfree,Bool.toNat_false]
      omega

variable [DecidableEq Item]

theorem step_cases {p q : Pipeline Item} {e : Event Item}
    (h : (pipeline capacity holdsUp).step p e = some q) : Step capacity holdsUp p e q := by
  change step capacity holdsUp p e = some q at h
  cases e with
  | accept x =>
    simp only [step] at h
    split at h <;> cases h
    rename_i hroom
    exact .accept x hroom
  | handOver x =>
    simp only [step] at h
    split at h
    · cases h
    · rename_i y rest hwaiting
      split at h
      · rename_i hguard
        obtain ⟨rfl,hfree⟩ := hguard
        split at h <;> cases h
        · rename_i hheld
          exact .handHolding y rest hwaiting hfree hheld
        · rename_i hshared
          exact .handShared y rest hwaiting hfree (Bool.not_eq_true _ ▸ hshared)
      · cases h
  | settle =>
    simp only [step] at h
    split at h
    · rename_i hheld
      cases h
      exact .settleHolding hheld
    · rename_i hfree
      split at h <;> cases h
      rename_i hpos
      exact .settleShared (Bool.not_eq_true _ ▸ hfree) hpos

theorem lawful_of_run {events : List (Event Item)} {p : Pipeline Item}
    (h : (pipeline capacity holdsUp).run {} events = some p) : Lawful capacity events p := by
  apply Machine.run_induction (P := Lawful capacity) _ _ h
  · exact ⟨rfl,rfl,Nat.zero_le _⟩
  · exact fun events p e q _ hp hstep => hp.concat (step_cases hstep)

/-- As long as an item holds up the others nothing is handed over before something is settled. -/
theorem settle_of_heldUp {events : List (Event Item)} {p q : Pipeline Item}
    (h : (pipeline capacity holdsUp).run p events = some q) (hheld : p.heldUp = true)
    (hnone : Event.settle ∉ events) : q.heldUp = true ∧ handed events = [] := by
  induction events generalizing p with
  | nil =>
    cases h
    exact ⟨hheld,rfl⟩
  | cons e events ih =>
    rw [Machine.run] at h
    split at h
    · cases h
    · rename_i p' hstep
      rw [List.mem_cons,not_or] at hnone
      obtain ⟨he,hlater⟩ := hnone
      cases step_cases hstep with
      | accept x hroom =>
        obtain ⟨hstays,hnothing⟩ := ih h hheld hlater
        exact ⟨hstays,by simpa [handed,Event.handed] using hnothing⟩
      | handShared x rest hwaiting hfree | handHolding x rest hwaiting hfree =>
        rw [hheld] at hfree
        cases hfree
      | settleHolding | settleShared => exact absurd rfl he

theorem settle_between {before between after : List (Event Item)} {x y : Item}
    {q : Pipeline Item} (h : (pipeline capacity holdsUp).run {}
      (before ++ .handOver x :: between ++ .handOver y :: after) = some q)
    (hheld : holdsUp x = true) : Event.settle ∈ between := by
  rw [List.append_assoc,List.cons_append] at h
  obtain ⟨p,-,h⟩ := Machine.run_split h
  rw [Machine.run] at h
  split at h
  · cases h
  · rename_i p' hstep
    obtain ⟨p'',hbetween,h⟩ := Machine.run_split h
    by_contra hnone
    have hp' : p'.heldUp = true := by
      cases step_cases hstep with
      | handShared x rest hwaiting hfree hshared =>
        rw [hheld] at hshared
        cases hshared
      | handHolding => rfl
    have hstays := (settle_of_heldUp hbetween hp' hnone).1
    rw [Machine.run] at h
    split at h
    · cases h
    · rename_i hnext
      cases step_cases hnext with
      | handShared x rest hwaiting hfree | handHolding x rest hwaiting hfree =>
        rw [hstays] at hfree
        cases hfree

end Pipeline

end Concurrent
