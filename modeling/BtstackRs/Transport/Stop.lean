import BtstackRs.Transport.Step
import Mathlib.Data.Nat.Find

/-!
# Stopping the readers

`transport_close` sets the stop flag and joins the readers. A reader looks at the flag only after
a completion: an iteration whose poll finds nothing sleeps and starts over, whatever the flag
says.
-/

namespace BtstackRs.Transport

open Concurrent

/-- A reader whose stop flag is set. It takes its own steps, and the handler it has called
returns. -/
def stoppedReader (kind : ReaderKind) : Machine Reader (Option Completion) where
  step r poll :=
    match r.delivery with
    | some _ => some r.resume
    | none => readerStep kind true poll r

def finishIteration (kind : ReaderKind) : Nat → Reader → Option Reader
  | 0, _ => none
  | fuel+1, r =>
      if r.pc = .head then some r
      else ((stoppedReader kind).step r none).bind (finishIteration kind fuel)

/-- One pass through the body of the `while`, from its guard, with what its poll finds. -/
def iteration (kind : ReaderKind) (poll : Option Completion) (r : Reader) : Option Reader :=
  ((stoppedReader kind).step r poll).bind (finishIteration kind (r.pending+4))

/-- The reader at the guard of the `while` after `n` iterations, the `i`-th of which polls
`schedule i`. A reader with an empty queue leaves the loop and stays as it is. -/
def afterIterations (kind : ReaderKind) (schedule : Nat → Option Completion) (r : Reader) :
    Nat → Option Reader
  | 0 => some r
  | n+1 =>
      (afterIterations kind schedule r n).bind fun r' =>
        if r'.pending = 0 then some r' else iteration kind (schedule n) r'

/-- What a device can return: at most the bytes that were asked for. -/
def Admissible (kind : ReaderKind) (poll : Option Completion) : Prop :=
  ∀ completion, poll = some completion → completion.data.length ≤ kind.transferSize

structure Reader.AtHead (r : Reader) : Prop where
  pc_eq : r.pc = .head
  pending_pos : 0 < r.pending

theorem stoppedReader_head {kind : ReaderKind} {r : Reader} (h : r.AtHead)
    (poll : Option Completion) :
    (stoppedReader kind).step r poll = readerStep kind true poll r := by
  simp [stoppedReader,Reader.delivery,h.pc_eq]

theorem iteration_none {kind : ReaderKind} {r : Reader} (h : r.AtHead) :
    iteration kind none r = some r := by
  have hstep : readerStep kind true none r = some r := by
    have hne := Nat.ne_of_gt h.pending_pos
    simp [readerStep,h.pc_eq,hne]
  rw [iteration,stoppedReader_head h,hstep,Option.bind_some,finishIteration,if_pos h.pc_eq]

private theorem finishIteration_draining (kind : ReaderKind) (pending fuel : Nat) :
    finishIteration kind (fuel+pending+2) ⟨.draining,pending,true⟩ = some ⟨.head,0,true⟩ := by
  induction pending with
  | zero =>
    rw [finishIteration,if_neg (by simp)]
    simp [stoppedReader,Reader.delivery,readerStep,finishIteration]
  | succ pending ih =>
    rw [show fuel+(pending+1)+2 = (fuel+pending+2)+1 from by omega,finishIteration,
      if_neg (by simp)]
    simpa [stoppedReader,Reader.delivery,readerStep] using ih

private theorem finishIteration_delivered (kind : ReaderKind) (completion : Completion)
    (pending fuel : Nat) (cancelled : Bool) :
    finishIteration kind (fuel+pending+3) ⟨.delivered completion,pending,cancelled⟩ =
      some ⟨.head,0,true⟩ := by
  rw [finishIteration,if_neg (by simp)]
  simpa [stoppedReader,Reader.delivery,readerStep] using
    finishIteration_draining kind pending fuel

private theorem finishIteration_completed (kind : ReaderKind) (completion : Completion)
    (pending : Nat) (cancelled : Bool) :
    finishIteration kind (pending+5) ⟨.completed completion,pending,cancelled⟩ =
      some ⟨.head,0,true⟩ := by
  rw [finishIteration,if_neg (by simp)]
  by_cases hdata : completion.status = .ok ∧ completion.data ≠ []
  · -- The data are delivered first; the handler's return is a step of its own.
    have hstep : (stoppedReader kind).step ⟨.completed completion,pending,cancelled⟩ none =
        some ⟨.delivering completion,pending,cancelled⟩ := by
      simp [stoppedReader,Reader.delivery,readerStep,hdata]
    rw [hstep,Option.bind_some,finishIteration,if_neg (by simp)]
    have hreturn : (stoppedReader kind).step ⟨.delivering completion,pending,cancelled⟩ none =
        some ⟨.delivered completion,pending,cancelled⟩ := rfl
    rw [hreturn,Option.bind_some]
    simpa using finishIteration_delivered kind completion pending 0 cancelled
  · have hstep : (stoppedReader kind).step ⟨.completed completion,pending,cancelled⟩ none =
        some ⟨.delivered completion,pending,cancelled⟩ := by
      simp only [stoppedReader,Reader.delivery,readerStep]
      rw [if_neg hdata]
    rw [hstep,Option.bind_some]
    have hdelivered := finishIteration_delivered kind completion pending 1 cancelled
    rwa [show 1+pending+3 = pending+4 from by omega] at hdelivered

theorem iteration_some {kind : ReaderKind} {r : Reader} (h : r.AtHead) {completion : Completion}
    (hsize : completion.data.length ≤ kind.transferSize) :
    iteration kind (some completion) r = some ⟨.head,0,true⟩ := by
  have hstep : readerStep kind true (some completion) r =
      some ⟨.completed completion,r.pending-1,r.cancelled⟩ := by
    have hne := Nat.ne_of_gt h.pending_pos
    simp [readerStep,h.pc_eq,hne,hsize]
  rw [iteration,stoppedReader_head h,hstep,Option.bind_some]
  have hpos := h.pending_pos
  rw [show r.pending+4 = r.pending-1+5 from by omega]
  exact finishIteration_completed kind completion (r.pending-1) r.cancelled

def Reader.Leaves (kind : ReaderKind) (r : Reader) : Prop :=
  readerStep kind true none r = some { r with pc := .exited }

theorem Reader.AtHead.not_leaves {kind : ReaderKind} {r : Reader} (h : r.AtHead) :
    ¬ r.Leaves kind := by
  intro hleaves
  have hne := Nat.ne_of_gt h.pending_pos
  simp only [Leaves,readerStep,h.pc_eq,if_neg hne,Option.some.injEq] at hleaves
  rw [hleaves] at h
  cases h.pc_eq

theorem afterIterations_idle {kind : ReaderKind} {schedule : Nat → Option Completion} {r : Reader}
    (h : r.AtHead) {n : Nat} (hidle : ∀ i, i < n → schedule i = none) :
    afterIterations kind schedule r n = some r := by
  induction n with
  | zero => rfl
  | succ n ih =>
    rw [afterIterations,ih (fun i hi => hidle i (by omega)),Option.bind_some,
      if_neg (Nat.ne_of_gt h.pending_pos),hidle n (by omega),iteration_none h]

theorem afterIterations_first {kind : ReaderKind} {schedule : Nat → Option Completion}
    {r : Reader} (h : r.AtHead) {n : Nat} {completion : Completion}
    (hidle : ∀ i, i < n → schedule i = none) (hfirst : schedule n = some completion)
    (hsize : completion.data.length ≤ kind.transferSize) :
    afterIterations kind schedule r (n+1) = some ⟨.head,0,true⟩ := by
  rw [afterIterations,afterIterations_idle h hidle,Option.bind_some,
    if_neg (Nat.ne_of_gt h.pending_pos),hfirst,iteration_some h hsize]

/-- A stop request takes a reader down exactly as far as completions arrive: an iteration ends
with the queue cancelled and empty if and only if its poll returns a completion, and the loop
ends after finitely many iterations if and only if one of their polls does. -/
theorem stopRequest_iff_completion {kind : ReaderKind} {r : Reader} (h : r.AtHead) :
    (∀ poll, Admissible kind poll →
      ((∃ r', iteration kind poll r = some r' ∧ r'.cancelled = true ∧ r'.pending = 0) ↔
        poll.isSome)) ∧
    ∀ schedule, (∀ n, Admissible kind (schedule n)) →
      ((∃ n r', afterIterations kind schedule r n = some r' ∧ r'.Leaves kind) ↔
        ∃ n, (schedule n).isSome) := by
  constructor
  · intro poll hadmissible
    constructor
    · rintro ⟨r',hiteration,_,hempty⟩
      cases poll with
      | some completion => rfl
      | none =>
        rw [iteration_none h] at hiteration
        cases hiteration
        exact absurd hempty (Nat.ne_of_gt h.pending_pos)
    · intro hsome
      obtain ⟨completion,rfl⟩ := Option.isSome_iff_exists.mp hsome
      exact ⟨_,iteration_some h (hadmissible completion rfl),rfl,rfl⟩
  · intro schedule hadmissible
    constructor
    · rintro ⟨n,r',hafter,hleaves⟩
      by_contra hnone
      have hidle : ∀ i, i < n → schedule i = none := by
        intro i _
        rw [← Option.not_isSome_iff_eq_none]
        exact fun hsome => hnone ⟨i,hsome⟩
      rw [afterIterations_idle h hidle] at hafter
      cases hafter
      exact h.not_leaves hleaves
    · intro hsome
      -- The reader polls idly up to the first completion, which lets it see the flag.
      have hfirst := Nat.find_spec hsome
      have hidle : ∀ i, i < Nat.find hsome → schedule i = none := by
        intro i hi
        rw [← Option.not_isSome_iff_eq_none]
        exact Nat.find_min hsome hi
      obtain ⟨completion,hcompletion⟩ := Option.isSome_iff_exists.mp hfirst
      have hsize := hadmissible _ completion hcompletion
      exact ⟨_,_,afterIterations_first h hidle hcompletion hsize,rfl⟩

/-- An event reader with all its transfers submitted. -/
theorem stopRequest_iff_completion_event :
    let r : Reader := { pc := .head, pending := 3 }
    (∀ poll, Admissible .event poll →
      ((∃ r', iteration .event poll r = some r' ∧ r'.cancelled = true ∧ r'.pending = 0) ↔
        poll.isSome)) ∧
    ∀ schedule, (∀ n, Admissible .event (schedule n)) →
      ((∃ n r', afterIterations .event schedule r n = some r' ∧ r'.Leaves .event) ↔
        ∃ n, (schedule n).isSome) :=
  stopRequest_iff_completion ⟨rfl,by decide⟩

/-- While the stop flag of a link is set, a step of the whole transport changes a reader of it
only as `stoppedReader` does, and the flag stays set. -/
theorem stoppedReader_simulates {σ σ' : System} {a : Action} (h : Moves σ a σ') {l : Nat}
    {link : Link} (hlink : σ.links[l]? = some link) (hstop : link.stop = true)
    (kind : ReaderKind) :
    ∃ link', σ'.links[l]? = some link' ∧ link'.stop = true ∧
      (link'.reader kind = link.reader kind ∨
        ∃ poll, (stoppedReader kind).step (link.reader kind) poll = some (link'.reader kind)) := by
  obtain ⟨th,rest,d,_,_,hmove⟩ := h
  obtain ⟨link',hlink',hlinkMove,_⟩ := hmove.linkMove hlink
  refine ⟨link',hlink',?_⟩
  cases hlinkMove with
  | same => exact ⟨hstop,.inl rfl⟩
  | stop => exact ⟨rfl,.inl (by cases kind <;> rfl)⟩
  | send t call handles spurious pc _ next hsend =>
    exact ⟨by rw [sendStep_stop hsend,hstop],.inl (sendStep_reader hsend kind)⟩
  | reader kind' poll r hreader =>
    refine ⟨by simpa using hstop,?_⟩
    by_cases hkind : kind = kind'
    · subst hkind
      right
      refine ⟨poll,?_⟩
      rw [hstop] at hreader
      have hdelivery : (link.reader kind).delivery = none := by
        unfold Reader.delivery
        split
        · rename_i completion hpc
          simp [readerStep,hpc] at hreader
        · rfl
      simp [stoppedReader,hdelivery,hreader]
    · exact .inl (link.reader_setReader_ne hkind r)
  | writer control poll _ hwriter =>
    exact ⟨by rw [writerStep_stop hwriter,hstop],.inl (writerStep_reader hwriter kind)⟩
  | resumeReader kind' =>
    refine ⟨by simpa using hstop,?_⟩
    by_cases hkind : kind = kind'
    · subst hkind
      rw [Link.reader_setReader]
      cases hdelivery : (link.reader kind).delivery with
      | none =>
        left
        cases hpc : (link.reader kind).pc <;> simp_all [Reader.delivery,Reader.resume]
      | some data => exact .inr ⟨none,by simp [stoppedReader,hdelivery]⟩
    · exact .inl (link.reader_setReader_ne hkind _)
  | resumeWriter => exact ⟨hstop,.inl (by cases kind <;> rfl)⟩

/-- A device that stays silent: the stop flag is set, and the event reader is back at the guard of
its loop, with nothing cancelled and all three transfers still pending. -/
theorem silentDevice_not_stopped : ∃ σ link,
    machine.run (System.initial 1 none)
      (openRun 0 dongle dongleInterface [] ++ Action.by 1 [.go,.go] ++
        Action.by 0 [.call .transportClose,.go,.go,.go]) = some σ ∧
    σ.links[0]? = some link ∧ link.stop = true ∧
    link.reader .event = { pc := .head, pending := 3 } ∧
    iteration .event none (link.reader .event) = some { pc := .head, pending := 3 } := by
  have hrun : ((machine.run (System.initial 1 none)
      (openRun 0 dongle dongleInterface [] ++ Action.by 1 [.go,.go] ++
        Action.by 0 [.call .transportClose,.go,.go,.go])).bind
      fun σ => σ.links[0]?.map fun link => (link.stop,link.reader .event)) =
      some (true,{ pc := .head, pending := 3 }) := rfl
  obtain ⟨σ,hσ,hmap⟩ := Option.bind_eq_some_iff.mp hrun
  obtain ⟨link,hlink,hpair⟩ := Option.map_eq_some_iff.mp hmap
  obtain ⟨hstop,hreader⟩ := Prod.mk.inj hpair
  exact ⟨σ,link,hσ,hlink,hstop,hreader,by rw [hreader]; rfl⟩

end BtstackRs.Transport
