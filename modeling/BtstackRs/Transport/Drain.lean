import BtstackRs.Concurrent.Endless
import BtstackRs.Transport.Keeping
import BtstackRs.Transport.Slots

/-!
# How the writer ends

What the loop of the writer does once the stop flag is set: it finishes what it has begun, cancels
the bulk queue, takes the completions of the outstanding transfers and returns. The steps of the
loop are counted along the way.
-/

namespace BtstackRs.Transport

open Concurrent

structure Tally where
  handed : Nat := 0
  completed : Nat := 0
  released : Nat := 0
  cancellations : Nat := 0
  deriving DecidableEq, Repr

def Tally.add (counts : Tally) : LinkEvent → Tally
  | .handed _ => { counts with handed := counts.handed+1 }
  | .completed _ => { counts with completed := counts.completed+1 }
  | .released => { counts with released := counts.released+1 }
  | .cancelledAll => { counts with cancellations := counts.cancellations+1 }
  | _ => counts

def tally (history : List LinkEvent) : Tally := history.foldl Tally.add {}

@[simp] theorem tally_append (history : List LinkEvent) (event : LinkEvent) :
    tally (history ++ [event]) = (tally history).add event := by
  rw [tally,List.foldl_append]
  rfl

structure Writing where
  stop : Bool
  writer : Writer
  counts : Tally

def Link.writing (link : Link) : Writing :=
  { stop := link.stop, writer := link.writer, counts := tally link.history }

inductive WriterMove (s : Writing) : Writing → Prop where
  | other : WriterMove s s
  | stop : WriterMove s { s with stop := true }
  | enter (hpc : s.writer.pc = .fill) (hstop : s.stop = false) :
      WriterMove s { s with writer := { s.writer with pc := .recv } }
  | skip (hpc : s.writer.pc = .fill) :
      WriterMove s { s with writer := { s.writer with pc := .cancelCheck } }
  | take (hpc : s.writer.pc = .recv) (packet : OutgoingPacket) :
      WriterMove s { s with writer := { s.writer with pc := .holding packet } }
  | timeout (hpc : s.writer.pc = .recv) :
      WriterMove s { s with writer := { s.writer with pc := .cancelCheck } }
  | command (packet : OutgoingPacket) (hpc : s.writer.pc = .holding packet) : WriterMove s
      { s with
        writer := { s.writer with pc := .commandWait }
        counts := { s.counts with handed := s.counts.handed+1 } }
  | submit (packet : OutgoingPacket) (hpc : s.writer.pc = .holding packet) (data : Bytes) :
      WriterMove s
      { s with
        writer := { s.writer with
          pc := .fill
          inFlightOut := s.writer.inFlightOut+1
          aclOutQueue := s.writer.aclOutQueue ++ [data] }
        counts := { s.counts with handed := s.counts.handed+1 } }
  | commandComplete (hpc : s.writer.pc = .commandWait) (status : Status) : WriterMove s
      { s with
        writer := { s.writer with pc := .commandDone status }
        counts := { s.counts with completed := s.counts.completed+1 } }
  | release (status : Status)
      (hpc : s.writer.pc = .commandDone status ∨ s.writer.pc = .bulkDone status) : WriterMove s
      { s with
        writer := { s.writer with pc := afterRelease status }
        counts := { s.counts with released := s.counts.released+1 } }
  | cancel (hpc : s.writer.pc = .cancelCheck) (hstop : s.stop = true)
      (hfirst : s.writer.cancelled = false) : WriterMove s
      { s with
        writer := { s.writer with pc := .emptyCheck, cancelled := true }
        counts := { s.counts with cancellations := s.counts.cancellations+1 } }
  | pass (hpc : s.writer.pc = .cancelCheck) (hnot : ¬(s.stop = true ∧ s.writer.cancelled = false)) :
      WriterMove s { s with writer := { s.writer with pc := .emptyCheck } }
  | leave (hpc : s.writer.pc = .emptyCheck) (hempty : s.writer.inFlightOut = 0)
      (hstop : s.stop = true) : WriterMove s { s with writer := { s.writer with pc := .exited } }
  | again (hpc : s.writer.pc = .emptyCheck) (hempty : s.writer.inFlightOut = 0)
      (hstop : s.stop = false) : WriterMove s { s with writer := { s.writer with pc := .fill } }
  | await (hpc : s.writer.pc = .emptyCheck) (hpending : s.writer.inFlightOut ≠ 0) :
      WriterMove s { s with writer := { s.writer with pc := .poll } }
  | idle (hpc : s.writer.pc = .poll) :
      WriterMove s { s with writer := { s.writer with pc := .fill } }
  | complete (hpc : s.writer.pc = .poll) (status : Status) (i : Nat)
      (hi : i < s.writer.aclOutQueue.length) : WriterMove s
      { s with
        writer := { s.writer with
          pc := .bulkDone status
          inFlightOut := wrappingDec s.writer.inFlightOut
          aclOutQueue := s.writer.aclOutQueue.eraseIdx i }
        counts := { s.counts with completed := s.counts.completed+1 } }
  | resume (hpc : s.writer.pc = .acknowledging) :
      WriterMove s { s with writer := { s.writer with pc := .fill } }

private theorem WriterMove.of_eq {link link' : Link} {s : Writing} (h : WriterMove link.writing s)
    (heq : link'.writing = s) : WriterMove link.writing link'.writing := heq ▸ h

private theorem writerStep_writerMove {control : Status} {poll : Option (Nat × Status)}
    {link link' : Link} (h : writerStep true control poll link = some link') :
    WriterMove link.writing link'.writing := by
  cases writerStep_cases h with
  | enter hpc hroom hstop => exact .enter hpc hstop
  | skip hpc hfull => exact .skip hpc
  | take hpc packet rest hchannel => exact .take hpc packet
  | timeout hpc hempty halive => exact .timeout hpc
  | disconnected hpc hempty halive => cases halive
  | command packet hpc =>
    exact (WriterMove.command _ hpc).of_eq (by simp [Link.writing,Tally.add])
  | submit packet data hpc htransfer =>
    exact (WriterMove.submit packet hpc data).of_eq (by simp [Link.writing,Tally.add])
  | commandComplete hpc =>
    exact (WriterMove.commandComplete hpc control).of_eq (by simp [Link.writing,Tally.add])
  | release status hpc =>
    exact (WriterMove.release status hpc).of_eq (by simp [Link.writing,Tally.add])
  | cancel hpc hstop hfirst =>
    exact (WriterMove.cancel hpc hstop hfirst).of_eq (by simp [Link.writing,Tally.add])
  | pass hpc hnot => exact .pass hpc hnot
  | leave hpc hempty hstop => exact .leave hpc hempty hstop
  | again hpc hempty hstop => exact .again hpc hempty hstop
  | await hpc hpending => exact .await hpc hpending
  | idle hpc => exact .idle hpc
  | complete hpc i status hi =>
    exact (WriterMove.complete hpc status i hi).of_eq (by simp [Link.writing,Tally.add])

private theorem sendStep_writing {t : Nat} {call : SendCall} {handles : SendHandles}
    {spurious : Bool} {pc : SendPc call} {link link' : Link} {next : SendNext call}
    (h : sendStep t call handles spurious pc link = (link',next)) :
    link'.writing = link.writing := by
  have hcounts : tally link'.history = tally link.history := by
    cases sendStep_cases h <;> simp [Tally.add]
  rw [Link.writing,sendStep_stop h,sendStep_writer h,hcounts]
  rfl

theorem LinkMove.writerMove {link link' : Link} (h : LinkMove true link link') :
    WriterMove link.writing link'.writing := by
  cases h with
  | send t call handles spurious pc _ next hsend =>
    rw [sendStep_writing hsend]
    exact .other
  | writer control poll _ hwriter => exact writerStep_writerMove hwriter
  | resumeWriter =>
    by_cases hpc : link.writer.pc = .acknowledging
    · exact (WriterMove.resume hpc).of_eq (by simp [Link.writing,Writer.resume,hpc])
    · have hsame : link.writer.resume = link.writer := by
        unfold Writer.resume
        split
        · contradiction
        · rfl
      exact WriterMove.other.of_eq (by simp [Link.writing,hsame])
  | reader kind poll r hreader => exact WriterMove.other.of_eq (by simp [Link.writing])
  | resumeReader kind => exact WriterMove.other.of_eq (by simp [Link.writing])
  | stop => exact .stop
  | same => exact .other

def WriterPc.inner : WriterPc → Bool
  | .recv | .holding _ | .commandWait | .commandDone _ => true
  | _ => false

@[simp] theorem afterRelease_inner (status : Status) : (afterRelease status).inner = false := by
  cases status <;> rfl

/-- The queue is cancelled at most once, after the request, and then the inner loop is not entered
any more; the writer only returns after the request, with nothing pending. -/
structure Writing.Sound (s : Writing) : Prop where
  windowed : s.writer.Windowed
  cancelled_stop : s.writer.cancelled = true → s.stop = true
  cancelled_inner : s.writer.cancelled = true → s.writer.pc.inner = false
  cancellations_eq : s.counts.cancellations = if s.writer.cancelled then 1 else 0
  exited : s.writer.pc = .exited → s.stop = true ∧ s.writer.aclOutQueue = []

private theorem WriterMove.cancelled_stop {s s' : Writing} (h : WriterMove s s')
    (hs : s.writer.cancelled = true → s.stop = true) :
    s'.writer.cancelled = true → s'.stop = true := by
  cases h with
  | cancel hpc hstop hfirst => exact fun _ => hstop
  | stop => exact fun _ => rfl
  | _ => exact hs

private theorem WriterMove.cancelled_inner {s s' : Writing} (h : WriterMove s s') (hs : s.Sound) :
    s'.writer.cancelled = true → s'.writer.pc.inner = false := by
  have hinner : ∀ {pc : WriterPc}, s.writer.pc = pc → pc.inner = true →
      s.writer.cancelled ≠ true := by
    intro pc hpc hpcInner hcancelled
    have hnot := hs.cancelled_inner hcancelled
    rw [hpc,hpcInner] at hnot
    cases hnot
  intro hcancelled
  cases h with
  | other | stop => exact hs.cancelled_inner hcancelled
  | enter hpc hstop =>
    have hset := hs.cancelled_stop hcancelled
    rw [hstop] at hset
    cases hset
  | take hpc packet => exact absurd hcancelled (hinner hpc rfl)
  | command packet hpc => exact absurd hcancelled (hinner hpc rfl)
  | commandComplete hpc status => exact absurd hcancelled (hinner hpc rfl)
  | release status hpc => exact afterRelease_inner status
  | _ => rfl

private theorem WriterMove.cancellations_eq {s s' : Writing} (h : WriterMove s s')
    (hs : s.counts.cancellations = if s.writer.cancelled then 1 else 0) :
    s'.counts.cancellations = if s'.writer.cancelled then 1 else 0 := by
  cases h with
  | cancel hpc hstop hfirst =>
    rw [hfirst] at hs
    show s.counts.cancellations+1 = 1
    rw [hs]
    rfl
  | _ => exact hs

private theorem WriterMove.exited {s s' : Writing} (h : WriterMove s s') (hs : s.Sound) :
    s'.writer.pc = .exited → s'.stop = true ∧ s'.writer.aclOutQueue = [] := by
  intro hexited
  cases h with
  | other => exact hs.exited hexited
  | stop => exact ⟨rfl,(hs.exited hexited).2⟩
  | release status hpc => exact absurd hexited (afterRelease_ne_exited status)
  | leave hpc hempty hstop =>
    have hlength := hs.windowed.inFlightOut_eq
    exact ⟨hstop,List.length_eq_zero_iff.mp (hlength.symm.trans hempty)⟩
  | _ => cases hexited

theorem LinkMove.sound {link link' : Link} (h : LinkMove true link link')
    (hs : link.writing.Sound) : link'.writing.Sound where
  windowed := windowed_linkInvariant.linkMove hs.windowed h
  cancelled_stop := h.writerMove.cancelled_stop hs.cancelled_stop
  cancelled_inner := h.writerMove.cancelled_inner hs
  cancellations_eq := h.writerMove.cancellations_eq hs.cancellations_eq
  exited := h.writerMove.exited hs

theorem Writing.Sound.fresh (endpoints : EndpointConfig) :
    (Link.writing { endpoints := endpoints }).Sound where
  windowed := windowed_linkInvariant.fresh endpoints
  cancelled_stop hcancelled := by cases hcancelled
  cancelled_inner hcancelled := by cases hcancelled
  cancellations_eq := rfl
  exited hexited := by cases hexited

theorem Writing.induction {P : Writing → Prop} {link link' : Link}
    (h : Relation.ReflTransGen (LinkMove true) link link') (hs : link.writing.Sound)
    (hP : P link.writing) (hstep : ∀ s s', s.Sound → P s → WriterMove s s' → P s') :
    link'.writing.Sound ∧ P link'.writing := by
  induction h with
  | refl => exact ⟨hs,hP⟩
  | tail _ hmove ih => exact ⟨hmove.sound ih.1,hstep _ _ ih.1 ih.2 hmove.writerMove⟩

def WriterPc.taking : WriterPc → Nat
  | .recv | .holding _ => 1
  | _ => 0

@[simp] theorem afterRelease_taking (status : Status) : (afterRelease status).taking = 0 := by
  cases status <;> rfl

def Writing.taken (s : Writing) : Nat := s.counts.handed + s.writer.pc.held.length

theorem WriterPc.held_le_taking (pc : WriterPc) :
    pc.held.length ≤ pc.taking ∧ pc.taking ≤ 1 := by
  cases pc <;> simp [held,taking]

theorem WriterMove.taking_le {s s' : Writing} (h : WriterMove s s') (hstop : s.stop = true) :
    s'.stop = true ∧
      s'.counts.handed + s'.writer.pc.taking ≤ s.counts.handed + s.writer.pc.taking := by
  cases h with
  | stop => exact ⟨rfl,Nat.le_refl _⟩
  | enter hpc hnot =>
    rw [hstop] at hnot
    cases hnot
  | release status hpc => exact ⟨hstop,by simp⟩
  | skip hpc | take hpc packet | timeout hpc | command packet hpc | submit packet hpc data
  | commandComplete hpc status | cancel hpc _ hfirst | pass hpc hnot | leave hpc hempty _
  | again hpc hempty _ | await hpc hpending | idle hpc | complete hpc status i hi | resume hpc =>
    exact ⟨hstop,by simp [hpc,WriterPc.taking]⟩
  | other => exact ⟨hstop,Nat.le_refl _⟩

/-- The writer has passed the check for cancellation and will find nothing in flight. -/
def Writer.Passed (w : Writer) : Prop :=
  w.pc = .emptyCheck ∧ w.inFlightOut = 0 ∧ w.cancelled = false

instance (w : Writer) : Decidable w.Passed := inferInstanceAs (Decidable (_ ∧ _ ∧ _))

theorem WriterMove.not_passed {s s' : Writing} (h : WriterMove s s')
    (hs : s.stop = true ∧ ¬s.writer.Passed ∧ (s.writer.pc = .exited → s.writer.cancelled = true)) :
    s'.stop = true ∧ ¬s'.writer.Passed ∧
      (s'.writer.pc = .exited → s'.writer.cancelled = true) := by
  obtain ⟨hstop,hpassed,hexited⟩ := hs
  cases h with
  | other => exact ⟨hstop,hpassed,hexited⟩
  | stop => exact ⟨rfl,hpassed,hexited⟩
  | release status hpc =>
    refine ⟨hstop,?_,fun h => absurd h (afterRelease_ne_exited status)⟩
    rintro ⟨hcheck,-⟩
    cases status <;> cases hcheck
  | cancel hpc _ hfirst => exact ⟨hstop,fun h => (by cases h.2.2),fun _ => rfl⟩
  | pass hpc hnot =>
    refine ⟨hstop,fun h => hnot ⟨hstop,h.2.2⟩,fun h => (by cases h)⟩
  | leave hpc hempty _ =>
    refine ⟨hstop,fun h => (by cases h.1),fun _ => ?_⟩
    by_contra hnot
    exact hpassed ⟨hpc,hempty,Bool.not_eq_true _ ▸ hnot⟩
  | _ => exact ⟨hstop,fun h => (by cases h.1),fun h => (by cases h)⟩

theorem WriterMove.passed {s s' : Writing} (h : WriterMove s s')
    (hs : s.stop = true ∧ s.writer.cancelled = false ∧
      (s.writer.Passed ∨ s.writer.pc = .exited)) :
    s'.stop = true ∧ s'.writer.cancelled = false ∧
      (s'.writer.Passed ∨ s'.writer.pc = .exited) := by
  obtain ⟨hstop,hcancelled,hwhere⟩ := hs
  cases h with
  | other => exact ⟨hstop,hcancelled,hwhere⟩
  | stop => exact ⟨rfl,hcancelled,hwhere⟩
  | leave hpc hempty _ => exact ⟨hstop,hcancelled,.inr rfl⟩
  | again hpc hempty hnot =>
    rw [hstop] at hnot
    cases hnot
  | await hpc hpending =>
    rcases hwhere with hpassed | hexited
    · exact absurd hpassed.2.1 hpending
    · rw [hpc] at hexited
      cases hexited
  | release status hpc =>
    rcases hwhere with hpassed | hexited <;> rcases hpc with hpc | hpc <;> simp_all [Writer.Passed]
  | enter hpc | skip hpc | take hpc | timeout hpc | command packet hpc | submit packet hpc
  | commandComplete hpc | cancel hpc | pass hpc | idle hpc | complete hpc | resume hpc =>
    rcases hwhere with hpassed | hexited
    · have hcheck := hpassed.1
      rw [hpc] at hcheck
      cases hcheck
    · rw [hpc] at hexited
      cases hexited

structure Writing.Settles (s s' : Writing) : Prop where
  cancelled : s'.writer.cancelled = true
  handed_eq : s'.counts.handed = s.counts.handed
  completed_eq : s'.counts.completed + s'.writer.aclOutQueue.length =
    s.counts.completed + s.writer.aclOutQueue.length
  released_eq : s'.counts.released + s'.writer.slots = s.counts.released + s.writer.slots

theorem Writing.Settles.trans {s₀ s s' : Writing} (h : s₀.Settles s) (h' : s.Settles s') :
    s₀.Settles s' where
  cancelled := h'.cancelled
  handed_eq := h'.handed_eq.trans h.handed_eq
  completed_eq := h'.completed_eq.trans h.completed_eq
  released_eq := h'.released_eq.trans h.released_eq

theorem WriterMove.settles {s s' : Writing} (h : WriterMove s s') (hs : s.Sound)
    (hcancelled : s.writer.cancelled = true) : s.Settles s' := by
  have hinner := hs.cancelled_inner hcancelled
  cases h with
  | other | stop => exact ⟨hcancelled,rfl,rfl,rfl⟩
  | enter hpc hstop =>
    rw [hs.cancelled_stop hcancelled] at hstop
    cases hstop
  | take hpc packet | command packet hpc | submit packet hpc data | commandComplete hpc status =>
    rw [hpc] at hinner
    cases hinner
  | release status hpc =>
    refine ⟨hcancelled,rfl,rfl,?_⟩
    have hone := WriterPc.handling_of_done hpc
    simp only [Writer.slots,afterRelease_handling,hone]
    omega
  | complete hpc status i hi =>
    have hpos := hs.windowed.poll_pos hpc
    refine ⟨hcancelled,rfl,?_,?_⟩
    · simp only [List.length_eraseIdx,if_pos hi]
      omega
    · simp only [Writer.slots,hpc,WriterPc.handling,wrappingDec_of_pos hpos]
      omega
  | skip hpc | timeout hpc | cancel hpc _ hfirst | pass hpc hnot | leave hpc hempty _
  | again hpc hempty _ | await hpc hpending | idle hpc | resume hpc =>
    exact ⟨by simp [hcancelled],rfl,rfl,by simp [Writer.slots,hpc,WriterPc.handling]⟩

def WriterPc.beforeCancel : WriterPc → Nat
  | .emptyCheck => 9
  | .poll | .recv => 8
  | .holding _ => 7
  | .commandWait => 6
  | .commandDone _ | .bulkDone _ => 5
  | .acknowledging => 4
  | .fill => 3
  | .cancelCheck => 2
  | .exited => 0

def WriterPc.afterCancel : WriterPc → Nat
  | .bulkDone _ => 6
  | .acknowledging => 5
  | .fill => 4
  | .cancelCheck => 3
  | .emptyCheck => 2
  | .poll => 1
  | _ => 0

def Writer.afterCancel (w : Writer) : Nat := 6*w.aclOutQueue.length + w.pc.afterCancel

theorem WriterMove.beforeCancel_lt {s s' : Writing} (h : WriterMove s s') (hstop : s.stop = true)
    (hcancelled : s.writer.cancelled = false) :
    (s'.writer.cancelled = true ∨ s'.writer.pc = .exited) ∨
      s'.writer.pc.beforeCancel < s.writer.pc.beforeCancel ∨ s'.writer.pc = s.writer.pc := by
  cases h with
  | other | stop => exact .inr (.inr rfl)
  | enter hpc hnot | again hpc hempty hnot =>
    rw [hstop] at hnot
    cases hnot
  | cancel hpc _ hfirst => exact .inl (.inl rfl)
  | pass hpc hnot => exact absurd ⟨hstop,hcancelled⟩ hnot
  | leave hpc hempty _ => exact .inl (.inr rfl)
  | release status hpc =>
    right
    left
    have hbefore : s.writer.pc.beforeCancel = 5 := by
      rcases hpc with hpc | hpc <;> rw [hpc] <;> rfl
    rw [hbefore]
    cases status <;> simp [afterRelease,WriterPc.beforeCancel]
  | skip hpc | take hpc packet | timeout hpc | command packet hpc | submit packet hpc data
  | commandComplete hpc status | await hpc hpending | idle hpc | complete hpc status i hi
  | resume hpc =>
    right
    left
    simp [hpc,WriterPc.beforeCancel]

theorem WriterMove.afterCancel_lt {s s' : Writing} (h : WriterMove s s') (hs : s.Sound)
    (hcancelled : s.writer.cancelled = true)
    (hfound : ¬(s.writer.pc = .poll ∧ s'.writer.pc = .fill)) :
    s'.writer.afterCancel < s.writer.afterCancel ∨ s'.writer = s.writer := by
  have hinner := hs.cancelled_inner hcancelled
  have hstop := hs.cancelled_stop hcancelled
  cases h with
  | other | stop => exact .inr rfl
  | enter hpc hnot | again hpc hempty hnot =>
    rw [hstop] at hnot
    cases hnot
  | take hpc packet | timeout hpc | command packet hpc | submit packet hpc data
  | commandComplete hpc status =>
    rw [hpc] at hinner
    cases hinner
  | release status hpc =>
    left
    rcases hpc with hpc | hpc
    · rw [hpc] at hinner
      cases hinner
    · cases status <;> simp [Writer.afterCancel,hpc,afterRelease,WriterPc.afterCancel]
  | idle hpc => exact absurd ⟨hpc,rfl⟩ hfound
  | complete hpc status i hi =>
    left
    simp only [Writer.afterCancel,hpc,WriterPc.afterCancel,List.length_eraseIdx,if_pos hi]
    omega
  | skip hpc | cancel hpc _ hfirst | pass hpc hnot | leave hpc hempty _ | await hpc hpending
  | resume hpc =>
    left
    simp [Writer.afterCancel,hpc,WriterPc.afterCancel]

section Endless

variable {w : Nat → Writing} (hmove : ∀ n, WriterMove (w n) (w (n+1)))
include hmove

theorem Writing.stop_later (hstop : (w 0).stop = true) (n : Nat) : (w n).stop = true := by
  induction n with
  | zero => exact hstop
  | succ n ih => exact ((hmove n).taking_le ih).1

theorem Writing.cancelled_later (hsound : ∀ n, (w n).Sound) {n m : Nat} (hm : n ≤ m)
    (hcancelled : (w n).writer.cancelled = true) : (w m).writer.cancelled = true := by
  induction hm with
  | refl => exact hcancelled
  | step hm ih => exact ((hmove _).settles (hsound _) ih).cancelled

/-- A stopped writer that goes on comes to the cancellation or returns before it. -/
theorem Writing.cancels_or_exits (hstop : (w 0).stop = true)
    (hprogress : ∀ m, (w m).writer.pc ≠ .exited →
      ∃ k, m ≤ k ∧ (w (k+1)).writer.pc ≠ (w k).writer.pc) :
    ∃ n, (w n).writer.cancelled = true ∨ (w n).writer.pc = .exited := by
  obtain ⟨n,-,hn⟩ := reaches_of_rank (n := 0) (fun n => (w n).writer.pc.beforeCancel)
    (fun n => (w n).writer.cancelled = true ∨ (w n).writer.pc = .exited)
    (fun n => (w (n+1)).writer.pc = (w n).writer.pc)
    (by
      intro m _ hgoal
      have hnot : (w m).writer.cancelled = false := Bool.not_eq_true _ ▸ fun h => hgoal (.inl h)
      rcases (hmove m).beforeCancel_lt (Writing.stop_later hmove hstop m) hnot with
        hreached | hlt | hsame
      · exact .inl hreached
      · exact .inr (.inl hlt)
      · exact .inr (.inr ⟨hsame,congrArg WriterPc.beforeCancel hsame⟩))
    (fun m _ hgoal => hprogress m (fun h => hgoal (.inr h)))
  exact ⟨n,hn⟩

/-- One that has cancelled its queue returns, if its polls find the completions in the end. -/
theorem Writing.exits_of_cancelled (hsound : ∀ n, (w n).Sound)
    (hprogress : ∀ m, (w m).writer.pc ≠ .exited →
      ∃ k, m ≤ k ∧ (w (k+1)).writer.pc ≠ (w k).writer.pc)
    {n N : Nat} (hcancelled : (w n).writer.cancelled = true)
    (hfound : ∀ m, N ≤ m → (w m).writer.pc = .poll → (w (m+1)).writer.pc ≠ .fill) :
    ∃ m, (w m).writer.pc = .exited := by
  obtain ⟨m,-,hm⟩ := reaches_of_rank (n := max n N) (fun m => (w m).writer.afterCancel)
    (fun m => (w m).writer.pc = .exited) (fun m => (w (m+1)).writer.pc = (w m).writer.pc)
    (by
      intro m hm _
      have hlater := Writing.cancelled_later hmove hsound (Nat.le_trans (Nat.le_max_left n N) hm)
        hcancelled
      rcases (hmove m).afterCancel_lt (hsound m) hlater
        (fun h => hfound m (Nat.le_trans (Nat.le_max_right n N) hm) h.1 h.2) with hlt | hsame
      · exact .inr (.inl hlt)
      · exact .inr (.inr ⟨congrArg Writer.pc hsame,congrArg Writer.afterCancel hsame⟩))
    (fun m _ hgoal => hprogress m hgoal)
  exact ⟨m,hm⟩

theorem Writing.exits (hsound : ∀ n, (w n).Sound) (hstop : (w 0).stop = true)
    (hprogress : ∀ m, (w m).writer.pc ≠ .exited →
      ∃ k, m ≤ k ∧ (w (k+1)).writer.pc ≠ (w k).writer.pc)
    (hcompletes : ∀ n, (w n).writer.cancelled = true →
      ∃ N, ∀ m, N ≤ m → (w m).writer.pc = .poll → (w (m+1)).writer.pc ≠ .fill) :
    ∃ n, (w n).writer.pc = .exited := by
  obtain ⟨n,hcancelled | hexited⟩ := Writing.cancels_or_exits hmove hstop hprogress
  · obtain ⟨N,hfound⟩ := hcompletes n hcancelled
    exact Writing.exits_of_cancelled hmove hsound hprogress hcancelled hfound
  · exact ⟨n,hexited⟩

end Endless

theorem LinkMove.of_exited {alive : Bool} {link link' : Link} (h : LinkMove alive link link')
    (hexited : link.writer.pc = .exited) : LinkMove true link link' := by
  cases h with
  | same => exact .same
  | stop => exact .stop
  | send t call handles spurious pc _ next hsend =>
    exact .send t call handles spurious pc _ next hsend
  | reader kind poll r hreader => exact .reader kind poll r hreader
  | writer control poll _ hwriter => simp [writerStep,hexited] at hwriter
  | resumeReader kind => exact .resumeReader kind
  | resumeWriter => exact .resumeWriter

theorem ReachableKeeping.linkMove {l : Nat} {σ σ' : System} {a : Action}
    (h : ReachableKeeping l σ) (hmoves : Moves σ a σ') {link : Link}
    (hlink : σ.links[l]? = some link) :
    ∃ link', σ'.links[l]? = some link' ∧ LinkMove true link link' := by
  obtain ⟨th,rest,d,-,-,hmove⟩ := hmoves
  obtain ⟨link',hlink',hlinkMove,-⟩ := hmove.linkMove hlink
  refine ⟨link',hlink',?_⟩
  by_cases hexited : link.writer.pc = .exited
  · exact hlinkMove.of_exited hexited
  · rwa [h.senderAlive hlink hexited] at hlinkMove

theorem ReachableKeeping.sound {l : Nat} {σ : System} (h : ReachableKeeping l σ) :
    ∀ link, σ.links[l]? = some link → link.writing.Sound := by
  apply h.invariant
  · intro clients handler link hlink
    simp [System.initial] at hlink
  · intro σ a σ' hreach hσ _ hmoves link' hlink'
    by_cases hl : l < σ.links.length
    · obtain ⟨link₁,hlink₁,hlinkMove⟩ := hreach.linkMove hmoves (List.getElem?_eq_getElem hl)
      rw [hlink'] at hlink₁
      cases hlink₁
      exact hlinkMove.sound (hσ _ (List.getElem?_eq_getElem hl))
    · obtain ⟨th,rest,d,-,-,hmove⟩ := hmoves
      obtain ⟨endpoints,rfl,-⟩ := hmove.fresh_link (Nat.not_lt.mp hl) hlink'
      exact .fresh endpoints

theorem ReachableKeeping.linkMoves {l : Nat} {σ σ' : System} (h : ReachableKeeping l σ)
    (hrun : machine.Steps (KeepsRecord l) σ σ') {link : Link} (hlink : σ.links[l]? = some link) :
    ∃ link', σ'.links[l]? = some link' ∧ Relation.ReflTransGen (LinkMove true) link link' := by
  induction hrun with
  | refl => exact ⟨link,hlink,.refl⟩
  | tail hrun hlast ih =>
    obtain ⟨link₁,hlink₁,hmoves⟩ := ih
    obtain ⟨a,-,hstep⟩ := hlast
    have hreach : ReachableKeeping l _ := Machine.ReachableBy.steps h hrun
    obtain ⟨link₂,hlink₂,hlinkMove⟩ := hreach.linkMove (step_moves hstep) hlink₁
    exact ⟨link₂,hlink₂,hmoves.tail hlinkMove⟩

theorem ReachableKeeping.path {l : Nat} {s : Nat → System} (hreach : ReachableKeeping l (s 0))
    (hrun : machine.Endless (KeepsRecord l) s) (hl : l < (s 0).links.length) :
    ∃ links : Nat → Link, (∀ n, (s n).links[l]? = some (links n)) ∧
      ∀ n, LinkMove true (links n) (links (n+1)) := by
  have hexists : ∀ n, ∃ link, (s n).links[l]? = some link := fun n =>
    (hreach.linkMoves (hrun.steps n) (List.getElem?_eq_getElem hl)).imp fun _ h => h.1
  choose links hlinks using hexists
  refine ⟨links,hlinks,fun n => ?_⟩
  rcases hrun n with hsame | ⟨a,-,hstep⟩
  · have hlink := hlinks (n+1)
    rw [hsame,hlinks n,Option.some_inj] at hlink
    rw [← hlink]
    exact .same
  · have hreach' : ReachableKeeping l (s n) := Machine.ReachableBy.steps hreach (hrun.steps n)
    obtain ⟨link',hlink',hmove⟩ := hreach'.linkMove (step_moves hstep) (hlinks n)
    rw [hlinks (n+1)] at hlink'
    cases hlink'
    exact hmove

theorem stop_later {links : Nat → Link}
    (hmoves : ∀ n, LinkMove true (links n) (links (n+1))) {n m : Nat} (hm : n ≤ m)
    (hstop : (links n).stop = true) : (links m).stop = true := by
  induction hm with
  | refl => exact hstop
  | step hm ih => exact ((hmoves _).writerMove.taking_le ih).1

def System.writerPc (σ : System) (l : Nat) : Option WriterPc :=
  σ.links[l]?.map (fun link => link.writer.pc)

/-- Infinite runs on which the device and everybody else do their part. -/
structure Draining (l : Nat) (s : Nat → System) : Prop where
  endless : machine.Endless (KeepsRecord l) s
  -- The writer goes on until it has returned: it is scheduled, its control transfers end, its calls
  -- of the handler return, and `STATE` is released to it.
  progresses : ∀ n, (s n).writerPc l ≠ some .exited →
    ∃ m, n ≤ m ∧ (s (m+1)).writerPc l ≠ (s m).writerPc l
  -- When the queue has been cancelled all transfers complete in the end, and from then on no poll
  -- finds nothing.
  completes : ∀ n link, (s n).links[l]? = some link → link.writer.cancelled = true →
    ∃ N, ∀ m, N ≤ m → (s m).writerPc l = some .poll → (s (m+1)).writerPc l ≠ some .fill

theorem Draining.exits {l : Nat} {s : Nat → System} (h : Draining l s)
    (hreach : ReachableKeeping l (s 0)) {link : Link} (hlink : (s 0).links[l]? = some link)
    (hstop : link.stop = true) : ∃ n, (s n).writerPc l = some .exited := by
  have hreaches : ∀ n, ReachableKeeping l (s n) :=
    fun n => Machine.ReachableBy.steps hreach (h.endless.steps n)
  have hexists : ∀ n, ∃ link', (s n).links[l]? = some link' :=
    fun n => (hreach.linkMoves (h.endless.steps n) hlink).imp fun _ h => h.1
  choose links hlinks using hexists
  have hpc : ∀ n, (s n).writerPc l = some (links n).writer.pc := by
    intro n
    rw [System.writerPc,hlinks n]
    rfl
  have hmove : ∀ n, WriterMove (links n).writing (links (n+1)).writing := by
    intro n
    rcases h.endless n with hsame | ⟨a,-,hstep⟩
    · have hlink' := hlinks (n+1)
      rw [hsame,hlinks n,Option.some_inj] at hlink'
      rw [← hlink']
      exact .other
    · obtain ⟨link',hlink',hlinkMove⟩ := (hreaches n).linkMove (step_moves hstep) (hlinks n)
      rw [hlinks (n+1)] at hlink'
      cases hlink'
      exact hlinkMove.writerMove
  have hstart : links 0 = link := Option.some_inj.mp ((hlinks 0).symm.trans hlink)
  obtain ⟨n,hexited⟩ := Writing.exits hmove (fun n => (hreaches n).sound _ (hlinks n))
    (by rw [hstart]; exact hstop)
    (by
      intro m hruns
      obtain ⟨k,hk,hchange⟩ := h.progresses m
        (by rw [hpc]; exact fun h => hruns (Option.some_inj.mp h))
      rw [hpc,hpc] at hchange
      exact ⟨k,hk,fun hsame => hchange (congrArg some hsame)⟩)
    (by
      intro n hcancelled
      obtain ⟨N,hN⟩ := h.completes n _ (hlinks n) hcancelled
      refine ⟨N,fun m hm hpoll => ?_⟩
      have hfound := hN m hm (by rw [hpc]; exact congrArg some hpoll)
      rw [hpc] at hfound
      exact fun hfill => hfound (congrArg some hfill))
  exact ⟨n,by rw [hpc]; exact congrArg some hexited⟩

structure Link.Drains (link link' : Link) : Prop where
  taken_le : link'.writing.taken ≤ link.writing.taken+1
  cancellations_eq : link.writer.pc ≠ .exited → link'.writer.pc = .exited →
    link'.writing.counts.cancellations = if link.writer.Passed then 0 else 1
  handed_eq : link.writer.cancelled = true →
    link'.writing.counts.handed = link.writing.counts.handed
  completed_eq : link.writer.cancelled = true → link'.writer.pc = .exited →
    link'.writing.counts.completed =
      link.writing.counts.completed + link.writer.aclOutQueue.length
  released_eq : link.writer.cancelled = true → link'.writer.pc = .exited →
    link'.writing.counts.released = link.writing.counts.released + link.writer.slots

theorem Link.drains_of_linkMoves {link link' : Link}
    (h : Relation.ReflTransGen (LinkMove true) link link') (hs : link.writing.Sound)
    (hstop : link.stop = true) : link.Drains link' := by
  have hsettles : link.writer.cancelled = true →
      link'.writing.Sound ∧ link.writing.Settles link'.writing := by
    intro hcancelled
    apply Writing.induction h hs ⟨hcancelled,rfl,rfl,rfl⟩
    exact fun s s' hs hsettled hmove => hsettled.trans (hmove.settles hs hsettled.cancelled)
  have hdrained : link'.writing.Sound → link'.writer.pc = .exited →
      link'.writing.writer.aclOutQueue.length = 0 ∧ link'.writing.writer.slots = 0 := by
    intro hs' hexited
    have hempty := List.length_eq_zero_iff.mpr (hs'.exited hexited).2
    have hlength := hs'.windowed.inFlightOut_eq
    refine ⟨hempty,?_⟩
    rw [Writer.slots,hlength,hempty,show link'.writing.writer.pc = .exited from hexited]
    rfl
  constructor
  · obtain ⟨-,-,hle⟩ := Writing.induction (P := fun s => s.stop = true ∧
      s.counts.handed + s.writer.pc.taking ≤
        link.writing.counts.handed + link.writing.writer.pc.taking) h hs
      ⟨hstop,Nat.le_refl _⟩ fun s s' _ hle hmove => by
        obtain ⟨hstop',hle'⟩ := hmove.taking_le hle.1
        exact ⟨hstop',Nat.le_trans hle' hle.2⟩
    have hbefore := link.writing.writer.pc.held_le_taking
    have hafter := link'.writing.writer.pc.held_le_taking
    unfold Writing.taken
    omega
  · intro hruns hexited
    split
    · rename_i hpassed
      obtain ⟨hs',-,hcancelled,-⟩ := Writing.induction h hs
        ⟨hstop,hpassed.2.2,Or.inl hpassed⟩ fun s s' _ hP hmove => hmove.passed hP
      rw [hs'.cancellations_eq,hcancelled]
      rfl
    · rename_i hpassed
      obtain ⟨hs',-,-,hcancelled⟩ := Writing.induction h hs
        ⟨hstop,hpassed,fun h => absurd h hruns⟩ fun s s' _ hP hmove => hmove.not_passed hP
      rw [hs'.cancellations_eq,hcancelled hexited]
      rfl
  · exact fun hcancelled => (hsettles hcancelled).2.handed_eq
  · intro hcancelled hexited
    obtain ⟨hs',hsettled⟩ := hsettles hcancelled
    have heq := hsettled.completed_eq
    rwa [(hdrained hs' hexited).1] at heq
  · intro hcancelled hexited
    obtain ⟨hs',hsettled⟩ := hsettles hcancelled
    have heq := hsettled.released_eq
    rwa [(hdrained hs' hexited).2] at heq

/-- The writer of a link whose record is kept: its counter is the length of its queue, it never
finds the channel disconnected, and it returns with an empty queue after a stop request only, which
it does on every run that goes on. It cancels its queue once, unless the request comes when it has
passed the check and will find nothing in flight. -/
theorem writer_drains {l : Nat} {σ : System} (h : ReachableKeeping l σ) {link : Link}
    (hlink : σ.links[l]? = some link) :
    link.writer.inFlightOut = link.writer.aclOutQueue.length ∧
    (link.writer.pc = .recv → σ.senderAlive l = true) ∧
    (link.writer.pc = .exited → link.stop = true ∧ link.writer.aclOutQueue = []) ∧
    link.writing.counts.cancellations ≤ 1 ∧
    (link.stop = true → ∀ σ' link', machine.Steps (KeepsRecord l) σ σ' →
      σ'.links[l]? = some link' → link.Drains link') ∧
    (link.stop = true → ∀ s : Nat → System, s 0 = σ → Draining l s →
      ∃ n, (s n).writerPc l = some .exited) := by
  have hs := h.sound link hlink
  refine ⟨hs.windowed.inFlightOut_eq,?_,hs.exited,?_,?_,?_⟩
  · intro hpc
    exact h.senderAlive hlink (by simp [hpc])
  · rw [hs.cancellations_eq]
    split <;> decide
  · intro hstop σ' link' hrun hlink'
    obtain ⟨link₁,hlink₁,hmoves⟩ := h.linkMoves hrun hlink
    rw [hlink'] at hlink₁
    cases hlink₁
    exact Link.drains_of_linkMoves hmoves hs hstop
  · rintro hstop s rfl hdraining
    exact hdraining.exits h hlink hstop

theorem draining_of_end {l : Nat} {s : Nat → System} {σ : System} {N : Nat}
    (hrun : machine.Endless (KeepsRecord l) s) (hend : ∀ n, N ≤ n → s n = σ)
    (hexited : σ.writerPc l = some .exited) : Draining l s := by
  refine ⟨hrun,?_,?_⟩
  · intro n hruns
    by_cases hn : N ≤ n
    · rw [hend n hn] at hruns
      exact absurd hexited hruns
    · apply exists_change (f := fun n => (s n).writerPc l) (Nat.le_of_not_le hn)
      show (s N).writerPc l ≠ (s n).writerPc l
      rw [hend N (Nat.le_refl N),hexited]
      exact Ne.symm hruns
  · intro n link _ _
    refine ⟨N,fun m hm hpoll => ?_⟩
    rw [hend m hm,hexited] at hpoll
    cases hpoll

theorem draining_of_steps {l : Nat} {σ σ' : System} (h : machine.Steps (KeepsRecord l) σ σ')
    (hexited : σ'.writerPc l = some .exited) : ∃ s : Nat → System, s 0 = σ ∧ Draining l s := by
  obtain ⟨s,N,hstart,hend,hendless⟩ := Machine.endless_of_steps h
  exact ⟨s,hstart,draining_of_end hendless hend hexited⟩

def cancelRun : List Action :=
  openRun 0 dongle dongleInterface [] ++
    Action.by 0 [.call (.transportSendPacket ⟨2,some [7],1⟩),.go,.go,.go,.go,.go] ++
    Action.by 3 [.go,.go,.go] ++ Action.by 0 [.call .transportClose,.go,.go,.go] ++
    Action.by 3 [.go,.go]

def returnRun : List Action := Action.by 3 [.go,.bulk 0 .ok,.go,.go,.go,.go,.go,.go]

theorem writer_drains_acl : ∃ σ σ' link link', ReachableKeeping 0 σ ∧
    machine.Steps (KeepsRecord 0) σ σ' ∧ σ.links[0]? = some link ∧ σ'.links[0]? = some link' ∧
    link.writer = { pc := .emptyCheck, inFlightOut := 1, cancelled := true, aclOutQueue := [[7]] } ∧
    link'.writer.pc = .exited ∧ link'.writer.aclOutQueue = [] ∧
    link'.writing.counts.released = link.writing.counts.released+1 ∧
    ∃ s : Nat → System, s 0 = σ ∧ Draining 0 s ∧ ∃ n, (s n).writerPc 0 = some .exited := by
  have hrun : ((machine.runWhere (fun σ a => !σ.overwrites 0 a) (System.initial 1 none)
      cancelRun).bind fun σ => (machine.runWhere (fun σ a => !σ.overwrites 0 a) σ returnRun).bind
        fun σ' => σ.links[0]?.bind fun link => σ'.links[0]?.map fun link' =>
          (link.stop,link.writer,link'.writer.pc)) =
      some (true,{ pc := .emptyCheck, inFlightOut := 1, cancelled := true, aclOutQueue := [[7]] },
        .exited) := rfl
  obtain ⟨σ,hσ,hrest⟩ := Option.bind_eq_some_iff.mp hrun
  obtain ⟨σ',hσ',hrest⟩ := Option.bind_eq_some_iff.mp hrest
  obtain ⟨link,hlink,hrest⟩ := Option.bind_eq_some_iff.mp hrest
  obtain ⟨link',hlink',hvalues⟩ := Option.map_eq_some_iff.mp hrest
  simp only [Prod.mk.injEq] at hvalues
  obtain ⟨hstop,hwriter,hexited⟩ := hvalues
  have hreach := ReachableKeeping.of_runWhere hσ
  have hsteps : machine.Steps (KeepsRecord 0) σ σ' := keepsRecord_of_runWhere hσ'
  obtain ⟨-,-,-,-,hdrains,hexits⟩ := writer_drains hreach hlink
  obtain ⟨-,-,hreturned,-⟩ := writer_drains (Machine.ReachableBy.steps hreach hsteps) hlink'
  have hreleased := (hdrains hstop σ' link' hsteps hlink').released_eq (by rw [hwriter]) hexited
  obtain ⟨s,hstart,hdraining⟩ := draining_of_steps hsteps
    (by rw [System.writerPc,hlink',Option.map_some,hexited])
  rw [hwriter] at hreleased
  exact ⟨σ,σ',link,link',hreach,hsteps,hlink,hlink',hwriter,hexited,(hreturned hexited).2,
    hreleased,s,hstart,hdraining,hexits hstop s hstart hdraining⟩

/-- The request comes when the writer has passed the check and nothing is in flight: it returns
without a cancellation. -/
theorem lateStop_not_cancelled : ∃ σ link,
    machine.runWhere (fun σ a => !σ.overwrites 0 a) (System.initial 1 none)
      (openRun 0 dongle dongleInterface [] ++ Action.by 3 [.go,.go,.go] ++
        Action.by 0 [.call .transportClose,.go,.go,.go] ++ Action.by 3 [.go]) = some σ ∧
    σ.links[0]? = some link ∧ link.stop = true ∧ link.writer.pc = .exited ∧
    link.writing.counts.cancellations = 0 := by
  have hrun : ((machine.runWhere (fun σ a => !σ.overwrites 0 a) (System.initial 1 none)
      (openRun 0 dongle dongleInterface [] ++ Action.by 3 [.go,.go,.go] ++
        Action.by 0 [.call .transportClose,.go,.go,.go] ++ Action.by 3 [.go])).bind
      fun σ => σ.links[0]?.map fun link =>
        (link.stop,link.writer.pc,link.writing.counts.cancellations)) =
      some (true,.exited,0) := rfl
  obtain ⟨σ,hσ,hmap⟩ := Option.bind_eq_some_iff.mp hrun
  obtain ⟨link,hlink,hvalues⟩ := Option.map_eq_some_iff.mp hmap
  simp only [Prod.mk.injEq] at hvalues
  obtain ⟨hstop,hpc,hcount⟩ := hvalues
  exact ⟨σ,link,hσ,hlink,hstop,hpc,hcount⟩

end BtstackRs.Transport
