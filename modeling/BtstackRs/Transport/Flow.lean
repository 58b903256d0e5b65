import BtstackRs.Concurrent.LeadsTo
import BtstackRs.Transport.Drain
import BtstackRs.Transport.Trace

/-!
# Packets get through

As long as the transport stays open and the writer, the handler and the device do their part, every
packet that a send has put into the channel is handed to USB at its place in the order, and as many
slots are released as packets were accepted. The phases of the two arguments are those of the loop:
a full window is emptied by polls, and a window with room takes the next packet.
-/

namespace BtstackRs.Transport

open Concurrent

private theorem InOrder.length_eq {link : Link} {sent : List OutgoingPacket}
    (h : InOrder link sent) : (acceptedCalls link.history).length =
      (handedTransfers link.history).length + link.waiting.length := by
  have haccepted := congrArg List.length h.accepted_eq
  simp only [List.length_map,List.length_append] at haccepted
  rw [haccepted,h.handed_eq,List.length_map,Link.waiting,List.length_append,Nat.add_assoc]

inductive LinkTurn (link : Link) : Link → Prop where
  | still (link' : Link) (hwriter : link'.writer = link.writer)
      (hchannel : link.channel <+: link'.channel)
      (hhanded : handedTransfers link'.history = handedTransfers link.history)
      (hreleases : releases link'.history = releases link.history) : LinkTurn link link'
  | writer (control : Status) (poll : Option (Nat × Status)) (link' : Link)
      (hwriter : writerStep true control poll link = some link') : LinkTurn link link'
  | resume (hpc : link.writer.pc = .acknowledging) :
      LinkTurn link { link with writer := { link.writer with pc := .fill } }

theorem LinkMove.turn {link link' : Link} (h : LinkMove true link link') :
    LinkTurn link link' := by
  cases h with
  | same | stop => exact .still _ rfl (List.prefix_refl _) rfl rfl
  | send t call handles spurious pc _ next hsend =>
    apply LinkTurn.still link' (sendStep_writer hsend)
    all_goals cases sendStep_cases hsend
    all_goals simp [LinkEvent.handedTransfer,releases,LinkEvent.isReleased]
  | reader kind poll r hreader | resumeReader kind =>
    exact .still _ (by simp) (by simp) (by simp) (by simp)
  | writer control poll _ hwriter => exact .writer control poll _ hwriter
  | resumeWriter =>
    by_cases hpc : link.writer.pc = .acknowledging
    · rw [Writer.resume,hpc]
      exact .resume hpc
    · have hsame : link.writer.resume = link.writer := by
        unfold Writer.resume
        split
        · contradiction
        · rfl
      rw [hsame]
      exact .still _ rfl (List.prefix_refl _) rfl rfl

theorem LinkMove.history_isPrefix {alive : Bool} {link link' : Link}
    (h : LinkMove alive link link') : link.history <+: link'.history := by
  cases h with
  | send t call handles spurious pc _ next hsend => cases sendStep_cases hsend <;> simp
  | writer control poll _ hwriter => cases writerStep_cases hwriter <;> simp
  | reader kind poll r hreader | resumeReader kind => simp
  | _ => exact List.prefix_refl _

def WriterPc.toHandOver : WriterPc → Nat
  | .cancelCheck => 8
  | .emptyCheck => 7
  | .poll | .commandWait => 6
  | .commandDone _ | .bulkDone _ => 5
  | .acknowledging => 4
  | .fill => 3
  | .recv => 2
  | .holding _ => 1
  | .exited => 0

private theorem afterRelease_toHandOver (status : Status) : (afterRelease status).toHandOver < 5 := by
  cases status <;> simp [afterRelease,WriterPc.toHandOver]

theorem LinkTurn.hands_over {link link' : Link} (h : LinkTurn link link')
    (hw : link.writer.Windowed) (hstop : link.stop = false)
    (hwaiting : link.waiting ≠ []) (hroom : link.writer.inFlightOut < aclOutInFlight) :
    (handedTransfers link.history).length < (handedTransfers link'.history).length ∨
      (link'.waiting ≠ [] ∧ link'.writer.inFlightOut < aclOutInFlight) ∧
        (link'.writer.pc.toHandOver < link.writer.pc.toHandOver ∨
          link'.writer.pc = link.writer.pc) := by
  have hkept : ∀ {pc : WriterPc}, link.writer.pc.held = [] → pc.held ++ link.channel ≠ [] := by
    intro pc hheld
    rw [Link.waiting,hheld,List.nil_append] at hwaiting
    simp [hwaiting]
  cases h with
  | still _ hwriter hchannel hhanded hreleases =>
    right
    rw [Link.waiting,hwriter]
    refine ⟨⟨?_,hroom⟩,.inr rfl⟩
    obtain ⟨new,hnew⟩ := hchannel
    rw [← hnew,← List.append_assoc]
    exact List.append_ne_nil_of_left_ne_nil hwaiting new
  | resume hpc =>
    right
    exact ⟨⟨hkept (by rw [hpc]; rfl),hroom⟩,.inl (by simp [hpc,WriterPc.toHandOver])⟩
  | writer control poll _ hwriter =>
    cases writerStep_cases hwriter with
    | skip hpc hfull => exact absurd ⟨hroom,hstop⟩ hfull
    | timeout hpc hempty halive =>
      exact absurd (by simp [Link.waiting,hpc,WriterPc.held,hempty]) hwaiting
    | disconnected hpc hempty halive => cases halive
    | cancel hpc hset hfirst | leave hpc hempty hset =>
      rw [hstop] at hset
      cases hset
    | command packet hpc | submit packet data hpc htransfer =>
      left
      simp [LinkEvent.handedTransfer]
    | take hpc packet rest hchannel =>
      right
      exact ⟨⟨by simp [Link.waiting,WriterPc.held],hroom⟩,.inl (by simp [hpc,WriterPc.toHandOver])⟩
    | release status hpc =>
      right
      have hheld : link.writer.pc.held = [] := by rcases hpc with hpc | hpc <;> rw [hpc] <;> rfl
      have hrank : link.writer.pc.toHandOver = 5 := by
        rcases hpc with hpc | hpc <;> rw [hpc] <;> rfl
      exact ⟨⟨hkept hheld,hroom⟩,.inl (by rw [hrank]; exact afterRelease_toHandOver status)⟩
    | complete hpc i status hi =>
      right
      have hpos := hw.poll_pos hpc
      refine ⟨⟨hkept (by rw [hpc]; rfl),?_⟩,.inl (by simp [hpc,WriterPc.toHandOver])⟩
      simp only [Link.record_writer,wrappingDec_of_pos hpos]
      omega
    | enter hpc | commandComplete hpc | pass hpc | again hpc | await hpc | idle hpc =>
      right
      exact ⟨⟨hkept (by rw [hpc]; rfl),hroom⟩,.inl (by simp [hpc,WriterPc.toHandOver])⟩

def WriterPc.toPoll : WriterPc → Nat
  | .commandWait => 6
  | .commandDone _ | .bulkDone _ => 5
  | .acknowledging => 4
  | .fill => 3
  | .cancelCheck => 2
  | .emptyCheck => 1
  | _ => 0

private theorem afterRelease_toPoll (status : Status) : (afterRelease status).toPoll < 5 := by
  cases status <;> simp [afterRelease,WriterPc.toPoll]

theorem LinkTurn.polls {link link' : Link} (h : LinkTurn link link')
    (hw : link.writer.Windowed) (hstop : link.stop = false)
    (hwaiting : link.waiting ≠ []) (hfull : ¬link.writer.inFlightOut < aclOutInFlight) :
    link'.waiting ≠ [] ∧ (link.writer.pc = .poll ∨
      link'.writer.pc.toPoll < link.writer.pc.toPoll ∨ link'.writer.pc = link.writer.pc) := by
  have hkept : ∀ {pc : WriterPc}, link.writer.pc.held = [] → pc.held ++ link.channel ≠ [] := by
    intro pc hheld
    rw [Link.waiting,hheld,List.nil_append] at hwaiting
    simp [hwaiting]
  cases h with
  | still _ hwriter hchannel hhanded hreleases =>
    rw [Link.waiting,hwriter]
    refine ⟨?_,.inr (.inr rfl)⟩
    obtain ⟨new,hnew⟩ := hchannel
    rw [← hnew,← List.append_assoc]
    exact List.append_ne_nil_of_left_ne_nil hwaiting new
  | resume hpc => exact ⟨hkept (by rw [hpc]; rfl),.inr (.inl (by simp [hpc,WriterPc.toPoll]))⟩
  | writer control poll _ hwriter =>
    cases writerStep_cases hwriter with
    | enter hpc hroom hopen => exact absurd hroom hfull
    | take hpc | timeout hpc | disconnected hpc => exact absurd (hw.recv_room hpc) hfull
    | command packet hpc | submit packet data hpc => exact absurd (hw.holding_room _ hpc) hfull
    | cancel hpc hset hfirst | leave hpc hempty hset =>
      rw [hstop] at hset
      cases hset
    | again hpc hempty hopen => exact absurd (by rw [hempty]; decide) hfull
    | release status hpc =>
      have hheld : link.writer.pc.held = [] := by rcases hpc with hpc | hpc <;> rw [hpc] <;> rfl
      have hrank : link.writer.pc.toPoll = 5 := by rcases hpc with hpc | hpc <;> rw [hpc] <;> rfl
      exact ⟨hkept hheld,.inr (.inl (by rw [hrank]; exact afterRelease_toPoll status))⟩
    | idle hpc | complete hpc => exact ⟨hkept (by rw [hpc]; rfl),.inl hpc⟩
    | skip hpc | commandComplete hpc | pass hpc | await hpc =>
      exact ⟨hkept (by rw [hpc]; rfl),.inr (.inl (by simp [hpc,WriterPc.toPoll]))⟩

theorem LinkTurn.completes {link link' : Link} (h : LinkTurn link link')
    (hw : link.writer.Windowed) (hpoll : link.writer.pc = .poll) {status : Status}
    (hdone : link'.writer.pc = .bulkDone status) :
    link'.writer.inFlightOut + 1 = link.writer.inFlightOut := by
  cases h with
  | still _ hwriter hchannel hhanded hreleases =>
    rw [hwriter,hpoll] at hdone
    cases hdone
  | resume hpc => cases hdone
  | writer control poll _ hwriter =>
    have hpos := hw.poll_pos hpoll
    cases writerStep_cases hwriter with
    | complete hpc i status hi =>
      simp only [Link.record_writer,wrappingDec_of_pos hpos]
      omega
    | release status hpc => rcases hpc with hpc | hpc <;> rw [hpoll] at hpc <;> cases hpc
    | _ => cases hdone

def WriterPc.toRelease : WriterPc → Nat
  | .acknowledging => 7
  | .fill => 6
  | .recv => 5
  | .holding _ => 4
  | .commandWait | .cancelCheck => 3
  | .commandDone _ | .bulkDone _ | .emptyCheck => 2
  | .poll => 1
  | .exited => 0

def Writer.toRelease (w : Writer) : Nat := 8*(aclOutInFlight-w.inFlightOut) + w.pc.toRelease

theorem LinkTurn.releases {link link' : Link} (h : LinkTurn link link')
    (hw : link.writer.Windowed) (hstop : link.stop = false)
    (husb : 0 < link.pipeline.outstanding) :
    Transport.releases link.history < Transport.releases link'.history ∨
      link.writer.pc = .poll ∨ link'.writer.toRelease < link.writer.toRelease ∨
      link'.writer = link.writer := by
  cases h with
  | still _ hwriter hchannel hhanded hreleases => exact .inr (.inr (.inr hwriter))
  | resume hpc => exact .inr (.inr (.inl (by simp [Writer.toRelease,hpc,WriterPc.toRelease])))
  | writer control poll _ hwriter =>
    cases writerStep_cases hwriter with
    | release status hpc =>
      left
      simp [Transport.releases,LinkEvent.isReleased]
    | idle hpc | complete hpc => exact .inr (.inl hpc)
    | disconnected hpc hempty halive => cases halive
    | cancel hpc hset hfirst | leave hpc hempty hset =>
      rw [hstop] at hset
      cases hset
    | again hpc hempty hopen =>
      simp [Pipeline.outstanding,Link.pipeline,hpc,hempty,WriterPc.finishing,
        WriterPc.commanding] at husb
    | submit packet data hpc htransfer =>
      right
      right
      left
      have hroom := hw.holding_room _ hpc
      simp only [Writer.toRelease,Link.record_writer,hpc,WriterPc.toRelease]
      omega
    | enter hpc | skip hpc | take hpc | timeout hpc | command packet hpc | commandComplete hpc
    | pass hpc | await hpc =>
      right
      right
      left
      simp [Writer.toRelease,hpc,WriterPc.toRelease]

theorem LinkTurn.released {link link' : Link} (h : LinkTurn link link') {status : Status}
    (hdone : link.writer.pc = .bulkDone status) :
    Transport.releases link.history < Transport.releases link'.history ∨
      link'.writer.pc = link.writer.pc := by
  cases h with
  | still _ hwriter hchannel hhanded hreleases => exact .inr (by rw [hwriter])
  | resume hpc =>
    rw [hdone] at hpc
    cases hpc
  | writer control poll _ hwriter =>
    cases writerStep_cases hwriter with
    | release status hpc =>
      left
      simp [Transport.releases,LinkEvent.isReleased]
    | enter hpc | skip hpc | take hpc | timeout hpc | disconnected hpc | command packet hpc
    | submit packet data hpc | commandComplete hpc | cancel hpc | pass hpc | leave hpc | again hpc
    | await hpc | idle hpc | complete hpc =>
      rw [hdone] at hpc
      cases hpc

structure OpenPath (links : Nat → Link) : Prop where
  moves : ∀ n, LinkMove true (links n) (links (n+1))
  windowed : ∀ n, (links n).writer.Windowed
  inOrder : ∀ n, ∃ sent, InOrder (links n) sent
  explained : ∀ n, linkPipeline.run {} (links n).trace = some (links n).pipeline
  stop : ∀ n, (links n).stop = false
  progresses : ∀ n, ∃ m, n ≤ m ∧ (links (m+1)).writer.pc ≠ (links m).writer.pc
  completes : ∀ n, (∀ m, n ≤ m → ∃ k, m ≤ k ∧ (links k).writer.pc = .poll) →
    ∃ m status, n ≤ m ∧ (links m).writer.pc = .poll ∧
      (links (m+1)).writer.pc = .bulkDone status

namespace OpenPath

variable {links : Nat → Link}

/-- How many packets have been handed to USB. -/
def handed (links : Nat → Link) (n : Nat) : Nat := (handedTransfers (links n).history).length

def released (links : Nat → Link) (n : Nat) : Nat := releases (links n).history

theorem history_isPrefix (h : OpenPath links) {n m : Nat} (hm : n ≤ m) :
    (links n).history <+: (links m).history := by
  induction hm with
  | refl => exact List.prefix_refl _
  | step hm ih => exact ih.trans (h.moves _).history_isPrefix

theorem accepted_isPrefix (h : OpenPath links) {n m : Nat} (hm : n ≤ m) :
    acceptedCalls (links n).history <+: acceptedCalls (links m).history :=
  (h.history_isPrefix hm).filterMap _

theorem handed_mono (h : OpenPath links) {n m : Nat} (hm : n ≤ m) :
    handed links n ≤ handed links m :=
  ((h.history_isPrefix hm).filterMap LinkEvent.handedTransfer).length_le

theorem released_mono (h : OpenPath links) {n m : Nat} (hm : n ≤ m) :
    released links n ≤ released links m :=
  (h.history_isPrefix hm).sublist.countP_le

theorem accepted_eq (h : OpenPath links) (n : Nat) : (acceptedCalls (links n).history).length =
    handed links n + (links n).waiting.length := by
  obtain ⟨sent,hsent⟩ := h.inOrder n
  exact hsent.length_eq

theorem handed_eq (h : OpenPath links) (n : Nat) :
    handed links n = released links n + (links n).pipeline.outstanding := by
  have hhanded := (Pipeline.lawful_of_run (h.explained n)).handed_eq
  rwa [Link.trace,handed_observed,settled_observed] at hhanded

private theorem makes_room (h : OpenPath links) :
    LeadsTo (fun n => (links n).waiting ≠ [])
      (fun n => (links n).waiting ≠ [] ∧ (links n).writer.inFlightOut < aclOutInFlight) := by
  have hturn : ∀ m, (links m).waiting ≠ [] →
      ¬((links m).waiting ≠ [] ∧ (links m).writer.inFlightOut < aclOutInFlight) →
      (links (m+1)).waiting ≠ [] ∧ ((links m).writer.pc = .poll ∨
        (links (m+1)).writer.pc.toPoll < (links m).writer.pc.toPoll ∨
        (links (m+1)).writer.pc = (links m).writer.pc) :=
    fun m hwaiting hfull => (h.moves m).turn.polls (h.windowed m) (h.stop m) hwaiting
      (fun hroom => hfull ⟨hwaiting,hroom⟩)
  apply LeadsTo.of_lasting
  · exact fun m hwaiting hfull => .inl (hturn m hwaiting hfull).1
  · intro n hlasts
    have hpolls : ∀ m, n ≤ m → ∃ k, m ≤ k ∧ (links k).writer.pc = .poll := by
      intro m hm
      apply reaches_of_rank (n := m) (fun k => (links k).writer.pc.toPoll)
        (fun k => (links k).writer.pc = .poll)
        (fun k => (links (k+1)).writer.pc = (links k).writer.pc)
      · intro k hk hpoll
        obtain ⟨hwaiting,hfull⟩ := hlasts k (Nat.le_trans hm hk)
        rcases (hturn k hwaiting hfull).2 with hgoal | hlt | hsame
        · exact absurd hgoal hpoll
        · exact .inr (.inl hlt)
        · exact .inr (.inr ⟨hsame,congrArg WriterPc.toPoll hsame⟩)
      · exact fun k _ _ => h.progresses k
    obtain ⟨m,status,hm,hpoll,hdone⟩ := h.completes n hpolls
    have hfewer := (h.moves m).turn.completes (h.windowed m) hpoll hdone
    have hle := (h.windowed m).le_window
    exact (hlasts (m+1) (Nat.le_succ_of_le hm)).2
      ⟨(hlasts (m+1) (Nat.le_succ_of_le hm)).1,by omega⟩

private theorem takes_next (h : OpenPath links) (c : Nat) :
    LeadsTo (fun n => c ≤ handed links n ∧
        (links n).waiting ≠ [] ∧ (links n).writer.inFlightOut < aclOutInFlight)
      (fun n => c < handed links n) := by
  apply LeadsTo.of_rank (fun n => (links n).writer.pc.toHandOver)
    (fun n => (links (n+1)).writer.pc = (links n).writer.pc)
  · rintro m ⟨hc,hwaiting,hroom⟩ -
    have hmono := h.handed_mono (Nat.le_succ m)
    rcases (h.moves m).turn.hands_over (h.windowed m) (h.stop m) hwaiting hroom with
      hmore | ⟨hkept,hlt | hsame⟩
    · exact .inl (Nat.lt_of_le_of_lt hc hmore)
    · exact .inr ⟨⟨Nat.le_trans hc hmono,hkept⟩,.inl hlt⟩
    · exact .inr ⟨⟨Nat.le_trans hc hmono,hkept⟩,.inr ⟨hsame,congrArg WriterPc.toHandOver hsame⟩⟩
  · exact fun m _ _ => h.progresses m

/-- What is waiting makes progress. -/
theorem handed_grows (h : OpenPath links) {n : Nat} (hwaiting : (links n).waiting ≠ []) :
    ∃ m, n ≤ m ∧ handed links n < handed links m := by
  obtain ⟨m,hm,hroom⟩ := h.makes_room n hwaiting
  obtain ⟨k,hk,hmore⟩ := h.takes_next (handed links n) m ⟨h.handed_mono hm,hroom⟩
  exact ⟨k,Nat.le_trans hm hk,hmore⟩

theorem handed_reaches (h : OpenPath links) (n : Nat) :
    ∃ m, n ≤ m ∧ (acceptedCalls (links n).history).length ≤ handed links m := by
  apply reaches_of_grows
  intro m hm hless
  have haccepted := (h.accepted_isPrefix hm).length_le
  have heq := h.accepted_eq m
  apply h.handed_grows
  intro hempty
  rw [hempty,List.length_nil] at heq
  omega

/-- What is at USB is released in the end. -/
theorem released_grows (h : OpenPath links) {n : Nat} (husb : released links n < handed links n) :
    ∃ m, n ≤ m ∧ released links n < released links m := by
  by_contra hnever
  have hsame : ∀ m, n ≤ m → released links m = released links n := by
    intro m hm
    have hle := h.released_mono hm
    exact Nat.le_antisymm (Nat.not_lt.mp fun hlt => hnever ⟨m,hm,hlt⟩) hle
  have hnone : ∀ m, n ≤ m → ¬released links m < released links (m+1) := by
    intro m hm
    rw [hsame m hm,hsame (m+1) (Nat.le_succ_of_le hm)]
    exact Nat.lt_irrefl _
  have hstays : ∀ m, n ≤ m → 0 < (links m).pipeline.outstanding := by
    intro m hm
    have hmono := h.handed_mono hm
    have heq := h.handed_eq m
    rw [hsame m hm] at heq
    omega
  have hpolls : ∀ m, n ≤ m → ∃ k, m ≤ k ∧ (links k).writer.pc = .poll := by
    intro m hm
    apply reaches_of_rank (n := m) (fun k => (links k).writer.toRelease)
      (fun k => (links k).writer.pc = .poll)
      (fun k => (links (k+1)).writer.pc = (links k).writer.pc)
    · intro k hk hpoll
      have hnk := Nat.le_trans hm hk
      rcases (h.moves k).turn.releases (h.windowed k) (h.stop k) (hstays k hnk) with
        hmore | hgoal | hlt | hwriter
      · exact absurd hmore (hnone k hnk)
      · exact absurd hgoal hpoll
      · exact .inr (.inl hlt)
      · exact .inr (.inr ⟨congrArg Writer.pc hwriter,congrArg Writer.toRelease hwriter⟩)
    · exact fun k _ _ => h.progresses k
  obtain ⟨m,status,hm,-,hdone⟩ := h.completes n hpolls
  obtain ⟨k,hk,hmore⟩ := LeadsTo.of_change
    (P := fun k => n ≤ k ∧ (links k).writer.pc = .bulkDone status)
    (Q := fun k => released links n < released links k) (fun k => (links k).writer.pc)
    (by
      rintro k ⟨hk,hpc⟩ -
      rcases (h.moves k).turn.released hpc with hmore | hkept
      · exact absurd hmore (hnone k hk)
      · exact .inr ⟨⟨Nat.le_succ_of_le hk,hkept.trans hpc⟩,hkept⟩)
    (fun k _ _ => h.progresses k) (m+1) ⟨Nat.le_succ_of_le hm,hdone⟩
  exact hnever ⟨k,by omega,hmore⟩

theorem released_reaches (h : OpenPath links) (n : Nat) :
    ∃ m, n ≤ m ∧ (acceptedCalls (links n).history).length ≤ released links m := by
  obtain ⟨m,hm,hhanded⟩ := h.handed_reaches n
  have hreached : ∃ k, m ≤ k ∧ (acceptedCalls (links n).history).length ≤ released links k := by
    apply reaches_of_grows
    intro k hk hless
    have hmono := h.handed_mono hk
    exact h.released_grows (by omega)
  obtain ⟨k,hk,hreleased⟩ := hreached
  exact ⟨k,Nat.le_trans hm hk,hreleased⟩

end OpenPath

/-- Infinite runs on which a transport is in use, and the device and everybody else do their
part. -/
structure Flowing (l : Nat) (s : Nat → System) : Prop where
  endless : machine.Endless (KeepsRecord l) s
  stays_open : ∀ n link, (s n).links[l]? = some link → link.stop = false
  -- The writer goes on: it is scheduled, its control transfers end, its calls of the handler return,
  -- and `STATE` is released to it.
  progresses : ∀ n, ∃ m, n ≤ m ∧ (s (m+1)).writerPc l ≠ (s m).writerPc l
  -- If the writer polls again and again, one of its polls finds a completion.
  completes : ∀ n, (∀ m, n ≤ m → ∃ k, m ≤ k ∧ (s k).writerPc l = some .poll) →
    ∃ m status, n ≤ m ∧ (s m).writerPc l = some .poll ∧
      (s (m+1)).writerPc l = some (.bulkDone status)

theorem Flowing.openPath {l : Nat} {s : Nat → System} (h : Flowing l s)
    (hreach : ReachableKeeping l (s 0)) (hl : l < (s 0).links.length) :
    ∃ links : Nat → Link, (∀ n, (s n).links[l]? = some (links n)) ∧ OpenPath links := by
  obtain ⟨links,hlinks,hmoves⟩ := hreach.path h.endless hl
  have hreaches : ∀ n, Reachable (s n) :=
    fun n => (ReachableKeeping.reachable hreach).steps (h.endless.steps n)
  have hpc : ∀ n, (s n).writerPc l = some (links n).writer.pc := by
    intro n
    rw [System.writerPc,hlinks n]
    rfl
  refine ⟨links,hlinks,hmoves,fun n => windowed_linkInvariant.reachable (hreaches n) (hlinks n),
    fun n => inOrder_linkInvariant.reachable (hreaches n) (hlinks n),
    fun n => (hreaches n).run_trace (hlinks n),
    fun n => h.stays_open n _ (hlinks n),?_,?_⟩
  · intro n
    obtain ⟨m,hm,hchange⟩ := h.progresses n
    rw [hpc,hpc] at hchange
    exact ⟨m,hm,fun hsame => hchange (congrArg some hsame)⟩
  · intro n hpolls
    have hcompletes := h.completes n
    simp only [hpc,Option.some_inj] at hcompletes
    exact hcompletes hpolls

/-- What was accepted as the `i`-th packet is in the end the `i`-th that is handed to USB, by the
transfer of its kind and with the caller's bytes. -/
theorem Flowing.accepted_handed {l : Nat} {s : Nat → System} (h : Flowing l s)
    (hreach : ReachableKeeping l (s 0)) (hl : l < (s 0).links.length) {n : Nat} {link : Link}
    (hlink : (s n).links[l]? = some link) {i : Nat} {call : SendCall}
    (hcall : (acceptedCalls link.history)[i]? = some call) :
    ∃ m link' transfer, n ≤ m ∧ (s m).links[l]? = some link' ∧
      call.usbTransfer link'.endpoints.aclOut = some transfer ∧
      (handedTransfers link'.history)[i]? = some transfer := by
  obtain ⟨links,hlinks,hpath⟩ := h.openPath hreach hl
  rw [hlinks n,Option.some_inj] at hlink
  subst hlink
  obtain ⟨m,hm,hhanded⟩ := hpath.handed_reaches n
  obtain ⟨sent,haccepted,hsent⟩ := hpath.inOrder m
  have hi : i < sent.length := by
    have hlt := (List.getElem?_eq_some_iff.mp hcall).1
    rw [OpenPath.handed,hsent,List.length_map] at hhanded
    omega
  have hcall' : (acceptedCalls (links m).history)[i]? = some call := by
    obtain ⟨new,hnew⟩ := hpath.accepted_isPrefix hm
    rw [← hnew,List.getElem?_append_left (List.getElem?_eq_some_iff.mp hcall).1,hcall]
  have hpacket : outgoingOf call = some sent[i] := by
    have hget := congrArg (fun packets => packets[i]?) haccepted
    simp only [List.getElem?_map,hcall',Option.map_some,List.append_assoc,
      List.getElem?_append_left hi,List.getElem?_eq_getElem hi] at hget
    exact Option.some_inj.mp hget
  refine ⟨m,links m,sent[i].transfer (links m).endpoints,hm,hlinks m,?_,?_⟩
  · rw [SendCall.usbTransfer_eq,hpacket,Option.map_some]
  · rw [hsent,List.getElem?_map,List.getElem?_eq_getElem hi,Option.map_some]

/-- As many slots are released in the end as packets had been accepted; if none is accepted in the
meantime, the counter is left with the reservations of the sends under way. -/
theorem Flowing.accepted_released {l : Nat} {s : Nat → System} (h : Flowing l s)
    (hreach : ReachableKeeping l (s 0)) (hl : l < (s 0).links.length) {n : Nat} {link : Link}
    (hlink : (s n).links[l]? = some link) :
    ∃ m link', n ≤ m ∧ (s m).links[l]? = some link' ∧
      (acceptedCalls link.history).length ≤ releases link'.history ∧
      (acceptedCalls link'.history = acceptedCalls link.history →
        link'.channel = [] ∧ link'.writer.slots = 0 ∧
          link'.outgoingPending = Pool.total (Frame.reserves l) (s m).threads) := by
  obtain ⟨links,hlinks,hpath⟩ := h.openPath hreach hl
  rw [hlinks n,Option.some_inj] at hlink
  subst hlink
  obtain ⟨m,hm,hreleased⟩ := hpath.released_reaches n
  refine ⟨m,links m,hm,hlinks m,hreleased,fun hsame => ?_⟩
  have haccepted := hpath.accepted_eq m
  have hhanded := hpath.handed_eq m
  have hload := (links m).pipeline_load
  have hbalance := (((ReachableKeeping.reachable hreach).steps (h.endless.steps m)).balanced l _
    (hlinks m)).outgoingPending_eq
  rw [hsame] at haccepted
  have hwaiting : (links m).pipeline.waiting.length = (links m).waiting.length := List.length_map _
  unfold Pipeline.load at hload
  have hchannel : (links m).channel.length = 0 := by omega
  exact ⟨List.length_eq_zero_iff.mp hchannel,by omega,by omega⟩

def queuedRun : List Action :=
  openRun 0 dongle dongleInterface [] ++
    Action.by 0 [.call (.transportSendPacket ⟨2,some [7],1⟩),.go,.go,.go,.go,.go]

def deliveredRun : List Action := Action.by 3 [.go,.go,.go,.go,.go,.go,.go,.bulk 0 .ok,.go,.go,.go]

def idlePc (n : Nat) : WriterPc :=
  match n % 4 with
  | 0 => .fill
  | 1 => .recv
  | 2 => .cancelCheck
  | _ => .emptyCheck

private theorem idlePc_cases (n : Nat) : idlePc n = .fill ∧ idlePc (n+1) = .recv ∨
    idlePc n = .recv ∧ idlePc (n+1) = .cancelCheck ∨
    idlePc n = .cancelCheck ∧ idlePc (n+1) = .emptyCheck ∨
    idlePc n = .emptyCheck ∧ idlePc (n+1) = .fill := by
  have hcases : n % 4 = 0 ∨ n % 4 = 1 ∨ n % 4 = 2 ∨ n % 4 = 3 := by omega
  unfold idlePc
  rw [Nat.add_mod]
  rcases hcases with h | h | h | h <;> simp [h]

/-- An open link with nothing to do, whose writer is the thread `w`. -/
structure Idle (σ : System) (w l : Nat) (link : Link) : Prop where
  thread : σ.threads[w]? = some ⟨.writer l,[]⟩
  exists_link : σ.links[l]? = some link
  stop : link.stop = false
  channel : link.channel = []
  writer : link.writer = { pc := .fill }
  alive : σ.senderAlive l = true

def Link.at (link : Link) (pc : WriterPc) : Link :=
  { link with writer := { link.writer with pc := pc } }

private theorem Idle.turn {σ : System} {w l : Nat} {link : Link} (h : Idle σ w l link) (n : Nat) :
    machine.step (σ.setLink l (link.at (idlePc n))) ⟨w,.go⟩ =
      some (σ.setLink l (link.at (idlePc (n+1)))) := by
  have hl := (List.getElem?_eq_some_iff.mp h.exists_link).1
  have hwriter : writerStep true .ok none (link.at (idlePc n)) =
      some (link.at (idlePc (n+1))) := by
    rcases idlePc_cases n with ⟨hpc,hnext⟩ | ⟨hpc,hnext⟩ | ⟨hpc,hnext⟩ | ⟨hpc,hnext⟩
    all_goals rw [hpc,hnext]
    all_goals simp [writerStep,Link.at,h.writer,h.channel,h.stop,aclOutInFlight]
  have hquiet : (link.at (idlePc (n+1))).writer.pc ≠ .acknowledging := by
    show idlePc (n+1) ≠ _
    rcases idlePc_cases n with ⟨-,hnext⟩ | ⟨-,hnext⟩ | ⟨-,hnext⟩ | ⟨-,hnext⟩
    all_goals simp [hnext]
  have hthread : (σ.setLink l (link.at (idlePc n))).threads[w]? = some ⟨.writer l,[]⟩ := h.thread
  have hlink : (σ.setLink l (link.at (idlePc n))).links[l]? = some (link.at (idlePc n)) :=
    List.getElem?_set_self hl
  have halive : (σ.setLink l (link.at (idlePc n))).senderAlive l = true := h.alive
  show (σ.setLink l (link.at (idlePc n))).step ⟨w,.go⟩ = _
  simp only [System.step,hthread,System.idleStep,hlink,halive,Choice.controlStatus,
    Choice.writerPoll,hwriter,if_neg hquiet]
  simp [System.setLink]

private theorem Idle.endless {allow : System → Action → Prop} {σ : System} {w l : Nat} {link : Link}
    (h : Idle σ w l link) (hgo : ∀ σ, KeepsRecord l σ ⟨w,.go⟩ → allow σ ⟨w,.go⟩) :
    machine.Endless allow (fun n => σ.setLink l (link.at (idlePc n))) := by
  intro n
  refine .inr ⟨⟨w,.go⟩,hgo _ ?_,h.turn n⟩
  simp only [KeepsRecord,System.overwrites,System.setLink,h.thread]

theorem Idle.flowing {allow : System → Action → Prop} {σ₀ σ : System} {w l : Nat} {link : Link}
    (h : Idle σ w l link) (hreach : ReachableKeeping l σ₀) (hl : l < σ₀.links.length)
    (hkeeps : ∀ σ a, allow σ a → KeepsRecord l σ a)
    (hgo : ∀ σ, KeepsRecord l σ ⟨w,.go⟩ → allow σ ⟨w,.go⟩) (hrun : machine.Steps allow σ₀ σ) :
    ∃ s : Nat → System, s 0 = σ₀ ∧ Flowing l s ∧ machine.Endless allow s := by
  have hstart : σ.setLink l (link.at (idlePc 0)) = σ := by
    have hself : link.at (idlePc 0) = link := by
      rw [Link.at,show idlePc 0 = link.writer.pc by rw [h.writer]; rfl]
    obtain ⟨hlt,hget⟩ := List.getElem?_eq_some_iff.mp h.exists_link
    rw [hself,System.setLink,← hget,List.set_getElem_self]
  obtain ⟨s,N,rfl,hlater,hallowed⟩ := (h.endless hgo).after hrun hstart
  have hendless : machine.Endless (KeepsRecord l) s := hallowed.mono hkeeps
  have hturn : ∀ n, (s (N+n)).links[l]? = some (link.at (idlePc n)) := by
    intro n
    rw [hlater n]
    exact List.getElem?_set_self (List.getElem?_eq_some_iff.mp h.exists_link).1
  have hpc : ∀ n, (s (N+n)).writerPc l = some (idlePc n) := by
    intro n
    rw [System.writerPc,hturn]
    rfl
  obtain ⟨links,hlinks,hmoves⟩ := hreach.path hendless hl
  refine ⟨s,rfl,⟨hendless,?_,?_,?_⟩,hallowed⟩
  · intro n link' hlink'
    rw [hlinks n,Option.some_inj] at hlink'
    subst hlink'
    by_contra hnot
    have hlate := stop_later hmoves (Nat.le_add_left n N) (Bool.not_eq_false _ ▸ hnot)
    have hturn' := hturn n
    rw [hlinks,Option.some_inj] at hturn'
    rw [hturn',show (link.at (idlePc n)).stop = link.stop from rfl,h.stop] at hlate
    cases hlate
  · intro n
    refine ⟨N+n,Nat.le_add_left n N,?_⟩
    rw [Nat.add_assoc,hpc,hpc]
    rcases idlePc_cases n with ⟨hpc,hnext⟩ | ⟨hpc,hnext⟩ | ⟨hpc,hnext⟩ | ⟨hpc,hnext⟩
    all_goals simp [hpc,hnext]
  · intro n hpolls
    obtain ⟨k,hk,hpoll⟩ := hpolls (N+n) (Nat.le_add_left n N)
    obtain ⟨m,rfl⟩ := Nat.exists_eq_add_of_le (show N ≤ k by omega)
    rw [hpc,Option.some_inj] at hpoll
    rcases idlePc_cases m with ⟨hpc,-⟩ | ⟨hpc,-⟩ | ⟨hpc,-⟩ | ⟨hpc,-⟩
    all_goals simp [hpc] at hpoll

private theorem exists_flowing : ∃ s link, ReachableKeeping 0 (s 0) ∧ Flowing 0 s ∧
    (s 0).links[0]? = some link ∧ acceptedCalls link.history = [⟨2,some [7],1⟩] ∧
    handedTransfers link.history = [] := by
  have hqueued : ((machine.runWhere (fun σ a => !σ.overwrites 0 a) (System.initial 1 none)
      queuedRun).bind fun σ => σ.links[0]?.map fun link =>
        (acceptedCalls link.history,handedTransfers link.history)) =
      some ([⟨2,some [7],1⟩],[]) := rfl
  obtain ⟨σ,hσ,hmap⟩ := Option.bind_eq_some_iff.mp hqueued
  obtain ⟨link,hlink,hvalues⟩ := Option.map_eq_some_iff.mp hmap
  obtain ⟨haccepted,hhanded⟩ := Prod.mk.inj hvalues
  have hdelivered : ((machine.runWhere (fun σ a => !σ.overwrites 0 a) (System.initial 1 none)
      queuedRun).bind fun σ => (machine.runWhere (fun σ a => !σ.overwrites 0 a) σ
        deliveredRun).bind fun σ' => σ'.links[0]?.map fun link => (σ'.threads[3]?,link.stop,
          link.channel,link.writer,σ'.senderAlive 0)) =
      some (some ⟨.writer 0,[]⟩,false,[],{ pc := .fill },true) := rfl
  obtain ⟨σ₁,hσ₁,hrest⟩ := Option.bind_eq_some_iff.mp hdelivered
  rw [hσ,Option.some_inj] at hσ₁
  subst hσ₁
  obtain ⟨σ',hσ',hrest⟩ := Option.bind_eq_some_iff.mp hrest
  obtain ⟨link',hlink',hvalues⟩ := Option.map_eq_some_iff.mp hrest
  simp only [Prod.mk.injEq] at hvalues
  obtain ⟨hthread,hstop,hchannel,hwriter,halive⟩ := hvalues
  have hidle : Idle σ' 3 0 link' := ⟨hthread,hlink',hstop,hchannel,hwriter,halive⟩
  have hreach := ReachableKeeping.of_runWhere hσ
  obtain ⟨s,hstart,hflowing,-⟩ := hidle.flowing hreach (List.getElem?_eq_some_iff.mp hlink).1
    (fun _ _ => id) (fun _ => id) (keepsRecord_of_runWhere hσ')
  rw [← hstart] at hreach hlink
  exact ⟨s,link,hreach,hflowing,hlink,haccepted,hhanded⟩

theorem accepted_handed_acl : ∃ s link m link', Flowing 0 s ∧ (s 0).links[0]? = some link ∧
    acceptedCalls link.history = [⟨2,some [7],1⟩] ∧ handedTransfers link.history = [] ∧
    (s m).links[0]? = some link' ∧
    (handedTransfers link'.history)[0]? = some (.bulkOut link'.endpoints.aclOut [7]) := by
  obtain ⟨s,link,hreach,hflowing,hlink,haccepted,hhanded⟩ := exists_flowing
  obtain ⟨m,link',transfer,-,hlink',htransfer,hfirst⟩ := hflowing.accepted_handed hreach
    (List.getElem?_eq_some_iff.mp hlink).1 hlink (i := 0) (by rw [haccepted]; rfl)
  cases htransfer
  exact ⟨s,link,m,link',hflowing,hlink,haccepted,hhanded,hlink',hfirst⟩

theorem accepted_released_acl : ∃ s m link', Flowing 0 s ∧ (s m).links[0]? = some link' ∧
    1 ≤ releases link'.history := by
  obtain ⟨s,link,hreach,hflowing,hlink,haccepted,-⟩ := exists_flowing
  obtain ⟨m,link',-,hlink',hreleased,-⟩ := hflowing.accepted_released hreach
    (List.getElem?_eq_some_iff.mp hlink).1 hlink
  rw [haccepted] at hreleased
  exact ⟨s,m,link',hflowing,hlink',hreleased⟩

end BtstackRs.Transport
