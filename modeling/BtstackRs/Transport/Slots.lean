import BtstackRs.Transport.Scope

/-!
# Slot accounting

`outgoing_pending` is incremented by any number of senders and decremented at four places.
Every slot it counts is at one of three places: with a send that holds a reservation, with a
packet in the channel, or with the writer. Each step moves slots between these places or
changes the counter along with them.
-/

namespace BtstackRs.Transport

open Concurrent

/-- The counter is the length of the bulk queue and stays within the window: a packet is only
taken from the channel while there is room for one more, and a poll only happens while there
is something to poll. -/
structure Writer.Windowed (w : Writer) : Prop where
  inFlightOut_eq : w.inFlightOut = w.aclOutQueue.length
  le_window : w.inFlightOut ≤ aclOutInFlight
  recv_room : w.pc = .recv → w.inFlightOut < aclOutInFlight
  holding_room : ∀ packet, w.pc = .holding packet → w.inFlightOut < aclOutInFlight
  poll_pos : w.pc = .poll → 0 < w.inFlightOut

theorem Writer.Windowed.of_quiet {w : Writer} (hw : w.Windowed) {pc : WriterPc} {cancelled : Bool}
    (hrecv : pc ≠ .recv) (hholding : ∀ packet, pc ≠ .holding packet) (hpoll : pc ≠ .poll) :
    Writer.Windowed { w with pc := pc, cancelled := cancelled } :=
  ⟨hw.inFlightOut_eq,hw.le_window,fun h => absurd h hrecv,fun packet h => absurd h (hholding packet),
    fun h => absurd h hpoll⟩

theorem Writer.Windowed.resume {w : Writer} (hw : w.Windowed) : w.resume.Windowed := by
  unfold Writer.resume
  split
  · exact hw.of_quiet (by simp) (by simp) (by simp)
  · exact hw

private theorem afterRelease_quiet (status : Status) :
    afterRelease status ≠ .recv ∧ (∀ packet, afterRelease status ≠ .holding packet) ∧
      afterRelease status ≠ .poll := by
  cases status <;> simp [afterRelease]

theorem writerStep_windowed {alive : Bool} {control : Status} {poll : Option (Nat × Status)}
    {link link' : Link} (hw : link.writer.Windowed)
    (h : writerStep alive control poll link = some link') : link'.writer.Windowed := by
  cases writerStep_cases h with
  | enter hpc hroom hstop =>
    exact ⟨hw.inFlightOut_eq,hw.le_window,fun _ => hroom,by simp,by simp⟩
  | take hpc packet rest hchannel =>
    exact ⟨hw.inFlightOut_eq,hw.le_window,by simp,fun _ _ => hw.recv_room hpc,by simp⟩
  | submit packet data hpc htransfer =>
    have hroom := hw.holding_room packet hpc
    have hlength := hw.inFlightOut_eq
    exact ⟨by simp [Link.record,hlength],hroom,by simp [Link.record],by simp [Link.record],
      by simp [Link.record]⟩
  | release status hpc =>
    obtain ⟨hrecv,hholding,hpoll⟩ := afterRelease_quiet status
    exact hw.of_quiet hrecv hholding hpoll
  | await hpc hpending =>
    exact ⟨hw.inFlightOut_eq,hw.le_window,by simp,by simp,fun _ => Nat.pos_of_ne_zero hpending⟩
  | complete hpc i status hi =>
    have hpos := hw.poll_pos hpc
    have hle := hw.le_window
    have hlength := hw.inFlightOut_eq
    refine ⟨?_,?_,by simp [Link.record],by simp [Link.record],by simp [Link.record]⟩
    · simp only [Link.record,wrappingDec_of_pos hpos,List.length_eraseIdx,if_pos hi]
      omega
    · simp only [Link.record,wrappingDec_of_pos hpos]
      omega
  | _ => exact hw.of_quiet (by simp) (by simp) (by simp)

theorem windowed_linkInvariant : LinkInvariant (fun link => link.writer.Windowed) where
  fresh _ := ⟨rfl,Nat.zero_le _,by simp,by simp,by simp⟩
  stop _ h := h
  send t call handles spurious pc link link' next h hsend := by
    rw [sendStep_writer hsend]
    exact h
  reader kind poll link r h _ := by simpa using h
  writer alive control poll link link' h hwriter := writerStep_windowed h hwriter
  resumeReader kind link h := by simpa using h
  resumeWriter link h := h.resume

def Frame.reserves (l : Nat) : Frame → Nat
  | .send _ handles pc => if handles.link = l then pc.reserved else 0
  | _ => 0

theorem Frame.reserves_le_mentions (l : Nat) (f : Frame) : f.reserves l ≤ f.mentions l := by
  cases f with
  | send call handles pc =>
    cases pc <;> simp only [reserves,mentions,SendPc.reserved] <;> split <;> simp
  | _ => exact Nat.zero_le _

/-- The places of all slots that `outgoing_pending` counts. -/
structure Balanced (σ : System) (l : Nat) (link : Link) : Prop where
  outgoingPending_eq : link.outgoingPending =
    Pool.total (Frame.reserves l) σ.threads + link.channel.length + link.writer.slots
  le_depth : link.outgoingPending ≤ outgoingQueueDepth

theorem sendStep_slots {t : Nat} {call : SendCall} {handles : SendHandles} {spurious : Bool}
    {pc : SendPc call} {link link' : Link} {next : SendNext call}
    (h : sendStep t call handles spurious pc link = (link',next))
    (hpos : pc.reserved ≤ link.outgoingPending) :
    link'.outgoingPending + pc.reserved + link.channel.length =
        link.outgoingPending + next.reserved + link'.channel.length ∧
      link'.outgoingPending ≤ max link.outgoingPending outgoingQueueDepth := by
  have hdepth := handles.queueDepth_eq
  cases sendStep_cases h with
  | load | refuse | retry | fail => simp
  | reserve current hroom hcurrent hswaps =>
    simp only [SendPc.reserved_reserve,SendNext.reserved_goto,SendPc.classified_reserved,
      Link.record]
    omega
  | accept packet hpacket hreceiver hroom =>
    simp only [SendPc.reserved_trySend,SendNext.reserved_ret,Link.record,List.length_append,
      List.length_singleton]
    omega
  | rollback =>
    simp only [SendPc.reserved_rollback] at hpos
    simp only [SendPc.reserved_rollback,SendNext.reserved_ret,Link.record,wrappingDec_of_pos hpos]
    omega

theorem writerStep_slots {alive : Bool} {control : Status} {poll : Option (Nat × Status)}
    {link link' : Link} (hw : link.writer.Windowed)
    (hpos : link.writer.slots ≤ link.outgoingPending)
    (h : writerStep alive control poll link = some link') :
    link'.outgoingPending + link.channel.length + link.writer.slots =
        link.outgoingPending + link'.channel.length + link'.writer.slots ∧
      link'.outgoingPending ≤ link.outgoingPending := by
  unfold Writer.slots at *
  cases writerStep_cases h with
  | take hpc packet rest hchannel =>
    simp only [hpc,hchannel,WriterPc.handling,List.length_cons]
    omega
  | submit packet data hpc htransfer =>
    simp only [Link.record,hpc,WriterPc.handling]
    omega
  | release status hpc =>
    have hone := WriterPc.handling_of_done hpc
    simp only [hone] at hpos
    simp only [Link.record,afterRelease_handling,hone,wrappingDec_of_pos
      (show 0 < link.outgoingPending by omega)]
    omega
  | complete hpc i status hi =>
    have hin := hw.poll_pos hpc
    simp only [Link.record,hpc,WriterPc.handling,wrappingDec_of_pos hin]
    omega
  | enter hpc | skip hpc | timeout hpc | disconnected hpc | command packet hpc
  | commandComplete hpc | cancel hpc | pass hpc | leave hpc | again hpc | await hpc | idle hpc =>
    simp [Link.record,hpc,WriterPc.handling]

@[simp] theorem Writer.slots_resume (w : Writer) : w.resume.slots = w.slots := by
  unfold Writer.resume
  split
  · rename_i hpc
    simp [slots,hpc,WriterPc.handling]
  · rfl

private structure Covered (link : Link) (top : Nat) : Prop where
  windowed : link.writer.Windowed
  le_pending : top + link.channel.length + link.writer.slots ≤ link.outgoingPending

private theorem move_slots {σ : System} {t : Nat} {c : Choice} {role : Role} {rest : List Frame}
    {d : Delta} {l : Nat} (h : Move σ t c role rest d)
    (hσ : ∀ link, σ.links[l]? = some link →
      Covered link (Pool.stackWeight (Frame.reserves l) d.top))
    (hl : l < σ.links.length) {link' : Link} (hlink' : d.links[l]? = some link') :
    ∃ link, σ.links[l]? = some link ∧
      link'.outgoingPending + Pool.stackWeight (Frame.reserves l) d.top + link.channel.length +
          link.writer.slots =
        link.outgoingPending + Pool.stackWeight (Frame.reserves l) d.top' +
          link'.channel.length + link'.writer.slots ∧
      link'.outgoingPending ≤ max link.outgoingPending outgoingQueueDepth := by
  have hresume : ∀ site, (resumeSite site σ.links)[l]? = some link' →
      ∃ link, σ.links[l]? = some link ∧ link'.outgoingPending = link.outgoingPending ∧
        link'.channel = link.channel ∧ link'.writer.slots = link.writer.slots := by
    intro site h
    obtain ⟨link,hlink,⟨rfl,_,_⟩ | ⟨kind,_,rfl⟩ | ⟨_,rfl⟩⟩ := getElem?_resumeSite h <;>
      exact ⟨_,hlink,by simp,by simp,by simp⟩
  cases h with
  | sectionGoto s state g hsection =>
    have hg : g.reserves l = 0 := by
      cases hsection with
      | sendLookup call active hactive => exact ite_self 0
      | _ => rfl
    exact ⟨link',hlink',by simp [hg,show (Frame.locked s).reserves l = 0 from rfl]⟩
  | sectionRet s state result hsection =>
    obtain ⟨link,hlink,hpending,hchannel,hslots⟩ := hresume _ hlink'
    exact ⟨link,hlink,by simp [hpending,hchannel,hslots,Frame.reserves]⟩
  | leave site packetType packet =>
    obtain ⟨link,hlink,hpending,hchannel,hslots⟩ := hresume _ hlink'
    exact ⟨link,hlink,by simp [hpending,hchannel,hslots,Frame.reserves]⟩
  | create endpoints =>
    refine ⟨link',?_,by simp [Frame.reserves]⟩
    rwa [List.getElem?_append_left hl] at hlink'
  | spawn l' pc =>
    exact ⟨link',hlink',by cases pc <;> simp [Frame.reserves,SpawnPc.after]⟩
  | stop active link hlink =>
    obtain ⟨rfl,rfl⟩ | ⟨_,hold⟩ := getElem?_set_cases hlink'
    · exact ⟨link,hlink,by simp [Frame.reserves]⟩
    · exact ⟨link',hold,by simp [Frame.reserves]⟩
  | sendGoto call handles pc pc' link link₁ hlink hsend =>
    obtain ⟨rfl,rfl⟩ | ⟨hne,hold⟩ := getElem?_set_cases hlink'
    · have hpos := (hσ link hlink).le_pending
      simp only [Pool.stackWeight_cons,Pool.stackWeight_nil,Frame.reserves,if_true] at hpos ⊢
      obtain ⟨hslots,hle⟩ := sendStep_slots hsend (by omega)
      rw [SendNext.reserved_goto] at hslots
      exact ⟨link,hlink,by rw [sendStep_writer hsend]; omega⟩
    · exact ⟨link',hold,by simp [Frame.reserves,Ne.symm hne]⟩
  | sendRet call handles pc link link₁ result hlink hsend =>
    obtain ⟨rfl,rfl⟩ | ⟨hne,hold⟩ := getElem?_set_cases hlink'
    · have hpos := (hσ link hlink).le_pending
      simp only [Pool.stackWeight_cons,Pool.stackWeight_nil,Frame.reserves,if_true] at hpos ⊢
      obtain ⟨hslots,hle⟩ := sendStep_slots hsend (by omega)
      rw [SendNext.reserved_ret] at hslots
      exact ⟨link,hlink,by rw [sendStep_writer hsend]; omega⟩
    · exact ⟨link',hold,by simp [Frame.reserves,Ne.symm hne]⟩
  | reader kind l' link r hrole hrest hlink hreader hquiet =>
    obtain ⟨rfl,rfl⟩ | ⟨_,hold⟩ := getElem?_set_cases hlink'
    · exact ⟨link,hlink,by simp⟩
    · exact ⟨link',hold,by simp⟩
  | readerDeliver kind l' link r data hrole hrest hlink hreader hdata =>
    obtain ⟨rfl,rfl⟩ | ⟨_,hold⟩ := getElem?_set_cases hlink'
    · exact ⟨link,hlink,by simp [Frame.reserves]⟩
    · exact ⟨link',hold,by simp [Frame.reserves]⟩
  | writer l' link link₁ hrole hrest hlink hwriter hquiet =>
    obtain ⟨rfl,rfl⟩ | ⟨_,hold⟩ := getElem?_set_cases hlink'
    · have hcovered := hσ link hlink
      have hpos := hcovered.le_pending
      obtain ⟨hslots,hle⟩ := writerStep_slots hcovered.windowed (by omega) hwriter
      exact ⟨link,hlink,by simp only [Pool.stackWeight_nil]; omega⟩
    · exact ⟨link',hold,by simp⟩
  | writerAcknowledge l' link link₁ hrole hrest hlink hwriter hack =>
    obtain ⟨rfl,rfl⟩ | ⟨_,hold⟩ := getElem?_set_cases hlink'
    · have hcovered := hσ link hlink
      have hpos := hcovered.le_pending
      obtain ⟨hslots,hle⟩ := writerStep_slots hcovered.windowed (by omega) hwriter
      refine ⟨link,hlink,?_⟩
      simp only [Pool.stackWeight_nil,Pool.stackWeight_cons,Frame.reserves]
      omega
    · exact ⟨link',hold,by simp [Frame.reserves]⟩
  | _ => exact ⟨link',hlink',by simp [Frame.reserves]⟩

theorem Reachable.balanced {σ : System} (h : Reachable σ) :
    ∀ (l : Nat) link, σ.links[l]? = some link → Balanced σ l link := by
  apply h.invariant
  · intro clients handler l link hlink
    simp [System.initial] at hlink
  · rintro σ a _ hreach hσ ⟨th,rest,d,hthread,hstack,hmove⟩ l link' hlink'
    have hsum := total_apply (Frame.reserves l) hthread hstack
    by_cases hl : l < σ.links.length
    · have htop : Pool.stackWeight (Frame.reserves l) d.top ≤
          Pool.total (Frame.reserves l) σ.threads := by
        have hle := Pool.stackWeight_le_total (Frame.reserves l) hthread
        rw [hstack,Pool.stackWeight_append] at hle
        omega
      have hcovered : ∀ link, σ.links[l]? = some link →
          Covered link (Pool.stackWeight (Frame.reserves l) d.top) := by
        intro link hlink
        exact ⟨windowed_linkInvariant.reachable hreach hlink,
          by rw [(hσ l link hlink).outgoingPending_eq]; omega⟩
      obtain ⟨link,hlink,hmoved,hle⟩ := move_slots hmove hcovered hl hlink'
      have hbalance := (hσ l link hlink).outgoingPending_eq
      have hdepth := (hσ l link hlink).le_depth
      exact ⟨by omega,by omega⟩
    · obtain ⟨endpoints,rfl,htop,htop',_⟩ := hmove.fresh_link (by omega) hlink'
      have hzero := hreach.wellScoped.frames l (by omega)
      have hle := Pool.total_mono (Frame.reserves_le_mentions l) σ.threads
      simp only [htop,htop',Pool.stackWeight_cons,Pool.stackWeight_nil,Frame.reserves] at hsum
      refine ⟨?_,Nat.zero_le _⟩
      simp only [Writer.slots,WriterPc.handling,List.length_nil]
      omega

/-- What the accounting promises of one link: where its slots are, and that none of the
operations on the counters and the channel ever meets its limit. -/
structure SlotsConserved (σ : System) (l : Nat) (link : Link) : Prop where
  outgoingPending_eq : link.outgoingPending =
    Pool.total (Frame.reserves l) σ.threads + link.channel.length +
      (link.writer.pc.handling + link.writer.inFlightOut)
  outgoingPending_le : link.outgoingPending ≤ outgoingQueueDepth
  inFlightOut_le : link.writer.inFlightOut ≤ aclOutInFlight
  -- Before both rollbacks of a send.
  rollback_pos : ∀ (t : Nat) th call handles, σ.threads[t]? = some th →
    Frame.send call handles .rollback ∈ th.stack → handles.link = l → 0 < link.outgoingPending
  -- Before both `fetch_sub`s of the writer.
  release_pos : ∀ status, link.writer.pc = .commandDone status ∨ link.writer.pc = .bulkDone status →
    0 < link.outgoingPending
  inFlightOut_pos : link.writer.pc = .poll → 0 < link.writer.inFlightOut
  -- Before `try_send`.
  channel_room : ∀ (t : Nat) th call handles packet hpacket, σ.threads[t]? = some th →
    Frame.send call handles (.trySend packet hpacket) ∈ th.stack → handles.link = l →
    link.channel.length < outgoingQueueDepth

theorem slotsConserved {σ : System} (h : Reachable σ) {l : Nat} {link : Link}
    (hlink : σ.links[l]? = some link) : SlotsConserved σ l link := by
  have hwindowed := windowed_linkInvariant.reachable h hlink
  obtain ⟨hbalance,hdepth⟩ := h.balanced l link hlink
  have hreserved : ∀ (t : Nat) th call handles pc, σ.threads[t]? = some th →
      Frame.send call handles pc ∈ th.stack → handles.link = l →
      pc.reserved ≤ Pool.total (Frame.reserves l) σ.threads := by
    intro t th call handles pc hthread hframe hl
    have hle := Pool.le_total (Frame.reserves l) hthread hframe
    rwa [Frame.reserves,if_pos hl] at hle
  constructor
  case outgoingPending_eq => exact hbalance
  case outgoingPending_le => exact hdepth
  case inFlightOut_le => exact hwindowed.le_window
  case rollback_pos =>
    intro t th call handles hthread hframe hl
    have hle := hreserved t th call handles _ hthread hframe hl
    rw [SendPc.reserved_rollback] at hle
    omega
  case release_pos =>
    intro status hpc
    have hslots : link.writer.slots = link.writer.pc.handling + link.writer.inFlightOut := rfl
    obtain hpc | hpc := hpc <;> simp only [hpc,WriterPc.handling] at hslots <;> omega
  case inFlightOut_pos => exact hwindowed.poll_pos
  case channel_room =>
    intro t th call handles packet hpacket hthread hframe hl
    have hle := hreserved t th call handles _ hthread hframe hl
    rw [SendPc.reserved_trySend] at hle
    omega

/-- A command has been enqueued and the writer has not taken it yet. -/
theorem slotsConserved_oneSent : ∃ σ link, Reachable σ ∧ σ.links[0]? = some link ∧
    link.channel = [.command [3,12,0]] ∧ SlotsConserved σ 0 link := by
  have hrun : ((machine.run (System.initial 1 none)
      (openRun 0 dongle dongleInterface [] ++
        Action.by 0 [.call (.transportSendPacket ⟨1,some [3,12,0],3⟩),.go,.go,.go,.go,.go])).bind
      fun σ => σ.links[0]?.map Link.channel) = some [.command [3,12,0]] := rfl
  obtain ⟨σ,hσ,hmap⟩ := Option.bind_eq_some_iff.mp hrun
  obtain ⟨link,hlink,hchannel⟩ := Option.map_eq_some_iff.mp hmap
  have hreach := Reachable.of_run hσ
  exact ⟨σ,link,hreach,hlink,hchannel,slotsConserved hreach hlink⟩

end BtstackRs.Transport
