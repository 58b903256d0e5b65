import BtstackRs.Transport.Slots

/-!
# Accounts

The history of a link explains its counter and its channel: every reservation adds one, every
rollback and every release of the writer takes one away; every acceptance adds a packet, and only
the writer takes packets, from the front. A step adds to the history of a link what it does to
these, under the name of the thread that takes it.
-/

namespace BtstackRs.Transport

open Concurrent

namespace LinkEvent

def takesSlot : LinkEvent → Bool
  | reserved _ => true
  | _ => false

def freesSlot : LinkEvent → Bool
  | rolledBack _ | released => true
  | _ => false

def packet : LinkEvent → Option OutgoingPacket
  | accepted _ call => outgoingOf call
  | _ => none

def sender : LinkEvent → Option Nat
  | reserved t | rolledBack t | accepted t _ => some t
  | _ => none

end LinkEvent

/-- The history, the counter and the channel of a link. -/
structure Ledger where
  history : List LinkEvent := []
  pending : Nat := 0
  channel : List OutgoingPacket := []

def Link.ledger (link : Link) : Ledger := ⟨link.history,link.outgoingPending,link.channel⟩

def ledger (links : List Link) (l : Nat) : Ledger := (links[l]?).elim {} Link.ledger

structure Balances (before after : Ledger) (entries : List LinkEvent) : Prop where
  pending_eq : after.pending + entries.countP LinkEvent.freesSlot =
    before.pending + entries.countP LinkEvent.takesSlot
  channel_eq : ∃ taken,
    before.channel ++ entries.filterMap LinkEvent.packet = taken ++ after.channel

/-- The history has grown by these entries, which account for the counter and the channel. -/
structure Accounts (before after : Ledger) (entries : List LinkEvent) : Prop where
  history_eq : after.history = before.history ++ entries
  balances : Balances before after entries

theorem Balances.refl (before : Ledger) : Balances before before [] := ⟨rfl,[],by simp⟩

theorem Accounts.refl (before : Ledger) : Accounts before before [] :=
  ⟨by simp,.refl before⟩

theorem Accounts.trans {before between after : Ledger} {entries entries' : List LinkEvent}
    (h : Accounts before between entries) (h' : Accounts between after entries') :
    Accounts before after (entries ++ entries') := by
  have hpending := h.balances.pending_eq
  have hpending' := h'.balances.pending_eq
  obtain ⟨taken,hchannel⟩ := h.balances.channel_eq
  obtain ⟨taken',hchannel'⟩ := h'.balances.channel_eq
  refine ⟨by rw [h'.history_eq,h.history_eq,List.append_assoc],?_,taken ++ taken',?_⟩
  · rw [List.countP_append,List.countP_append]
    omega
  · rw [List.filterMap_append,← List.append_assoc,hchannel,List.append_assoc,hchannel',
      List.append_assoc]

structure Posts (who : Option Nat) (before after : Ledger) (entries : List LinkEvent) :
    Prop where
  accounts : Accounts before after entries
  sender_eq : ∀ e ∈ entries, ∀ u, e.sender = some u → who = some u
  length_le : entries.length ≤ 1

theorem Posts.nothing (who : Option Nat) (before : Ledger) : Posts who before before [] :=
  ⟨.refl before,by simp,by simp⟩

theorem Posts.single {who : Option Nat} {before after : Ledger} {e : LinkEvent}
    (hhistory : after.history = before.history ++ [e])
    (hpending : after.pending + [e].countP LinkEvent.freesSlot =
      before.pending + [e].countP LinkEvent.takesSlot)
    (hchannel : after.channel = before.channel) (hpacket : e.packet = none)
    (hsender : ∀ u, e.sender = some u → who = some u) : Posts who before after [e] := by
  refine ⟨⟨hhistory,hpending,[],by simp [hpacket,hchannel]⟩,?_,Nat.le_refl 1⟩
  intro e' he'
  rw [List.mem_singleton.mp he']
  exact hsender

theorem Posts.pending_le {who : Option Nat} {before after : Ledger} {entries : List LinkEvent}
    (h : Posts who before after entries) (hnone : ∀ u, .reserved u ∉ entries) :
    after.pending ≤ before.pending := by
  have htakes : entries.countP LinkEvent.takesSlot = 0 := by
    rw [List.countP_eq_zero]
    intro e he
    cases e with
    | reserved u => exact absurd he (hnone u)
    | _ => simp [LinkEvent.takesSlot]
  have hpending := h.accounts.balances.pending_eq
  omega

theorem sendStep_posts {t : Nat} {call : SendCall} {handles : SendHandles} {spurious : Bool}
    {pc : SendPc call} {link link' : Link} {next : SendNext call}
    (h : sendStep t call handles spurious pc link = (link',next))
    (hpos : pc = .rollback → 0 < link.outgoingPending) :
    ∃ entries, Posts (some t) link.ledger link'.ledger entries := by
  cases sendStep_cases h with
  | load | refuse | retry | fail => exact ⟨[],.nothing _ _⟩
  | reserve current hroom hcurrent hswaps =>
    refine ⟨[.reserved t],.single rfl ?_ rfl rfl (fun u hu => hu)⟩
    simp [Link.ledger,hcurrent,LinkEvent.freesSlot,LinkEvent.takesSlot]
  | accept packet hpacket hreceiver hroom =>
    refine ⟨[.accepted t call],⟨rfl,?_,[],?_⟩,?_,Nat.le_refl 1⟩
    · simp [Link.ledger,LinkEvent.freesSlot,LinkEvent.takesSlot]
    · simp [Link.ledger,LinkEvent.packet,hpacket]
    · simp [LinkEvent.sender]
  | rollback =>
    have hdec := wrappingDec_of_pos (hpos rfl)
    have hone := hpos rfl
    refine ⟨[.rolledBack t],.single rfl ?_ rfl rfl (fun u hu => hu)⟩
    simp only [Link.ledger,Link.record_outgoingPending,hdec,List.countP_singleton,LinkEvent.freesSlot,
      LinkEvent.takesSlot,if_true,Bool.false_eq_true,if_false]
    omega

theorem writerStep_posts {alive : Bool} {control : Status} {poll : Option (Nat × Status)}
    {link link' : Link} (h : writerStep alive control poll link = some link')
    (hpos : 0 < link.writer.slots → 0 < link.outgoingPending) :
    ∃ entries, Posts none link.ledger link'.ledger entries := by
  have hquiet : ∀ e : LinkEvent, e.takesSlot = false → e.freesSlot = false → e.packet = none →
      e.sender = none → ∀ after : Ledger, after.history = link.history ++ [e] →
        after.pending = link.outgoingPending → after.channel = link.channel →
          ∃ entries, Posts none link.ledger after entries := by
    intro e htakes hfrees hpacket hsender after hhistory hpending hchannel
    refine ⟨[e],.single hhistory ?_ hchannel hpacket (by simp [hsender])⟩
    simp [htakes,hfrees,hpending,Link.ledger]
  cases writerStep_cases h with
  | take hpc packet rest hchannel =>
    refine ⟨[],⟨by simp [Link.ledger],rfl,[packet],?_⟩,by simp,by simp⟩
    simp [Link.ledger,hchannel]
  | release status hpc =>
    have hslots : link.writer.slots = link.writer.pc.handling + link.writer.inFlightOut := rfl
    rw [WriterPc.handling_of_done hpc] at hslots
    have hone := hpos (by omega)
    have hdec := wrappingDec_of_pos hone
    refine ⟨[.released],.single rfl ?_ rfl rfl (by simp [LinkEvent.sender])⟩
    simp only [Link.ledger,Link.record_outgoingPending,hdec,List.countP_singleton,LinkEvent.freesSlot,
      LinkEvent.takesSlot,if_true,Bool.false_eq_true,if_false]
    omega
  | command | submit | commandComplete | cancel | complete =>
    exact hquiet _ rfl rfl rfl rfl _ rfl rfl rfl
  | _ => exact ⟨[],.nothing _ _⟩

theorem ledger_of_getElem? {links : List Link} {l : Nat} {link : Link}
    (h : links[l]? = some link) : ledger links l = link.ledger := by
  simp [ledger,h]

theorem ledger_set {links : List Link} {i : Nat} {link : Link} (link' : Link)
    (hlink : links[i]? = some link) (l : Nat) :
    ledger (links.set i link') l = if l = i then link'.ledger else ledger links l := by
  by_cases hl : l = i
  · subst hl
    rw [if_pos rfl,ledger_of_getElem?]
    exact List.getElem?_set_self (List.getElem?_eq_some_iff.mp hlink).1
  · rw [if_neg hl]
    simp only [ledger,List.getElem?_set_ne (Ne.symm hl)]

theorem ledger_set_eq {links : List Link} {i : Nat} {link link' : Link}
    (hlink : links[i]? = some link) (h : link'.ledger = link.ledger) (l : Nat) :
    ledger (links.set i link') l = ledger links l := by
  rw [ledger_set link' hlink]
  split
  · rename_i hl
    rw [hl,ledger_of_getElem? hlink,h]
  · rfl

theorem ledger_append (links : List Link) (endpoints : EndpointConfig) (l : Nat) :
    ledger (links ++ [{ endpoints := endpoints }]) l = ledger links l := by
  unfold ledger
  rw [List.getElem?_append]
  split
  · rfl
  · rename_i hl
    rw [List.getElem?_eq_none (Nat.not_lt.mp hl),List.getElem?_singleton]
    split <;> rfl

theorem ledger_resumeSite (site : Option EmitSite) (links : List Link) (l : Nat) :
    ledger (resumeSite site links) l = ledger links l := by
  unfold ledger
  cases hlink' : (resumeSite site links)[l]? with
  | none =>
    have hlink : links[l]? = none := by
      rw [List.getElem?_eq_none_iff] at hlink' ⊢
      rwa [resumeSite_length] at hlink'
    rw [hlink]
  | some link' =>
    obtain ⟨link,hlink,hcases⟩ := getElem?_resumeSite hlink'
    rw [hlink]
    obtain ⟨rfl,_,_⟩ | ⟨kind,_,rfl⟩ | ⟨_,rfl⟩ := hcases
    · rfl
    · simp [Link.ledger]
    · rfl

private theorem posts_set {σ : System} {i : Nat} {link link' : Link}
    (hlink : σ.links[i]? = some link) {who : Option Nat} {entries : List LinkEvent}
    (h : Posts who link.ledger link'.ledger entries) (l : Nat) :
    ∃ entries, Posts who (ledger σ.links l) (ledger (σ.links.set i link') l) entries := by
  rw [ledger_set link' hlink]
  split
  · rename_i hl
    rw [hl,ledger_of_getElem? hlink]
    exact ⟨entries,h⟩
  · exact ⟨[],.nothing who _⟩

/-- What a step enters into the ledger of a link; under the name of its thread if it is a step of
a send. -/
theorem Reachable.move_posts {σ : System} (hreach : Reachable σ) {t : Nat} {c : Choice}
    {th : Thread Role Frame} {rest : List Frame} {d : Delta} (hthread : σ.threads[t]? = some th)
    (hstack : th.stack = d.top ++ rest) (h : Move σ t c th.role rest d) (l : Nat) :
    ∃ who entries, Posts who (ledger σ.links l) (ledger d.links l) entries ∧
      (who = none ∨ (who = some t ∧ ∃ call handles pc, d.top = [.send call handles pc])) := by
  have hsame : ledger d.links l = ledger σ.links l → ∃ who entries,
      Posts who (ledger σ.links l) (ledger d.links l) entries ∧
        (who = none ∨ (who = some t ∧ ∃ call handles pc, d.top = [.send call handles pc])) := by
    intro hledger
    rw [hledger]
    exact ⟨none,[],.nothing none _,.inl rfl⟩
  have hsending : ∀ {call : SendCall} {handles : SendHandles} {pc : SendPc call} {link : Link},
      d.top = [.send call handles pc] → σ.links[handles.link]? = some link →
        pc = .rollback → 0 < link.outgoingPending := by
    rintro call handles _ link htop hlink rfl
    have hmem : Frame.send call handles .rollback ∈ th.stack := by simp [hstack,htop]
    have hle := Pool.le_total (Frame.reserves handles.link) hthread hmem
    have hbalance := (hreach.balanced _ link hlink).outgoingPending_eq
    simp only [Frame.reserves,if_true,SendPc.reserved_rollback] at hle
    omega
  have hwriting : ∀ {i : Nat} {link : Link}, σ.links[i]? = some link →
      0 < link.writer.slots → 0 < link.outgoingPending := by
    intro i link hlink hpos
    have hbalance := (hreach.balanced _ link hlink).outgoingPending_eq
    omega
  cases h with
  | sectionRet | leave => exact hsame (ledger_resumeSite _ _ l)
  | create endpoints => exact hsame (ledger_append _ _ l)
  | stop active link hlink =>
    have hstop : ({ link with stop := true } : Link).ledger = link.ledger := rfl
    exact hsame (ledger_set_eq hlink hstop l)
  | sendGoto call handles pc pc' link link' hlink hsend =>
    obtain ⟨entries,hposts⟩ := sendStep_posts hsend (hsending rfl hlink)
    obtain ⟨entries',hposts'⟩ := posts_set hlink hposts l
    exact ⟨some t,entries',hposts',.inr ⟨rfl,call,handles,pc,rfl⟩⟩
  | sendRet call handles pc link link' result hlink hsend =>
    obtain ⟨entries,hposts⟩ := sendStep_posts hsend (hsending rfl hlink)
    obtain ⟨entries',hposts'⟩ := posts_set hlink hposts l
    exact ⟨some t,entries',hposts',.inr ⟨rfl,call,handles,pc,rfl⟩⟩
  | reader kind i link r hrole hrest hlink hreader hquiet =>
    exact hsame (ledger_set_eq hlink (by simp [Link.ledger]) l)
  | readerDeliver kind i link r data hrole hrest hlink hreader hdata =>
    exact hsame (ledger_set_eq hlink (by simp [Link.ledger]) l)
  | writer i link link' hrole hrest hlink hwriter hquiet =>
    obtain ⟨entries,hposts⟩ := writerStep_posts hwriter (hwriting hlink)
    obtain ⟨entries',hposts'⟩ := posts_set hlink hposts l
    exact ⟨none,entries',hposts',.inl rfl⟩
  | writerAcknowledge i link link' hrole hrest hlink hwriter hack =>
    obtain ⟨entries,hposts⟩ := writerStep_posts hwriter (hwriting hlink)
    obtain ⟨entries',hposts'⟩ := posts_set hlink hposts l
    exact ⟨none,entries',hposts',.inl rfl⟩
  | _ => exact hsame rfl

end BtstackRs.Transport
