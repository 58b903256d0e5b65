import BtstackRs.Transport.CanSend

/-!
# Refused sends

A send that returns -1 has reserved nothing, or has given back what it reserved, and has put
nothing into the channel. In any interleaving the counter and the channel are what the other
threads have made of them.
-/

namespace BtstackRs.Transport

open Concurrent

def entriesOf (t : Nat) (entries : List LinkEvent) : List LinkEvent :=
  entries.filter (fun e => e.sender == some t)

def otherEntries (t : Nat) (entries : List LinkEvent) : List LinkEvent :=
  entries.filter (fun e => !(e.sender == some t))

@[simp] theorem entriesOf_append (t : Nat) (entries entries' : List LinkEvent) :
    entriesOf t (entries ++ entries') = entriesOf t entries ++ entriesOf t entries' :=
  List.filter_append entries entries'

theorem entriesOf_eq_nil {t : Nat} {entries : List LinkEvent}
    (h : ∀ e ∈ entries, e.sender ≠ some t) : entriesOf t entries = [] := by
  rw [entriesOf,List.filter_eq_nil_iff]
  intro e he
  simpa using h e he

theorem entriesOf_eq_self {t : Nat} {entries : List LinkEvent}
    (h : ∀ e ∈ entries, e.sender = some t) : entriesOf t entries = entries := by
  rw [entriesOf,List.filter_eq_self]
  intro e he
  simpa using h e he

theorem Balances.of_others {before after : Ledger} {entries : List LinkEvent}
    (h : Balances before after entries) {t : Nat}
    (hslots : (entriesOf t entries).countP LinkEvent.takesSlot =
      (entriesOf t entries).countP LinkEvent.freesSlot)
    (hpackets : ∀ e ∈ entriesOf t entries, e.packet = none) :
    Balances before after (otherEntries t entries) := by
  have htakes := List.countP_eq_countP_filter_add entries LinkEvent.takesSlot
    (fun e => e.sender == some t)
  have hfrees := List.countP_eq_countP_filter_add entries LinkEvent.freesSlot
    (fun e => e.sender == some t)
  have hpending := h.pending_eq
  obtain ⟨taken,hchannel⟩ := h.channel_eq
  constructor
  · unfold entriesOf at hslots
    unfold otherEntries
    omega
  · refine ⟨taken,?_⟩
    rw [← hchannel,otherEntries,List.filterMap_filter]
    congr 1
    apply List.filterMap_congr
    intro e he
    split
    · rfl
    · rename_i hown
      have hmem : e ∈ entriesOf t entries := List.mem_filter.mpr ⟨he,by simpa using hown⟩
      exact (hpackets e hmem).symm

/-- What a refused send of thread `t` may leave behind in a ledger: a reservation together with
its rollback. The entries of the others alone account for the counter and the channel. -/
def LeavesNoTrace (t : Nat) (before after : Ledger) : Prop :=
  ∃ entries, after.history = before.history ++ entries ∧
    (entriesOf t entries = [] ∨ entriesOf t entries = [.reserved t,.rolledBack t]) ∧
    Balances before after (otherEntries t entries)

theorem Accounts.leavesNoTrace {t : Nat} {before after : Ledger} {entries : List LinkEvent}
    (h : Accounts before after entries)
    (hown : entriesOf t entries = [] ∨ entriesOf t entries = [.reserved t,.rolledBack t]) :
    LeavesNoTrace t before after := by
  refine ⟨entries,h.history_eq,hown,h.balances.of_others ?_ ?_⟩
  · obtain hown | hown := hown <;> rw [hown] <;> rfl
  · obtain hown | hown := hown <;> rw [hown] <;> simp [LinkEvent.packet]

def SendPc.entries {call : SendCall} (t : Nat) : SendPc call → List LinkEvent
  | load | reserve _ => []
  | trySend _ _ | rollback => [.reserved t]

def SendNext.Entered {call : SendCall} (t : Nat) (entries : List LinkEvent) :
    SendNext call → Prop
  | goto pc => entries = pc.entries t
  | ret result =>
      (result = 0 ∧ entries = [.reserved t,.accepted t call]) ∨
        (result = -1 ∧ (entries = [] ∨ entries = [.reserved t,.rolledBack t]))

theorem sendStep_entries {t : Nat} {call : SendCall} {handles : SendHandles} {spurious : Bool}
    {pc : SendPc call} {link link' : Link} {next : SendNext call}
    (h : sendStep t call handles spurious pc link = (link',next)) :
    ∃ new, link'.history = link.history ++ new ∧ (∀ e ∈ new, e.sender = some t) ∧
      next.Entered t (pc.entries t ++ new) := by
  have hclassified : (SendPc.classified call).entries t = [.reserved t] := by
    unfold SendPc.classified
    split <;> rfl
  cases sendStep_cases h with
  | load | retry | fail => exact ⟨[],by simp,by simp,rfl⟩
  | refuse => exact ⟨[],by simp,by simp,.inr ⟨rfl,.inl rfl⟩⟩
  | reserve => exact ⟨[.reserved t],rfl,by simp [LinkEvent.sender],hclassified.symm⟩
  | accept => exact ⟨[.accepted t call],rfl,by simp [LinkEvent.sender],.inl ⟨rfl,rfl⟩⟩
  | rollback => exact ⟨[.rolledBack t],rfl,by simp [LinkEvent.sender],.inr ⟨rfl,.inr rfl⟩⟩

def HasEntered (σ σ' : System) (t : Nat) (own : Nat → List LinkEvent) : Prop :=
  ∀ l, ∃ entries, Accounts (ledger σ.links l) (ledger σ'.links l) entries ∧
    entriesOf t entries = own l

theorem HasEntered.of_links {σ σ₁ σ₂ : System} {t : Nat} {own : Nat → List LinkEvent}
    (h : HasEntered σ σ₁ t own) (hlinks : σ₂.links = σ₁.links) : HasEntered σ σ₂ t own := by
  unfold HasEntered
  rw [hlinks]
  exact h

theorem HasEntered.other {σ σ₁ σ₂ : System} {t : Nat} {own : Nat → List LinkEvent}
    (h : HasEntered σ σ₁ t own) (hreach : Reachable σ₁) {a : Action} (hne : a.thread ≠ t)
    (hmoves : Moves σ₁ a σ₂) : HasEntered σ σ₂ t own := by
  intro l
  obtain ⟨entries,haccounts,hown⟩ := h l
  obtain ⟨th,rest,d,hthread,hstack,hmove⟩ := hmoves
  obtain ⟨who,new,hposts,hwho⟩ := hreach.move_posts hthread hstack hmove l
  refine ⟨entries ++ new,haccounts.trans hposts.accounts,?_⟩
  have hnone : entriesOf t new = [] := by
    apply entriesOf_eq_nil
    intro e he hsender
    have hsome := hposts.sender_eq e he t hsender
    obtain hnone | ⟨hthread,_⟩ := hwho
    · rw [hnone] at hsome
      cases hsome
    · rw [hthread,Option.some.injEq] at hsome
      exact hne hsome
  rw [entriesOf_append,hown,hnone,List.append_nil]

private theorem HasEntered.send {σ σ₁ : System} (hreach : Reachable σ₁) {t : Nat} {c : Choice}
    {th : Thread Role Frame} {rest : List Frame} {d : Delta} (hthread : σ₁.threads[t]? = some th)
    (hstack : th.stack = d.top ++ rest) (hmove : Move σ₁ t c th.role rest d) {call : SendCall}
    {handles : SendHandles} {pc : SendPc call} {spurious : Bool} {link link' : Link}
    {next : SendNext call} (hlink : σ₁.links[handles.link]? = some link)
    (hsend : sendStep t call handles spurious pc link = (link',next))
    (hlinks : d.links = σ₁.links.set handles.link link')
    (h : HasEntered σ σ₁ t (fun l => if l = handles.link then pc.entries t else [])) :
    ∃ own, next.Entered t own ∧
      HasEntered σ (σ₁.apply t rest d) t (fun l => if l = handles.link then own else []) := by
  obtain ⟨new,hhistory,hsender,hentered⟩ := sendStep_entries hsend
  refine ⟨pc.entries t ++ new,hentered,?_⟩
  intro l
  obtain ⟨entries,haccounts,hown⟩ := h l
  obtain ⟨who,posted,hposts,_⟩ := hreach.move_posts hthread hstack hmove l
  have hposted : posted = if l = handles.link then new else [] := by
    have heq := hposts.accounts.history_eq
    rw [hlinks,ledger_set link' hlink] at heq
    split at heq
    · rename_i hl
      rw [if_pos hl]
      rw [hl,ledger_of_getElem? hlink] at heq
      exact List.append_cancel_left (heq.symm.trans hhistory)
    · rename_i hl
      rw [if_neg hl]
      exact List.append_cancel_left (heq.symm.trans (List.append_nil _).symm)
  refine ⟨entries ++ posted,haccounts.trans hposts.accounts,?_⟩
  rw [entriesOf_append,hown,hposted]
  by_cases hl : l = handles.link
  · simp only [if_pos hl]
    rw [entriesOf_eq_self hsender]
  · simp only [if_neg hl]
    rfl

inductive Sending (σ σ' : System) (t : Nat) (call : SendCall) (base : List Frame) : Prop where
  | lookup (f : Frame) (hf : f = .lock (.sendLookup call) ∨ f = .locked (.sendLookup call))
      (hin : σ'.In t f base) (hentered : HasEntered σ σ' t (fun _ => []))
  | sending (handles : SendHandles) (pc : SendPc call) (hin : σ'.In t (.send call handles pc) base)
      (hentered : HasEntered σ σ' t (fun l => if l = handles.link then pc.entries t else []))

def HasSent (σ σ' : System) (t : Nat) (call : SendCall) (result : Int) : Prop :=
  ∃ l₀ own, (SendNext.ret result : SendNext call).Entered t own ∧
    HasEntered σ σ' t (fun l => if l = l₀ then own else [])

theorem Sending.own {σ σ₁ σ₂ : System} (hreach : Reachable σ₁) {a : Action} {call : SendCall}
    {base : List Frame} (h : Sending σ σ₁ a.thread call base) (hmoves : Moves σ₁ a σ₂) :
    (Sending σ σ₂ a.thread call base ∧ σ₂.log = σ₁.log) ∨ ∃ result,
      σ₂.log = σ₁.log ++ [.returned a.thread .transportSendPacket (some result)] ∧
        HasSent σ σ₂ a.thread call result := by
  cases h with
  | lookup f hf hin hentered =>
    cases hin.section_step hf hmoves with
    | lock hin' hstate hlinks hlog =>
      exact .inl ⟨.lookup _ (.inr rfl) hin' (hentered.of_links hlinks),hlog⟩
    | goto state g hin hsection hin' hstate hlinks hlog =>
      cases hsection with
      | sendLookup call active hactive =>
        refine .inl ⟨.sending active.sendHandles .load hin' ?_,hlog⟩
        simp only [SendPc.entries,ite_self]
        exact hentered.of_links hlinks
    | ret state result hin hsection hstate hlinks hlog =>
      cases hsection with
      | sendLookup call hclosed =>
        refine .inr ⟨-1,hlog,0,[],.inr ⟨rfl,.inl rfl⟩,?_⟩
        simp only [ite_self]
        exact hentered.of_links hlinks
  | sending handles pc hin hentered =>
    obtain ⟨th,d,hthread,hstack,hmove,htop,rfl,hnext⟩ := hin.move hmoves (by simp)
    have hwhole := hmove
    cases hmove with
    | sendGoto call₀ handles₀ pc₀ pc' link link' hlink hsend =>
      cases htop
      obtain ⟨own,hown,hentered'⟩ := hentered.send hreach hthread hstack hwhole hlink hsend rfl
      subst hown
      exact .inl ⟨.sending handles pc' (hnext _ rfl) hentered',by simp [System.apply]⟩
    | sendRet call₀ handles₀ pc₀ link link' result hlink hsend =>
      cases htop
      obtain ⟨own,hown,hentered'⟩ := hentered.send hreach hthread hstack hwhole hlink hsend rfl
      exact .inr ⟨result,rfl,handles.link,own,hown,hentered'⟩
    | _ => cases htop

theorem Sending.other {σ σ₁ σ₂ : System} (hreach : Reachable σ₁) {t : Nat} {a : Action}
    {call : SendCall} {base : List Frame} (h : Sending σ σ₁ t call base) (hne : a.thread ≠ t)
    (hmoves : Moves σ₁ a σ₂) : Sending σ σ₂ t call base := by
  obtain ⟨th,rest,d,hthread,hstack,hmove⟩ := id hmoves
  cases h with
  | lookup f hf hin hentered =>
    exact .lookup f hf (hin.of_other rest d hne) (hentered.other hreach hne hmoves)
  | sending handles pc hin hentered =>
    exact .sending handles pc (hin.of_other rest d hne) (hentered.other hreach hne hmoves)

/-- What a send enters into the ledgers, whoever else takes steps meanwhile. -/
theorem send_hasSent {allow : System → Action → Prop} {σ σ' : System} (hreach : Reachable σ)
    {t : Nat} {call : SendCall} {result : Int}
    (hcall : CallReturns allow σ t (.transportSendPacket call) σ' result)
    (haccepted : call.rejected = false) : HasSent σ σ' t call result := by
  obtain ⟨base,σ₁,hentered,hreturns⟩ := hcall.entered_lock (.sendLookup call haccepted)
  change Returns allow t .transportSendPacket σ₁ σ' result at hreturns
  have hstart : Sending σ σ₁ t call base := by
    refine .lookup _ (.inl rfl) hentered.at_lock fun l => ⟨[],?_,rfl⟩
    rw [hentered.links_eq]
    exact .refl _
  have hkept : ∀ σ₁ a σ₂, Reachable σ₁ → Sending σ σ₁ t call base → allow σ₁ a → Moves σ₁ a σ₂ →
      (∀ events, σ₂.log = σ₁.log ++ events → ownEvents t events = []) →
        Sending σ σ₂ t call base := by
    intro σ₁ a σ₂ hreach₁ hsending _ hmoves hquiet
    by_cases ha : a.thread = t
    · subst ha
      obtain ⟨hsending',_⟩ | ⟨r,hlog,_⟩ := hsending.own hreach₁ hmoves
      · exact hsending'
      · have hnone := hquiet _ hlog
        simp [ownEvents,Event.thread] at hnone
    · exact hsending.other hreach₁ ha hmoves
  obtain ⟨σ₂,a,hreach₂,hsending,rfl,_,hmoves,hreturn⟩ :=
    hreturns.invariant (hreach.step hentered.step) hstart hkept
  obtain ⟨_,hlog⟩ | ⟨r,hlog,hsent⟩ := hsending.own hreach₂ hmoves
  · simp [hlog] at hreturn
  · have hsame := List.append_cancel_left (hlog.symm.trans hreturn)
    obtain rfl : r = result := by simpa using hsame
    exact hsent

theorem HasSent.leavesNoTrace {σ σ' : System} {t : Nat} {call : SendCall}
    (h : HasSent σ σ' t call (-1)) (l : Nat) :
    LeavesNoTrace t (ledger σ.links l) (ledger σ'.links l) := by
  obtain ⟨l₀,own,hown,hentered⟩ := h
  obtain ⟨entries,haccounts,hentries⟩ := hentered l
  apply haccounts.leavesNoTrace
  rw [hentries]
  obtain ⟨hzero,_⟩ | ⟨_,hown⟩ := hown
  · cases hzero
  · dsimp only
    split
    · exact hown
    · exact .inl rfl

/-- Every send that returns -1, whatever its arguments. -/
theorem refused_leavesNoTrace {allow : System → Action → Prop} {σ σ' : System}
    (hreach : Reachable σ) {t : Nat} {call : SendCall}
    (hcall : CallReturns allow σ t (.transportSendPacket call) σ' (-1)) (l : Nat) :
    LeavesNoTrace t (ledger σ.links l) (ledger σ'.links l) := by
  cases hrejected : call.rejected with
  | false => exact (send_hasSent hreach hcall hrejected).leavesNoTrace l
  | true =>
    obtain ⟨_,_,hlinks⟩ := hcall.at_once (r := -1) (by simp [ApiCall.enter,hrejected])
    rw [hlinks]
    exact (Accounts.refl _).leavesNoTrace (.inl rfl)

end BtstackRs.Transport
