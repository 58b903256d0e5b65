import BtstackRs.Transport.Acknowledge
import BtstackRs.Transport.Overlap
import BtstackRs.Transport.Packets

/-!
# What arrives

From the completion queue of a reader to the handler. What the readers do alone is put together
with the mutex, the lookup of the handler and the other threads: nothing that comes out of a queue
is lost, repeated, changed or overtaken on the way.
-/

namespace BtstackRs.Transport

open Concurrent

def Section.onTheWay (site : EmitSite) : Section → Option (UInt8 × Bytes)
  | .emitLookup site' packetType packet => if site' = site then some (packetType,packet) else none
  | _ => none

/-- A packet from this place that the handler has not been called with yet. -/
def Frame.onTheWay (site : EmitSite) : Frame → Option (UInt8 × Bytes)
  | .lock s | .locked s => s.onTheWay site
  | .emitCall site' packetType packet _ => if site' = site then some (packetType,packet) else none
  | _ => none

def System.onTheWay (σ : System) (site : EmitSite) : List (UInt8 × Bytes) :=
  σ.threads.gather (Frame.onTheWay site)

def Event.handed (site : EmitSite) : Event → Option (UInt8 × Bytes)
  | .entered _ site' _ packetType packet _ => if site' = site then some (packetType,packet) else none
  | _ => none

/-- What the handler has been called with from this place, in order. -/
def handedBy (site : EmitSite) (log : List Event) : List (UInt8 × Bytes) :=
  log.filterMap (Event.handed site)

theorem Frame.onTheWay_le_emits (site : EmitSite) (f : Frame) :
    (f.onTheWay site).toList.length ≤ f.emits site := by
  have hlength : ∀ (site' : EmitSite) (p : UInt8 × Bytes),
      (if site' = site then some p else none).toList.length ≤
        if some site' = some site then 1 else 0 := by
    intro site' p
    by_cases hsite : site' = site <;> simp [hsite]
  cases f with
  | lock s | locked s =>
    cases s with
    | emitLookup site' packetType packet => exact hlength site' _
    | _ => exact Nat.zero_le _
  | emitCall site' packetType packet handler => exact hlength site' _
  | _ => exact Nat.zero_le _

theorem Reachable.onTheWay_le {σ : System} (h : Reachable σ) {site : EmitSite}
    (hworker : site ≠ .usbInfo) : (σ.onTheWay site).length ≤ emitting σ.links site := by
  rw [← h.total_emits hworker]
  exact Pool.length_gather_le (Frame.onTheWay_le_emits site) σ.threads

def Emission.Linked (links : List Link) (e : Emission) : Prop :=
  ∀ l, e.site.link = some l → l < links.length

theorem Reachable.emits_link {σ : System} (h : Reachable σ) :
    Emits (Emission.Linked σ.links) σ := by
  apply Machine.ReachableBy.invariant h
  · rintro _ ⟨clients,handler,rfl⟩
    exact emits_initial _ clients handler
  · intro σ a σ' _ hσ _ hstep
    have hlength : σ.links.length ≤ σ'.links.length := by
      induction step_moves hstep with
      | intro th rest d hthread hstack hmove => exact hmove.links_length
    have hlater : Emits (Emission.Linked σ'.links) σ :=
      hσ.mono (fun e he l hl => Nat.lt_of_lt_of_le (he l hl) hlength)
    apply hlater.step hstep
    intro e horigin l hl
    cases horigin with
    | usbInfo => cases hl
    | reader kind l' link c hlink hpc hdata =>
      cases hl
      exact Nat.lt_of_lt_of_le (List.getElem?_eq_some_iff.mp hlink).1 hlength
    | writer l' link hlink =>
      cases hl
      exact Nat.lt_of_lt_of_le (List.getElem?_eq_some_iff.mp hlink).1 hlength

theorem Reachable.handedBy_fresh {σ : System} (h : Reachable σ) {site : EmitSite} {l : Nat}
    (hsite : site.link = some l) (hl : σ.links.length ≤ l) : handedBy site σ.log = [] := by
  rw [handedBy,List.filterMap_eq_nil_iff]
  intro event hevent
  cases event with
  | entered t site' handler packetType packet size =>
    have hlink := (h.emits_link.log _ _ _ _ _ _ hevent).1
    by_cases hsame : site' = site
    · subst hsame
      exact absurd (hlink l hsite) (Nat.not_lt.mpr hl)
    · simp [Event.handed,hsame]
  | _ => rfl

def readerAt (links : List Link) (kind : ReaderKind) (l : Nat) : Reader :=
  (links[l]?).elim {} (·.reader kind)

section

variable {links : List Link} {kind : ReaderKind} {l : Nat}

theorem readerAt_of_getElem? {link : Link} (h : links[l]? = some link) :
    readerAt links kind l = link.reader kind := by
  rw [readerAt,h,Option.elim_some]

theorem readerAt_set {i : Nat} {link link' : Link} (hlink : links[i]? = some link)
    (h : l = i → link'.reader kind = link.reader kind) :
    readerAt (links.set i link') kind l = readerAt links kind l := by
  by_cases hl : l = i
  · subst hl
    have hset := List.getElem?_set_self (a := link') (List.getElem?_eq_some_iff.mp hlink).1
    rw [readerAt_of_getElem? hset,readerAt_of_getElem? hlink,h rfl]
  · rw [readerAt,readerAt,List.getElem?_set_ne (Ne.symm hl)]

theorem readerAt_append (endpoints : EndpointConfig) :
    readerAt (links ++ [{ endpoints := endpoints }]) kind l = readerAt links kind l := by
  rw [readerAt,readerAt,List.getElem?_append]
  split
  · rfl
  · rename_i hl
    rw [List.getElem?_eq_none (Nat.not_lt.mp hl),List.getElem?_singleton]
    split
    · cases kind <;> rfl
    · rfl

theorem readerAt_resumeSite (site : Option EmitSite) :
    readerAt (resumeSite site links) kind l =
      if site = some (.reader kind l) then (readerAt links kind l).resume
      else readerAt links kind l := by
  cases hlink' : (resumeSite site links)[l]? with
  | none =>
    have hlink : links[l]? = none := by
      rw [List.getElem?_eq_none_iff] at hlink' ⊢
      rwa [resumeSite_length] at hlink'
    rw [readerAt,readerAt,hlink',hlink]
    simp [Reader.resume]
  | some link' =>
    obtain ⟨link,hlink,hcases⟩ := getElem?_resumeSite hlink'
    rw [readerAt_of_getElem? hlink',readerAt_of_getElem? hlink]
    obtain ⟨rfl,hreader,-⟩ | ⟨kind',rfl,rfl⟩ | ⟨rfl,rfl⟩ := hcases
    · rw [if_neg (hreader kind)]
    · by_cases hkind : kind' = kind
      · subst hkind
        simp
      · rw [link.reader_setReader_ne (Ne.symm hkind),if_neg (by simpa using hkind)]
    · rw [if_neg (by simp)]
      cases kind <;> rfl

end

inductive ReaderTurn (σ : System) (c : Choice) (role : Role) (rest : List Frame) (d : Delta)
    (kind : ReaderKind) (l : Nat) : List (UInt8 × Bytes) → Prop where
  | own (link : Link) (r : Reader) (hrole : role = .reader kind l) (hidle : d.top ++ rest = [])
      (hlink : σ.links[l]? = some link)
      (hreader : readerStep kind link.stop c.readerPoll (link.reader kind) = some r)
      (hlinks : d.links = σ.links.set l (link.setReader kind r)) :
      ReaderTurn σ c role rest d kind l (r.delivery.toList.map (fun data => (kind.packetType,data)))
  | resume (hbusy : role = .reader kind l → d.top ++ rest ≠ [])
      (hreader : readerAt d.links kind l = (readerAt σ.links kind l).resume) :
      ReaderTurn σ c role rest d kind l []
  | other (hbusy : role = .reader kind l → d.top ++ rest ≠ [])
      (hreader : readerAt d.links kind l = readerAt σ.links kind l) :
      ReaderTurn σ c role rest d kind l []

private theorem CanCall.busy {role : Role} {rest : List Frame} (h : CanCall role rest)
    {kind : ReaderKind} {l : Nat} (hrole : role = .reader kind l) : rest ≠ [] := by
  cases h with
  | client => cases hrole
  | handler => simp

/-- While a handler is registered, the packets that the handler is entered with and those that stay
on the way are those that were on the way and the new one. -/
theorem Move.readerTurn {σ : System} {t : Nat} {c : Choice} {role : Role} {rest : List Frame}
    {d : Delta} (h : Move σ t c role rest d) (hregistered : σ.state.packetHandler.isSome)
    (kind : ReaderKind) (l : Nat) : ∃ begun, ReaderTurn σ c role rest d kind l begun ∧
      d.events.filterMap (Event.handed (.reader kind l)) ++
          d.top'.filterMap (Frame.onTheWay (.reader kind l)) =
        d.top.filterMap (Frame.onTheWay (.reader kind l)) ++ begun := by
  cases h with
  | lock s hfree => exact ⟨[],.other (fun _ => by simp) rfl,(List.append_nil _).symm⟩
  | sectionGoto s state g hsection =>
    refine ⟨[],.other (fun _ => by simp) rfl,?_⟩
    cases hsection <;> exact (List.append_nil _).symm
  | sectionRet s state result hsection =>
    refine ⟨[],.other (fun _ => by simp) ?_,?_⟩
    · rw [readerAt_resumeSite]
      cases hsection with
      | emitLookup site packetType packet hnone => simp [hnone] at hregistered
      | _ => rfl
    · cases hsection with
      | emitLookup site packetType packet hnone => simp [hnone] at hregistered
      | _ => rfl
  | create endpoints => exact ⟨[],.other (fun _ => by simp) (readerAt_append endpoints),rfl⟩
  | spawn l' pc =>
    refine ⟨[],.other (fun _ => by simp) rfl,?_⟩
    cases pc <;> rfl
  | stop active link hlink =>
    refine ⟨[],.other (fun _ => by simp) (readerAt_set hlink fun _ => ?_),rfl⟩
    cases kind <;> rfl
  | sendGoto call handles pc pc' link link' hlink hsend =>
    exact ⟨[],.other (fun _ => by simp) (readerAt_set hlink fun _ => sendStep_reader hsend kind),rfl⟩
  | sendRet call handles pc link link' result hlink hsend =>
    exact ⟨[],.other (fun _ => by simp) (readerAt_set hlink fun _ => sendStep_reader hsend kind),rfl⟩
  | enter site packetType packet handler =>
    refine ⟨[],.other (fun _ => by simp) rfl,?_⟩
    by_cases hsite : site = .reader kind l <;> simp [Event.handed,Frame.onTheWay,hsite]
  | leave site packetType packet =>
    refine ⟨[],?_,rfl⟩
    have hreader : readerAt (resumeSite (some site) σ.links) kind l =
        if some site = some (.reader kind l) then (readerAt σ.links kind l).resume
        else readerAt σ.links kind l := readerAt_resumeSite (some site)
    by_cases hsite : site = .reader kind l
    · rw [if_pos (by rw [hsite])] at hreader
      exact .resume (fun _ => by simp) hreader
    · rw [if_neg (by simpa using hsite)] at hreader
      exact .other (fun _ => by simp) hreader
  | call op s hchoice hcan henters =>
    refine ⟨[],.other (fun hrole => hcan.busy hrole) rfl,?_⟩
    cases henters <;> rfl
  | callRet op result hchoice hcan henter =>
    exact ⟨[],.other (fun hrole => hcan.busy hrole) rfl,rfl⟩
  | reader kind' l' link r hrole hrest hlink hreader hquiet =>
    by_cases hsame : role = .reader kind l
    · obtain ⟨rfl,rfl⟩ : kind' = kind ∧ l' = l := by simpa [hrole] using hsame
      refine ⟨_,.own link r hrole (by simpa using hrest) hlink hreader rfl,?_⟩
      rw [hquiet]
      rfl
    · refine ⟨[],.other (fun hown => absurd hown hsame) (readerAt_set hlink ?_),rfl⟩
      rintro rfl
      exact link.reader_setReader_ne (fun hkind => hsame (by rw [hrole,hkind])) r
  | readerDeliver kind' l' link r data hrole hrest hlink hreader hdata =>
    by_cases hsame : role = .reader kind l
    · obtain ⟨rfl,rfl⟩ : kind' = kind ∧ l' = l := by simpa [hrole] using hsame
      refine ⟨_,.own link r hrole (by simpa using hrest) hlink hreader rfl,?_⟩
      rw [hdata]
      simp [Frame.onTheWay,Section.onTheWay]
    · refine ⟨[],.other (fun hown => absurd hown hsame) (readerAt_set hlink ?_),?_⟩
      · rintro rfl
        exact link.reader_setReader_ne (fun hkind => hsame (by rw [hrole,hkind])) r
      · have hsite : ¬EmitSite.reader kind' l' = .reader kind l := by simpa [hrole] using hsame
        simp [Frame.onTheWay,Section.onTheWay,hsite]
  | writer l' link link' hrole hrest hlink hwriter hquiet =>
    refine ⟨[],.other (fun hown => ?_) (readerAt_set hlink fun _ => ?_),rfl⟩
    · rw [hrole] at hown
      cases hown
    · exact writerStep_reader hwriter kind
  | writerAcknowledge l' link link' hrole hrest hlink hwriter hack =>
    refine ⟨[],.other (fun hown => ?_) (readerAt_set hlink fun _ => ?_),rfl⟩
    · rw [hrole] at hown
      cases hown
    · exact writerStep_reader hwriter kind
  | _ => exact ⟨[],.other (fun _ => by simp) rfl,rfl⟩

/-- The completion that a step takes from the queue of a reader: after a step of its own, the one
that the loop has in hand. -/
def System.takes (σ : System) (a : Action) (σ' : System) (kind : ReaderKind) (l : Nat) :
    Option Completion :=
  match σ.threads[a.thread]? with
  | none => none
  | some th =>
      if th.role = .reader kind l ∧ th.stack = [] then (readerAt σ'.links kind l).received else none

/-- A run in which the handler stays registered, with the completions that a reader has taken from
its queue. -/
inductive Taking (kind : ReaderKind) (l : Nat) (σ₀ : System) : System → List Completion → Prop where
  | start : Taking kind l σ₀ σ₀ []
  | step {σ σ' : System} {a : Action} {taken : List Completion} (h : Taking kind l σ₀ σ taken)
      (hkeeps : KeepsHandler σ a) (hstep : machine.step σ a = some σ') :
      Taking kind l σ₀ σ' (taken ++ (σ.takes a σ' kind l).toList)

theorem readerStep_delivery {kind : ReaderKind} {stop : Bool} {poll : Option Completion}
    {r r' : Reader} (h : readerStep kind stop poll r = some r') : r.delivery = none := by
  have hemitting := readerStep_not_emitting h
  rw [Reader.emitting_eq] at hemitting
  cases hdelivery : r.delivery with
  | none => rfl
  | some data => simp [hdelivery] at hemitting

theorem Reading.Sound.resume {kind : ReaderKind} {s : Reading} (h : s.Sound kind) :
    ({ s with reader := s.reader.resume } : Reading).Sound kind := by
  cases hpc : s.reader.pc with
  | delivering c =>
    apply h.step (a := ⟨false,none⟩)
    simp only [readerLoop,Reader.delivery,hpc]
  | _ =>
    have hsame : s.reader.resume = s.reader := by rw [Reader.resume,hpc]
    rwa [hsame]

structure Receiving (kind : ReaderKind) (l : Nat) (σ : System) (taken : List Completion)
    (s : Reading) : Prop where
  sound : s.Sound kind
  reader : s.reader = readerAt σ.links kind l
  completions : s.completions = taken
  emitted : s.emitted = handedBy (.reader kind l) σ.log ++ σ.onTheWay (.reader kind l)

theorem Receiving.step {kind : ReaderKind} {l : Nat} {σ σ' : System} {a : Action}
    {taken : List Completion} {s : Reading} (h : Receiving kind l σ taken s)
    (hreach : Reachable σ) (hregistered : σ.state.packetHandler.isSome)
    (hmoves : Moves σ a σ') :
    ∃ s', Receiving kind l σ' (taken ++ (σ.takes a σ' kind l).toList) s' := by
  induction hmoves with
  | intro th rest d hthread hstack hmove =>
    obtain ⟨begun,hturn,hhanded⟩ := hmove.readerTurn hregistered kind l
    have hemitting : (σ.onTheWay (.reader kind l)).length ≤ emitting σ.links (.reader kind l) :=
      hreach.onTheWay_le (by simp)
    have hlinks : (σ.apply a.thread rest d).links = d.links := rfl
    -- The packet that is begun finds none on the way: the loop was not in `emit_packet`.
    have hbegun : begun ≠ [] → σ.onTheWay (.reader kind l) = [] := by
      intro hnew
      cases hturn with
      | own link r hrole hidle hlink hreader _ =>
        rw [emitting_of_link rfl hlink] at hemitting
        have hquiet := readerStep_not_emitting hreader
        exact List.eq_nil_of_length_eq_zero (Nat.le_zero.mp (hquiet ▸ hemitting))
      | resume | other => exact absurd rfl hnew
    have hone : (σ.onTheWay (.reader kind l)).length ≤ 1 :=
      Nat.le_trans (Pool.length_gather_le (Frame.onTheWay_le_emits _) σ.threads)
        (hreach.total_emits_le_one (by simp))
    have hway := Pool.gather_exchange hthread hstack hone hbegun hhanded
    have hpackets : handedBy (.reader kind l) (σ.log ++ d.events) ++
        (σ.apply a.thread rest d).onTheWay (.reader kind l) = s.emitted ++ begun := by
      have hspawned : Pool.gather (Frame.onTheWay (.reader kind l))
          (d.spawned.map (fun role => (⟨role,[]⟩ : Thread Role Frame))) = [] := by
        apply Pool.gather_eq_nil
        simp
      rw [h.emitted,handedBy,List.filterMap_append,System.onTheWay,System.apply,
        Pool.gather_append,hspawned,List.append_nil,List.append_assoc,hway,← List.append_assoc]
      rfl
    have htakes : (σ.takes a (σ.apply a.thread rest d) kind l) =
        if th.role = .reader kind l ∧ d.top ++ rest = [] then
          (readerAt d.links kind l).received else none := by
      rw [System.takes,hthread,hlinks,← hstack]
    cases hturn with
    | own link r hrole hidle hlink hreader hlinks' =>
      have hold : readerAt σ.links kind l = link.reader kind := readerAt_of_getElem? hlink
      have hnew : readerAt d.links kind l = r := by
        rw [hlinks',readerAt_of_getElem?
          (List.getElem?_set_self (List.getElem?_eq_some_iff.mp hlink).1),Link.reader_setReader]
      have hstep : (readerLoop kind).step s ⟨link.stop,a.choice.readerPoll⟩ = some
          { reader := r
            completions := s.completions ++ r.received.toList
            emitted := s.emitted ++ r.delivery.toList.map (fun data => (kind.packetType,data))
            sawStop := s.sawStop || (s.reader.looksAtStop && link.stop) } := by
        simp only [readerLoop,h.reader,hold,readerStep_delivery hreader,hreader,Option.map_some]
      refine ⟨_,h.sound.step hstep,hnew.symm,?_,hpackets.symm⟩
      rw [htakes,if_pos ⟨hrole,hidle⟩,hnew,← h.completions]
    | resume hbusy hreader =>
      refine ⟨_,h.sound.resume,?_,?_,?_⟩
      · rw [hlinks,hreader,h.reader]
      · rw [htakes,if_neg (fun hown => hbusy hown.1 hown.2),h.completions]
        exact (List.append_nil _).symm
      · exact (hpackets.trans (List.append_nil _)).symm
    | other hbusy hreader =>
      refine ⟨s,h.sound,?_,?_,?_⟩
      · rw [hlinks,hreader,h.reader]
      · rw [htakes,if_neg (fun hown => hbusy hown.1 hown.2),h.completions]
        exact (List.append_nil _).symm
      · exact (hpackets.trans (List.append_nil _)).symm

theorem emitting_reader (links : List Link) (kind : ReaderKind) (l : Nat) :
    emitting links (.reader kind l) = (readerAt links kind l).pc.emitting := by
  show linkValue (·.emitting (.reader kind l)) links l = _
  unfold linkValue readerAt
  cases links[l]? <;> rfl

theorem receiving_fresh {σ : System} (h : Reachable σ) {kind : ReaderKind} {l : Nat}
    (hl : σ.links.length ≤ l) : Receiving kind l σ [] {} := by
  have hlink : σ.links[l]? = none := List.getElem?_eq_none hl
  have hway : σ.onTheWay (.reader kind l) = [] := by
    have hle : (σ.onTheWay (.reader kind l)).length ≤ emitting σ.links (.reader kind l) :=
      h.onTheWay_le (by simp)
    rw [emitting_reader,readerAt,hlink] at hle
    exact List.eq_nil_of_length_eq_zero (Nat.le_zero.mp hle)
  refine ⟨⟨⟨[],rfl,rfl⟩,by simp,fun _ => trivial,by simp⟩,?_,rfl,?_⟩
  · rw [readerAt,hlink]
    rfl
  · rw [hway,h.handedBy_fresh rfl hl]
    rfl

theorem Taking.receiving {kind : ReaderKind} {l : Nat} {σ₀ σ : System} {taken : List Completion}
    (h : Taking kind l σ₀ σ taken) (h₀ : Reachable σ₀) (hhandler : HandlerKept σ₀)
    (hnew : σ₀.links.length ≤ l) :
    Reachable σ ∧ HandlerKept σ ∧ ∃ s, Receiving kind l σ taken s := by
  induction h with
  | start => exact ⟨h₀,hhandler,_,receiving_fresh h₀ hnew⟩
  | step h hkeeps hstep ih =>
    obtain ⟨hreach,hkept,s,hs⟩ := ih
    have hmoves := step_moves hstep
    exact ⟨hreach.steps (.tail (.refl _) hkeeps hstep),handlerKept_moves hkept hkeeps hmoves,
      hs.step hreach hkept.registered hmoves⟩

/-- From the queue to the handler: while a handler is registered, the calls that it has had from a
reader and the one packet that may be on its way are, in order, exactly what the completions taken
from the queue have to deliver, but for the completion that the loop has in hand; and a packet is
on its way only while the loop is in `emit_packet`. -/
theorem arrivals_handed {σ₀ σ : System} (h₀ : Reachable σ₀) (hhandler : HandlerKept σ₀)
    {kind : ReaderKind} {l : Nat} (hnew : σ₀.links.length ≤ l) {taken : List Completion}
    (hrun : Taking kind l σ₀ σ taken) :
    (∃ handled, taken = handled ++ (readerAt σ.links kind l).received.toList ∧
      deliveries kind handled =
        handedBy (.reader kind l) σ.log ++ σ.onTheWay (.reader kind l)) ∧
    (σ.onTheWay (.reader kind l)).length ≤ (readerAt σ.links kind l).pc.emitting := by
  obtain ⟨hreach,-,s,hs⟩ := hrun.receiving h₀ hhandler hnew
  obtain ⟨handled,hcompletions,hemitted⟩ := hs.sound.delivered
  constructor
  · refine ⟨handled,?_,?_⟩
    · rw [← hs.completions,hcompletions,hs.reader]
    · rw [← hemitted,hs.emitted]
  · rw [← emitting_reader]
    exact hreach.onTheWay_le (by simp)

theorem taking_of_run {kind : ReaderKind} {l : Nat} {σ σ' : System} {actions : List Action}
    (hrun : machine.run σ actions = some σ')
    (hkeeps : ∀ a ∈ actions, a.choice.clearsHandler = false) :
    ∃ taken, Taking kind l σ σ' taken := by
  have hall : (∀ a ∈ actions, a.choice.clearsHandler = false) →
      ∃ taken, Taking kind l σ σ' taken := by
    apply Machine.run_induction (P := fun actions σ' =>
      (∀ a ∈ actions, a.choice.clearsHandler = false) → ∃ taken, Taking kind l σ σ' taken) _ _ hrun
    · intro _
      exact ⟨[],.start⟩
    · intro actions σ₁ a σ₂ _ ih hstep hkeeps
      obtain ⟨taken,htaken⟩ := ih (fun b hb => hkeeps b (List.mem_append_left _ hb))
      exact ⟨_,htaken.step (hkeeps a (by simp)) hstep⟩
  exact hall hkeeps

def arrivalRun : List Action :=
  openRun 0 dongle dongleInterface [.go,.go] ++
    Action.by 2 [.go,.completion ⟨.ok,[2,0]⟩,.go,.go,.go,.go,.go,.go,.completion ⟨.ok,[]⟩,.go,.go,
      .completion ⟨.ok,[7]⟩,.go,.go]

theorem arrivals_handed_acl : ∃ σ taken handled, Taking .acl 0 (System.initial 1 (some 7)) σ taken ∧
    taken = handled ++ [] ∧ handedBy (.reader .acl 0) σ.log = [(hciAclDataPacket,[2,0])] ∧
    deliveries .acl handled = [(hciAclDataPacket,[2,0]),(hciAclDataPacket,[7])] := by
  have hvalues : ((machine.run (System.initial 1 (some 7)) arrivalRun).map fun σ =>
      ((readerAt σ.links .acl 0).received,handedBy (.reader .acl 0) σ.log,
        σ.onTheWay (.reader .acl 0))) =
      some (none,[(hciAclDataPacket,[2,0])],[(hciAclDataPacket,[7])]) := rfl
  obtain ⟨σ,hσ,hpair⟩ := Option.map_eq_some_iff.mp hvalues
  simp only [Prod.mk.injEq] at hpair
  obtain ⟨hreceived,hhanded,hway⟩ := hpair
  have htaking : ∃ taken, Taking .acl 0 (System.initial 1 (some 7)) σ taken :=
    taking_of_run hσ (by decide)
  obtain ⟨taken,htaken⟩ := htaking
  have hinitial : Reachable (System.initial 1 (some 7)) := ⟨_,⟨1,some 7,rfl⟩,.refl _⟩
  obtain ⟨⟨handled,heq,hdelivered⟩,-⟩ := arrivals_handed hinitial ⟨rfl,rfl⟩ (Nat.zero_le 0) htaken
  rw [hreceived] at heq
  rw [hhanded,hway] at hdelivered
  exact ⟨σ,taken,handled,htaken,heq,hhanded,hdelivered⟩

end BtstackRs.Transport
