import BtstackRs.Transport.Lifecycle

/-!
# Records that are kept

`transport_open` drops the record that it finds in `STATE` when it stores its own. In the runs in
which that happens to no record of a link, the record of this link is passed on until its writer
has been joined, and with it a sender of the channel.
-/

namespace BtstackRs.Transport

open Concurrent

def System.overwrites (σ : System) (l : Nat) (a : Action) : Bool :=
  match σ.threads[a.thread]? with
  | some ⟨_,.locked (.openStore _) :: _⟩ => σ.state.active.any (fun active => active.link == l)
  | _ => false

def KeepsRecord (l : Nat) (σ : System) (a : Action) : Prop := σ.overwrites l a = false

/-- The states of the runs in which the record of the link is not overwritten. -/
def ReachableKeeping (l : Nat) (σ : System) : Prop :=
  machine.ReachableBy Initial (KeepsRecord l) σ

theorem ReachableKeeping.reachable {l : Nat} {σ : System} (h : ReachableKeeping l σ) :
    Reachable σ := h.any

theorem ReachableKeeping.invariant {l : Nat} {Inv : System → Prop} {σ : System}
    (h : ReachableKeeping l σ) (hinit : ∀ clients handler, Inv (System.initial clients handler))
    (hmoves : ∀ σ a σ', ReachableKeeping l σ → Inv σ → KeepsRecord l σ a → Moves σ a σ' → Inv σ') :
    Inv σ := by
  apply Machine.ReachableBy.invariant h
  · rintro _ ⟨clients,handler,rfl⟩
    exact hinit clients handler
  · exact fun σ a σ' hreach hinv hallow hstep => hmoves σ a σ' hreach hinv hallow (step_moves hstep)

theorem keepsRecord_of_runWhere {l : Nat} {as : List Action} {σ σ' : System}
    (h : machine.runWhere (fun σ a => !σ.overwrites l a) σ as = some σ') :
    machine.Steps (KeepsRecord l) σ σ' := by
  apply (Machine.steps_of_runWhere h).mono
  intro σ a hcheck
  simpa [KeepsRecord] using hcheck

theorem ReachableKeeping.of_runWhere {l : Nat} {clients : Nat} {handler : Option Handler}
    {as : List Action} {σ : System}
    (h : machine.runWhere (fun σ a => !σ.overwrites l a) (System.initial clients handler) as =
      some σ) : ReachableKeeping l σ :=
  ⟨_,⟨clients,handler,rfl⟩,keepsRecord_of_runWhere h⟩

theorem ReachableInTurn.keepsRecord {σ : System} (h : ReachableInTurn σ) (l : Nat) (a : Action) :
    KeepsRecord l σ a := by
  unfold KeepsRecord System.overwrites
  split
  · rename_i role active rest hthread
    have hframe := Pool.le_total Frame.detached hthread (List.mem_cons_self)
    have hdetached : 0 < Pool.total Frame.detached σ.threads := Nat.lt_of_lt_of_le Nat.one_pos hframe
    rw [h.active_of_detached hdetached]
    rfl
  · rfl

theorem ReachableInTurn.keeping {σ : System} (h : ReachableInTurn σ) (l : Nat) :
    ReachableKeeping l σ := by
  apply Machine.ReachableBy.invariant h
  · exact fun σ hinitial => ⟨σ,hinitial,.refl σ⟩
  · intro σ a σ' hreach hkeeping _ hstep
    have hkeeps : KeepsRecord l σ a := ReachableInTurn.keepsRecord hreach l a
    exact Machine.ReachableBy.steps hkeeping (.head hkeeps hstep (.refl σ'))

def Frame.holds (l : Nat) : Frame → Nat
  | .closeJoinReaders active _ | .closeJoinWriter active => if active.link = l then 1 else 0
  | f => f.owns l

def System.holders (σ : System) (l : Nat) : Nat :=
  Pool.total (Frame.holds l) σ.threads + σ.state.owns l

private theorem holdsSender_of_holds {l : Nat} {f : Frame} (h : 0 < f.holds l) :
    f.holdsSender l = true := by
  cases f with
  | closeJoinReaders active remaining => simpa [Frame.holdsSender] using of_ite_pos h
  | closeJoinWriter active => simpa [Frame.holdsSender] using of_ite_pos h
  | _ => exact holdsSender_of_owns h

theorem senderAlive_of_holders {σ : System} {l : Nat} (h : 0 < σ.holders l) :
    σ.senderAlive l = true :=
  senderAlive_of_total (fun _ => holdsSender_of_holds) h

theorem owns_of_openStore {σ : System} {a : Action} {th : Thread Role Frame}
    {active : ActiveTransport} {rest : List Frame} {l : Nat}
    (hthread : σ.threads[a.thread]? = some th)
    (hstack : th.stack = .locked (.openStore active) :: rest) (hkeeps : KeepsRecord l σ a) :
    σ.state.owns l = 0 := by
  rcases th with ⟨role,stack⟩
  subst hstack
  simp only [KeepsRecord,System.overwrites,hthread] at hkeeps
  rw [TransportState.owns]
  split
  · rfl
  · rename_i active hactive
    rw [hactive] at hkeeps
    exact if_neg (by simpa using hkeeps)

private theorem move_holds {σ : System} {t : Nat} {c : Choice} {role : Role} {rest : List Frame}
    {d : Delta} (h : Move σ t c role rest d) {l : Nat}
    (hstore : ∀ active, d.top = [.locked (.openStore active)] → σ.state.owns l = 0) :
    Pool.stackWeight (Frame.holds l) d.top + σ.state.owns l ≤
        Pool.stackWeight (Frame.holds l) d.top' + d.state.owns l ∨
      ∃ active, active.link = l ∧ d.top = [.closeJoinWriter active] ∧
        σ.finished active.writerThread = true := by
  cases h with
  | sectionGoto s state g hsection =>
    left
    cases hsection with
    | closeTake active hactive =>
      simp [Frame.holds,Frame.owns,Section.owns,TransportState.owns,hactive]
    | _ => simp [Frame.holds,Frame.owns,Section.owns]
  | sectionRet s state result hsection =>
    left
    cases hsection with
    | openStore active =>
      rw [hstore active rfl]
      simp [Frame.holds,Frame.owns,Section.owns,TransportState.owns]
    | _ => simp [Frame.holds,Frame.owns,Section.owns,TransportState.owns]
  | spawn l' pc =>
    left
    cases pc <;> simp [Frame.holds,Frame.owns,Section.owns,SpawnPc.after]
  | joinWriter active hfinished =>
    by_cases hl : active.link = l
    · exact .inr ⟨active,hl,rfl,hfinished⟩
    · left
      simp [Frame.holds,hl]
  | _ =>
    left
    simp [Frame.holds,Frame.owns,Section.owns]

private theorem writer_exited_of_finished {σ : System} {active : ActiveTransport}
    (hrecorded : active.Recorded σ.threads) (hfinished : σ.finished active.writerThread = true)
    {link : Link} (hlink : σ.links[active.link]? = some link) : link.writer.pc = .exited := by
  obtain ⟨th,hth,hrole⟩ := hrecorded.writer
  simpa [System.finished,hth,hrole,hlink] using hfinished

theorem ReachableKeeping.exited_or_held {l : Nat} {σ : System} (h : ReachableKeeping l σ) :
    ∀ link, σ.links[l]? = some link → link.writer.pc = .exited ∨ 0 < σ.holders l := by
  apply h.invariant
  · intro clients handler link hlink
    simp [System.initial] at hlink
  · rintro σ a _ hreach hσ hkeeps ⟨th,rest,d,hthread,hstack,hmove⟩ link' hlink'
    have hsum := total_apply (Frame.holds l) hthread hstack
    have hholders : (σ.apply a.thread rest d).holders l =
        Pool.total (Frame.holds l) (σ.apply a.thread rest d).threads + d.state.owns l := rfl
    by_cases hl : l < σ.links.length
    · have hlink := List.getElem?_eq_getElem hl
      obtain ⟨link₁,hlink₁,hlinkMove,-⟩ := hmove.linkMove hlink
      rw [show d.links[l]? = some link' from hlink'] at hlink₁
      cases hlink₁
      have hstore : ∀ active, d.top = [.locked (.openStore active)] → σ.state.owns l = 0 :=
        fun active htop => owns_of_openStore hthread (hstack.trans (by rw [htop]; rfl)) hkeeps
      rcases hσ _ hlink with hexited | hheld
      · exact .inl (hlinkMove.writer_exited hexited)
      · rcases move_holds hmove hstore with hpassed | ⟨active,rfl,htop,hfinished⟩
        · right
          have hbefore : σ.holders l = Pool.total (Frame.holds l) σ.threads + σ.state.owns l := rfl
          omega
        · left
          have hrecorded : (Frame.closeJoinWriter active).Recorded σ.threads :=
            hreach.reachable.wellRecorded.frames a.thread th _ hthread (by rw [hstack,htop]; simp)
          exact hlinkMove.writer_exited (writer_exited_of_finished hrecorded hfinished hlink)
    · obtain ⟨endpoints,-,htop,htop',-⟩ := hmove.fresh_link (Nat.not_lt.mp hl) hlink'
      right
      simp only [htop,htop',Pool.stackWeight_cons,Pool.stackWeight_nil,Frame.holds,Frame.owns,
        if_true] at hsum
      omega

/-- As long as the writer runs, `recv_timeout` does not report a disconnected channel. -/
theorem ReachableKeeping.senderAlive {l : Nat} {σ : System} (h : ReachableKeeping l σ)
    {link : Link} (hlink : σ.links[l]? = some link) (hruns : link.writer.pc ≠ .exited) :
    σ.senderAlive l = true :=
  senderAlive_of_holders ((h.exited_or_held link hlink).resolve_left hruns)

end BtstackRs.Transport
