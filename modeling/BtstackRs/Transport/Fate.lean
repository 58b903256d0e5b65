import BtstackRs.Transport.CanSend
import BtstackRs.Transport.Delivery
import BtstackRs.Transport.Keeping
import BtstackRs.Transport.Silence

/-!
# What becomes of a transport

The record of a transport is passed on from the `transport_open` that makes it to `STATE` and to a
`transport_close`. When it is nowhere any more, either that close has returned and nothing of the
transport is left, or a `transport_open` that overlaps with another one has stored its own record
over it: then nobody can stop the transport again, and its readers run for ever.
-/

namespace BtstackRs.Transport

open Concurrent

/-- Closed, with nothing left. -/
structure Gone (l : Nat) (σ : System) : Prop where
  no_record : σ.holders l = 0
  ended : Over l σ

/-- Running without a record. -/
structure Lost (l : Nat) (σ : System) : Prop where
  no_record : σ.holders l = 0
  runs : ∃ link, σ.links[l]? = some link ∧ link.stop = false

/-- A step that does not store another record over the one of the link passes it on, or ends the
close that has it. -/
theorem Move.holds_cases {σ : System} {t : Nat} {c : Choice} {role : Role} {rest : List Frame}
    {d : Delta} (h : Move σ t c role rest d) {l : Nat} (hl : l < σ.links.length)
    (hstore : ∀ active, d.top = [.locked (.openStore active)] → σ.state.owns l = 0) :
    Pool.stackWeight (Frame.holds l) d.top' + d.state.owns l =
        Pool.stackWeight (Frame.holds l) d.top + σ.state.owns l ∨
      ∃ active, active.link = l ∧ d.top = [.closeJoinWriter active] ∧
        Pool.stackWeight (Frame.holds l) d.top' = 0 ∧ d.state = σ.state := by
  cases h with
  | sectionGoto s state g hsection =>
    left
    cases hsection with
    | closeTake active hactive =>
      simp [Frame.holds,Frame.owns,Section.owns,TransportState.owns,hactive]
    | _ => simp [Frame.holds,Frame.owns,Section.owns]
  | sectionRet s state result hsection =>
    left
    cases hsection with
    | openStore active =>
      rw [hstore active rfl]
      simp [Frame.holds,Frame.owns,Section.owns,TransportState.owns]
    | _ => simp [Frame.holds,Frame.owns,Section.owns,TransportState.owns]
  | create endpoints =>
    left
    have hne : σ.links.length ≠ l := by omega
    simp [Frame.holds,Frame.owns,hne]
  | spawn l' pc =>
    left
    cases pc <;> simp [Frame.holds,Frame.owns,Section.owns,SpawnPc.after]
  | joinWriter active hfinished =>
    by_cases hlink : active.link = l
    · exact .inr ⟨active,hlink,rfl,rfl,rfl⟩
    · left
      simp [Frame.holds,hlink]
  | call op s hchoice hcan henters =>
    left
    cases henters <;> simp [Frame.holds,Frame.owns,Section.owns]
  | _ =>
    left
    simp [Frame.holds,Frame.owns,Section.owns]

theorem Frame.holds_le_mentions (l : Nat) (f : Frame) : f.holds l ≤ f.mentions l := by
  have howns := f.owns_le_mentions l
  cases f with
  | closeJoinReaders active remaining | closeJoinWriter active => exact Nat.le_refl _
  | _ => exact howns

theorem Reachable.holders_of_length_le {σ : System} (h : Reachable σ) {l : Nat}
    (hl : σ.links.length ≤ l) : σ.holders l = 0 := by
  have hframes := h.wellScoped.frames l hl
  have hmono := Pool.total_mono (Frame.holds_le_mentions l) σ.threads
  have hstate : σ.state.owns l = 0 := by
    unfold TransportState.owns
    split
    · rfl
    · rename_i active hactive
      have hlt := h.wellScoped.active active hactive
      exact if_neg (by omega)
  unfold System.holders
  omega

theorem Lost.stays_running {l : Nat} {σ σ' : System} {a : Action} (h : Lost l σ)
    (hmoves : Moves σ a σ') : ∃ link, σ'.links[l]? = some link ∧ link.stop = false := by
  obtain ⟨th,rest,d,hthread,hstack,hmove⟩ := hmoves
  obtain ⟨link,hlink,hstop⟩ := h.runs
  obtain ⟨link',hlink',-,hkept⟩ := hmove.linkMove hlink
  refine ⟨link',hlink',?_⟩
  rcases hkept with hkept | ⟨active,hactive,htop⟩
  · rw [hkept,hstop]
  · have hle := Pool.le_total (Frame.holds l) hthread
      (show Frame.closeStop active ∈ th.stack by simp [hstack,htop])
    have hnone := h.no_record
    have hone : (Frame.closeStop active).holds l = 1 := if_pos hactive
    unfold System.holders at hnone
    omega

inductive FateStep (l : Nat) (σ : System) (a : Action) (σ' : System) : Prop where
  | kept (hkeeps : KeepsRecord l σ a) (hsame : σ'.holders l = σ.holders l)
  | closed (hkeeps : KeepsRecord l σ a) (hheld : σ.holders l = 1) (hgone : Gone l σ')
  | overwritten (hoverwrites : σ.overwrites l a = true) (hheld : σ.holders l = 1) (hlost : Lost l σ')

theorem exists_of_overwrites {σ : System} {l : Nat} {a : Action} (h : σ.overwrites l a = true) :
    ∃ active base, σ.In a.thread (.locked (.openStore active)) base ∧ σ.IsOpen l := by
  unfold System.overwrites at h
  split at h
  · rename_i role active rest hthread
    obtain ⟨old,hold,hlink⟩ := (Option.any_eq_true _ _).mp h
    exact ⟨active,rest,⟨_,hthread,rfl⟩,old,hold,by simpa using hlink⟩
  · cases h

private theorem lost_of_overwrites {l : Nat} {σ σ' : System} {a : Action} (hreach : Reachable σ)
    (hone : σ.holders l ≤ 1) (hl : l < σ.links.length) (hoverwrites : σ.overwrites l a = true)
    (hstep : machine.step σ a = some σ') : Lost l σ' := by
  obtain ⟨active,base,hin,old,hold,rfl⟩ := exists_of_overwrites hoverwrites
  have howns := TransportState.owns_of_active hold
  have hlink := List.getElem?_eq_getElem hl
  have hrunning := hreach.active_running hold hlink
  obtain ⟨th,d,hthread,hstack,hmove,htop,rfl,-⟩ := hin.move (step_moves hstep) (by simp)
  have hsum := total_apply (Frame.holds old.link) hthread hstack
  have hbefore : σ.holders old.link =
      Pool.total (Frame.holds old.link) σ.threads + σ.state.owns old.link := rfl
  have hafter : (σ.apply a.thread base d).holders old.link =
      Pool.total (Frame.holds old.link) (σ.apply a.thread base d).threads +
        d.state.owns old.link := rfl
  have hstored : Pool.stackWeight (Frame.holds old.link) d.top' + d.state.owns old.link =
      Pool.stackWeight (Frame.holds old.link) d.top := by
    cases hmove with
    | sectionRet s state result hsection =>
      cases htop
      cases hsection with
      | openStore => simp [Frame.holds,Frame.owns,Section.owns,TransportState.owns]
    | sectionGoto s state g hsection =>
      cases htop
      cases hsection
    | _ => cases htop
  refine ⟨by omega,?_⟩
  obtain ⟨link',hlink',-,hkept⟩ := hmove.linkMove hlink
  refine ⟨link',hlink',?_⟩
  rcases hkept with hkept | ⟨stopped,-,hstopped⟩
  · rw [hkept,hrunning.not_stopped]
  · rw [htop] at hstopped
    cases hstopped

theorem fateStep_of_step {l : Nat} {σ σ' : System} {a : Action} (hreach : Reachable σ)
    (hone : σ.holders l ≤ 1) (hl : l < σ.links.length) (hstep : machine.step σ a = some σ') :
    FateStep l σ a σ' := by
  cases hoverwrites : σ.overwrites l a with
  | true =>
    obtain ⟨-,-,-,old,hold,rfl⟩ := exists_of_overwrites hoverwrites
    have howns := TransportState.owns_of_active hold
    have hheld : σ.holders old.link =
      Pool.total (Frame.holds old.link) σ.threads + σ.state.owns old.link := rfl
    exact .overwritten hoverwrites (by omega) (lost_of_overwrites hreach hone hl hoverwrites hstep)
  | false =>
    obtain ⟨th,rest,d,hthread,hstack,hmove⟩ := step_moves hstep
    have hsum := total_apply (Frame.holds l) hthread hstack
    have hbefore : σ.holders l = Pool.total (Frame.holds l) σ.threads + σ.state.owns l := rfl
    have hafter : (σ.apply a.thread rest d).holders l =
        Pool.total (Frame.holds l) (σ.apply a.thread rest d).threads + d.state.owns l := rfl
    have hstore : ∀ active, d.top = [.locked (.openStore active)] → σ.state.owns l = 0 :=
      fun active htop => owns_of_openStore hthread (hstack.trans (by rw [htop]; rfl)) hoverwrites
    rcases hmove.holds_cases hl hstore with hsame | ⟨active,rfl,htop,hnone,hstate⟩
    · exact .kept hoverwrites (by omega)
    · have hin : σ.In a.thread (.closeJoinWriter active) rest :=
        ⟨th,hthread,hstack.trans (by rw [htop]; rfl)⟩
      have htaken : Pool.stackWeight (Frame.holds active.link) d.top = 1 := by
        simp [htop,Frame.holds]
      have hle := Pool.stackWeight_le_total (Frame.holds active.link) hthread
      rw [hstack,Pool.stackWeight_append] at hle
      rw [hstate] at hafter
      exact .closed hoverwrites (by omega) ⟨by omega,over_of_close hreach hin hstep⟩

/-- What becomes of a transport: somebody has its record, or it is closed, or it is lost. -/
inductive Fate (l : Nat) (σ : System) : Prop where
  | held (hheld : σ.holders l = 1)
  | gone (hgone : Gone l σ)
  | lost (hlost : Lost l σ)

theorem Fate.holders_le_one {l : Nat} {σ : System} (h : Fate l σ) : σ.holders l ≤ 1 := by
  cases h with
  | held hheld => exact Nat.le_of_eq hheld
  | gone hgone => simp [hgone.no_record]
  | lost hlost => simp [hlost.no_record]

theorem Gone.created {l : Nat} {σ : System} (h : Gone l σ) : l < σ.links.length := by
  obtain ⟨u,⟨th,hthread,hrole⟩,hfinished⟩ := h.ended (.writer l) rfl
  simp only [System.finished,hthread,hrole] at hfinished
  obtain ⟨link,hlink,-⟩ := (Option.any_eq_true _ _).mp hfinished
  exact (List.getElem?_eq_some_iff.mp hlink).1

theorem Gone.step {l : Nat} {σ σ' : System} {a : Action} (h : Gone l σ) (hreach : Reachable σ)
    (hstep : machine.step σ a = some σ') : Gone l σ' := by
  have hnone := h.no_record
  cases fateStep_of_step hreach (by omega) h.created hstep with
  | kept hkeeps hsame => exact ⟨hsame.trans hnone,h.ended.step hstep⟩
  | closed hkeeps hheld hgone => exact hgone
  | overwritten hoverwrites hheld hlost => omega

theorem Lost.step {l : Nat} {σ σ' : System} {a : Action} (h : Lost l σ) (hreach : Reachable σ)
    (hstep : machine.step σ a = some σ') : Lost l σ' := by
  have hnone := h.no_record
  obtain ⟨link,hlink,-⟩ := h.runs
  cases fateStep_of_step hreach (by omega) (List.getElem?_eq_some_iff.mp hlink).1 hstep with
  | kept hkeeps hsame => exact ⟨hsame.trans hnone,h.stays_running (step_moves hstep)⟩
  | closed hkeeps hheld hgone => omega
  | overwritten hoverwrites hheld hlost => exact hlost

theorem Lost.readers_run {l : Nat} {σ : System} (h : Lost l σ) (hreach : Reachable σ)
    {kind : ReaderKind} {u : Nat} (hu : σ.threads.HasRole u (.reader kind l)) :
    σ.finished u = false := by
  obtain ⟨link,hlink,hstop⟩ := h.runs
  obtain ⟨inputs,s,hrun,hreader,hsaw⟩ := hreach.runs hlink kind
  obtain ⟨th,hthread,hrole⟩ := hu
  have hnot : s.sawStop = false := by
    by_contra hseen
    rw [hsaw (by simpa using hseen)] at hstop
    cases hstop
  have hruns := ((readerLoop_sound hrun).streaming hnot).not_exited
  rw [hreader] at hruns
  simpa [System.finished,hthread,hrole,hlink] using hruns

theorem Gone.steps {l : Nat} {σ σ' : System} (h : Gone l σ) (hreach : Reachable σ)
    (hrun : machine.Steps Machine.anyAction σ σ') : Gone l σ' := by
  induction hrun with
  | refl => exact h
  | tail hbefore hlast ih =>
    obtain ⟨a,-,hstep⟩ := hlast
    exact ih.step (hreach.steps hbefore) hstep

theorem Lost.steps {l : Nat} {σ σ' : System} (h : Lost l σ) (hreach : Reachable σ)
    (hrun : machine.Steps Machine.anyAction σ σ') : Lost l σ' := by
  induction hrun with
  | refl => exact h
  | tail hbefore hlast ih =>
    obtain ⟨a,-,hstep⟩ := hlast
    exact ih.step (hreach.steps hbefore) hstep

theorem Gone.not_lost {l : Nat} {σ : System} (h : Gone l σ) (hreach : Reachable σ) :
    ¬Lost l σ := by
  intro hlost
  obtain ⟨u,hu,hfinished⟩ := h.ended (.reader .event l) rfl
  rw [hlost.readers_run hreach hu] at hfinished
  cases hfinished

theorem Fate.step {l : Nat} {σ σ' : System} {a : Action} (h : Fate l σ) (hreach : Reachable σ)
    (hl : l < σ.links.length) (hstep : machine.step σ a = some σ') : Fate l σ' := by
  cases h with
  | held hheld =>
    cases fateStep_of_step hreach (by omega) hl hstep with
    | kept hkeeps hsame => exact .held (hsame.trans hheld)
    | closed hkeeps hheld hgone => exact .gone hgone
    | overwritten hoverwrites hheld hlost => exact .lost hlost
  | gone hgone => exact .gone (hgone.step hreach hstep)
  | lost hlost => exact .lost (hlost.step hreach hstep)

theorem held_of_created {l : Nat} {σ σ' : System} {a : Action} (hreach : Reachable σ)
    (hnew : σ.links.length ≤ l) (hl : l < σ'.links.length) (hstep : machine.step σ a = some σ') :
    σ'.holders l = 1 := by
  obtain ⟨th,rest,d,hthread,hstack,hmove⟩ := step_moves hstep
  obtain ⟨endpoints,-,htop,htop',hstate⟩ :=
    hmove.fresh_link hnew (List.getElem?_eq_getElem hl)
  have hsum := total_apply (Frame.holds l) hthread hstack
  have hbefore := hreach.holders_of_length_le hnew
  have hafter : (σ.apply a.thread rest d).holders l =
      Pool.total (Frame.holds l) (σ.apply a.thread rest d).threads + d.state.owns l := rfl
  simp only [htop,htop',Pool.stackWeight_cons,Pool.stackWeight_nil,Frame.holds,Frame.owns,
    if_true] at hsum
  unfold System.holders at hbefore
  rw [hstate] at hafter
  omega

theorem Reachable.fate {σ : System} (h : Reachable σ) {l : Nat} (hl : l < σ.links.length) :
    Fate l σ := by
  have hall : l < σ.links.length → Fate l σ := by
    apply Machine.ReachableBy.invariant h
    · rintro _ ⟨clients,handler,rfl⟩ hl
      cases hl
    · intro σ a σ' hreach hσ _ hstep hl'
      by_cases hl : l < σ.links.length
      · exact (hσ hl).step hreach hl hstep
      · exact .held (held_of_created hreach (Nat.not_lt.mp hl) hl' hstep)
  exact hall hl

theorem ReachableKeeping.not_lost {l : Nat} {σ : System} (h : ReachableKeeping l σ) :
    ¬Lost l σ := by
  apply Machine.ReachableBy.invariant h
  · rintro _ ⟨clients,handler,rfl⟩ hlost
    obtain ⟨link,hlink,-⟩ := hlost.runs
    cases hlink
  · intro σ a σ' hkeeping hσ hkeeps hstep hlost
    have hreach := ReachableKeeping.reachable hkeeping
    obtain ⟨link,hlink,-⟩ := hlost.runs
    by_cases hl : l < σ.links.length
    · have hfate := hreach.fate hl
      cases fateStep_of_step hreach hfate.holders_le_one hl hstep with
      | kept _ hsame =>
        cases hfate with
        | held hheld =>
          have hnone := hlost.no_record
          omega
        | gone hgone => exact (hgone.step hreach hstep).not_lost (hreach.step hstep) hlost
        | lost hbefore => exact hσ hbefore
      | closed _ _ hgone => exact hgone.not_lost (hreach.step hstep) hlost
      | overwritten hoverwrites =>
        rw [hkeeps] at hoverwrites
        cases hoverwrites
    · have hheld := held_of_created hreach (Nat.not_lt.mp hl)
        (List.getElem?_eq_some_iff.mp hlink).1 hstep
      have hnone := hlost.no_record
      omega

theorem Reachable.keeping_of_not_lost {l : Nat} {σ : System} (h : Reachable σ)
    (hnot : ¬Lost l σ) : ReachableKeeping l σ := by
  have hall : ¬Lost l σ → ReachableKeeping l σ := by
    apply Machine.ReachableBy.invariant h
    · exact fun σ hinitial _ => ⟨σ,hinitial,.refl σ⟩
    · intro σ a σ' hreach hσ _ hstep hnot'
      have hkeeping := hσ fun hlost => hnot' (hlost.step hreach hstep)
      have hkeeps : KeepsRecord l σ a := by
        by_contra hoverwrites
        rw [KeepsRecord,Bool.not_eq_false] at hoverwrites
        obtain ⟨-,-,-,old,hold,rfl⟩ := exists_of_overwrites hoverwrites
        have hl := (Reachable.wellScoped hreach).active old hold
        exact hnot' (lost_of_overwrites hreach (Reachable.fate hreach hl).holders_le_one hl
          hoverwrites hstep)
      exact Machine.ReachableBy.steps hkeeping (.head hkeeps hstep (.refl σ'))
  exact hall hnot

/-- Every transport has its record in the hands of one call or of `STATE`, or it is closed without
a trace, or it is lost; the last two are for ever. It is lost if and only if an open has stored over
its record, and its readers never return then. -/
theorem transport_fate {σ : System} (hreach : Reachable σ) (l : Nat) :
    (l < σ.links.length → Fate l σ) ∧ ¬(Gone l σ ∧ Lost l σ) ∧
    (ReachableKeeping l σ ↔ ¬Lost l σ) ∧
    ∀ σ', machine.Steps Machine.anyAction σ σ' → (Gone l σ → Gone l σ') ∧
      (Lost l σ → Lost l σ' ∧
        ∀ kind u, σ'.threads.HasRole u (.reader kind l) → σ'.finished u = false) := by
  refine ⟨fun hl => hreach.fate hl,fun ⟨hgone,hlost⟩ => hgone.not_lost hreach hlost,
    ⟨ReachableKeeping.not_lost,hreach.keeping_of_not_lost⟩,fun σ' hrun => ⟨?_,?_⟩⟩
  · exact fun hgone => hgone.steps hreach hrun
  · intro hlost
    have hlater := hlost.steps hreach hrun
    exact ⟨hlater,fun kind u hu => hlater.readers_run (hreach.steps hrun) hu⟩

/-- A second dongle is opened by a call that had found the transport closed before the first one
was stored. -/
theorem transport_fate_overwritten : ∃ σ, Reachable σ ∧ Lost 0 σ ∧ ¬ReachableKeeping 0 σ ∧
    ∀ σ', machine.Steps Machine.anyAction σ σ' →
      ∀ kind u, σ'.threads.HasRole u (.reader kind 0) → σ'.finished u = false := by
  have hrun : ((machine.run (System.initial 2 none)
      (Action.by 0 [.call .transportOpen,.go,.go] ++ openRun 1 dongle dongleInterface [] ++
        Action.by 0 [.devices [{ dongle with busNumber := 2 }],.go,.claimed dongleInterface,
          .go,.go,.go,.go,.go,.go,.go,.go])).bind
      fun σ => σ.links[0]?.map fun link => (σ.holders 0,link.stop)) = some (0,false) := rfl
  obtain ⟨σ,hσ,hrest⟩ := Option.bind_eq_some_iff.mp hrun
  obtain ⟨link,hlink,hvalues⟩ := Option.map_eq_some_iff.mp hrest
  obtain ⟨hnone,hstop⟩ := Prod.mk.inj hvalues
  have hreach : Reachable σ := .of_run hσ
  have hlost : Lost 0 σ := ⟨hnone,link,hlink,hstop⟩
  obtain ⟨-,-,hkeeping,hlater⟩ := transport_fate hreach 0
  exact ⟨σ,hreach,hlost,fun hkept => hkeeping.mp hkept hlost,
    fun σ' hsteps => ((hlater σ' hsteps).2 hlost).2⟩

end BtstackRs.Transport
