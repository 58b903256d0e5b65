import BtstackRs.Gatt.LoopThread

/-!
# Alternation

Whether the process-wide state of BTstack is initialised and given back in turn, each time by one
runtime, is a property of the log. It holds of exactly the runs that call `shutdown` on no handle
whose runtime has been given back already.
-/

namespace BtstackRs.Gatt

open Concurrent

def liveAfter (live : Option Nat) : Event → Option Nat
  | .activated h => some h
  | .deactivated _ => none
  | _ => live

/-- The runtime that has taken `RUNTIME_ACTIVE` last, if nobody has given it back since. -/
def live (log : List Event) : Option Nat := log.foldl liveAfter none

/-- Runtime `h` has initialised BTstack and no other has taken its place. -/
def Initialised (log : List Event) (h : Nat) : Prop :=
  live log = some h ∧ ∀ call ∈ initCalls, .init h call ∈ log

def Fits (before : List Event) : Event → Prop
  | .activated _ => live before = none
  | .init h _ => live before = some h
  | .triggerExit h => Initialised before h ∧ ∀ call, .deinit h call ∉ before
  | .deinit h _ => Initialised before h ∧ ∃ panicked, .exited h panicked ∈ before
  | .deactivated h => live before = some h ∧ ∀ call ∈ deinitCalls, .deinit h call ∈ before
  | _ => True

def Event.isSequence : Event → Bool
  | init _ _ | deinit _ _ => true
  | _ => false

/-- All calls by which a runtime initialises BTstack and gives it back. -/
def session (h : Nat) : List Event := initCalls.map (.init h) ++ deinitCalls.map (.deinit h)

def Unfinished (log : List Event) (h : Nat) : Prop := .activated h ∈ log ∧ .deactivated h ∉ log

structure Alternates (p : Process) : Prop where
  sessions : ∃ hs : List Nat, p.log.filter Event.isSequence <+: hs.flatMap session
  in_place : EachAfter Fits p.log
  active_iff : p.runtimeActive = true ↔ ∃ h, live p.log = some h
  one_live : ∀ h h', Unfinished p.log h → Unfinished p.log h' → h = h'

/-- A `shutdown` in this step finds its runtime not given back yet. -/
def Process.Fresh (p : Process) : Action → Prop
  | .own h (.call .shutdown) => .deactivated h ∉ p.log
  | _ => True

instance : (p : Process) → (a : Action) → Decidable (p.Fresh a)
  | p,.own h (.call .shutdown) => inferInstanceAs (Decidable (Event.deactivated h ∉ p.log))
  | _,.own _ (.call .join) | _,.own _ (.call .drop) | _,.own _ .go | _,.own _ (.exit _)
  | _,.start => .isTrue trivial

def Event.Plain : Event → Prop
  | refused _ | spawned _ | exited _ _ | called _ _ | returned _ _ _ => True
  | _ => False

def Quiet (log : List Event) (e : Event) : Prop :=
  e.Plain ∨ ∃ h, e = .triggerExit h ∧ Fits log (.triggerExit h)

theorem live_append (log new : List Event) : live (log ++ new) = new.foldl liveAfter (live log) :=
  List.foldl_append

theorem Quiet.live_eq {log : List Event} {e : Event} (h : Quiet log e) :
    live (log ++ [e]) = live log := by
  rw [live_append]
  obtain hplain | ⟨h',rfl,_⟩ := h
  · cases e <;> first | rfl | cases hplain
  · rfl

theorem Quiet.fits {log : List Event} {e : Event} (h : Quiet log e) : Fits log e := by
  obtain hplain | ⟨h',rfl,hfits⟩ := h
  · cases e <;> first | cases hplain; done | trivial
  · exact hfits

theorem Quiet.not_sequence {log : List Event} {e : Event} (h : Quiet log e) :
    e.isSequence = false := by
  obtain hplain | ⟨h',rfl,_⟩ := h
  · cases e <;> first | rfl | cases hplain
  · rfl

theorem Quiet.ne_deactivated {log : List Event} {e : Event} (h : Quiet log e) (h' : Nat) :
    .deactivated h' ≠ e := by
  rintro rfl
  obtain hplain | ⟨_,heq,_⟩ := h
  · cases hplain
  · cases heq

theorem Quiet.after {log : List Event} {e e' : Event} (h : Quiet log e) (h' : Quiet log e') :
    Quiet (log ++ [e]) e' := by
  obtain hplain | ⟨h',rfl,⟨hlive,hinit⟩,hdeinit⟩ := h'
  · exact .inl hplain
  · refine .inr ⟨h',rfl,⟨h.live_eq.trans hlive,fun call hcall => ?_⟩,fun call hmem => ?_⟩
    · exact List.mem_append_left _ (hinit call hcall)
    · rcases List.mem_append.mp hmem with hmem | hmem
      · exact hdeinit call hmem
      · have hsequence := h.not_sequence
        rw [← List.mem_singleton.mp hmem] at hsequence
        cases hsequence

structure Undisturbed (log log' : List Event) : Prop where
  live_eq : live log' = live log
  sequence_eq : log'.filter Event.isSequence = log.filter Event.isSequence
  deactivated_iff : ∀ h, .deactivated h ∈ log' ↔ .deactivated h ∈ log
  in_place : EachAfter Fits log → EachAfter Fits log'

theorem undisturbed_of_quiet {log new : List Event} (hquiet : ∀ e ∈ new, Quiet log e) :
    Undisturbed log (log ++ new) := by
  induction new generalizing log with
  | nil =>
    rw [List.append_nil]
    exact ⟨rfl,rfl,fun _ => Iff.rfl,id⟩
  | cons e new ih =>
    have he := hquiet e List.mem_cons_self
    have hlater := ih (fun e' he' => he.after (hquiet e' (List.mem_cons_of_mem _ he')))
    rw [List.append_assoc,List.singleton_append] at hlater
    refine ⟨hlater.live_eq.trans he.live_eq,hlater.sequence_eq.trans ?_,fun h => ?_,fun h => ?_⟩
    · simp [List.filter_append,he.not_sequence]
    · rw [hlater.deactivated_iff h,List.mem_append,List.mem_singleton]
      exact or_iff_left (he.ne_deactivated h)
    · exact hlater.in_place (eachAfter_concat.mpr ⟨h,he.fits⟩)

def Pc.remaining (h : Nat) : Pc → List Event
  | starting calls => calls.map (.init h) ++ deinitCalls.map (.deinit h)
  | deinitialising calls _ => calls.map (.deinit h)
  | idle | joining _ | dropped => deinitCalls.map (.deinit h)

def BtstackRuntime.Over (r : BtstackRuntime) : Prop :=
  (r.pc = .idle ∨ r.pc = .dropped) ∧ r.loopThread = false

theorem Does.over {h : Nat} {r : BtstackRuntime} {e : Effect} (hr : r.Over) (hcoupled : Coupled r)
    (hdoes : Does h r e) (hfresh : .called h .shutdown ∉ e.events) :
    e.runtime.Over ∧ e.stores = false ∧ ∀ event ∈ e.events, event.Plain := by
  obtain ⟨pc,thread,loop⟩ := r
  obtain ⟨hover,rfl⟩ := hr
  cases hdoes with
  | again hpc hthread => exact ⟨⟨.inl rfl,rfl⟩,rfl,by simp [Event.Plain]⟩
  | drop hpc hthread => exact ⟨⟨.inr rfl,rfl⟩,rfl,by simp [Event.Plain]⟩
  | shutdown hpc hthread => simp at hfresh
  | exit panicked hloop =>
    cases hcoupled with
    | joined => cases hloop
    | starting | joining => simp at hover
  | take op hpc hthread => cases hthread
  | init call calls hpc | deinit call calls op hpc =>
    cases hpc
    simp at hover
  | spawn hpc | joined op panicked error hpc | passed op hpc | deactivate op hpc =>
    cases hpc
    simp at hover

inductive Advances (h : Nat) (r : BtstackRuntime) (e : Effect) : Prop where
  | quiet
      (hevents : ∀ event ∈ e.events, event.Plain ∨ (event = .triggerExit h ∧ r.pc = .idle))
      (hstores : e.stores = false) (hremaining : e.runtime.pc.remaining h = r.pc.remaining h)
  | init (call : InitCall) (hevents : e.events = [.init h call]) (hstores : e.stores = false)
      (hremaining : r.pc.remaining h = .init h call :: e.runtime.pc.remaining h)
  | deinit (call : DeinitCall) (hevents : e.events = [.deinit h call]) (hstores : e.stores = false)
      (hpc : ∃ calls op, r.pc = .deinitialising calls op)
      (hended : ∃ panicked, r.loop = .ended panicked)
      (hremaining : r.pc.remaining h = .deinit h call :: e.runtime.pc.remaining h)
  | deactivate (op : Op) (hevents : e.events = [.deactivated h,.returned h op none])
      (hstores : e.stores = true) (hremaining : r.pc.remaining h = []) (hover : e.runtime.Over)

theorem Does.advances {h : Nat} {r : BtstackRuntime} {e : Effect} (hcoupled : Coupled r)
    (hdoes : Does h r e) : Advances h r e := by
  cases hdoes with
  | init call calls hpc => exact .init call rfl rfl (by simp [hpc,Pc.remaining])
  | deinit call calls op hpc =>
    refine .deinit call rfl rfl ⟨_,_,hpc⟩ ?_ (by simp [hpc,Pc.remaining])
    cases hcoupled with
    | joined _ panicked _ => exact ⟨panicked,rfl⟩
    | _ => cases hpc
  | deactivate op hpc =>
    refine .deactivate op rfl rfl (by simp [hpc,Pc.remaining]) ⟨?_,?_⟩
    · cases op <;> simp [Op.after]
    · cases hcoupled with
      | owning => cases hpc
      | _ => rfl
  | take op hpc hthread =>
    refine .quiet ?_ rfl (by simp [hpc,Pc.remaining])
    cases op <;> simp [Event.Plain,hpc]
  | joined op panicked error hpc hloop hends =>
    refine .quiet (by simp [Event.Plain]) rfl ?_
    cases op <;> simp [hpc,Pc.remaining,Op.after]
  | exit panicked hloop => exact .quiet (by simp [Event.Plain]) rfl rfl
  | spawn hpc | again hpc hthread | shutdown hpc hthread | drop hpc hthread | passed op hpc =>
    exact .quiet (by simp [Event.Plain,hpc]) rfl (by simp [hpc,Pc.remaining])

/-- Every handle is over or the live one, which has made the calls of its session in order. -/
structure Coherent (p : Process) : Prop where
  reached : Reached p
  in_place : EachAfter Fits p.log
  active_eq : p.runtimeActive = (live p.log).isSome
  given_back : ∀ h r, p.handles[h]? = some r → .deactivated h ∈ p.log → r.Over
  live_of : ∀ h r, p.handles[h]? = some r → .deactivated h ∉ p.log → live p.log = some h
  live_handle : ∀ h, live p.log = some h →
    .deactivated h ∉ p.log ∧ ∃ r, p.handles[h]? = some r
  sessions : ∃ (hs : List Nat) (made : List Event),
    p.log.filter Event.isSequence = hs.flatMap session ++ made ∧
      (live p.log = none → made = []) ∧
      ∀ h r, live p.log = some h → p.handles[h]? = some r → made ++ r.pc.remaining h = session h

theorem coherent_start : Coherent {} where
  reached := .refl _
  in_place := eachAfter_nil _
  active_eq := rfl
  given_back h r hhandle := by simp at hhandle
  live_of h r hhandle := by simp at hhandle
  live_handle h hlive := by cases hlive
  sessions := ⟨[],[],rfl,fun _ => rfl,fun h r hlive => by cases hlive⟩

theorem Coherent.of_undisturbed {p p' : Process} (hp : Coherent p) (hreached : Reached p')
    (hlog : Undisturbed p.log p'.log) (hactive : p'.runtimeActive = p.runtimeActive)
    (hlength : p'.handles.length = p.handles.length)
    (hhandles : ∀ h r', p'.handles[h]? = some r' → ∃ r, p.handles[h]? = some r ∧
      (.deactivated h ∈ p.log → r'.Over) ∧
      (.deactivated h ∉ p.log → r'.pc.remaining h = r.pc.remaining h)) : Coherent p' where
  reached := hreached
  in_place := hlog.in_place hp.in_place
  active_eq := by rw [hactive,hp.active_eq,hlog.live_eq]
  given_back h r' hhandle hover := by
    obtain ⟨r,_,hkept,_⟩ := hhandles h r' hhandle
    exact hkept ((hlog.deactivated_iff h).mp hover)
  live_of h r' hhandle hover := by
    obtain ⟨r,hr,_⟩ := hhandles h r' hhandle
    rw [hlog.live_eq]
    exact hp.live_of h r hr (fun hmem => hover ((hlog.deactivated_iff h).mpr hmem))
  live_handle h hlive := by
    rw [hlog.live_eq] at hlive
    obtain ⟨hover,r,hr⟩ := hp.live_handle h hlive
    have hlt := (List.getElem?_eq_some_iff.mp hr).1
    rw [← hlength] at hlt
    exact ⟨fun hmem => hover ((hlog.deactivated_iff h).mp hmem),_,List.getElem?_eq_getElem hlt⟩
  sessions := by
    obtain ⟨hs,made,hfilter,hnone,hsome⟩ := hp.sessions
    refine ⟨hs,made,hlog.sequence_eq.trans hfilter,?_,?_⟩
    · rw [hlog.live_eq]
      exact hnone
    · intro h r' hlive hhandle
      rw [hlog.live_eq] at hlive
      obtain ⟨r,hr,_,hremaining⟩ := hhandles h r' hhandle
      rw [hremaining (hp.live_handle h hlive).1]
      exact hsome h r hlive hr

private theorem getElem?_apply {p : Process} {h h' : Nat} {r r' : BtstackRuntime} {e : Effect}
    (hhandle : p.handles[h]? = some r) (hhandle' : (p.apply h e).handles[h']? = some r') :
    (h' = h ∧ r' = e.runtime) ∨ (h' ≠ h ∧ p.handles[h']? = some r') := by
  simp only [Process.apply,List.getElem?_set] at hhandle'
  split at hhandle'
  · rename_i heq
    rw [if_pos (List.getElem?_eq_some_iff.mp hhandle).1] at hhandle'
    cases hhandle'
    exact .inl ⟨heq.symm,rfl⟩
  · rename_i hne
    exact .inr ⟨Ne.symm hne,hhandle'⟩

theorem Coherent.advance {p : Process} (hp : Coherent p) {h : Nat} {r : BtstackRuntime}
    {e : Effect} (hreached : Reached (p.apply h e)) (hhandle : p.handles[h]? = some r)
    (hlive : live p.log = some h) {event : Event} (hevents : e.events = [event])
    (hsequence : event.isSequence = true) (hfits : Fits p.log event) (hstores : e.stores = false)
    (hremaining : r.pc.remaining h = event :: e.runtime.pc.remaining h) :
    Coherent (p.apply h e) := by
  have hlog : (p.apply h e).log = p.log ++ [event] := by rw [Process.apply,hevents]
  have hlive' : live (p.apply h e).log = live p.log := by
    rw [hlog,live_append]
    cases event <;> first | rfl | cases hsequence
  have hdeactivated : ∀ h', .deactivated h' ∈ (p.apply h e).log ↔ .deactivated h' ∈ p.log := by
    intro h'
    rw [hlog,List.mem_append,List.mem_singleton]
    apply or_iff_left
    rintro rfl
    cases hsequence
  have hover := (hp.live_handle h hlive).1
  refine ⟨hreached,?_,?_,?_,?_,?_,?_⟩
  · rw [hlog]
    exact eachAfter_concat.mpr ⟨hp.in_place,hfits⟩
  · rw [hlive']
    simp [Process.apply,hstores,hp.active_eq]
  · intro h' r' hhandle' hmem
    rw [hdeactivated] at hmem
    obtain ⟨rfl,_⟩ | ⟨_,hr'⟩ := getElem?_apply hhandle hhandle'
    · exact absurd hmem hover
    · exact hp.given_back h' r' hr' hmem
  · intro h' r' hhandle' hmem
    rw [hdeactivated] at hmem
    rw [hlive']
    obtain ⟨rfl,_⟩ | ⟨_,hr'⟩ := getElem?_apply hhandle hhandle'
    · exact hlive
    · exact hp.live_of h' r' hr' hmem
  · intro h' hl
    rw [hlive',hlive] at hl
    cases hl
    rw [hdeactivated]
    refine ⟨hover,e.runtime,?_⟩
    exact List.getElem?_set_self (List.getElem?_eq_some_iff.mp hhandle).1
  · obtain ⟨hs,made,hfilter,_,hsome⟩ := hp.sessions
    refine ⟨hs,made ++ [event],?_,?_,?_⟩
    · rw [hlog,List.filter_append,hfilter,List.append_assoc]
      simp [hsequence]
    · rw [hlive',hlive]
      intro hnone
      cases hnone
    · intro h' r' hl hhandle'
      rw [hlive',hlive] at hl
      cases hl
      obtain ⟨_,rfl⟩ | ⟨hne,_⟩ := getElem?_apply hhandle hhandle'
      · rw [List.append_assoc,List.singleton_append,← hremaining]
        exact hsome h r hlive hhandle
      · exact absurd rfl hne

theorem Coherent.deactivate {p : Process} (hp : Coherent p) {h : Nat} {r : BtstackRuntime}
    {e : Effect} (hreached : Reached (p.apply h e)) (hhandle : p.handles[h]? = some r)
    (hlive : live p.log = some h) {op : Op}
    (hevents : e.events = [.deactivated h,.returned h op none]) (hstores : e.stores = true)
    (hremaining : r.pc.remaining h = []) (hover : e.runtime.Over) : Coherent (p.apply h e) := by
  obtain ⟨hs,made,hfilter,_,hsome⟩ := hp.sessions
  have hmade : made = session h := by simpa [hremaining] using hsome h r hlive hhandle
  have hlog : (p.apply h e).log = p.log ++ [.deactivated h] ++ [.returned h op none] := by
    rw [Process.apply,hevents,List.append_assoc]
    rfl
  have hnone : live (p.apply h e).log = none := by
    rw [hlog,live_append,live_append]
    rfl
  refine ⟨hreached,?_,?_,?_,?_,?_,?_⟩
  · rw [hlog]
    refine eachAfter_concat.mpr ⟨eachAfter_concat.mpr ⟨hp.in_place,hlive,?_⟩,trivial⟩
    intro call hcall
    have hmem : Event.deinit h call ∈ p.log.filter Event.isSequence := by
      rw [hfilter,hmade]
      exact List.mem_append_right _ (List.mem_append_right _ (List.mem_map_of_mem hcall))
    exact (List.mem_filter.mp hmem).1
  · rw [hnone]
    simp [Process.apply,hstores]
  · intro h' r' hhandle' hmem
    obtain ⟨rfl,rfl⟩ | ⟨hne,hr'⟩ := getElem?_apply hhandle hhandle'
    · exact hover
    · rw [hlog] at hmem
      exact hp.given_back h' r' hr' (by simpa [hne] using hmem)
  · intro h' r' hhandle' hmem
    rw [hlog] at hmem
    obtain ⟨rfl,_⟩ | ⟨hne,hr'⟩ := getElem?_apply hhandle hhandle'
    · simp at hmem
    · have hsame := hp.live_of h' r' hr' (fun hmem' => hmem (by simp [hmem']))
      rw [hlive,Option.some.injEq] at hsame
      exact absurd hsame.symm hne
  · intro h' hl
    rw [hnone] at hl
    cases hl
  · refine ⟨hs ++ [h],[],?_,fun _ => rfl,?_⟩
    · rw [hlog,List.filter_append,List.filter_append,hfilter,hmade]
      simp [Event.isSequence]
    · intro h' r' hl
      rw [hnone] at hl
      cases hl

theorem Coherent.activate {p p' : Process} (hp : Coherent p) (hreached : Reached p')
    (hactive : p.runtimeActive = false) (hactive' : p'.runtimeActive = true)
    (hhandles : p'.handles = p.handles ++ [{ pc := .starting initCalls }])
    (hlog : p'.log = p.log ++ [.activated p.handles.length]) : Coherent p' := by
  have hnone : live p.log = none := by
    have hactive_eq := hp.active_eq
    rw [hactive] at hactive_eq
    simpa using hactive_eq.symm
  have hlive : live p'.log = some p.handles.length := by
    rw [hlog,live_append]
    rfl
  have hdeactivated : ∀ h, .deactivated h ∈ p'.log ↔ .deactivated h ∈ p.log := by
    intro h
    rw [hlog]
    simp
  have hfresh : .deactivated p.handles.length ∉ p.log := by
    intro hmem
    have habout : Event.deactivated p.handles.length ∈ eventsOf p.handles.length p.log := by
      rw [eventsOf,mem_about]
      · exact hmem
      · rfl
    rw [hp.reached.numbered _ (Nat.le_refl _)] at habout
    cases habout
  have hcases : ∀ h r, p'.handles[h]? = some r → p.handles[h]? = some r ∨
      (h = p.handles.length ∧ r = { pc := .starting initCalls }) := by
    intro h r hhandle
    rw [hhandles,List.getElem?_append] at hhandle
    split at hhandle
    · exact .inl hhandle
    · rw [List.getElem?_singleton] at hhandle
      split at hhandle <;> cases hhandle
      exact .inr ⟨by omega,rfl⟩
  refine ⟨hreached,?_,?_,?_,?_,?_,?_⟩
  · rw [hlog]
    exact eachAfter_concat.mpr ⟨hp.in_place,hnone⟩
  · rw [hlive,hactive']
    rfl
  · intro h r hhandle hmem
    rw [hdeactivated] at hmem
    obtain hr | ⟨rfl,_⟩ := hcases h r hhandle
    · exact hp.given_back h r hr hmem
    · exact absurd hmem hfresh
  · intro h r hhandle hmem
    rw [hdeactivated] at hmem
    obtain hr | ⟨rfl,_⟩ := hcases h r hhandle
    · have hsome := hp.live_of h r hr hmem
      rw [hnone] at hsome
      cases hsome
    · exact hlive
  · intro h hl
    rw [hlive] at hl
    cases hl
    rw [hdeactivated]
    exact ⟨hfresh,_,by rw [hhandles,List.getElem?_concat_length]⟩
  · obtain ⟨hs,made,hfilter,hempty,_⟩ := hp.sessions
    refine ⟨hs,[],?_,fun _ => rfl,?_⟩
    · rw [hlog,List.filter_append,hfilter,hempty hnone]
      simp [Event.isSequence]
    · intro h r hl hhandle
      rw [hlive] at hl
      cases hl
      obtain hr | ⟨_,rfl⟩ := hcases _ r hhandle
      · have hlt := (List.getElem?_eq_some_iff.mp hr).1
        omega
      · rfl

theorem Coherent.step {p p' : Process} {a : Action} (hp : Coherent p) (hfresh : p.Fresh a)
    (hstep : lifecycle.step p a = some p') : Coherent p' := by
  have hreached : Reached p' := hp.reached.tail trivial hstep
  cases lifecycle_steps hstep with
  | refused hactive =>
    have hlog : Undisturbed p.log (p.log ++ [.refused .alreadyStarted]) :=
      undisturbed_of_quiet (by simp [Quiet,Event.Plain])
    exact hp.of_undisturbed hreached hlog rfl rfl
      (fun h r hr => ⟨r,hr,fun hmem => hp.given_back h r hr hmem,fun _ => rfl⟩)
  | activated hactive => exact hp.activate hreached hactive rfl rfl rfl
  | own h c r e hhandle hdo =>
    have hdoes := BtstackRuntime.does_of_step hdo
    have hcoupled := hp.reached.coupled hhandle
    have hkept : (∀ event ∈ e.events, Quiet p.log event) → e.stores = false →
        (.deactivated h ∈ p.log → e.runtime.Over) →
        (.deactivated h ∉ p.log → e.runtime.pc.remaining h = r.pc.remaining h) →
          Coherent (p.apply h e) := by
      intro hquiet hstores hover hremaining
      refine hp.of_undisturbed hreached (undisturbed_of_quiet hquiet)
        (by simp [Process.apply,hstores]) (by simp [Process.apply]) fun h' r' hhandle' => ?_
      obtain ⟨rfl,rfl⟩ | ⟨_,hr'⟩ := getElem?_apply hhandle hhandle'
      · exact ⟨r,hhandle,hover,hremaining⟩
      · exact ⟨r',hr',fun hmem => hp.given_back h' r' hr' hmem,fun _ => rfl⟩
    by_cases hmem : .deactivated h ∈ p.log
    · have hnot : .called h .shutdown ∉ e.events := by
        intro hcalled
        rw [BtstackRuntime.choice_of_called hdo hcalled] at hfresh
        exact hfresh hmem
      obtain ⟨hover,hstores,hplain⟩ := hdoes.over (hp.given_back h r hhandle hmem) hcoupled hnot
      exact hkept (fun event hevent => .inl (hplain event hevent)) hstores (fun _ => hover)
        (fun h => absurd hmem h)
    · have hlive := hp.live_of h r hhandle hmem
      have hsequenced := hp.reached.sequenced hhandle
      have hinit : (∀ calls, r.pc ≠ .starting calls) → Initialised p.log h := by
        intro hpc
        refine ⟨hlive,fun call hcall => ?_⟩
        obtain hdone | ⟨calls,hstarting,_⟩ := hsequenced.init call hcall
        · exact hdone
        · exact absurd hstarting (hpc calls)
      cases hdoes.advances hcoupled with
      | quiet hevents hstores hremaining =>
        refine hkept (fun event hevent => ?_) hstores (fun h => absurd h hmem) (fun _ => hremaining)
        obtain hplain | ⟨rfl,hpc⟩ := hevents event hevent
        · exact .inl hplain
        · refine .inr ⟨h,rfl,hinit (by simp [hpc]),fun call hdeinit => ?_⟩
          obtain hdone | ⟨calls,op,hin⟩ := hsequenced.deinit call hdeinit
          · exact hmem hdone
          · rw [hpc] at hin
            cases hin
      | init call hevents hstores hremaining =>
        exact hp.advance hreached hhandle hlive hevents rfl hlive hstores hremaining
      | deinit call hevents hstores hpc hended hremaining =>
        obtain ⟨calls,op,hpc⟩ := hpc
        obtain ⟨panicked,hloop⟩ := hended
        have hexited := (hp.reached.exited_iff hhandle panicked).mp hloop
        exact hp.advance hreached hhandle hlive hevents rfl
          ⟨hinit (by simp [hpc]),panicked,hexited⟩ hstores hremaining
      | deactivate op hevents hstores hremaining hover =>
        exact hp.deactivate hreached hhandle hlive hevents hstores hremaining hover

theorem Coherent.alternates {p : Process} (hp : Coherent p) : Alternates p where
  sessions := by
    obtain ⟨hs,made,hfilter,hnone,hsome⟩ := hp.sessions
    rw [hfilter]
    cases hlive : live p.log with
    | none =>
      rw [hnone hlive,List.append_nil]
      exact ⟨hs,List.prefix_rfl⟩
    | some h =>
      obtain ⟨_,r,hr⟩ := hp.live_handle h hlive
      refine ⟨hs ++ [h],?_⟩
      rw [List.flatMap_append,List.flatMap_singleton,← hsome h r hlive hr,← List.append_assoc]
      exact List.prefix_append _ _
  in_place := hp.in_place
  active_iff := by rw [hp.active_eq,Option.isSome_iff_exists]
  one_live h h' hun hun' := by
    have hlive : ∀ h, Unfinished p.log h → live p.log = some h := by
      rintro h ⟨hstarted,hover⟩
      have hlt : h < p.handles.length := by
        by_contra hge
        have habout : Event.activated h ∈ eventsOf h p.log := by
          rw [eventsOf,mem_about]
          · exact hstarted
          · rfl
        rw [hp.reached.numbered h (Nat.not_lt.mp hge)] at habout
        cases habout
      exact hp.live_of h _ (List.getElem?_eq_getElem hlt) hover
    have hsame := (hlive h hun).symm.trans (hlive h' hun')
    rwa [Option.some.injEq] at hsame

/-- In the run of these actions every `shutdown` finds its runtime not given back yet. -/
def AllFresh (as : List Action) : Prop :=
  EachAfter (fun before a => ∀ q, lifecycle.run {} before = some q → q.Fresh a) as

theorem coherent_of_allFresh {as : List Action} {p : Process}
    (hrun : lifecycle.run {} as = some p) : AllFresh as → Coherent p := by
  apply Machine.run_induction (P := fun as p => AllFresh as → Coherent p) _ _ hrun
  · exact fun _ => coherent_start
  · intro as q a p hq ih hstep hfresh
    obtain ⟨hbefore,hlast⟩ := eachAfter_concat.mp hfresh
    exact (ih hbefore).step (hlast q hq) hstep

theorem allFresh_of_inPlace {as : List Action} {p : Process}
    (hrun : lifecycle.run {} as = some p) : EachAfter Fits p.log → AllFresh as := by
  apply Machine.run_induction (P := fun as p => EachAfter Fits p.log → AllFresh as) _ _ hrun
  · exact fun _ => eachAfter_nil _
  · intro as q a p hq ih hstep hplace
    have hfresh : AllFresh as := by
      apply ih
      cases lifecycle_steps hstep with
      | refused | activated => exact hplace.of_append
      | own h c r e hhandle hdo => exact EachAfter.of_append hplace
    refine eachAfter_concat.mpr ⟨hfresh,fun q' hq' => ?_⟩
    obtain rfl : q = q' := Option.some.inj (hq.symm.trans hq')
    cases lifecycle_steps hstep with
    | refused | activated => trivial
    | own h c r e hhandle hdo =>
      cases c with
      | go | exit => trivial
      | call op =>
        cases op with
        | join | drop => trivial
        | shutdown =>
          intro hmem
          obtain ⟨rest,hevents⟩ := BtstackRuntime.shutdown_events hdo
          have hlog : (q.apply h e).log =
              (q.log ++ [.called h .shutdown]) ++ .triggerExit h :: rest := by
            rw [Process.apply,hevents,List.append_assoc]
            rfl
          obtain ⟨⟨hlive,_⟩,_⟩ := hplace _ _ _ hlog
          rw [live_append] at hlive
          exact ((coherent_of_allFresh hq hfresh).live_handle h hlive).1 hmem

/-- Initialisation and deinitialisation alternate in exactly those runs in which no handle is shut
down again after its runtime has been given back. -/
theorem alternates_iff_allFresh {as : List Action} {p : Process}
    (hrun : lifecycle.run {} as = some p) : Alternates p ↔ AllFresh as :=
  ⟨fun h => allFresh_of_inPlace hrun h.in_place,
    fun h => (coherent_of_allFresh hrun h).alternates⟩

/-- A runtime is started, shut down and dropped, and another one started. -/
theorem alternates_iff_allFresh_restarted : ∃ p,
    lifecycle.run {} (startRun 0 ++ Action.on 0 [.exit false,.call .shutdown,.go,.go,.go,.go,.go,.go,
      .call .drop] ++ startRun 1) = some p ∧ live p.log = some 1 ∧ Alternates p := by
  have hrun : ((lifecycle.runWhere (fun p a => decide (p.Fresh a)) {} (startRun 0 ++
      Action.on 0 [.exit false,.call .shutdown,.go,.go,.go,.go,.go,.go,.call .drop] ++
        startRun 1)).map fun p => live p.log) = some (some 1) := rfl
  obtain ⟨p,hp,hlive⟩ := Option.map_eq_some_iff.mp hrun
  obtain ⟨hp,hchecked⟩ := eachAfter_of_runWhere hp
  refine ⟨p,hp,hlive,(alternates_iff_allFresh hp).mpr ?_⟩
  intro before a after has q hq
  exact of_decide_eq_true (hchecked before a after has q hq)

/-- The first handle is shut down again while the runtime of the second is live: the latter loses
BTstack and `RUNTIME_ACTIVE` under its running loop. -/
theorem secondShutdown_takesOver : ∃ p,
    lifecycle.run {} (startRun 0 ++
      Action.on 0 [.exit false,.call .shutdown,.go,.go,.go,.go,.go,.go] ++ startRun 1 ++
      Action.on 0 [.call .shutdown,.go,.go,.go,.go,.go]) = some p ∧
    p.runtimeActive = false ∧ p.handles[1]? = some ⟨.idle,true,.running⟩ ∧
    .deactivated 1 ∉ p.log ∧ ¬Alternates p := by
  have hrun : (lifecycle.run {} (startRun 0 ++
      Action.on 0 [.exit false,.call .shutdown,.go,.go,.go,.go,.go,.go] ++ startRun 1 ++
        Action.on 0 [.call .shutdown,.go,.go,.go,.go,.go])).map
      (fun p => (p.runtimeActive,p.handles[1]?,decide (.deactivated 1 ∈ p.log))) =
      some (false,some ⟨.idle,true,.running⟩,false) := rfl
  have hbefore : (lifecycle.run {} (startRun 0 ++
      Action.on 0 [.exit false,.call .shutdown,.go,.go,.go,.go,.go,.go] ++ startRun 1)).map
      (fun q => decide (q.Fresh (.own 0 (.call .shutdown)))) = some false := rfl
  obtain ⟨p,hp,hvalues⟩ := Option.map_eq_some_iff.mp hrun
  obtain ⟨q,hq,hstale⟩ := Option.map_eq_some_iff.mp hbefore
  simp only [Prod.mk.injEq,decide_eq_false_iff_not] at hvalues
  obtain ⟨hactive,hhandle,hkept⟩ := hvalues
  refine ⟨p,hp,hactive,hhandle,hkept,fun halternates => ?_⟩
  have hfresh := allFresh_of_inPlace hp halternates.in_place _ (.own 0 (.call .shutdown))
    (Action.on 0 [.go,.go,.go,.go,.go]) rfl q hq
  exact of_decide_eq_false hstale hfresh

end BtstackRs.Gatt
