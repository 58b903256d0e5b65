import BtstackRs.Transport.Scope

/-!
# The owner of a link

The record of a link passes from the `transport_open` that created it to `STATE`, and from there
to at most one `transport_close`. Until that one stores the stop flag, the record has a sender,
and the three loops of the link keep running.
-/

namespace BtstackRs.Transport

open Concurrent

def Section.owns (l : Nat) : Section → Nat
  | .openStore active => if active.link = l then 1 else 0
  | _ => 0

def Frame.owns (l : Nat) : Frame → Nat
  | .lock s | .locked s => s.owns l
  | .openSpawn l' _ => if l' = l then 1 else 0
  | .closeStop active => if active.link = l then 1 else 0
  | _ => 0

def TransportState.owns (l : Nat) (state : TransportState) : Nat :=
  match state.active with
  | none => 0
  | some active => if active.link = l then 1 else 0

def System.owners (σ : System) (l : Nat) : Nat :=
  Pool.total (Frame.owns l) σ.threads + σ.state.owns l

def Frame.stops (l : Nat) : Frame → Nat
  | .closeStop active => if active.link = l then 1 else 0
  | _ => 0

theorem Frame.owns_le_mentions (l : Nat) (f : Frame) : f.owns l ≤ f.mentions l := by
  cases f with
  | lock s | locked s =>
    cases s with
    | openStore active => exact Nat.le_refl _
    | _ => exact Nat.zero_le _
  | openSpawn l' pc => exact Nat.le_refl _
  | closeStop active => exact Nat.le_refl _
  | _ => exact Nat.zero_le _

theorem TransportState.owns_of_active {state : TransportState} {active : ActiveTransport}
    (h : state.active = some active) : state.owns active.link = 1 := by
  simp [owns,h]

private theorem move_owns {σ : System} {t : Nat} {c : Choice} {role : Role} {rest : List Frame}
    {d : Delta} (h : Move σ t c role rest d) {l : Nat} (hl : l < σ.links.length) :
    Pool.stackWeight (Frame.owns l) d.top' + d.state.owns l +
        Pool.stackWeight (Frame.stops l) d.top ≤
      Pool.stackWeight (Frame.owns l) d.top + σ.state.owns l := by
  cases h with
  | sectionGoto s state g hsection =>
    cases hsection with
    | closeTake active hactive =>
      simp [Frame.owns,Frame.stops,Section.owns,TransportState.owns,hactive]
    | _ => simp [Frame.owns,Frame.stops,Section.owns]
  | sectionRet s state result hsection =>
    cases hsection with
    | openStore active => simp [Frame.owns,Frame.stops,Section.owns,TransportState.owns]
    | _ => simp [Frame.owns,Frame.stops,Section.owns,TransportState.owns]
  | create endpoints =>
    have hne : σ.links.length ≠ l := by omega
    simp [Frame.owns,Frame.stops,hne]
  | spawn l' pc => cases pc <;> simp [Frame.owns,Frame.stops,Section.owns,SpawnPc.after]
  | stop active link hlink => simp [Frame.owns,Frame.stops,Nat.add_comm]
  | call op s hchoice hcan henters =>
    cases henters <;> simp [Frame.owns,Section.owns]
  | openingClaim pc endpoints packet => simp [Frame.owns,Frame.stops,Section.owns]
  | readerDeliver kind l' link r data hrole hrest hlink hreader hdata =>
    simp [Frame.owns,Section.owns]
  | writerAcknowledge l' link link' hrole hrest hlink hwriter hack =>
    simp [Frame.owns,Section.owns]
  | _ => simp [Frame.owns,Frame.stops]

structure Link.Running (link : Link) : Prop where
  not_stopped : link.stop = false
  writer_runs : link.writer.pc ≠ .exited
  readers_stream : ∀ kind, (link.reader kind).Streaming kind

theorem Link.Running.fresh (endpoints : EndpointConfig) :
    Link.Running { endpoints := endpoints } where
  not_stopped := rfl
  writer_runs := by simp
  readers_stream kind := by cases kind <;> simp [Link.reader,Reader.Streaming]

theorem writerStep_not_exited {control : Status} {poll : Option (Nat × Status)}
    {link link' : Link} (hstop : link.stop = false)
    (h : writerStep true control poll link = some link') : link'.writer.pc ≠ .exited := by
  cases writerStep_cases h with
  | disconnected hpc hempty halive => cases halive
  | leave hpc hempty hset =>
    rw [hstop] at hset
    cases hset
  | release status hpc => exact afterRelease_ne_exited status
  | _ => simp

theorem Link.Running.linkMove {link link' : Link} (hlink : link.Running)
    (h : LinkMove true link link') (hstop : link'.stop = false) : link'.Running := by
  refine ⟨hstop,?_,?_⟩
  · cases h with
    | send t call handles spurious pc _ next hsend =>
      rw [sendStep_writer hsend]
      exact hlink.writer_runs
    | writer control poll _ hwriter => exact writerStep_not_exited hlink.not_stopped hwriter
    | resumeWriter =>
      cases hpc : link.writer.pc <;> simp_all [Writer.resume,hlink.writer_runs]
    | reader kind poll r hreader => simpa using hlink.writer_runs
    | resumeReader kind => simpa using hlink.writer_runs
    | same | stop => exact hlink.writer_runs
  · intro kind
    cases h with
    | send t call handles spurious pc _ next hsend =>
      rw [sendStep_reader hsend]
      exact hlink.readers_stream kind
    | writer control poll _ hwriter =>
      rw [writerStep_reader hwriter]
      exact hlink.readers_stream kind
    | reader kind' poll r hreader =>
      rw [hlink.not_stopped] at hreader
      by_cases hkind : kind = kind'
      · subst hkind
        rw [Link.reader_setReader]
        exact readerStep_streaming (hlink.readers_stream kind) (fun _ _ => rfl) hreader
      · rw [link.reader_setReader_ne hkind]
        exact hlink.readers_stream kind
    | resumeReader kind' =>
      by_cases hkind : kind = kind'
      · subst hkind
        rw [Link.reader_setReader]
        exact (hlink.readers_stream kind).resume
      · rw [link.reader_setReader_ne hkind]
        exact hlink.readers_stream kind
    | resumeWriter | stop =>
      have hkept := hlink.readers_stream kind
      cases kind <;> exact hkept
    | same => exact hlink.readers_stream kind

structure Owned (σ : System) : Prop where
  owners_le_one : ∀ l, σ.owners l ≤ 1
  running : ∀ (l : Nat) link, σ.links[l]? = some link → σ.owners l = 1 → link.Running

theorem of_ite_pos {p : Prop} [Decidable p] (h : 0 < if p then 1 else 0) : p := by
  by_contra hp
  simp [hp] at h

theorem holdsSender_of_owns {l : Nat} {f : Frame} (h : 0 < f.owns l) :
    f.holdsSender l = true := by
  cases f with
  | lock s | locked s =>
    cases s with
    | openStore active => simpa [Frame.holdsSender] using of_ite_pos h
    | _ => cases h
  | openSpawn l' pc => simpa [Frame.holdsSender] using of_ite_pos h
  | closeStop active => simpa [Frame.holdsSender] using of_ite_pos h
  | _ => cases h

theorem senderAlive_of_total {σ : System} {l : Nat} {w : Frame → Nat}
    (hw : ∀ f, 0 < w f → f.holdsSender l = true)
    (h : 0 < Pool.total w σ.threads + σ.state.owns l) : σ.senderAlive l = true := by
  unfold System.senderAlive
  by_cases hframes : 0 < Pool.total w σ.threads
  · obtain ⟨th,hth,f,hf,hpos⟩ := Pool.exists_of_total_pos hframes
    have hany : (σ.threads.any fun th => th.stack.any (Frame.holdsSender l)) = true :=
      List.any_eq_true.mpr ⟨th,hth,List.any_eq_true.mpr ⟨f,hf,hw f hpos⟩⟩
    simp [hany]
  · have hstate : 0 < σ.state.owns l := by omega
    unfold TransportState.owns at hstate
    split at hstate
    · omega
    · rename_i active hactive
      simp [hactive,of_ite_pos hstate]

theorem senderAlive_of_owners {σ : System} {l : Nat} (h : 0 < σ.owners l) :
    σ.senderAlive l = true :=
  senderAlive_of_total (fun _ => holdsSender_of_owns) h

private theorem owners_of_length_le {σ : System} (h : WellScoped σ) {l : Nat}
    (hl : σ.links.length ≤ l) : σ.owners l = 0 := by
  have hframes := h.frames l hl
  have hmono := Pool.total_mono (Frame.owns_le_mentions l) σ.threads
  have hstate : σ.state.owns l = 0 := by
    unfold TransportState.owns
    split
    · rfl
    · rename_i active hactive
      have hlt := h.active active hactive
      exact if_neg (by omega)
  unfold System.owners
  omega

private theorem owners_apply {σ : System} {t : Nat} {th : Thread Role Frame} {rest : List Frame}
    {d : Delta} (hthread : σ.threads[t]? = some th) (hstack : th.stack = d.top ++ rest) (l : Nat) :
    (σ.apply t rest d).owners l + Pool.stackWeight (Frame.owns l) d.top + σ.state.owns l =
      σ.owners l + Pool.stackWeight (Frame.owns l) d.top' + d.state.owns l := by
  have hsum := total_apply (Frame.owns l) hthread hstack
  have howners : (σ.apply t rest d).owners l =
      Pool.total (Frame.owns l) (σ.apply t rest d).threads + d.state.owns l := rfl
  unfold System.owners at howners ⊢
  omega

theorem owned_moves {σ σ' : System} {a : Action} (hscoped : WellScoped σ)
    (hscoped' : WellScoped σ') (hσ : Owned σ) (h : Moves σ a σ') : Owned σ' := by
  obtain ⟨th,rest,d,hthread,hstack,hmove⟩ := h
  have hold : ∀ {l}, l < σ.links.length → (σ.apply a.thread rest d).owners l +
      Pool.stackWeight (Frame.stops l) d.top ≤ σ.owners l := by
    intro l hl
    have happly := owners_apply hthread hstack l
    have howns := move_owns hmove hl
    omega
  have hfresh : ∀ {l link'}, σ.links.length ≤ l → d.links[l]? = some link' →
      (σ.apply a.thread rest d).owners l ≤ 1 ∧ link'.Running := by
    intro l link' hl hlink'
    obtain ⟨endpoints,rfl,htop,htop',hstate⟩ := hmove.fresh_link hl hlink'
    have happly := owners_apply hthread hstack l
    have hnone := owners_of_length_le hscoped hl
    refine ⟨?_,.fresh endpoints⟩
    simp only [htop,htop',hstate,Pool.stackWeight_cons,Pool.stackWeight_nil,Frame.owns,
      if_true] at happly
    omega
  constructor
  · intro l
    by_cases hl : l < σ.links.length
    · have hle := hσ.owners_le_one l
      have hlt := hold hl
      omega
    · by_cases hl' : l < d.links.length
      · exact (hfresh (Nat.not_lt.mp hl) (List.getElem?_eq_getElem hl')).1
      · rw [owners_of_length_le hscoped' (Nat.not_lt.mp hl')]
        exact Nat.zero_le 1
  · intro l link' hlink' howner
    by_cases hl : l < σ.links.length
    · have hlt := hold hl
      have hle := hσ.owners_le_one l
      have hlink := List.getElem?_eq_getElem hl
      have hrunning := hσ.running l _ hlink (by omega)
      obtain ⟨link₁,hlink₁,hlinkMove,hstop⟩ := hmove.linkMove hlink
      rw [show d.links[l]? = some link' from hlink'] at hlink₁
      cases hlink₁
      rw [senderAlive_of_owners (by omega)] at hlinkMove
      apply hrunning.linkMove hlinkMove
      obtain hstop | ⟨active,hactive,htop⟩ := hstop
      · rw [hstop]
        exact hrunning.not_stopped
      · simp [htop,Frame.stops,hactive] at hlt
        omega
    · exact (hfresh (Nat.not_lt.mp hl) hlink').2

theorem Reachable.owned {σ : System} (h : Reachable σ) : Owned σ := by
  apply h.invariant
  · intro clients handler
    constructor
    · intro l
      rw [System.owners,total_initial]
      exact Nat.zero_le 1
    · intro l link hlink
      simp [System.initial] at hlink
  · intro σ a σ' hreach hσ hmoves
    exact owned_moves hreach.wellScoped (wellScoped_moves hreach.wellScoped hmoves) hσ hmoves

/-- The link of the record in `STATE` is running. -/
theorem Reachable.active_running {σ : System} (h : Reachable σ) {active : ActiveTransport}
    (hactive : σ.state.active = some active) {link : Link}
    (hlink : σ.links[active.link]? = some link) : link.Running := by
  have howns := TransportState.owns_of_active hactive
  have hle := h.owned.owners_le_one active.link
  refine h.owned.running active.link link hlink ?_
  unfold System.owners at hle ⊢
  omega

end BtstackRs.Transport
