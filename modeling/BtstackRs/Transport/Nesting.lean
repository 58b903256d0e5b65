import BtstackRs.Transport.Workers

/-!
# Call stacks

A worker thread calls nothing but `emit_packet`, so that this call is the outermost of its stack;
`transport_open` makes the remaining one. Whatever is above such a call was called by the handler.
A worker whose loop has returned is therefore in no call at all.
-/

namespace BtstackRs.Transport

open Concurrent

def Role.site : Role → Option EmitSite
  | .client => none
  | .reader kind l => some (.reader kind l)
  | .writer l => some (.writer l)

/-- Where a frame can stand on the stack of a thread with this role. -/
def Frame.Sits (role : Role) (f : Frame) (rest : List Frame) : Prop :=
  match f.site with
  | none => rest = [] → role = .client
  | some .usbInfo => ∃ endpoints rest', rest = .openCreate endpoints :: rest'
  | some site => rest = [] ∧ role.site = some site

def WellNested (σ : System) : Prop :=
  ∀ (t : Nat) th, σ.threads[t]? = some th → Pool.Nested (Frame.Sits th.role) th.stack

theorem Frame.Sits.of_site_eq {role : Role} {f g : Frame} {rest : List Frame}
    (h : f.Sits role rest) (hsite : g.site = f.site) : g.Sits role rest := by
  unfold Sits at h ⊢
  rwa [hsite]

private theorem move_nested {σ : System} {t : Nat} {c : Choice} {role : Role} {rest : List Frame}
    {d : Delta} (h : Move σ t c role rest d)
    (hσ : Pool.Nested (Frame.Sits role) (d.top ++ rest)) :
    Pool.Nested (Frame.Sits role) (d.top' ++ rest) := by
  have hrest : Pool.Nested (Frame.Sits role) rest := hσ.of_append
  -- A frame that takes the place of another one belongs to the same function.
  have hreplace : ∀ {f g : Frame}, d.top = [f] → g.site = f.site →
      Pool.Nested (Frame.Sits role) ([g] ++ rest) := by
    intro f g htop hsite
    rw [htop] at hσ
    exact ⟨hσ.1.of_site_eq hsite,hrest⟩
  cases h with
  | lock s hfree => exact hreplace rfl rfl
  | sectionGoto s state g hsection => cases hsection <;> exact hreplace rfl rfl
  | spawn l pc => cases pc <;> exact hreplace rfl rfl
  | openingClaim pc endpoints packet =>
    have hopen : Pool.Nested (Frame.Sits role) ([.openCreate endpoints] ++ rest) := hreplace rfl rfl
    exact ⟨⟨endpoints,rest,rfl⟩,hopen⟩
  | call op s hchoice hcan henters =>
    refine ⟨?_,hrest⟩
    have hsite : s.site = none := by cases henters <;> rfl
    cases hcan with
    | client => simp [Frame.Sits,Frame.site,hsite]
    | handler site packetType packet rest => simp [Frame.Sits,Frame.site,hsite]
  | readerDeliver kind l link r data hrole hrest' hlink hreader hdata =>
    subst hrole hrest'
    exact ⟨⟨rfl,rfl⟩,trivial⟩
  | writerAcknowledge l link link' hrole hrest' hlink hwriter hack =>
    subst hrole hrest'
    exact ⟨⟨rfl,rfl⟩,trivial⟩
  | sectionRet | openingFail | joinWriter | sendRet | leave | callRet | reader | writer =>
    exact hrest
  | _ => exact hreplace rfl rfl

theorem wellNested_moves {σ σ' : System} {a : Action} (hσ : WellNested σ) (h : Moves σ a σ') :
    WellNested σ' := by
  obtain ⟨th,rest,d,hthread,hstack,hmove⟩ := h
  intro t th' hth'
  obtain ⟨rfl,th₀,hth₀,rfl⟩ | ⟨_,hold⟩ | ⟨_,hempty,_⟩ := getElem?_apply_cases hth'
  · rw [hthread] at hth₀
    cases hth₀
    have hnested := hσ a.thread th hthread
    rw [hstack] at hnested
    exact move_nested hmove hnested
  · exact hσ t th' hold
  · rw [hempty]
    trivial

theorem Reachable.wellNested {σ : System} (h : Reachable σ) : WellNested σ := by
  apply h.invariant
  · intro clients handler t th hth
    rw [(initial_thread hth).2]
    trivial
  · exact fun σ a σ' _ hσ hmoves => wellNested_moves hσ hmoves

/-- The outermost call of a worker is the one of its loop. -/
theorem Reachable.outermost {σ : System} (h : Reachable σ) {t : Nat} {th : Thread Role Frame}
    (hthread : σ.threads[t]? = some th) (hrole : th.role ≠ .client) :
    th.stack = [] ∨ ∃ f ∈ th.stack, f.site = th.role.site := by
  have hnested := h.wellNested t th hthread
  rcases List.eq_nil_or_concat th.stack with hempty | ⟨front,f,hstack⟩
  · exact .inl hempty
  · have hsits : f.Sits th.role [] := by
      rw [hstack,List.concat_eq_append] at hnested
      have hlast : Pool.Nested (Frame.Sits th.role) [f] := hnested.of_append
      exact hlast.1
    refine .inr ⟨f,by simp [hstack],?_⟩
    unfold Frame.Sits at hsits
    split at hsits
    · exact absurd (hsits rfl) hrole
    · obtain ⟨endpoints,rest',hnil⟩ := hsits
      cases hnil
    · rename_i site _ hsite
      rw [hsite,hsits.2]

theorem Reachable.role_of_site {σ : System} (h : Reachable σ) {t : Nat} {th : Thread Role Frame}
    (hthread : σ.threads[t]? = some th) {f : Frame} (hf : f ∈ th.stack) {site : EmitSite}
    (hsite : f.site = some site) (hworker : site ≠ .usbInfo) : th.role.site = some site := by
  obtain ⟨front,rest,_,hsits⟩ := (h.wellNested t th hthread).exists_below hf
  unfold Frame.Sits at hsits
  split at hsits
  · rename_i hnone
    rw [hsite] at hnone
    cases hnone
  · rename_i husb
    rw [hsite] at husb
    cases husb
    exact absurd rfl hworker
  · rename_i site' _ hsite'
    rw [hsite] at hsite'
    cases hsite'
    exact hsits.2

theorem LinkMove.reader_exited {alive : Bool} {link link' : Link} {kind : ReaderKind}
    (h : LinkMove alive link link') (hexited : (link.reader kind).pc = .exited) :
    (link'.reader kind).pc = .exited := by
  cases h with
  | same => exact hexited
  | stop => cases kind <;> exact hexited
  | send t call handles spurious pc _ next hsend => rw [sendStep_reader hsend,hexited]
  | reader kind' poll r hreader =>
    have hne : kind ≠ kind' := by
      rintro rfl
      simp [readerStep,hexited] at hreader
    rw [link.reader_setReader_ne hne,hexited]
  | writer control poll _ hwriter => rw [writerStep_reader hwriter,hexited]
  | resumeReader kind' =>
    by_cases hkind : kind = kind'
    · subst hkind
      simp [Reader.resume,hexited]
    · rw [link.reader_setReader_ne hkind,hexited]
  | resumeWriter => cases kind <;> exact hexited

theorem LinkMove.writer_exited {alive : Bool} {link link' : Link}
    (h : LinkMove alive link link') (hexited : link.writer.pc = .exited) :
    link'.writer.pc = .exited := by
  cases h with
  | same | stop => exact hexited
  | send t call handles spurious pc _ next hsend => rw [sendStep_writer hsend,hexited]
  | reader kind poll r hreader => simpa using hexited
  | writer control poll _ hwriter => simp [writerStep,hexited] at hwriter
  | resumeReader kind => simpa using hexited
  | resumeWriter => simp [Writer.resume,hexited]

private theorem exited_of_finished {σ : System} {w : Nat} {th : Thread Role Frame}
    (hthread : σ.threads[w]? = some th) (h : σ.finished w = true) :
    ∃ l link, σ.links[l]? = some link ∧
      ((∃ kind, th.role = .reader kind l ∧ (link.reader kind).pc = .exited) ∨
        (th.role = .writer l ∧ link.writer.pc = .exited)) := by
  simp only [System.finished,hthread] at h
  split at h
  · cases h
  · rename_i kind l hrole
    obtain ⟨link,hlink,hpc⟩ := (Option.any_eq_true _ _).mp h
    exact ⟨l,link,hlink,.inl ⟨kind,hrole,by simpa using hpc⟩⟩
  · rename_i l hrole
    obtain ⟨link,hlink,hpc⟩ := (Option.any_eq_true _ _).mp h
    exact ⟨l,link,hlink,.inr ⟨hrole,by simpa using hpc⟩⟩

theorem Reachable.finished_stack {σ : System} (h : Reachable σ) {w : Nat}
    {th : Thread Role Frame} (hthread : σ.threads[w]? = some th) (hfinished : σ.finished w = true) :
    th.stack = [] := by
  obtain ⟨l,link,hlink,hexited⟩ := exited_of_finished hthread hfinished
  obtain ⟨site,hsite,hworker,hnone⟩ : ∃ site, th.role.site = some site ∧ site ≠ .usbInfo ∧
      emitting σ.links site = 0 := by
    obtain ⟨kind,hrole,hpc⟩ | ⟨hrole,hpc⟩ := hexited
    · refine ⟨.reader kind l,by rw [hrole]; rfl,by simp,?_⟩
      rw [emitting_of_link rfl hlink]
      simp [Link.emitting,hpc,ReaderPc.emitting]
    · refine ⟨.writer l,by rw [hrole]; rfl,by simp,?_⟩
      rw [emitting_of_link rfl hlink]
      simp [Link.emitting,hpc,WriterPc.emitting]
  have hrole : th.role ≠ .client := by
    intro hclient
    rw [hclient] at hsite
    cases hsite
  rcases h.outermost hthread hrole with hempty | ⟨f,hf,hfsite⟩
  · exact hempty
  · have hle := Pool.le_total (Frame.emits site) hthread hf
    rw [h.total_emits hworker,hnone,Frame.emits,if_pos (by rw [hfsite,hsite])] at hle
    omega

theorem finished_moves {σ σ' : System} {a : Action} (h : Moves σ a σ') {w : Nat}
    (hfinished : σ.finished w = true) : σ'.finished w = true := by
  obtain ⟨th,rest,d,hthread,_,hmove⟩ := h
  cases hw : σ.threads[w]? with
  | none => simp [System.finished,hw] at hfinished
  | some thw =>
    obtain ⟨th',hth',hrole'⟩ := hasRole_apply rest d hthread ⟨thw,hw,rfl⟩
    obtain ⟨l,link,hlink,hexited⟩ := exited_of_finished hw hfinished
    obtain ⟨link',hlink',hlinkMove,_⟩ := hmove.linkMove hlink
    have hlink'' : (σ.apply a.thread rest d).links[l]? = some link' := hlink'
    obtain ⟨kind,hrole,hpc⟩ | ⟨hrole,hpc⟩ := hexited
    · have hpc' := hlinkMove.reader_exited hpc
      simp [System.finished,hth',hrole',hrole,hlink'',hpc']
    · have hpc' := hlinkMove.writer_exited hpc
      simp [System.finished,hth',hrole',hrole,hlink'',hpc']

theorem Reachable.finished_blocked {σ : System} (h : Reachable σ) {w : Nat}
    (hfinished : σ.finished w = true) (c : Choice) : machine.step σ ⟨w,c⟩ = none := by
  cases hthread : σ.threads[w]? with
  | none => simp [machine,System.step,hthread]
  | some th =>
    have hempty := h.finished_stack hthread hfinished
    obtain ⟨l,link,hlink,hexited⟩ := exited_of_finished hthread hfinished
    obtain ⟨kind,hrole,hpc⟩ | ⟨hrole,hpc⟩ := hexited
    · simp [machine,System.step,hthread,hempty,hrole,System.idleStep,hlink,readerStep,hpc]
    · simp [machine,System.step,hthread,hempty,hrole,System.idleStep,hlink,writerStep,hpc]

end BtstackRs.Transport
