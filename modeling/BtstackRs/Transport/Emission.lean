import BtstackRs.Transport.Scope

/-!
# Deliveries

A worker loop that calls `emit_packet` waits in it until it returns. The frames of `emit_packet`
are therefore counted by the program counters of the loops: one for a loop that is in the call,
none for the others.
-/

namespace BtstackRs.Transport

open Concurrent

def ReaderPc.emitting : ReaderPc → Nat
  | .delivering _ => 1
  | _ => 0

def WriterPc.emitting : WriterPc → Nat
  | .acknowledging => 1
  | _ => 0

def EmitSite.link : EmitSite → Option Nat
  | .reader _ l | .writer l => some l
  | .usbInfo => none

def Link.emitting (link : Link) : EmitSite → Nat
  | .reader kind _ => (link.reader kind).pc.emitting
  | .writer _ => link.writer.pc.emitting
  | .usbInfo => 0

def emitting (links : List Link) (site : EmitSite) : Nat :=
  match site.link with
  | none => 0
  | some l => linkValue (·.emitting site) links l

theorem emitting_of_link {links : List Link} {site : EmitSite} {l : Nat} {link : Link}
    (hsite : site.link = some l) (hlink : links[l]? = some link) :
    emitting links site = link.emitting site := by
  simp [emitting,hsite,linkValue_of_getElem? hlink]

theorem Link.emitting_le_one (link : Link) (site : EmitSite) : link.emitting site ≤ 1 := by
  cases site with
  | reader kind l =>
    cases h : (link.reader kind).pc <;> simp [emitting,h,ReaderPc.emitting]
  | writer l => cases h : link.writer.pc <;> simp [emitting,h,WriterPc.emitting]
  | usbInfo => simp [emitting]

theorem emitting_set {links : List Link} {l : Nat} {link : Link} (link' : Link)
    (hlink : links[l]? = some link) (site : EmitSite) :
    emitting (links.set l link') site + (if site.link = some l then link.emitting site else 0) =
      emitting links site + (if site.link = some l then link'.emitting site else 0) := by
  unfold emitting
  cases site.link with
  | none => simp
  | some l' => simpa using linkValue_set (·.emitting site) link' hlink l'

theorem emitting_set_eq {links : List Link} {l : Nat} {link link' : Link}
    (hlink : links[l]? = some link) (site : EmitSite)
    (h : site.link = some l → link'.emitting site = link.emitting site) :
    emitting (links.set l link') site = emitting links site := by
  unfold emitting
  cases hl : site.link with
  | none => rfl
  | some l' => exact linkValue_set_eq hlink l' (fun heq => h (by rw [hl,heq]))

theorem emitting_append (links : List Link) (endpoints : EndpointConfig) (site : EmitSite) :
    emitting (links ++ [{ endpoints := endpoints }]) site = emitting links site := by
  unfold emitting
  split
  · rfl
  · apply linkValue_append
    cases site with
    | reader kind l => cases kind <;> rfl
    | _ => rfl

theorem writerStep_not_emitting {alive : Bool} {control : Status} {poll : Option (Nat × Status)}
    {link link' : Link} (h : writerStep alive control poll link = some link') :
    link.writer.pc.emitting = 0 := by
  cases hpc : link.writer.pc <;> first | rfl | simp [writerStep,hpc] at h

theorem readerStep_not_emitting {kind : ReaderKind} {stop : Bool} {poll : Option Completion}
    {r r' : Reader} (h : readerStep kind stop poll r = some r') : r.pc.emitting = 0 := by
  cases hpc : r.pc <;> first | rfl | simp [readerStep,hpc] at h

theorem emitting_setReader {links : List Link} {l : Nat} {link : Link} {kind : ReaderKind}
    {r : Reader} (hlink : links[l]? = some link) (hold : (link.reader kind).pc.emitting = 0)
    (site : EmitSite) :
    emitting (links.set l (link.setReader kind r)) site =
      emitting links site + if site = .reader kind l then r.pc.emitting else 0 := by
  by_cases hsite : site = .reader kind l
  · subst hsite
    have hset := emitting_set (link.setReader kind r) hlink (.reader kind l)
    simpa [EmitSite.link,Link.emitting,hold] using hset
  · rw [if_neg hsite]
    apply emitting_set_eq hlink
    intro hl
    cases site with
    | reader kind' l' =>
      obtain rfl : l' = l := by simpa [EmitSite.link] using hl
      have hkind : kind' ≠ kind := fun h => hsite (by rw [h])
      simp only [Link.emitting,link.reader_setReader_ne hkind]
    | writer l' => simp [Link.emitting]
    | usbInfo => rfl

theorem emitting_setWriter {links : List Link} {l : Nat} {link link' : Link}
    (hlink : links[l]? = some link) (hreader : ∀ kind, link'.reader kind = link.reader kind)
    (hold : link.writer.pc.emitting = 0) (site : EmitSite) :
    emitting (links.set l link') site =
      emitting links site + if site = .writer l then link'.writer.pc.emitting else 0 := by
  by_cases hsite : site = .writer l
  · subst hsite
    have hset := emitting_set link' hlink (.writer l)
    simpa [EmitSite.link,Link.emitting,hold] using hset
  · rw [if_neg hsite]
    apply emitting_set_eq hlink
    intro hl
    cases site with
    | reader kind l' => simp only [Link.emitting,hreader kind]
    | writer l' =>
      obtain rfl : l' = l := by simpa [EmitSite.link] using hl
      exact absurd rfl hsite
    | usbInfo => rfl

theorem Reader.resume_emitting (r : Reader) : r.resume.pc.emitting = 0 := by
  cases hpc : r.pc <;> simp [resume,hpc,ReaderPc.emitting]

theorem Writer.resume_emitting (w : Writer) : w.resume.pc.emitting = 0 := by
  cases hpc : w.pc <;> simp [resume,hpc,WriterPc.emitting]

private theorem emitting_resumed {link link' : Link} {site caller : EmitSite}
    (hother : site ≠ caller → link'.emitting site = link.emitting site)
    (hcaller : link'.emitting caller = 0)
    (h : (if some caller = some site then 1 else 0) ≤ link.emitting site) :
    link'.emitting site + (if some caller = some site then 1 else 0) = link.emitting site := by
  by_cases hsite : site = caller
  · subst hsite
    have hle := link.emitting_le_one site
    simp only [if_true] at h ⊢
    omega
  · simp [Ne.symm hsite,hother hsite]

theorem Reader.emitting_eq (r : Reader) :
    r.pc.emitting = if r.delivery.isSome then 1 else 0 := by
  cases hpc : r.pc <;> simp [delivery,hpc,ReaderPc.emitting]

theorem WriterPc.emitting_eq (pc : WriterPc) :
    pc.emitting = if pc = .acknowledging then 1 else 0 := by
  cases pc <;> rfl

theorem sendStep_emitting {t : Nat} {call : SendCall} {handles : SendHandles} {spurious : Bool}
    {pc : SendPc call} {link link' : Link} {next : SendNext call}
    (h : sendStep t call handles spurious pc link = (link',next)) (site : EmitSite) :
    link'.emitting site = link.emitting site := by
  cases site <;> simp [Link.emitting,sendStep_reader h,sendStep_writer h]

theorem emitting_resumeSite {site : EmitSite} {caller : Option EmitSite} {links : List Link}
    (h : (if caller = some site then 1 else 0) ≤ emitting links site) :
    emitting (resumeSite caller links) site + (if caller = some site then 1 else 0) =
      emitting links site := by
  cases hl : site.link with
  | none =>
    have hzero : ∀ links, emitting links site = 0 := fun links => by simp [emitting,hl]
    rw [hzero] at h ⊢
    rw [hzero]
    omega
  | some l =>
    cases hlink' : (resumeSite caller links)[l]? with
    | none =>
      have hlink : links[l]? = none := by
        rw [List.getElem?_eq_none_iff] at hlink' ⊢
        rwa [resumeSite_length] at hlink'
      simp only [emitting,hl,linkValue,hlink,hlink',Option.elim_none] at h ⊢
      omega
    | some link' =>
      obtain ⟨link,hlink,hcases⟩ := getElem?_resumeSite hlink'
      rw [emitting_of_link hl hlink] at h ⊢
      rw [emitting_of_link hl hlink']
      obtain ⟨rfl,hreader,hwriter⟩ | ⟨kind,rfl,rfl⟩ | ⟨rfl,rfl⟩ := hcases
      · have hne : caller ≠ some site := by
          cases site with
          | reader kind l' =>
            obtain rfl : l' = l := by simpa [EmitSite.link] using hl
            exact hreader kind
          | writer l' =>
            obtain rfl : l' = l := by simpa [EmitSite.link] using hl
            exact hwriter
          | usbInfo => cases hl
        rw [if_neg hne]
        rfl
      · apply emitting_resumed _ _ h
        · intro hne
          cases site with
          | reader kind' l' =>
            obtain rfl : l' = l := by simpa [EmitSite.link] using hl
            have hkind : kind' ≠ kind := fun hkind => hne (by rw [hkind])
            simp only [Link.emitting,link.reader_setReader_ne hkind]
          | writer l' => simp [Link.emitting]
          | usbInfo => rfl
        · simp [Link.emitting,Reader.resume_emitting]
      · apply emitting_resumed _ _ h
        · intro hne
          cases site with
          | reader kind' l' => cases kind' <;> rfl
          | writer l' =>
            obtain rfl : l' = l := by simpa [EmitSite.link] using hl
            exact absurd rfl hne
          | usbInfo => rfl
        · exact Writer.resume_emitting _

def Frame.emits (site : EmitSite) (f : Frame) : Nat := if f.site = some site then 1 else 0

@[simp] theorem Frame.emits_lock (site : EmitSite) (s : Section) :
    (Frame.lock s).emits site = if s.site = some site then 1 else 0 := rfl

@[simp] theorem Frame.emits_locked (site : EmitSite) (s : Section) :
    (Frame.locked s).emits site = if s.site = some site then 1 else 0 := rfl

@[simp] theorem Frame.emits_emitRunning (site caller : EmitSite) (packetType : UInt8)
    (packet : Bytes) : (Frame.emitRunning caller packetType packet).emits site =
      if some caller = some site then 1 else 0 := rfl

private theorem move_emitting {σ : System} {t : Nat} {c : Choice} {role : Role}
    {rest : List Frame} {d : Delta} {site : EmitSite} (hsite : site ≠ .usbInfo)
    (h : Move σ t c role rest d)
    (hσ : Pool.stackWeight (Frame.emits site) d.top ≤ emitting σ.links site) :
    emitting d.links site + Pool.stackWeight (Frame.emits site) d.top =
      emitting σ.links site + Pool.stackWeight (Frame.emits site) d.top' := by
  cases h with
  | sectionGoto s state g hsection => cases hsection <;> rfl
  | sectionRet s state result hsection =>
    simp only [Pool.stackWeight_cons,Pool.stackWeight_nil,Frame.emits_locked,Nat.add_zero] at hσ ⊢
    exact emitting_resumeSite hσ
  | leave caller packetType packet =>
    simp only [Pool.stackWeight_cons,Pool.stackWeight_nil,Frame.emits_emitRunning,
      Nat.add_zero] at hσ ⊢
    exact emitting_resumeSite hσ
  | create endpoints => exact congrArg (· + 0) (emitting_append σ.links endpoints site)
  | spawn l pc => cases pc <;> rfl
  | stop active link hlink =>
    have hstop : site.link = some active.link →
        ({ link with stop := true } : Link).emitting site = link.emitting site := by
      intro _
      cases site <;> rfl
    exact congrArg (· + 0) (emitting_set_eq hlink site hstop)
  | sendGoto call handles pc pc' link link' hlink hsend =>
    have hsame := emitting_set_eq hlink site (fun _ => sendStep_emitting hsend site)
    exact congrArg (· + 0) hsame
  | sendRet call handles pc link link' result hlink hsend =>
    have hsame := emitting_set_eq hlink site (fun _ => sendStep_emitting hsend site)
    exact congrArg (· + 0) hsame
  | call op s hchoice hcan henters => cases henters <;> rfl
  | openingClaim pc endpoints packet =>
    have hne : (some EmitSite.usbInfo : Option EmitSite) ≠ some site := by simpa using hsite.symm
    simp [Frame.emits,Frame.site,Section.site,hne]
  | reader kind l link r hrole hrest hlink hreader hquiet =>
    have hset := emitting_setReader (r := r) hlink (readerStep_not_emitting hreader) site
    have hzero : r.pc.emitting = 0 := by rw [Reader.emitting_eq,hquiet]; rfl
    rw [hset,hzero,ite_self]
    rfl
  | readerDeliver kind l link r data hrole hrest hlink hreader hdata =>
    have hset := emitting_setReader (r := r) hlink (readerStep_not_emitting hreader) site
    have hone : r.pc.emitting = 1 := by rw [Reader.emitting_eq,hdata]; rfl
    simp only [hset,hone,Pool.stackWeight_cons,Pool.stackWeight_nil,Frame.emits_lock,Section.site,
      Option.some.injEq,@eq_comm _ site]
    omega
  | writer l link link' hrole hrest hlink hwriter hquiet =>
    have hset := emitting_setWriter hlink (writerStep_reader hwriter)
      (writerStep_not_emitting hwriter) site
    rw [hset,WriterPc.emitting_eq,if_neg hquiet,ite_self]
    rfl
  | writerAcknowledge l link link' hrole hrest hlink hwriter hack =>
    have hset := emitting_setWriter hlink (writerStep_reader hwriter)
      (writerStep_not_emitting hwriter) site
    rw [WriterPc.emitting_eq,if_pos hack] at hset
    simp only [hset,Pool.stackWeight_cons,Pool.stackWeight_nil,Frame.emits_lock,Section.site,
      Option.some.injEq,@eq_comm _ site]
    omega
  | _ => rfl

/-- The frames of `emit_packet` from a loop are exactly its program counter's: none, or one. -/
theorem Reachable.total_emits {σ : System} (h : Reachable σ) {site : EmitSite}
    (hsite : site ≠ .usbInfo) :
    Pool.total (Frame.emits site) σ.threads = emitting σ.links site := by
  apply h.invariant
  · intro clients handler
    rw [total_initial]
    unfold emitting
    split <;> rfl
  · rintro σ a _ _ hσ ⟨th,rest,d,hthread,hstack,hmove⟩
    have hsum := total_apply (Frame.emits site) hthread hstack
    have htop : Pool.stackWeight (Frame.emits site) d.top ≤ emitting σ.links site := by
      have hle := Pool.stackWeight_le_total (Frame.emits site) hthread
      rw [hstack,Pool.stackWeight_append,hσ] at hle
      omega
    have hlinks := move_emitting hsite hmove htop
    change _ = emitting d.links site
    omega

end BtstackRs.Transport
