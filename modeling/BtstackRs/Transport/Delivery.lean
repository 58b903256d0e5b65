import BtstackRs.Transport.Step

/-!
# What the readers deliver

A reader loop with a record of what came out of its queue and what went into `emit_packet`. The
flag has whatever value it has when the loop looks at it.
-/

namespace BtstackRs.Transport

open Concurrent

def Reader.received (r : Reader) : Option Completion :=
  match r.pc with
  | .completed completion => some completion
  | _ => none

structure Reading where
  reader : Reader := {}
  completions : List Completion := []
  emitted : List (UInt8 × Bytes) := []
  sawStop : Bool := false

structure ReaderInput where
  stop : Bool
  poll : Option Completion

def Reader.looksAtStop (r : Reader) : Bool :=
  match r.pc with
  | .delivered _ => true
  | _ => false

/-- One step of the loop, or the return of the `emit_packet` that it has called. -/
def readerLoop (kind : ReaderKind) : Machine Reading ReaderInput where
  step s a :=
    match s.reader.delivery with
    | some _ => some { s with reader := s.reader.resume }
    | none => (readerStep kind a.stop a.poll s.reader).map fun r =>
        { reader := r
          completions := s.completions ++ r.received.toList
          emitted := s.emitted ++ r.delivery.toList.map (fun data => (kind.packetType,data))
          sawStop := s.sawStop || (s.reader.looksAtStop && a.stop) }

/-- What has to be delivered of these completions. -/
def deliveries (kind : ReaderKind) (completions : List Completion) : List (UInt8 × Bytes) :=
  (completions.filter (fun c => c.status = .ok ∧ c.data ≠ [])).map
    (fun c => (kind.packetType,c.data))

/-- What was taken from the queue has been delivered, up to the completion in hand; before the
flag is seen no transfer is missing, and afterwards the queue is emptied. -/
structure Reading.Sound (kind : ReaderKind) (s : Reading) : Prop where
  delivered : ∃ handled, s.completions = handled ++ s.reader.received.toList ∧
    s.emitted = deliveries kind handled
  short : ∀ c ∈ s.completions, c.data.length ≤ kind.transferSize
  streaming : s.sawStop = false → s.reader.Streaming kind
  stopped : s.sawStop = true → s.reader.pc = .draining ∨
    (s.reader.pc = .head ∨ s.reader.pc = .exited) ∧ s.reader.pending = 0

theorem deliveries_append (kind : ReaderKind) (cs cs' : List Completion) :
    deliveries kind (cs ++ cs') = deliveries kind cs ++ deliveries kind cs' := by
  rw [deliveries,List.filter_append,List.map_append]
  rfl

inductive ReadingMove (kind : ReaderKind) (s : Reading) (a : ReaderInput) : Reading → Prop where
  | start (hpc : s.reader.pc = .start) : ReadingMove kind s a
      { s with reader := { s.reader with pc := .head, pending := kind.inFlight } }
  | leave (hpc : s.reader.pc = .head) (hpending : s.reader.pending = 0) :
      ReadingMove kind s a { s with reader := { s.reader with pc := .exited } }
  | idle (hpc : s.reader.pc = .head) (hpending : s.reader.pending ≠ 0) : ReadingMove kind s a s
  | take (hpc : s.reader.pc = .head) (hpending : s.reader.pending ≠ 0) (c : Completion)
      (hsize : c.data.length ≤ kind.transferSize) : ReadingMove kind s a
      { s with
        reader := { s.reader with pc := .completed c, pending := s.reader.pending-1 }
        completions := s.completions ++ [c] }
  | deliver (c : Completion) (hpc : s.reader.pc = .completed c)
      (hdata : c.status = .ok ∧ c.data ≠ []) : ReadingMove kind s a
      { s with
        reader := { s.reader with pc := .delivering c }
        emitted := s.emitted ++ [(kind.packetType,c.data)] }
  | skip (c : Completion) (hpc : s.reader.pc = .completed c)
      (hdata : ¬(c.status = .ok ∧ c.data ≠ [])) : ReadingMove kind s a
      { s with reader := { s.reader with pc := .delivered c } }
  | resume (c : Completion) (hpc : s.reader.pc = .delivering c) : ReadingMove kind s a
      { s with reader := { s.reader with pc := .delivered c } }
  | seeStop (c : Completion) (hpc : s.reader.pc = .delivered c) (hstop : a.stop = true) :
      ReadingMove kind s a
      { s with
        reader := { s.reader with pc := .draining, cancelled := true }
        sawStop := true }
  | submit (c : Completion) (hpc : s.reader.pc = .delivered c) (hstop : a.stop = false) :
      ReadingMove kind s a
      { s with reader := { s.reader with pc := .head, pending := s.reader.pending+1 } }
  | drain (hpc : s.reader.pc = .draining) (hpending : s.reader.pending ≠ 0) :
      ReadingMove kind s a { s with reader := { s.reader with pending := s.reader.pending-1 } }
  | drained (hpc : s.reader.pc = .draining) (hpending : s.reader.pending = 0) :
      ReadingMove kind s a { s with reader := { s.reader with pc := .head } }

private theorem ReadingMove.of_eq {kind : ReaderKind} {s t u : Reading} {a : ReaderInput}
    (h : ReadingMove kind s a u) (heq : some u = some t) : ReadingMove kind s a t := by
  cases heq
  exact h

theorem readerLoop_moves {kind : ReaderKind} {s t : Reading} {a : ReaderInput}
    (h : (readerLoop kind).step s a = some t) : ReadingMove kind s a t := by
  simp only [readerLoop] at h
  cases hdelivery : s.reader.delivery with
  | some data =>
    rw [hdelivery] at h
    have hpc : ∃ c, s.reader.pc = .delivering c := by
      rw [Reader.delivery] at hdelivery
      split at hdelivery
      · rename_i c hpc
        exact ⟨c,hpc⟩
      · cases hdelivery
    obtain ⟨c,hpc⟩ := hpc
    apply (ReadingMove.resume c hpc).of_eq
    rw [← h,Reader.resume,hpc]
  | none =>
    rw [hdelivery] at h
    obtain ⟨r,hr,rfl⟩ := Option.map_eq_some_iff.mp h
    cases readerStep_cases hr with
    | start hpc =>
      apply (ReadingMove.start hpc).of_eq
      simp [Reader.received,Reader.delivery,Reader.looksAtStop,hpc]
    | leave hpc hpending =>
      apply (ReadingMove.leave hpc hpending).of_eq
      simp [Reader.received,Reader.delivery,Reader.looksAtStop,hpc]
    | idle hpc hpending hpoll =>
      apply (ReadingMove.idle hpc hpending).of_eq
      simp [Reader.received,Reader.delivery,Reader.looksAtStop,hpc]
    | take hpc hpending c hpoll hsize =>
      apply (ReadingMove.take hpc hpending c hsize).of_eq
      simp [Reader.received,Reader.delivery,Reader.looksAtStop,hpc]
    | deliver c hpc hdata =>
      apply (ReadingMove.deliver c hpc hdata).of_eq
      simp [Reader.received,Reader.delivery,Reader.looksAtStop,hpc]
    | skip c hpc hdata =>
      apply (ReadingMove.skip c hpc hdata).of_eq
      simp [Reader.received,Reader.delivery,Reader.looksAtStop,hpc]
    | cancel c hpc hstop =>
      apply (ReadingMove.seeStop c hpc hstop).of_eq
      simp [Reader.received,Reader.delivery,Reader.looksAtStop,hpc,hstop]
    | submit c hpc hstop =>
      apply (ReadingMove.submit c hpc hstop).of_eq
      simp [Reader.received,Reader.delivery,Reader.looksAtStop,hpc,hstop]
    | drained hpc hpending =>
      apply (ReadingMove.drained hpc hpending).of_eq
      simp [Reader.received,Reader.delivery,Reader.looksAtStop,hpc]
    | drain hpc hpending =>
      apply (ReadingMove.drain hpc hpending).of_eq
      simp [Reader.received,Reader.delivery,Reader.looksAtStop,hpc]

theorem deliveries_singleton (kind : ReaderKind) (c : Completion) : deliveries kind [c] =
    if c.status = .ok ∧ c.data ≠ [] then [(kind.packetType,c.data)] else [] := by
  split
  · rename_i hdata
    simp [deliveries,hdata]
  · rename_i hdata
    rw [deliveries,List.filter_eq_nil_iff.mpr (by simpa using hdata)]
    rfl

private theorem ReadingMove.delivered {kind : ReaderKind} {s t : Reading} {a : ReaderInput}
    (hs : ∃ handled, s.completions = handled ++ s.reader.received.toList ∧
      s.emitted = deliveries kind handled) (h : ReadingMove kind s a t) :
    ∃ handled, t.completions = handled ++ t.reader.received.toList ∧
      t.emitted = deliveries kind handled := by
  obtain ⟨handled,hcompletions,hemitted⟩ := hs
  cases h with
  | take hpc hpending c hsize =>
    rw [Reader.received,hpc] at hcompletions
    exact ⟨handled,by simpa [Reader.received] using hcompletions,hemitted⟩
  | deliver c hpc hdata =>
    rw [Reader.received,hpc] at hcompletions
    refine ⟨handled ++ [c],by simpa [Reader.received] using hcompletions,?_⟩
    rw [deliveries_append,deliveries_singleton,if_pos hdata,← hemitted]
  | skip c hpc hdata =>
    rw [Reader.received,hpc] at hcompletions
    refine ⟨handled ++ [c],by simpa [Reader.received] using hcompletions,?_⟩
    rw [deliveries_append,deliveries_singleton,if_neg hdata,← hemitted,List.append_nil]
  | idle hpc hpending => exact ⟨handled,hcompletions,hemitted⟩
  | start hpc | leave hpc _ | resume c hpc | seeStop c hpc _ | submit c hpc _ | drain hpc _
  | drained hpc _ =>
    rw [Reader.received,hpc] at hcompletions
    exact ⟨handled,by simpa [Reader.received,hpc] using hcompletions,hemitted⟩

private theorem ReadingMove.short {kind : ReaderKind} {s t : Reading} {a : ReaderInput}
    (hs : ∀ c ∈ s.completions, c.data.length ≤ kind.transferSize) (h : ReadingMove kind s a t) :
    ∀ c ∈ t.completions, c.data.length ≤ kind.transferSize := by
  cases h with
  | take hpc hpending c hsize =>
    intro c' hc'
    rcases List.mem_append.mp hc' with hc' | hc'
    · exact hs c' hc'
    · rwa [List.mem_singleton.mp hc']
  | _ => exact hs

private theorem readerLoop_streaming {kind : ReaderKind} {s t : Reading} {a : ReaderInput}
    (hs : s.sawStop = false → s.reader.Streaming kind)
    (h : (readerLoop kind).step s a = some t) : t.sawStop = false → t.reader.Streaming kind := by
  intro hsaw
  simp only [readerLoop] at h
  split at h
  · cases h
    exact (hs hsaw).resume
  · obtain ⟨r,hr,rfl⟩ := Option.map_eq_some_iff.mp h
    obtain ⟨hbefore,hlooked⟩ := Bool.or_eq_false_iff.mp hsaw
    apply readerStep_streaming (hs hbefore) _ hr
    intro c hpc
    simpa [Reader.looksAtStop,hpc] using hlooked

private theorem busy_of_stopped {r : Reader}
    (hstopped : r.pc = .draining ∨ (r.pc = .head ∨ r.pc = .exited) ∧ r.pending = 0) :
    (r.pc = .head → r.pending = 0) ∧ r.pc ≠ .start ∧ ∀ c, r.pc ≠ .completed c ∧
      r.pc ≠ .delivering c ∧ r.pc ≠ .delivered c := by
  rcases hstopped with hpc | ⟨hpc | hpc,hempty⟩
  · simp [hpc]
  · simp [hpc,hempty]
  · simp [hpc]

private theorem ReadingMove.stopped {kind : ReaderKind} {s t : Reading} {a : ReaderInput}
    (hs : s.sawStop = true → s.reader.pc = .draining ∨
      (s.reader.pc = .head ∨ s.reader.pc = .exited) ∧ s.reader.pending = 0)
    (h : ReadingMove kind s a t) : t.sawStop = true → t.reader.pc = .draining ∨
      (t.reader.pc = .head ∨ t.reader.pc = .exited) ∧ t.reader.pending = 0 := by
  intro hsaw
  cases h with
  | seeStop c hpc hstop => exact .inl rfl
  | drain hpc hpending => exact .inl hpc
  | drained hpc hpending => exact .inr ⟨.inl rfl,hpending⟩
  | leave hpc hpending => exact .inr ⟨.inr rfl,hpending⟩
  | idle hpc hpending => exact hs hsaw
  | take hpc hpending c hsize => exact absurd ((busy_of_stopped (hs hsaw)).1 hpc) hpending
  | start hpc => exact absurd hpc (busy_of_stopped (hs hsaw)).2.1
  | deliver c hpc hdata | skip c hpc hdata =>
    exact absurd hpc ((busy_of_stopped (hs hsaw)).2.2 c).1
  | resume c hpc => exact absurd hpc ((busy_of_stopped (hs hsaw)).2.2 c).2.1
  | submit c hpc hstop => exact absurd hpc ((busy_of_stopped (hs hsaw)).2.2 c).2.2

theorem Reading.Sound.step {kind : ReaderKind} {s t : Reading} {a : ReaderInput}
    (hs : s.Sound kind) (h : (readerLoop kind).step s a = some t) : t.Sound kind where
  delivered := (readerLoop_moves h).delivered hs.delivered
  short := (readerLoop_moves h).short hs.short
  streaming := readerLoop_streaming hs.streaming h
  stopped := (readerLoop_moves h).stopped hs.stopped

theorem ReadingMove.quiet {kind : ReaderKind} {s t : Reading} {a : ReaderInput}
    (h : ReadingMove kind s a t) (hs : s.Sound kind) (hsaw : s.sawStop = true) :
    t.sawStop = true ∧ t.completions = s.completions ∧ t.emitted = s.emitted := by
  have hbusy := busy_of_stopped (hs.stopped hsaw)
  cases h with
  | take hpc hpending c hsize => exact absurd (hbusy.1 hpc) hpending
  | deliver c hpc hdata => exact absurd hpc (hbusy.2.2 c).1
  | seeStop c hpc hstop => exact ⟨rfl,rfl,rfl⟩
  | _ => exact ⟨hsaw,rfl,rfl⟩

theorem readerLoop_sound {kind : ReaderKind} {inputs : List ReaderInput} {s : Reading}
    (h : (readerLoop kind).run {} inputs = some s) : s.Sound kind := by
  apply Machine.run_induction (P := fun _ s => Reading.Sound kind s) _ _ h
  · exact ⟨⟨[],rfl,rfl⟩,by simp,fun _ => trivial,by simp⟩
  · intro inputs s a t _ hs hstep
    exact hs.step hstep

theorem readerLoop_quiet {kind : ReaderKind} {inputs : List ReaderInput} {s t : Reading}
    (hs : s.Sound kind) (hsaw : s.sawStop = true)
    (h : (readerLoop kind).run s inputs = some t) :
    t.completions = s.completions ∧ t.emitted = s.emitted := by
  have hall : t.Sound kind ∧ t.sawStop = true ∧ t.completions = s.completions ∧
      t.emitted = s.emitted := by
    apply Machine.run_induction (P := fun _ t => Reading.Sound kind t ∧ t.sawStop = true ∧
      t.completions = s.completions ∧ t.emitted = s.emitted) _ _ h
    · exact ⟨hs,hsaw,rfl,rfl⟩
    · rintro inputs t a u - ⟨ht,hsaw,hcompletions,hemitted⟩ hstep
      obtain ⟨hsaw',hcompletions',hemitted'⟩ := (readerLoop_moves hstep).quiet ht hsaw
      exact ⟨ht.step hstep,hsaw',hcompletions'.trans hcompletions,hemitted'.trans hemitted⟩
  exact hall.2.2

/-- A reader passes on exactly the data of the completions up to the one after which it sees the
flag, and nothing after that; until then its queue is full at every loop head, and it is empty when
the thread ends. -/
theorem readerLoop_delivers {kind : ReaderKind} {inputs : List ReaderInput} {s : Reading}
    (h : (readerLoop kind).run {} inputs = some s) :
    (∃ handled, s.completions = handled ++ s.reader.received.toList ∧
      s.emitted = deliveries kind handled) ∧
    (∀ packet ∈ s.emitted, (UInt16.ofNat packet.2.length).toNat = packet.2.length) ∧
    (s.sawStop = true → ∀ inputs' t, (readerLoop kind).run s inputs' = some t →
      t.completions = s.completions ∧ t.emitted = deliveries kind s.completions) ∧
    (s.sawStop = false → s.reader.pc = .head → s.reader.pending = kind.inFlight) ∧
    (s.reader.pc = .exited → s.reader.pending = 0) := by
  have hs := readerLoop_sound h
  obtain ⟨handled,hcompletions,hemitted⟩ := hs.delivered
  refine ⟨⟨handled,hcompletions,hemitted⟩,?_,?_,?_,?_⟩
  · intro packet hpacket
    rw [hemitted,deliveries] at hpacket
    obtain ⟨c,hc,rfl⟩ := List.mem_map.mp hpacket
    have hsize : c.data.length ≤ kind.transferSize :=
      hs.short c (by rw [hcompletions]; simp [(List.mem_filter.mp hc).1])
    have hfits : kind.transferSize < 65536 := by cases kind <;> decide
    rw [UInt16.toNat_ofNat']
    exact Nat.mod_eq_of_lt (Nat.lt_of_le_of_lt hsize hfits)
  · intro hsaw inputs' t ht
    obtain ⟨hcompletions',hemitted'⟩ := readerLoop_quiet hs hsaw ht
    refine ⟨hcompletions',?_⟩
    have hnone : s.reader.received = none := by
      rcases hs.stopped hsaw with hpc | ⟨hpc | hpc,-⟩
      all_goals rw [Reader.received,hpc]
    rw [hemitted',hemitted,hcompletions,hnone,Option.toList_none,List.append_nil]
  · intro hsaw hpc
    have hstreaming := hs.streaming hsaw
    rwa [Reader.Streaming,hpc] at hstreaming
  · intro hpc
    cases hsaw : s.sawStop with
    | false => exact absurd hpc (hs.streaming hsaw).not_exited
    | true =>
      rcases hs.stopped hsaw with hdraining | ⟨-,hempty⟩
      · rw [hpc] at hdraining
        cases hdraining
      · exact hempty

def stallInputs : List ReaderInput :=
  [⟨false,none⟩,⟨false,some ⟨.ok,[1,2]⟩⟩,⟨false,none⟩,⟨false,none⟩,⟨false,none⟩,⟨false,none⟩,
    ⟨false,some ⟨.err .stall,[]⟩⟩,⟨false,none⟩,⟨false,none⟩,⟨true,some ⟨.ok,[3]⟩⟩,⟨true,none⟩,
    ⟨true,none⟩,⟨true,none⟩]

theorem readerLoop_delivers_stall : ∃ s, (readerLoop .event).run {} stallInputs = some s ∧
    s.sawStop = true ∧ ∀ inputs t, (readerLoop .event).run s inputs = some t →
      t.emitted = [(hciEventPacket,[1,2]),(hciEventPacket,[3])] := by
  have hrun : ((readerLoop .event).run {} stallInputs).map
      (fun s => (s.completions,s.sawStop)) =
      some ([⟨.ok,[1,2]⟩,⟨.err .stall,[]⟩,⟨.ok,[3]⟩],true) := rfl
  obtain ⟨s,hs,hfields⟩ := Option.map_eq_some_iff.mp hrun
  obtain ⟨hcompletions,hsaw⟩ := Prod.mk.inj hfields
  refine ⟨s,hs,hsaw,fun inputs t ht => ?_⟩
  rw [((readerLoop_delivers hs).2.2.1 hsaw inputs t ht).2,hcompletions]
  rfl

/-- The reader has come where it is in a run of the loop, on the flag of its link. -/
def Link.Runs (link : Link) (kind : ReaderKind) : Prop :=
  ∃ inputs s, (readerLoop kind).run {} inputs = some s ∧ s.reader = link.reader kind ∧
    (s.sawStop = true → link.stop = true)

private theorem Link.Runs.of_eq {link link' : Link} {kind : ReaderKind} (h : link.Runs kind)
    (hreader : link'.reader kind = link.reader kind) (hstop : link'.stop = link.stop) :
    link'.Runs kind := by
  rw [Runs,hreader,hstop]
  exact h

private theorem Link.Runs.step {link : Link} {kind : ReaderKind} (h : link.Runs kind)
    {poll : Option Completion} {r : Reader}
    (hstep : readerStep kind link.stop poll (link.reader kind) = some r) :
    (link.setReader kind r).Runs kind := by
  obtain ⟨inputs,s,hrun,hreader,hsaw⟩ := h
  have hdelivery : (link.reader kind).delivery = none := by
    rw [Reader.delivery]
    split
    · rename_i c hpc
      simp [readerStep,hpc] at hstep
    · rfl
  have hnext : ∃ t, (readerLoop kind).step s ⟨link.stop,poll⟩ = some t ∧ t.reader = r ∧
      (t.sawStop = true → link.stop = true) := by
    simp only [readerLoop,hdelivery,hreader,hstep]
    refine ⟨_,rfl,rfl,fun ht => ?_⟩
    rw [Bool.or_eq_true,Bool.and_eq_true] at ht
    exact ht.elim hsaw (fun hlooked => hlooked.2)
  obtain ⟨t,ht,rfl,hsaw'⟩ := hnext
  exact ⟨_,t,Machine.run_concat hrun ht,by simp,by simpa using hsaw'⟩

private theorem Link.Runs.resume {link : Link} {kind : ReaderKind} (h : link.Runs kind) :
    (link.setReader kind (link.reader kind).resume).Runs kind := by
  obtain ⟨inputs,s,hrun,hreader,hsaw⟩ := h
  cases hpc : (link.reader kind).pc with
  | delivering c =>
    have hnext : (readerLoop kind).step s ⟨link.stop,none⟩ =
        some { s with reader := (link.reader kind).resume } := by
      simp only [readerLoop,hreader,Reader.delivery,hpc]
    exact ⟨_,_,Machine.run_concat hrun hnext,by simp,by simpa using hsaw⟩
  | _ =>
    have hsame : (link.reader kind).resume = link.reader kind := by rw [Reader.resume,hpc]
    exact ⟨inputs,s,hrun,by rw [hsame,Link.reader_setReader,hreader],by simpa using hsaw⟩

private theorem runs_linkInvariant : LinkInvariant (fun link => ∀ kind, link.Runs kind) where
  fresh := by
    intro endpoints kind
    exact ⟨[],{},rfl,by cases kind <;> rfl,by simp⟩
  stop := by
    intro link h kind
    obtain ⟨inputs,s,hrun,hreader,-⟩ := h kind
    exact ⟨inputs,s,hrun,by cases kind <;> exact hreader,fun _ => rfl⟩
  send := by
    intro t call handles spurious pc link link' next h hsend kind
    exact (h kind).of_eq (sendStep_reader hsend kind) (sendStep_stop hsend)
  reader := by
    intro kind poll link r h hreader kind'
    by_cases hkind : kind' = kind
    · subst hkind
      exact (h kind').step hreader
    · exact (h kind').of_eq (link.reader_setReader_ne hkind r) (by simp)
  writer := by
    intro alive control poll link link' h hwriter kind
    exact (h kind).of_eq (writerStep_reader hwriter kind) (writerStep_stop hwriter)
  resumeReader := by
    intro kind link h kind'
    by_cases hkind : kind' = kind
    · subst hkind
      exact (h kind').resume
    · exact (h kind').of_eq (link.reader_setReader_ne hkind _) (by simp)
  resumeWriter := by
    intro link h kind
    exact (h kind).of_eq (by cases kind <;> rfl) rfl

theorem Reachable.runs {σ : System} (h : Reachable σ) {l : Nat} {link : Link}
    (hlink : σ.links[l]? = some link) (kind : ReaderKind) : link.Runs kind :=
  runs_linkInvariant.reachable h hlink kind

end BtstackRs.Transport
