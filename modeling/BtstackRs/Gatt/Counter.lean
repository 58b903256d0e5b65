import BtstackRs.Concurrent.History
import BtstackRs.Sequence.Patch
import BtstackRs.Gatt.Peripheral.Types

/-!
# The counter service

The handlers of the GATT counter example on its global variables. There is one notification flag
and one connection handle, both set by the last client that writes the client characteristic
configuration (CCC). A heartbeat asks BTstack for a send slot, and the notification goes out when
the slot is there.
-/

namespace BtstackRs.Gatt.Counter

open Transport Concurrent Sequence Peripheral

def attCounterValueHandle : UInt16 := 0x000b
def attCounterClientConfigurationHandle : UInt16 := 0x000c
def gattClientCharacteristicsConfigurationNotification : UInt16 := 0x0001
def counterBufferCapacity : Nat := 30

def hciEventDisconnectionComplete : UInt8 := 5
def attEventCanSendNow : UInt8 := 183

structure Globals where
  notificationEnabled : Bool := false
  connectionHandle : UInt16 := 0
  counter : UInt32 := 0
  counterBuffer : Bytes := List.replicate counterBufferCapacity 0
  counterLen : UInt16 := 0

/-- `btstack_snprintf_assert_complete` with the format `"BTstack counter %04u"`: from a buffer, its
size and the number to the buffer that is left and the number of characters. -/
abbrev Snprintf := Bytes → Nat → UInt32 → Bytes × UInt16

def beat (snprintf : Snprintf) (g : Globals) : Globals :=
  let counter := g.counter+1
  let printed := snprintf g.counterBuffer counterBufferCapacity counter
  { g with
    counter := counter
    counterBuffer := printed.1
    counterLen := printed.2 }

/-- The arguments of `att_server_notify`. -/
structure Notification where
  connectionHandle : UInt16
  attributeHandle : UInt16
  value : Bytes
  deriving DecidableEq, Repr

/-- The new state, and the connection for which a send slot is requested. -/
def heartbeatHandler (snprintf : Snprintf) (g : Globals) : Globals × Option UInt16 :=
  if g.notificationEnabled then (beat snprintf g,some g.connectionHandle) else (g,none)

/-- The new state, and the notification that is sent. -/
def packetHandler (g : Globals) (p : Packet) : Globals × Option Notification :=
  match p.packet with
  | none => (g,none)
  | some packet =>
    if p.packetType ≠ hciEventPacket then (g,none)
    else if packet 0 = hciEventDisconnectionComplete then
      ({ g with notificationEnabled := false },none)
    else if packet 0 = attEventCanSendNow then
      (g,some ⟨g.connectionHandle,attCounterValueHandle,
        g.counterBuffer.take g.counterLen.toNat⟩)
    else (g,none)

def attWriteCallback (g : Globals) (w : AttWrite) : Globals × Int :=
  match w.buffer with
  | none => (g,0)
  | some buffer =>
    if w.bufferSize = 0 then (g,0)
    else if w.attHandle = attCounterClientConfigurationHandle then
      -- both bytes are read, also if there is only one
      let config := buffer.littleEndian16 0
      ({ g with
        notificationEnabled := config == gattClientCharacteristicsConfigurationNotification
        connectionHandle := w.connectionHandle },0)
    else (g,0)

def disconnected (p : Packet) : Option UInt16 :=
  p.packet.bind fun packet =>
    if p.packetType = hciEventPacket ∧ packet 0 = hciEventDisconnectionComplete then
      some (packet.littleEndian16 3)
    else none

def grantsSlot (p : Packet) : Bool :=
  p.packet.any fun packet => p.packetType == hciEventPacket && packet 0 == attEventCanSendNow

def canSendNowPacket : Packet :=
  ⟨hciEventPacket,0,some (fun i => [attEventCanSendNow,0].getD i 0),2⟩

structure World where
  globals : Globals
  requests : List UInt16
  notified : List Notification

/-- The calls from BTstack. A slot is granted for the request of one connection. -/
inductive Action where
  | heartbeat
  | attWrite (w : AttWrite)
  | packet (p : Packet)
  | canSendNow (client : UInt16)

def World.init (snprintf : Snprintf) : World := ⟨beat snprintf {},[],[]⟩

/-- A slot comes only where one was requested, by a connection that still exists. -/
def World.step (snprintf : Snprintf) (s : World) : Action → Option World
  | .heartbeat =>
      let called := heartbeatHandler snprintf s.globals
      some { s with globals := called.1, requests := s.requests ++ called.2.toList }
  | .attWrite w => some { s with globals := (attWriteCallback s.globals w).1 }
  | .packet p =>
      if grantsSlot p then none
      else
        let called := packetHandler s.globals p
        some { s with
          globals := called.1
          requests := s.requests.filter (fun client => disconnected p != some client)
          notified := s.notified ++ called.2.toList }
  | .canSendNow client =>
      if client ∈ s.requests then
        let called := packetHandler s.globals canSendNowPacket
        some { s with
          globals := called.1
          requests := s.requests.erase client
          notified := s.notified ++ called.2.toList }
      else none

def service (snprintf : Snprintf) : Machine World Action := ⟨World.step snprintf⟩

def Action.configuration : Action → Option (UInt16 × Bool)
  | .attWrite w =>
      if w.attHandle = attCounterClientConfigurationHandle ∧ w.bufferSize ≠ 0 then
        w.buffer.map fun buffer => (w.connectionHandle,
          buffer.littleEndian16 0 == gattClientCharacteristicsConfigurationNotification)
      else none
  | _ => none

def Action.leaves : Action → Option UInt16
  | .packet p => disconnected p
  | _ => none

/-- What a client says for itself, by a CCC write or by leaving. -/
def Action.decides (client : UInt16) (a : Action) : Option Bool :=
  if a.leaves = some client then some false
  else a.configuration.bind fun (sender,enables) => if sender = client then some enables else none

/-- The client's own last CCC write has enabled notifications, and it has not left since. -/
def Subscribed (client : UInt16) (history : List Action) : Prop :=
  latest (Action.decides client) history = some true

def Action.tells (a : Action) : Option Bool :=
  if a.leaves.isSome then some false else a.configuration.map Prod.snd

theorem Action.configuration_of_leaves {a : Action} {client : UInt16}
    (h : a.leaves = some client) : a.configuration = none := by
  cases a with
  | packet p => rfl
  | _ => cases h

theorem Action.tells_eq_none_iff {a : Action} :
    a.tells = none ↔ a.leaves = none ∧ a.configuration = none := by
  rw [Action.tells]
  cases a.leaves with
  | none => simp
  | some client => simp

theorem Action.tells_eq_true_iff {a : Action} :
    a.tells = some true ↔ ∃ client, a.configuration = some (client,true) := by
  rw [Action.tells]
  cases hleaves : a.leaves with
  | none => simp
  | some client => simp [Action.configuration_of_leaves hleaves]

theorem Action.decides_of_configuration {a : Action} {client : UInt16} {enables : Bool}
    (h : a.configuration = some (client,enables)) : a.decides client = some enables := by
  have hleaves : a.leaves ≠ some client := by
    intro hleaves
    rw [Action.configuration_of_leaves hleaves] at h
    cases h
  simp [Action.decides,hleaves,h]

theorem Action.decides_of_silent {a : Action} (client : UInt16) (h : a.configuration = none) :
    a.decides client = if a.leaves = some client then some false else none := by
  rw [Action.decides,h]
  rfl

theorem subscribed_sender_iff {before after : List Action} {a : Action} {client : UInt16}
    {enables : Bool} (ha : a.configuration = some (client,enables))
    (hafter : ∀ b ∈ after, b.configuration = none) :
    Subscribed client (before ++ a :: after) ↔
      enables = true ∧ ∀ b ∈ after, b.leaves ≠ some client := by
  rw [Subscribed,latest_append,latest_cons,Action.decides_of_configuration ha]
  by_cases hgone : ∃ b ∈ after, b.leaves = some client
  · have hlast : latest (Action.decides client) after = some false := by
      cases hlatest : latest (Action.decides client) after with
      | none =>
        obtain ⟨b,hb,hleaves⟩ := hgone
        have hdecides := latest_eq_none_iff.mp hlatest b hb
        simp [Action.decides,hleaves] at hdecides
      | some bit =>
        obtain ⟨_,b,_,hsplit,hb,-⟩ := latest_eq_some_iff.mp hlatest
        rw [Action.decides_of_silent client (hafter b (by simp [hsplit]))] at hb
        split at hb
        · exact hb.symm
        · cases hb
    rw [hlast]
    obtain ⟨b,hb,hleaves⟩ := hgone
    simp only [Option.some_or,Option.some.injEq,Bool.false_eq_true,false_iff,not_and]
    exact fun _ hstay => hstay b hb hleaves
  · have hstay : ∀ b ∈ after, b.leaves ≠ some client := fun b hb hleaves => hgone ⟨b,hb,hleaves⟩
    have hlast : latest (Action.decides client) after = none := by
      rw [latest_eq_none_iff]
      intro b hb
      rw [Action.decides_of_silent client (hafter b hb),if_neg (hstay b hb)]
    rw [hlast,Option.none_or,Option.some_or,Option.some.injEq]
    exact ⟨fun h => ⟨h,hstay⟩,And.left⟩

theorem subscribed_of_tells {history : List Action} (h : latest Action.tells history = some true) :
    ∃ client, latest Action.configuration history = some (client,true) ∧
      Subscribed client history := by
  obtain ⟨before,a,after,hsplit,ha,hafter⟩ := latest_eq_some_iff.mp h
  obtain ⟨client,hconfiguration⟩ := Action.tells_eq_true_iff.mp ha
  have hquiet : ∀ b ∈ after, b.leaves = none ∧ b.configuration = none :=
    fun b hb => Action.tells_eq_none_iff.mp (hafter b hb)
  refine ⟨client,latest_eq_some_iff.mpr
    ⟨before,a,after,hsplit,hconfiguration,fun b hb => (hquiet b hb).2⟩,?_⟩
  rw [hsplit,subscribed_sender_iff hconfiguration fun b hb => (hquiet b hb).2]
  refine ⟨rfl,fun b hb hleaves => ?_⟩
  rw [(hquiet b hb).1] at hleaves
  cases hleaves

theorem attWriteCallback_eq (g : Globals) (w : AttWrite) :
    (attWriteCallback g w).1 = match (Action.attWrite w).configuration with
      | none => g
      | some (client,enables) =>
          { g with notificationEnabled := enables, connectionHandle := client } := by
  rw [attWriteCallback,Action.configuration]
  cases w.buffer with
  | none => split <;> simp_all
  | some buffer =>
    by_cases hsize : w.bufferSize = 0
    · simp [hsize]
    · by_cases hhandle : w.attHandle = attCounterClientConfigurationHandle
      · simp [hsize,hhandle]
      · simp [hsize,hhandle]

theorem packetHandler_eq (g : Globals) (p : Packet) :
    (packetHandler g p).1 =
        { g with notificationEnabled := !(disconnected p).isSome && g.notificationEnabled } ∧
      (grantsSlot p = false → (packetHandler g p).2 = none) := by
  rw [packetHandler,disconnected,grantsSlot]
  cases p.packet with
  | none => simp
  | some packet =>
    by_cases htype : p.packetType = hciEventPacket
    · by_cases hgone : packet 0 = hciEventDisconnectionComplete
      · simp [htype,hgone]
      · simp only [htype,hgone,ne_eq,not_true_eq_false,if_false]
        split <;> simp_all
    · simp [htype]

/-- Every step, with what has to hold before it and the state that it leaves. -/
inductive Does (snprintf : Snprintf) (s : World) : Action → World → Prop where
  | heartbeat : Does snprintf s .heartbeat { s with
      globals := (heartbeatHandler snprintf s.globals).1
      requests := s.requests ++ (heartbeatHandler snprintf s.globals).2.toList }
  | attWrite (w : AttWrite) :
      Does snprintf s (.attWrite w) { s with globals := (attWriteCallback s.globals w).1 }
  | packet (p : Packet) : Does snprintf s (.packet p) { s with
      globals := { s.globals with
        notificationEnabled := !(disconnected p).isSome && s.globals.notificationEnabled }
      requests := s.requests.filter (fun client => disconnected p != some client) }
  | canSendNow (client : UInt16) (hmem : client ∈ s.requests) :
      Does snprintf s (.canSendNow client) { s with
      requests := s.requests.erase client
      notified := s.notified ++ [⟨s.globals.connectionHandle,attCounterValueHandle,
        s.globals.counterBuffer.take s.globals.counterLen.toNat⟩] }

variable {snprintf : Snprintf} {s t : World} {a : Action} {history : List Action}

theorem does_of_step (h : (service snprintf).step s a = some t) : Does snprintf s a t := by
  change s.step snprintf a = some t at h
  cases a with
  | heartbeat =>
    cases h
    exact .heartbeat
  | attWrite w =>
    cases h
    exact .attWrite w
  | packet p =>
    rw [World.step] at h
    split at h
    · cases h
    · rename_i hslot
      obtain ⟨hglobals,hsilent⟩ := packetHandler_eq s.globals p
      cases h
      rw [hglobals,hsilent (Bool.not_eq_true _ ▸ hslot),Option.toList_none,List.append_nil]
      exact .packet p
  | canSendNow client =>
    rw [World.step] at h
    split at h
    · rename_i hmem
      cases h
      exact .canSendNow client hmem
    · cases h

theorem Does.flags (h : Does snprintf s a t) :
    t.globals.notificationEnabled = a.tells.getD s.globals.notificationEnabled ∧
      t.globals.connectionHandle =
        (a.configuration.map Prod.fst).getD s.globals.connectionHandle := by
  cases h with
  | heartbeat =>
    simp only [heartbeatHandler]
    split
    · exact ⟨rfl,rfl⟩
    · exact ⟨rfl,rfl⟩
  | attWrite w =>
    rw [attWriteCallback_eq]
    cases hconfiguration : (Action.attWrite w).configuration with
    | none => simp [Action.tells,Action.leaves,hconfiguration]
    | some written => simp [Action.tells,Action.leaves,hconfiguration]
  | packet p =>
    cases hgone : disconnected p with
    | none => simp [Action.tells,Action.leaves,Action.configuration,hgone]
    | some client => simp [Action.tells,Action.leaves,Action.configuration,hgone]
  | canSendNow client hmem => exact ⟨rfl,rfl⟩

theorem Does.requests (h : Does snprintf s a t) {client : UInt16} (hc : client ∈ t.requests) :
    (a = .heartbeat ∧ (heartbeatHandler snprintf s.globals).2 = some client) ∨
      (client ∈ s.requests ∧ a.leaves ≠ some client) := by
  cases h with
  | heartbeat =>
    rcases List.mem_append.mp hc with hold | hnew
    · exact .inr ⟨hold,nofun⟩
    · exact .inl ⟨rfl,Option.mem_toList.mp hnew⟩
  | attWrite w => exact .inr ⟨hc,nofun⟩
  | packet p =>
    rw [List.mem_filter] at hc
    exact .inr ⟨hc.1,by simpa [Action.leaves] using hc.2⟩
  | canSendNow client' hmem => exact .inr ⟨List.mem_of_mem_erase hc,nofun⟩

theorem Does.notified (h : Does snprintf s a t) :
    (t.notified = s.notified ∧ ∀ client, a ≠ .canSendNow client) ∨
      ∃ client n, a = .canSendNow client ∧ client ∈ s.requests ∧
        t.notified = s.notified ++ [n] ∧ n.connectionHandle = s.globals.connectionHandle := by
  cases h with
  | canSendNow client hmem => exact .inr ⟨client,_,rfl,hmem,rfl,rfl⟩
  | _ => exact .inl ⟨rfl,nofun⟩

theorem heartbeatHandler_request_iff {g : Globals} {client : UInt16} :
    (heartbeatHandler snprintf g).2 = some client ↔
      g.notificationEnabled = true ∧ g.connectionHandle = client := by
  rw [heartbeatHandler]
  cases g.notificationEnabled with
  | false => simp
  | true => simp

structure View (snprintf : Snprintf) (history : List Action) (s : World) : Prop where
  enabled : s.globals.notificationEnabled = (latest Action.tells history).getD false
  handle : s.globals.connectionHandle =
    ((latest Action.configuration history).map Prod.fst).getD 0
  requested : ∀ client ∈ s.requests, ∃ before window s', history = before ++ .heartbeat :: window ∧
    (service snprintf).run (World.init snprintf) before = some s' ∧
    (heartbeatHandler snprintf s'.globals).2 = some client ∧ ∀ a ∈ window, a.leaves ≠ some client

theorem view_of_run (h : (service snprintf).run (World.init snprintf) history = some s) :
    View snprintf history s := by
  refine Machine.run_induction (P := View snprintf) ⟨rfl,rfl,by simp [World.init]⟩ ?_ h
  intro history s a t hrun hs hstep
  obtain ⟨henabled,hhandle⟩ := (does_of_step hstep).flags
  refine ⟨?_,?_,fun client hclient => ?_⟩
  · rw [henabled,hs.enabled,latest_concat]
    cases a.tells <;> rfl
  · rw [hhandle,hs.handle,latest_concat]
    cases a.configuration <;> rfl
  · rcases (does_of_step hstep).requests hclient with ⟨rfl,hrequest⟩ | ⟨hold,hstays⟩
    · exact ⟨history,[],s,rfl,hrun,hrequest,nofun⟩
    · obtain ⟨before,window,s',rfl,hrun',hrequest,hwindow⟩ := hs.requested client hold
      refine ⟨before,window ++ [a],s',by simp,hrun',hrequest,fun b hb => ?_⟩
      rcases List.mem_append.mp hb with hb | hb
      · exact hwindow b hb
      · cases List.mem_singleton.mp hb
        exact hstays

/-- A call of `att_server_notify` goes to a subscribed client. -/
def NotifiesSubscribed (snprintf : Snprintf) (before : List Action) (a : Action) : Prop :=
  ∀ s t n, (service snprintf).run (World.init snprintf) before = some s →
    (service snprintf).step s a = some t → t.notified = s.notified ++ [n] →
      Subscribed n.connectionHandle before

/-- There is no CCC write in these calls, or the last one enables notifications and its sender is
still there. -/
def EndsEnabled (window : List Action) : Prop :=
  ∀ before a after client enables, window = before ++ a :: after →
    a.configuration = some (client,enables) → (∀ b ∈ after, b.configuration = none) →
    enables = true ∧ ∀ b ∈ after, b.leaves ≠ some client

/-- Between the heartbeat that requests a slot and the slot, nobody has the last word against the
notifications. -/
def Undisturbed (snprintf : Snprintf) (before : List Action) (a : Action) : Prop :=
  ∀ client earlier window s, a = .canSendNow client → before = earlier ++ .heartbeat :: window →
    (service snprintf).run (World.init snprintf) earlier = some s →
    (heartbeatHandler snprintf s.globals).2 = some client →
    (∀ b ∈ window, b.leaves ≠ some client) → EndsEnabled window

theorem endsEnabled_iff {before after : List Action} {a : Action} {client : UInt16} {enables : Bool}
    (ha : a.configuration = some (client,enables))
    (hafter : ∀ b ∈ after, b.configuration = none) :
    EndsEnabled (before ++ a :: after) ↔ Subscribed client (before ++ a :: after) := by
  rw [subscribed_sender_iff ha hafter]
  constructor
  · intro h
    exact h before a after client enables rfl ha hafter
  · intro h before' a' after' client' enables' hsplit ha' hafter'
    have hlatest : latest Action.configuration (before ++ a :: after) = some (client,enables) :=
      latest_eq_some_iff.mpr ⟨before,a,after,rfl,ha,hafter⟩
    have hlatest' : latest Action.configuration (before ++ a :: after) =
        some (client',enables') :=
      latest_eq_some_iff.mpr ⟨before',a',after',hsplit,ha',hafter'⟩
    rw [hlatest] at hlatest'
    cases hlatest'
    have hsubscribed : Subscribed client (before ++ a :: after) :=
      (subscribed_sender_iff ha hafter).mpr h
    rw [hsplit,subscribed_sender_iff ha' hafter'] at hsubscribed
    exact hsubscribed

theorem endsEnabled_of_silent {window : List Action}
    (h : ∀ b ∈ window, b.configuration = none) : EndsEnabled window := by
  rintro before a after client enables rfl ha -
  rw [h a (by simp)] at ha
  cases ha

theorem View.subscribed_of_request {client : UInt16} (hs : View snprintf history s)
    (hrequest : (heartbeatHandler snprintf s.globals).2 = some client) :
    Subscribed client history := by
  obtain ⟨henabled,hhandle⟩ := heartbeatHandler_request_iff.mp hrequest
  rw [hs.enabled] at henabled
  have htells : latest Action.tells history = some true := by
    cases hlatest : latest Action.tells history with
    | none =>
      rw [hlatest] at henabled
      cases henabled
    | some bit =>
      rw [hlatest] at henabled
      rw [← henabled]
      rfl
  obtain ⟨sender,hsender,hsubscribed⟩ := subscribed_of_tells htells
  rw [hs.handle,hsender] at hhandle
  cases hhandle
  exact hsubscribed

/-- Whom the globals name at a slot is subscribed if the time since the request ends well. -/
theorem View.subscribed_iff_endsEnabled {earlier window : List Action} {client : UInt16}
    {s' : World} (hs : View snprintf (earlier ++ .heartbeat :: window) s)
    (hs' : View snprintf earlier s')
    (hrequest : (heartbeatHandler snprintf s'.globals).2 = some client)
    (hstays : ∀ b ∈ window, b.leaves ≠ some client) :
    Subscribed s.globals.connectionHandle (earlier ++ .heartbeat :: window) ↔
      EndsEnabled window := by
  cases hwindow : latest Action.configuration window with
  | none =>
    have hsilent := latest_eq_none_iff.mp hwindow
    -- the handle is still the one that the request was made for
    have hhandle : s.globals.connectionHandle = client := by
      rw [hs.handle,latest_append,latest_cons,hwindow,
        ← (heartbeatHandler_request_iff.mp hrequest).2,hs'.handle]
      rfl
    have hdecides : latest (Action.decides client) window = none := by
      rw [latest_eq_none_iff]
      intro b hb
      rw [Action.decides_of_silent client (hsilent b hb),if_neg (hstays b hb)]
    have hsubscribed : Subscribed client (earlier ++ .heartbeat :: window) := by
      rw [Subscribed,latest_append,latest_cons,hdecides]
      exact hs'.subscribed_of_request hrequest
    rw [hhandle]
    exact ⟨fun _ => endsEnabled_of_silent hsilent,fun _ => hsubscribed⟩
  | some written =>
    -- the last write since the request decides
    obtain ⟨before,a,after,rfl,ha,hafter⟩ := latest_eq_some_iff.mp hwindow
    have hhandle : s.globals.connectionHandle = written.1 := by
      rw [hs.handle,latest_append,latest_cons,hwindow]
      rfl
    rw [endsEnabled_iff ha hafter,subscribed_sender_iff ha hafter,hhandle,← List.cons_append,
      ← List.append_assoc,subscribed_sender_iff ha hafter]

theorem notifiesSubscribed_iff_undisturbed
    (hrun : (service snprintf).run (World.init snprintf) history = some s)
    (hstep : (service snprintf).step s a = some t) :
    NotifiesSubscribed snprintf history a ↔ Undisturbed snprintf history a := by
  have hs := view_of_run hrun
  rcases (does_of_step hstep).notified with ⟨hsame,hother⟩ | ⟨client,n,rfl,hmem,hsent,hname⟩
  · constructor
    · intro _ client _ _ _ ha
      exact absurd ha (hother client)
    · intro _ s' t' n hrun' hstep' hsent
      rw [hrun] at hrun'
      cases hrun'
      rw [hstep] at hstep'
      cases hstep'
      simp [hsame] at hsent
  · have hnotifies : NotifiesSubscribed snprintf history (.canSendNow client) ↔
        Subscribed s.globals.connectionHandle history := by
      constructor
      · intro h
        rw [← hname]
        exact h s t n hrun hstep hsent
      · intro h s' t' n' hrun' hstep' hsent'
        rw [hrun] at hrun'
        cases hrun'
        rw [hstep] at hstep'
        cases hstep'
        rw [hsent] at hsent'
        simp only [List.append_cancel_left_eq,List.cons.injEq,and_true] at hsent'
        rw [← hsent',hname]
        exact h
    rw [hnotifies]
    constructor
    · rintro h _ earlier window s' ⟨⟩ rfl hrun' hrequest hstays
      exact (hs.subscribed_iff_endsEnabled (view_of_run hrun') hrequest hstays).mp h
    · intro h
      obtain ⟨earlier,window,s',rfl,hrun',hrequest,hstays⟩ := hs.requested client hmem
      exact (hs.subscribed_iff_endsEnabled (view_of_run hrun') hrequest hstays).mpr
        (h client earlier window s' rfl rfl hrun' hrequest hstays)

/-- All notifications of a run go to subscribed clients exactly if every slot that the run grants
is undisturbed since its request. -/
theorem notifies_only_subscribed_iff
    (h : (service snprintf).run (World.init snprintf) history = some s) :
    EachAfter (NotifiesSubscribed snprintf) history ↔ EachAfter (Undisturbed snprintf) history := by
  refine Machine.run_induction (P := fun history _ =>
    EachAfter (NotifiesSubscribed snprintf) history ↔
      EachAfter (Undisturbed snprintf) history) ?_ ?_ h
  · exact iff_of_true (eachAfter_nil _) (eachAfter_nil _)
  · intro history s a t hrun ih hstep
    rw [eachAfter_concat,eachAfter_concat,ih,notifiesSubscribed_iff_undisturbed hrun hstep]

/-- What C prints for `"BTstack counter %04u"`: the decimal digits of the number, at least four. -/
def counterText (counter : UInt32) : Bytes :=
  ("BTstack counter ".toList ++ (Nat.toDigits 10 counter.toNat).leftpad 4 '0').map
    (fun c => UInt8.ofNat c.toNat)

/-- `btstack_snprintf_assert_complete` by its documentation. -/
def documentedSnprintf : Snprintf := fun buffer size counter =>
  let text := counterText counter
  if text.length < size ∧ size ≤ buffer.length then
    (Patch.overwrite buffer 0 (text ++ [0]),UInt16.ofNat text.length)
  else (buffer,0)

def configure (client : UInt16) (config : UInt8) : Action :=
  .attWrite ⟨client,attCounterClientConfigurationHandle,attTransactionModeNone,0,
    some (fun i => [config].getD i 0),2⟩

theorem notifies_only_subscribed_iff_steady : ∃ s,
    (service documentedSnprintf).run (World.init documentedSnprintf)
        [configure 0x40 1,.heartbeat,.canSendNow 0x40] = some s ∧
      EachAfter (NotifiesSubscribed documentedSnprintf)
        [configure 0x40 1,.heartbeat,.canSendNow 0x40] := by
  have hrun : ∃ s, (service documentedSnprintf).run (World.init documentedSnprintf)
      [configure 0x40 1,.heartbeat,.canSendNow 0x40] = some s := ⟨_,rfl⟩
  obtain ⟨s,hs⟩ := hrun
  have hundisturbed : EachAfter (Undisturbed documentedSnprintf)
      ([] ++ [configure 0x40 1] ++ [.heartbeat] ++ [.canSendNow 0x40]) := by
    refine eachAfter_concat.mpr ⟨eachAfter_concat.mpr ⟨eachAfter_concat.mpr
      ⟨eachAfter_nil _,nofun⟩,nofun⟩,?_⟩
    intro client earlier window s' _ hsplit _ _ _
    have hwindow : window = [] := by
      rcases earlier with _ | ⟨_,_ | ⟨_,_⟩⟩
      · cases hsplit
      · cases hsplit
        rfl
      · simp at hsplit
    rw [hwindow]
    exact endsEnabled_of_silent nofun
  exact ⟨s,hs,(notifies_only_subscribed_iff hs).mpr hundisturbed⟩

def unsubscribedInBetween : List Action := [configure 0x40 1,.heartbeat,configure 0x41 0]

theorem unsubscribedInBetween_notified : ∃ s,
    (service documentedSnprintf).run (World.init documentedSnprintf)
        (unsubscribedInBetween ++ [.canSendNow 0x40]) = some s ∧
      ¬EachAfter (NotifiesSubscribed documentedSnprintf)
        (unsubscribedInBetween ++ [.canSendNow 0x40]) := by
  have hruns : (((service documentedSnprintf).run (World.init documentedSnprintf)
      unsubscribedInBetween).bind
      fun s => (service documentedSnprintf).step s (.canSendNow 0x40)).isSome := rfl
  obtain ⟨t,ht⟩ := Option.isSome_iff_exists.mp hruns
  obtain ⟨s,hs,hstep⟩ := Option.bind_eq_some_iff.mp ht
  refine ⟨t,Machine.run_concat hs hstep,fun h => ?_⟩
  rcases (does_of_step hstep).notified with ⟨-,hother⟩ | ⟨_,n,-,-,hsent,hname⟩
  · exact hother 0x40 rfl
  · have hhandle : s.globals.connectionHandle = 0x41 := (view_of_run hs).handle
    have hsubscribed := h unsubscribedInBetween (.canSendNow 0x40) [] rfl s t n hs hstep hsent
    rw [hname,hhandle,Subscribed] at hsubscribed
    exact absurd hsubscribed (by decide)

end BtstackRs.Gatt.Counter
