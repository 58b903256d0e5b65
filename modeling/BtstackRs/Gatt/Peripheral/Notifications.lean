import BtstackRs.Gatt.Peripheral.Connection

/-!
# Notification state

There is one flag for each characteristic with a client characteristic configuration (CCC). It is
decided by the history of the writes to this CCC, by any client, and of the disconnections, of any
client.
-/

namespace BtstackRs.Gatt.Peripheral

open Sequence Transport Concurrent

def Callback.disconnects : Callback → Bool
  | .packet p => p.disconnects
  | _ => false

/-- The notification bit that a valid write to this CCC carries. -/
def Callback.configures (cccHandle : UInt16) : Callback → Option Bool
  | .attWrite w => if w.attHandle = cccHandle then w.bit else none
  | _ => none

/-- What a call says about the flag that belongs to this CCC. -/
def Callback.tells (cccHandle : UInt16) (c : Callback) : Option Bool :=
  if c.disconnects then some false else c.configures cccHandle

theorem Callback.tells_eq_none_iff {cccHandle : UInt16} {c : Callback} :
    c.tells cccHandle = none ↔ c.disconnects = false ∧ c.configures cccHandle = none := by
  rw [Callback.tells]
  cases c.disconnects <;> simp

theorem Callback.tells_eq_true_iff {cccHandle : UInt16} {c : Callback} :
    c.tells cccHandle = some true ↔
      ∃ w, c = .attWrite w ∧ w.attHandle = cccHandle ∧ w.bit = some true := by
  rw [Callback.tells]
  cases c with
  | attRead r => simp [disconnects,configures]
  | attWrite w => simp [disconnects,configures]
  | packet p => cases hp : p.disconnects <;> simp [disconnects,configures,hp]

variable {database : Bytes → AttDatabase} {order : IterationOrder UInt16 RuntimeCharacteristic}
  {spec : GattPeripheralSpec} {σ : RuntimeState} {handle cccHandle : UInt16}

theorem RuntimeState.HasCcc.unique {cccHandle' : UInt16} (h : σ.HasCcc handle cccHandle)
    (h' : σ.HasCcc handle cccHandle') : cccHandle = cccHandle' := by
  obtain ⟨ch,hch,hccc⟩ := h
  obtain ⟨ch',hch',hccc'⟩ := h'
  rw [hch] at hch'
  cases hch'
  rw [hccc] at hccc'
  exact Option.some.inj hccc'

/-- The flag of a characteristic hears of exactly what concerns its CCC. -/
theorem flagSet_eq_tells (hsetup : setup database order spec = .ok σ)
    (hccc : σ.cccToValueHandle.lookup cccHandle = some handle) :
    σ.flagSet handle = Callback.tells cccHandle := by
  have hown : ∀ attHandle, σ.cccToValueHandle.lookup attHandle = some handle ↔
      attHandle = cccHandle := by
    intro attHandle
    constructor
    · intro h
      exact (setup_hasCcc hsetup h).unique (setup_hasCcc hsetup hccc)
    · rintro rfl
      exact hccc
  funext c
  cases c with
  | attRead r => rfl
  | attWrite w => simp [RuntimeState.flagSet,Callback.tells,Callback.disconnects,
      Callback.configures,hown]
  | packet p => rfl

theorem enabled_afterAll (hsetup : setup database order spec = .ok σ)
    (hccc : σ.cccToValueHandle.lookup cccHandle = some handle) (cs : List Callback) :
    (σ.afterAll cs).notificationEnabled.lookup handle =
      some ((latest (Callback.tells cccHandle) cs).getD false) := by
  have hmem := setup_flagged hsetup cccHandle handle hccc
  obtain ⟨enabled,hflag⟩ := Option.isSome_iff_exists.mp (AList.lookup_isSome.mpr hmem)
  have hinitial := setup_notificationEnabled hsetup hflag
  subst hinitial
  rw [← flagSet_eq_tells hsetup hccc]
  exact (σ.flag_afterAll hflag cs).1

def configureNote (client : UInt16) (config : UInt8) : AttWrite :=
  ⟨client,4,attTransactionModeNone,0,some (fun i => [config].getD i 0),2⟩

/-- The connection of a client, as the events that carry its handle tell it: after the address
where it connects, and right after the length where it leaves. -/
def Callback.connects (client : UInt16) : Callback → Option Bool
  | .packet p => p.packet.bind fun packet =>
      if p.packetType ≠ hciEventPacket then none
      else if packet 0 = attEventConnected ∧ packet.littleEndian16 9 = client then some true
      else if packet 0 = attEventDisconnected ∧ packet.littleEndian16 2 = client then some false
      else none
  | _ => none

/-- The notification bit of a valid CCC write by this client. -/
def Callback.ownConfigures (client cccHandle : UInt16) : Callback → Option Bool
  | .attWrite w => if w.connectionHandle = client ∧ w.attHandle = cccHandle then w.bit else none
  | _ => none

theorem Callback.tells_of_ownConfigures {client : UInt16} {c : Callback} {bit : Bool}
    (h : c.ownConfigures client cccHandle = some bit) : c.tells cccHandle = some bit := by
  cases c with
  | attWrite w =>
    rw [Callback.ownConfigures] at h
    split at h
    · rename_i hboth
      simpa [Callback.tells,disconnects,configures,hboth.2] using h
    · cases h
  | attRead r => cases h
  | packet p => cases h

/-- While a client's own last valid CCC write has set the notification bit, the flag is set exactly
if the last disconnection or CCC write of anyone since then, if there was any, is a write that sets
the bit. -/
theorem subscription_kept_iff (hsetup : setup database order spec = .ok σ)
    (hccc : σ.cccToValueHandle.lookup cccHandle = some handle) {client : UInt16}
    {cs : List Callback} (hown : latest (Callback.ownConfigures client cccHandle) cs = some true) :
    (σ.afterAll cs).notificationEnabled.lookup handle = some true ↔
      ∀ before c after, cs = before ++ c :: after →
        c.ownConfigures client cccHandle = some true →
        (∀ c' ∈ after, c'.ownConfigures client cccHandle = none) →
        latest (Callback.tells cccHandle) after ≠ some false := by
  have hsplit : ∀ before c after, cs = before ++ c :: after →
      c.ownConfigures client cccHandle = some true →
      ((σ.afterAll cs).notificationEnabled.lookup handle = some true ↔
        latest (Callback.tells cccHandle) after ≠ some false) := by
    rintro before c after rfl hc
    rw [enabled_afterAll hsetup hccc,latest_append,latest_cons,Callback.tells_of_ownConfigures hc]
    cases latest (Callback.tells cccHandle) after with
    | none => simp
    | some bit => simp
  constructor
  · intro hflag before c after hcs hc _
    exact (hsplit before c after hcs hc).mp hflag
  · intro hall
    obtain ⟨before,c,after,hcs,hc,hafter⟩ := latest_eq_some_iff.mp hown
    exact (hsplit before c after hcs hc).mpr (hall before c after hcs hc hafter)

def strangerLeaves : List Callback :=
  [.packet ((AttEvent.connected 0 #v[1,2,3,4,5,6] 0x40).packet 0),
    .packet ((AttEvent.connected 0 #v[6,5,4,3,2,1] 0x41).packet 0),
    .attWrite (configureNote 0x40 1),.packet ((AttEvent.disconnected 0x41).packet 0)]

theorem strangerLeaves_unsubscribes : ∃ σ,
    setup (fun _ => numberedDatabase) asStored noteSpec = .ok σ ∧ σ.HasCcc 3 4 ∧
      latest (Callback.connects 0x40) strangerLeaves = some true ∧
      latest (Callback.ownConfigures 0x40 4) strangerLeaves = some true ∧
      (σ.afterAll strangerLeaves).notificationEnabled.lookup 3 = some false := by
  obtain ⟨σ,hsetup,hch,hccc,-⟩ := setup_noteSpec
  refine ⟨σ,hsetup,⟨noteCharacteristic,hch 3,rfl⟩,by decide,by decide,?_⟩
  rw [enabled_afterAll hsetup (hccc 4)]
  decide

def strangerSubscribes : List Callback :=
  [.attWrite (configureNote 0x40 1),.attWrite (configureNote 0x41 1)]

theorem subscription_kept_iff_note : ∃ σ,
    setup (fun _ => numberedDatabase) asStored noteSpec = .ok σ ∧
      ∀ before c after, strangerSubscribes = before ++ c :: after →
        c.ownConfigures 0x40 4 = some true → (∀ c' ∈ after, c'.ownConfigures 0x40 4 = none) →
        latest (Callback.tells 4) after ≠ some false := by
  obtain ⟨σ,hsetup,-,hccc,-⟩ := setup_noteSpec
  have hflag : (σ.afterAll strangerSubscribes).notificationEnabled.lookup 3 = some true := by
    rw [enabled_afterAll hsetup (hccc 4)]
    decide
  have hown : latest (Callback.ownConfigures 0x40 4) strangerSubscribes = some true := by decide
  exact ⟨σ,hsetup,(subscription_kept_iff hsetup (hccc 4) hown).mp hflag⟩

end BtstackRs.Gatt.Peripheral
