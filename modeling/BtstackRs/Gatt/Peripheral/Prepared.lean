import BtstackRs.Gatt.Peripheral.Values

/-!
# Prepared writes

A long write comes as calls in the mode `ATT_TRANSACTION_MODE_ACTIVE` and ends with a call without
a buffer, which executes or cancels it. `att_write_callback` never looks at the mode: the writes
are applied as they come.
-/

namespace BtstackRs.Gatt.Peripheral

open Sequence Transport Concurrent

/-- A call within a transaction: a prepared write, or a read in between. -/
def Callback.Queued : Callback → Prop
  | .attRead _ => True
  | .attWrite w => w.transactionMode = attTransactionModeActive
  | .packet _ => False

def endTransaction (transactionMode connectionHandle attHandle offset : UInt16) : AttWrite :=
  ⟨connectionHandle,attHandle,transactionMode,offset,none,0⟩

/-- All values and flags agree. -/
def SameAttributes (σ τ : RuntimeState) : Prop :=
  ∀ handle, (τ.characteristicsByValueHandle.lookup handle).map (fun ch => ch.value) =
      (σ.characteristicsByValueHandle.lookup handle).map (fun ch => ch.value) ∧
    τ.notificationEnabled.lookup handle = σ.notificationEnabled.lookup handle

/-- `τ` has the values of `σ` with the stored writes applied in order. -/
def AppliedInOrder (σ : RuntimeState) (cs : List Callback) (τ : RuntimeState) : Prop :=
  ∀ handle ch, σ.characteristicsByValueHandle.lookup handle = some ch →
    τ.characteristicsByValueHandle.lookup handle =
      some { ch with value := Patch.applyAll 0 ch.value (cs.filterMap (σ.written handle)) }

/-- The calls carry nothing new: no write reaches beyond the end of its value, the last one at
every position carries the byte that stands there, and the last client configuration of every
characteristic carries its flag. -/
structure RuntimeState.Restores (σ : RuntimeState) (cs : List Callback) : Prop where
  inside : ∀ handle ch, σ.characteristicsByValueHandle.lookup handle = some ch →
    ∀ p ∈ cs.filterMap (σ.written handle), p.limit ≤ ch.value.length
  bytes : ∀ handle ch, σ.characteristicsByValueHandle.lookup handle = some ch →
    ∀ i b, latest (fun p => p.at? i) (cs.filterMap (σ.written handle)) = some b →
      ch.value[i]? = some b
  flags : ∀ handle enabled, σ.notificationEnabled.lookup handle = some enabled →
    ∀ bit, latest (σ.flagSet handle) cs = some bit → bit = enabled

variable {database : Bytes → AttDatabase} {order : IterationOrder UInt16 RuntimeCharacteristic}
  {σ : RuntimeState}

/-- A call without a buffer does nothing, whatever its mode. -/
theorem after_endTransaction (σ : RuntimeState)
    (transactionMode connectionHandle attHandle offset : UInt16) :
    σ.after (.attWrite (endTransaction transactionMode connectionHandle attHandle offset)) = σ :=
  rfl

private theorem value_afterAll_iff {handle : UInt16} {ch : RuntimeCharacteristic}
    (hch : σ.characteristicsByValueHandle.lookup handle = some ch) (cs : List Callback) :
    ((σ.afterAll cs).characteristicsByValueHandle.lookup handle).map (fun ch => ch.value) =
        (σ.characteristicsByValueHandle.lookup handle).map (fun ch => ch.value) ↔
      (∀ p ∈ cs.filterMap (σ.written handle), p.limit ≤ ch.value.length) ∧
        ∀ i b, latest (fun p => p.at? i) (cs.filterMap (σ.written handle)) = some b →
          ch.value[i]? = some b := by
  rw [(σ.lookup_afterAll handle cs).1,hch,Option.map_some,Option.map_some,Option.map_some,
    Option.some.injEq]
  exact Patch.applyAll_eq_self_iff

private theorem flag_afterAll_iff {handle : UInt16} {enabled : Bool}
    (hflag : σ.notificationEnabled.lookup handle = some enabled) (cs : List Callback) :
    (σ.afterAll cs).notificationEnabled.lookup handle = σ.notificationEnabled.lookup handle ↔
      ∀ bit, latest (σ.flagSet handle) cs = some bit → bit = enabled := by
  rw [(σ.flag_afterAll hflag cs).1,hflag,Option.some.injEq]
  cases latest (σ.flagSet handle) cs with
  | none => simp
  | some bit => simp

/-- The prepared writes of a cancelled transaction are undone exactly when they carried nothing
new. An executed one has its writes applied in order. -/
theorem cancelled_unchanged_iff (session : Session database order) (cs : List Callback)
    (connectionHandle attHandle offset : UInt16) :
    (SameAttributes session.state ((session.state.afterAll cs).after (.attWrite
        (endTransaction attTransactionModeCancel connectionHandle attHandle offset))) ↔
      session.state.Restores cs) ∧
    AppliedInOrder session.state cs ((session.state.afterAll cs).after (.attWrite
      (endTransaction attTransactionModeExecute connectionHandle attHandle offset))) := by
  rw [after_endTransaction,after_endTransaction]
  refine ⟨⟨fun h => ?_,fun h handle => ⟨?_,?_⟩⟩,?_⟩
  · have hvalue := fun handle ch
      (hch : session.state.characteristicsByValueHandle.lookup handle = some ch) =>
        (value_afterAll_iff hch cs).mp (h handle).1
    refine ⟨fun handle ch hch => (hvalue handle ch hch).1,fun handle ch hch =>
      (hvalue handle ch hch).2,fun handle enabled hflag => ?_⟩
    exact (flag_afterAll_iff hflag cs).mp (h handle).2
  · cases hch : session.state.characteristicsByValueHandle.lookup handle with
    | none => rw [(session.state.lookup_afterAll handle cs).1,hch,Option.map_none]
    | some ch =>
      rw [← hch]
      exact (value_afterAll_iff hch cs).mpr ⟨h.inside handle ch hch,h.bytes handle ch hch⟩
  · cases hflag : session.state.notificationEnabled.lookup handle with
    | none =>
      rw [AList.lookup_eq_none] at hflag ⊢
      exact fun hmem => hflag (((session.state_flagged.mem_afterAll cs).2 handle).mp hmem)
    | some enabled =>
      rw [← hflag]
      exact (flag_afterAll_iff hflag cs).mpr (h.flags handle enabled hflag)
  · intro handle ch hch
    rw [(session.state.lookup_afterAll handle cs).1,hch,Option.map_some]

def preparedByte (byte : UInt8) : Callback :=
  .attWrite ⟨0x40,3,attTransactionModeActive,0,some (fun _ => byte),1⟩

private theorem written_preparedByte (byte : UInt8) :
    ∃ session : Session (fun _ => numberedDatabase) asStored,
    session.spec = noteSpec ∧ session.state.advertisingEnabled = true ∧
    (∀ handle ch, session.state.characteristicsByValueHandle.lookup handle = some ch →
      ch.value = [7] ∧
        [preparedByte byte].filterMap (session.state.written handle) = [⟨0,[byte]⟩]) ∧
    (session.state.characteristicsByValueHandle.lookup 3).isSome := by
  obtain ⟨σ,hsetup,hch,hccc,-⟩ := setup_noteSpec
  refine ⟨⟨0,noteSpec,σ,hsetup,[],true⟩,rfl,rfl,?_,?_⟩
  · intro handle ch hlookup
    have haccepts : σ.accepts 3 = true := by
      rw [RuntimeState.accepts,hccc,hch]
      rfl
    have haccepts' : { σ with advertisingEnabled := true }.accepts 3 = true := haccepts
    change σ.characteristicsByValueHandle.lookup handle = some ch at hlookup
    rw [hch] at hlookup
    split at hlookup
    · rename_i hhandle
      subst hhandle
      cases hlookup
      refine ⟨rfl,?_⟩
      simp [Session.state,preparedByte,RuntimeState.written,haccepts',AttWrite.patch,Memory.bytes]
    · cases hlookup
  · show (σ.characteristicsByValueHandle.lookup 3).isSome
    rw [hch]
    rfl

theorem preparedByte_survivesCancel :
    ∃ session : Session (fun _ => numberedDatabase) asStored,
      session.spec = noteSpec ∧ session.state.advertisingEnabled = true ∧
      (∀ c ∈ [preparedByte 9], c.Queued) ∧
      ¬SameAttributes session.state ((session.state.afterAll [preparedByte 9]).after
        (.attWrite (endTransaction attTransactionModeCancel 0x40 0 0))) := by
  obtain ⟨session,hspec,hadvertising,hwritten,hsome⟩ := written_preparedByte 9
  obtain ⟨ch,hch⟩ := Option.isSome_iff_exists.mp hsome
  refine ⟨session,hspec,hadvertising,?_,fun hsame => ?_⟩
  · intro c hc
    cases List.mem_singleton.mp hc
    exact rfl
  · have hbyte := ((value_afterAll_iff hch [preparedByte 9]).mp (hsame 3).1).2 0 9
    rw [(hwritten 3 ch hch).1,(hwritten 3 ch hch).2] at hbyte
    exact absurd (hbyte rfl) (by decide)

/-- The byte that already stands there. -/
theorem cancelled_unchanged_iff_sameByte :
    ∃ session : Session (fun _ => numberedDatabase) asStored,
      session.spec = noteSpec ∧ session.state.advertisingEnabled = true ∧
      SameAttributes session.state ((session.state.afterAll [preparedByte 7]).after
        (.attWrite (endTransaction attTransactionModeCancel 0x40 0 0))) := by
  obtain ⟨session,hspec,hadvertising,hwritten,-⟩ := written_preparedByte 7
  refine ⟨session,hspec,hadvertising,
    (cancelled_unchanged_iff session [preparedByte 7] 0x40 0 0).1.mpr ?_⟩
  constructor
  · intro handle ch hch p hp
    rw [(hwritten handle ch hch).2,List.mem_singleton] at hp
    rw [(hwritten handle ch hch).1,hp]
    decide
  · intro handle ch hch i b hb
    rw [(hwritten handle ch hch).2] at hb
    rw [(hwritten handle ch hch).1]
    cases i with
    | zero => exact hb
    | succ i => exact hb
  · intro handle enabled hflag bit hbit
    have hnone : session.state.flagSet handle (preparedByte 7) = none := by
      simp [preparedByte,RuntimeState.flagSet,AttWrite.bit]
    rw [latest_eq_none_iff.mpr (by simpa using hnone)] at hbit
    cases hbit

end BtstackRs.Gatt.Peripheral
