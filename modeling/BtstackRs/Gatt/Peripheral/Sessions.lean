import BtstackRs.Gatt.Peripheral.Advertising
import BtstackRs.Gatt.Peripheral.Frame
import BtstackRs.Gatt.Peripheral.Values

/-!
# Servers one after the other

`RUNTIME` is one global that a process fills and clears again and again. What it holds is decided by
the specification of the server that is there and by the calls and requests since its `new`: nothing
is left of an earlier server or of a rejected specification.
-/

namespace BtstackRs.Gatt.Peripheral

open Sequence Transport Concurrent

variable {database : Bytes → AttDatabase} {order : IterationOrder UInt16 RuntimeCharacteristic}

namespace Session

def server (session : Session database order) : Server := ⟨session.number,session.state⟩

def writes (session : Session database order) (handle : UInt16) : List (Patch UInt8) :=
  session.calls.filterMap (session.initial.written handle)

def byte? (session : Session database order) (handle : UInt16) (i : Nat) : Option UInt8 :=
  (session.initial.characteristicsByValueHandle.lookup handle).bind fun ch =>
    let initialValue := ch.spec.initialValue
    if i < initialValue.length ∨ ∃ p ∈ session.writes handle, i < p.limit then
      some ((latest (fun p => p.at? i) (session.writes handle)).getD (initialValue[i]?.getD 0))
    else none

end Session

/-- What a list of actions says about `RUNTIME`. -/
structure Journal (database : Bytes → AttDatabase)
    (order : IterationOrder UInt16 RuntimeCharacteristic) where
  created : Nat := 0
  present : Option (Session database order) := none

namespace Journal

/-- `new` counts where there is no server and everything specified is found. -/
def new (journal : Journal database order) (spec : GattPeripheralSpec) :
    Option (Session database order) :=
  match journal.present with
  | some session => some session
  | none =>
      match h : setup database order spec with
      | .ok initial => some ⟨journal.created,spec,initial,h,[],false⟩
      | .error _ => none

def next (journal : Journal database order) : Action → Journal database order
  | .new spec => ⟨journal.created+1,journal.new spec⟩
  | .setEnabled _ enabled =>
      { journal with present := journal.present.map ({ · with enabled := enabled }) }
  | .callback c =>
      { journal with present :=
        journal.present.map fun session => { session with calls := session.calls ++ [c] } }
  | .dropClear => { journal with present := none }
  | _ => journal

end Journal

def journal (database : Bytes → AttDatabase) (order : IterationOrder UInt16 RuntimeCharacteristic)
    (as : List Action) : Journal database order :=
  as.foldl Journal.next {}

@[simp] theorem journal_concat (as : List Action) (a : Action) :
    journal database order (as ++ [a]) = (journal database order as).next a := by
  simp [journal,List.foldl_append]

theorem RuntimeState.after_advertisingEnabled (σ : RuntimeState) (enabled : Bool) (c : Callback) :
    { σ with advertisingEnabled := enabled }.after c =
      { σ.after c with advertisingEnabled := enabled } := by
  cases c with
  | attRead r => rfl
  | packet p =>
    rw [after_packet_eq,after_packet_eq]
    cases p.connects <;> cases p.disconnects <;> rfl
  | attWrite w =>
    simp only [after,callback,attWriteCallback]
    cases w.buffer with
    | none => rfl
    | some buffer =>
      cases σ.cccToValueHandle.lookup w.attHandle with
      | some valueHandle =>
        dsimp only
        split <;> rfl
      | none =>
        cases σ.characteristicsByValueHandle.lookup w.attHandle with
        | none => rfl
        | some ch =>
          dsimp only
          split <;> rfl

namespace Session

variable (session : Session database order)

theorem state_calls (c : Callback) :
    { session with calls := session.calls ++ [c] }.state = session.state.after c := by
  rw [state,RuntimeState.afterAll_concat]
  exact (RuntimeState.after_advertisingEnabled _ _ c).symm

/-- The values of the present server, byte by byte. -/
theorem value_eq (handle : UInt16) (i : Nat) :
    (session.state.characteristicsByValueHandle.lookup handle).bind (fun ch => ch.value[i]?) =
      session.byte? handle i := by
  rw [state,(session.initial.lookup_afterAll handle session.calls).1,byte?]
  cases hch : session.initial.characteristicsByValueHandle.lookup handle with
  | none => rfl
  | some ch =>
    rw [Option.map_some,Option.bind_some,Option.bind_some,Patch.getElem?_applyAll_eq,
      setup_value session.built hch]
    rfl

end Session

structure Recorded (journal : Journal database order) (s : World) : Prop where
  created : s.created = journal.created
  runtime : s.runtime = journal.present.map Session.server

variable {s t : World} {a : Action} {record : Journal database order}

theorem World.created_new (s : World) (spec : GattPeripheralSpec) :
    (s.new database order spec).1.created = s.created+1 := by
  rcases s.new_cases database order spec with ⟨-,hnew⟩ | ⟨e,-,-,hnew⟩ | ⟨state,-,-,hnew⟩
  all_goals
    rw [hnew]
    rfl

theorem World.runtime_new (hnone : s.runtime = none) (spec : GattPeripheralSpec) :
    (s.new database order spec).1.runtime =
      (setup database order spec).toOption.map (fun state => ⟨s.created,state⟩) := by
  rcases s.new_cases database order spec with ⟨hsome,-⟩ | ⟨e,-,hsetup,hnew⟩ | ⟨state,-,hsetup,hnew⟩
  · rw [hnone] at hsome
    cases hsome
  · rw [hnew,hsetup]
    exact hnone
  · rw [hnew,hsetup]
    rfl

theorem Recorded.new (h : Recorded record s) (spec : GattPeripheralSpec) :
    (s.new database order spec).1.runtime = (record.new spec).map Session.server := by
  cases hpresent : record.present with
  | some session =>
    have hruntime : s.runtime = some session.server := by rw [h.runtime,hpresent,Option.map_some]
    rw [World.new_runtime hruntime,Journal.new,hpresent]
    rfl
  | none =>
    have hruntime : s.runtime = none := by rw [h.runtime,hpresent,Option.map_none]
    rw [World.runtime_new hruntime,Journal.new,hpresent,h.created]
    dsimp only
    split
    · rename_i initial hsetup
      have hfound : (setup database order spec).toOption = some initial := by
        rw [hsetup]
        rfl
      have hoff := setup_advertisingEnabled hsetup
      rw [hfound,Option.map_some,Option.map_some,Session.server,Session.state,
        RuntimeState.afterAll_nil,← hoff]
    · rename_i e hsetup
      rw [hsetup]
      rfl

theorem Recorded.step (h : Recorded record s) (hstep : (server database order).step s a = some t) :
    Recorded (record.next a) t := by
  cases does_of_step hstep with
  | new spec => exact ⟨by rw [World.created_new,h.created]; rfl,h.new spec⟩
  | setEnabled thread enabled present hruntime hfree hkept =>
    refine ⟨h.created,?_⟩
    rw [h.runtime] at hruntime
    obtain ⟨session,hpresent,rfl⟩ := Option.map_eq_some_iff.mp hruntime
    simp only [Journal.next,hpresent,Option.map_some]
    rfl
  | callback c present hruntime =>
    refine ⟨h.created,?_⟩
    rw [h.runtime] at hruntime
    obtain ⟨session,hpresent,rfl⟩ := Option.map_eq_some_iff.mp hruntime
    simp only [Journal.next,hpresent,Option.map_some,Session.server,session.state_calls]
  | noServer c hruntime =>
    refine ⟨h.created,?_⟩
    rw [h.runtime] at hruntime ⊢
    simp only [Journal.next,Option.map_eq_none_iff.mp hruntime,Option.map_none]
  | dropClear hdropping => exact ⟨h.created,rfl⟩
  | _ => exact ⟨h.created,h.runtime⟩

theorem recorded_of_run {as : List Action} (h : (server database order).run World.init as = some s) :
    Recorded (journal database order as) s := by
  apply Machine.run_induction (P := fun as s => Recorded (journal database order as) s) _ _ h
  · exact ⟨rfl,rfl⟩
  · intro as t a u _ hbefore hstep
    rw [journal_concat]
    exact hbefore.step hstep

/-- What `RUNTIME` holds is the present server of the journal: its initial state with the calls and
the last request since its `new`. -/
theorem runtime_eq_journal {as : List Action}
    (h : (server database order).run World.init as = some s) :
    s.runtime = (journal database order as).present.map Session.server :=
  (recorded_of_run h).runtime

def unknownSpec : GattPeripheralSpec :=
  { noteSpec with services := [⟨.uuid128 (Vector.replicate 16 0),[noteCharacteristic.spec]⟩] }

def secondServer : List Action :=
  [.new unknownSpec,.new readOnlySpec,
    .callback (.attWrite ⟨0x40,3,attTransactionModeNone,0,some (fun _ => 9),1⟩),
    .new noteSpec,.dropDisable,.dropClear,.new noteSpec,
    .callback (.attWrite ⟨0x40,3,attTransactionModeNone,2,some (fun _ => 5),1⟩)]

theorem runtime_eq_journal_second : ∃ s,
    (server (fun _ => numberedDatabase) asStored).run World.init secondServer = some s ∧
      s.runtime = (journal (fun _ => numberedDatabase) asStored secondServer).present.map
        Session.server :=
  ⟨_,rfl,runtime_eq_journal rfl⟩

namespace Journal

def byte? (record : Journal database order) (handle : UInt16) (i : Nat) : Option UInt8 :=
  record.present.bind (fun session => session.byte? handle i)

end Journal

theorem HandlesBlob.getElem?_copied {handleBlob : HandleBlob} (hblob : HandlesBlob handleBlob)
    (value : Bytes) (offset : UInt16) (hasBuffer : Bool) (bufferSize : UInt16) (i : Nat) :
    (handleBlob value (UInt16.ofNat value.length) offset hasBuffer bufferSize).copied[i]? =
      if hasBuffer ∧ i < bufferSize.toNat ∧ offset.toNat+i < value.length % 65536 then
        value[offset.toNat+i]? else none := by
  have hle := toNat_lengthCast_le value
  cases hasBuffer with
  | false =>
    rw [hblob.size _ _ _ _ hle]
    simp
  | true =>
    rw [hblob.copy _ _ _ _ hle,UInt16.toNat_ofNat',window,List.getElem?_take,List.getElem?_drop,
      List.getElem?_take]
    simp only [true_and]
    grind

/-- What any read returns in any run: at every position what was last written there to the present
server. All bytes that are asked for are returned unless the value has outgrown 16 bits. -/
theorem read_eq_journal {handleBlob : HandleBlob} (hblob : HandlesBlob handleBlob)
    {as : List Action} (h : (server database order).run World.init as = some s) (r : AttRead)
    (i : Nat) :
    let reply := attReadCallback handleBlob (s.runtime.map Server.state) r
    let byte? := (journal database order as).byte? r.attHandle
    (∀ b, reply.copied[i]? = some b → byte? (r.offset.toNat+i) = some b) ∧
      (byte? 65535 = none → r.hasBuffer → i < r.bufferSize.toNat →
        reply.copied[i]? = byte? (r.offset.toNat+i)) := by
  rw [(recorded_of_run h).runtime,Option.map_map]
  cases hpresent : (journal database order as).present with
  | none => simp [attReadCallback,Journal.byte?,hpresent]
  | some session =>
    have hbyte : ∀ i, (journal database order as).byte? r.attHandle i =
        (session.state.characteristicsByValueHandle.lookup r.attHandle).bind
          (fun ch => ch.value[i]?) := by
      intro i
      rw [Journal.byte?,hpresent,Option.bind_some,session.value_eq]
    have hstate : (some session).map (Server.state ∘ Session.server) = some session.state := rfl
    simp only [hbyte,hstate,attReadCallback]
    cases hch : session.state.characteristicsByValueHandle.lookup r.attHandle with
    | none => simp
    | some ch =>
      simp only [Option.bind_some,hblob.getElem?_copied]
      constructor
      · intro b hb
        split at hb
        · exact hb
        · cases hb
      · intro hshort hbuffer hi
        have hlength : ch.value.length % 65536 = ch.value.length :=
          Nat.mod_eq_of_lt (Nat.lt_succ_of_le (List.getElem?_eq_none_iff.mp hshort))
        rw [hlength]
        split
        · rfl
        · rename_i hbeyond
          refine (List.getElem?_eq_none ?_).symm
          exact Nat.not_lt.mp (fun hlt => hbeyond ⟨hbuffer,hi,hlt⟩)

theorem read_eq_journal_second : ∃ s,
    (server (fun _ => numberedDatabase) asStored).run World.init secondServer = some s ∧
    (attReadCallback documentedHandleBlob (s.runtime.map Server.state)
      ⟨0x41,3,1,true,20⟩).copied[1]? = some 5 := by
  have hbyte : (journal (fun _ => numberedDatabase) asStored secondServer).byte? 3 2 = some 5 := rfl
  have hshort : (journal (fun _ => numberedDatabase) asStored secondServer).byte? 3 65535 =
      none := rfl
  exact ⟨_,rfl,((read_eq_journal documentedHandleBlob_handlesBlob rfl ⟨0x41,3,1,true,20⟩ 1).2 hshort
    rfl (by decide)).trans hbyte⟩

end BtstackRs.Gatt.Peripheral
