import BtstackRs.Gatt.Peripheral.Frame
import BtstackRs.Transport.Usb

/-!
# The tracked connection

`packet_handler` takes the connection handle of `ATT_EVENT_CONNECTED` from the bytes behind the
length, where the address of the client begins. What is tracked is the connection only for those
clients whose address happens to begin like their handle.
-/

namespace BtstackRs.Gatt.Peripheral

open Sequence Transport Concurrent

inductive AttEvent where
  | connected (addressType : UInt8) (address : Vector UInt8 6) (handle : UInt16)
  | disconnected (handle : UInt16)

/-- Event code and length, and then the address and the handle, or the handle alone. -/
def AttEvent.bytes : AttEvent → Bytes
  | .connected addressType address handle =>
      [attEventConnected,9,addressType,address[0],address[1],address[2],address[3],address[4],
        address[5]] ++ leBytes handle
  | .disconnected handle => [attEventDisconnected,2] ++ leBytes handle

def AttEvent.packet (e : AttEvent) (channel : UInt16) : Packet :=
  ⟨hciEventPacket,channel,some (fun i => e.bytes.getD i 0),UInt16.ofNat e.bytes.length⟩

def Callback.isConnectionEvent : Callback → Bool
  | .packet p => p.connects || p.disconnects
  | _ => false

/-- What BTstack calls: with an event of the ATT server, or with anything else. -/
inductive Call where
  | event (e : AttEvent) (channel : UInt16)
  | other (c : Callback) (h : c.isConnectionEvent = false)

def Call.callback : Call → Callback
  | .event e channel => .packet (e.packet channel)
  | .other c _ => c

def Call.upAfter (up : Option UInt16) : Call → Option UInt16
  | .event (.connected _ _ handle) _ => some handle
  | .event (.disconnected _) _ => none
  | .other _ _ => up

def connection (calls : List Call) : Option UInt16 := calls.foldl Call.upAfter none

/-- A connection is only made while none is up, and only the one that is up ends. -/
def Call.Fits (before : List Call) : Call → Prop
  | .event (.connected _ _ _) _ => connection before = none
  | .event (.disconnected handle) _ => connection before = some handle
  | .other _ _ => True

/-- Calls with at most one connection at a time. -/
structure ConnectionHistory where
  calls : List Call
  oneAtATime : EachAfter Call.Fits calls

/-- After every call the tracked handle is that of the connection. -/
def Tracks (σ : RuntimeState) (calls : List Call) : Prop :=
  ∀ before, before <+: calls →
    (σ.afterAll (before.map Call.callback)).connectedHandle = connection before

/-- The address type and the first byte of the address, taken for a handle. -/
def addressHandle (addressType : UInt8) (address : Vector UInt8 6) : UInt16 :=
  addressType.toUInt16 ||| (address[0].toUInt16 <<< 8)

def Call.tracked (up : Option UInt16) : Call → Option UInt16
  | .event (.connected addressType address _) _ => some (addressHandle addressType address)
  | .event (.disconnected _) _ => none
  | .other _ _ => up

theorem connectedHandle_after (σ : RuntimeState) (call : Call) :
    (σ.after call.callback).connectedHandle = call.tracked σ.connectedHandle := by
  cases call with
  | event e channel =>
    cases e with
    | connected addressType address handle => rfl
    | disconnected handle => rfl
  | other c h =>
    cases c with
    | attRead r => rfl
    | attWrite w =>
      rcases attWriteCallback_cases σ w with ⟨h,-⟩ | ⟨_,_,-,-,h⟩ | ⟨_,_,-,-,-,-,h⟩
      all_goals
        rw [Call.callback,σ.after_attWrite w h]
        rfl
    | packet p =>
      rw [Callback.isConnectionEvent,Bool.or_eq_false_iff] at h
      rw [Call.callback,σ.after_packet_eq,h.1,h.2]
      rfl

theorem connectedHandle_afterAll (σ : RuntimeState) (calls : List Call) :
    (σ.afterAll (calls.map Call.callback)).connectedHandle =
      calls.foldl Call.tracked σ.connectedHandle := by
  induction calls using List.reverseRecOn with
  | nil => rfl
  | append_singleton calls call ih =>
    rw [List.map_append,List.map_singleton,RuntimeState.afterAll_concat,connectedHandle_after,ih,
      List.foldl_append]
    rfl

theorem connection_concat (calls : List Call) (call : Call) :
    connection (calls ++ [call]) = call.upAfter (connection calls) := by
  simp [connection]

variable {database : Bytes → AttDatabase} {order : IterationOrder UInt16 RuntimeCharacteristic}
  {spec : GattPeripheralSpec} {σ : RuntimeState}

theorem setup_connectedHandle (h : setup database order spec = .ok σ) :
    σ.connectedHandle = none := by
  obtain ⟨characteristics,-,rfl⟩ := setup_ok h
  rfl

/-- The tracked connection is the real one exactly as long as the address of every client begins,
with its type before it, like the handle of its connection. -/
theorem tracks_iff (hsetup : setup database order spec = .ok σ) (history : ConnectionHistory) :
    Tracks σ history.calls ↔ ∀ addressType address handle channel,
      .event (.connected addressType address handle) channel ∈ history.calls →
      addressHandle addressType address = handle := by
  constructor
  · intro htracks addressType address handle channel hmem
    obtain ⟨before,after,hcalls⟩ := List.append_of_mem hmem
    have hbefore : before ++ [.event (.connected addressType address handle) channel] <+:
        history.calls := ⟨after,by rw [hcalls]; simp⟩
    have htracked := htracks _ hbefore
    rw [connectedHandle_afterAll,List.foldl_append,connection_concat] at htracked
    exact Option.some.inj htracked
  · intro haddress before hbefore
    have hall : ∀ addressType address handle channel,
        .event (.connected addressType address handle) channel ∈ before →
        addressHandle addressType address = handle :=
      fun addressType address handle channel hmem =>
        haddress addressType address handle channel (hbefore.mem hmem)
    clear hbefore haddress
    rw [connectedHandle_afterAll,setup_connectedHandle hsetup]
    induction before using List.reverseRecOn with
    | nil => rfl
    | append_singleton before call ih =>
      have hbefore := ih (fun addressType address handle channel hmem =>
        hall addressType address handle channel (List.mem_append_left _ hmem))
      rw [List.foldl_append,hbefore,connection_concat]
      cases call with
      | event e channel =>
        cases e with
        | connected addressType address handle =>
          exact congrArg some (hall addressType address handle channel (by simp))
        | disconnected handle => rfl
      | other c h => rfl

def publicClient : Call :=
  .event (.connected 0 #v[0x11,0x22,0x33,0x44,0x55,0x66] 0x0040) 0

def randomClients : List Call :=
  [.event (.connected 1 #v[0,0x22,0x33,0x44,0x55,0x66] 1) 0,.event (.disconnected 1) 0,
    .event (.connected 0 #v[2,0x22,0x33,0x44,0x55,0x66] 0x0200) 0]

theorem publicClient_mistracked : ∃ σ,
    setup (fun _ => numberedDatabase) asStored noteSpec = .ok σ ∧
    EachAfter Call.Fits [publicClient] ∧ ¬Tracks σ [publicClient] := by
  obtain ⟨σ,hsetup,-⟩ := setup_noteSpec
  refine ⟨σ,hsetup,?_,fun htracks => ?_⟩
  · exact eachAfter_concat.mpr ⟨eachAfter_nil _,rfl⟩
  · have htracked := htracks [publicClient] (List.prefix_refl _)
    rw [connectedHandle_afterAll,setup_connectedHandle hsetup] at htracked
    exact absurd htracked (by decide)

theorem tracks_iff_randomClients : ∃ σ,
    setup (fun _ => numberedDatabase) asStored noteSpec = .ok σ ∧ Tracks σ randomClients := by
  obtain ⟨σ,hsetup,-⟩ := setup_noteSpec
  have hfits : EachAfter Call.Fits randomClients :=
    eachAfter_concat.mpr ⟨eachAfter_concat.mpr ⟨eachAfter_concat.mpr ⟨eachAfter_nil _,rfl⟩,rfl⟩,rfl⟩
  refine ⟨σ,hsetup,(tracks_iff hsetup ⟨randomClients,hfits⟩).mpr ?_⟩
  intro addressType address handle channel hmem
  simp only [randomClients,List.mem_cons,Call.event.injEq,AttEvent.connected.injEq,reduceCtorEq,
    List.not_mem_nil,false_and,or_false,false_or] at hmem
  obtain ⟨⟨rfl,rfl,rfl⟩,-⟩ | ⟨⟨rfl,rfl,rfl⟩,-⟩ := hmem
  · rfl
  · rfl

end BtstackRs.Gatt.Peripheral
