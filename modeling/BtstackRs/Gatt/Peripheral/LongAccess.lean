import BtstackRs.Gatt.Peripheral.Values

/-!
# Long writes and long reads

A client that writes a value in chunks and then reads it in pieces gets back what it wrote, in
whatever order and with whatever overlaps the chunks came, and whatever else happened meanwhile.
-/

namespace BtstackRs.Gatt.Peripheral

open Sequence Transport Concurrent

/-- The chunk that a call writes to this handle. -/
def chunk (handle : UInt16) : Callback → Option (Patch UInt8)
  | .attWrite w => if w.attHandle = handle then w.patch else none
  | _ => none

/-- The offset reached by the first reads of a long read, each at the offset reached before. -/
def offsetReached (handleBlob : HandleBlob) (runtime : Option RuntimeState)
    (connectionHandle handle : UInt16) (sizes : Nat → UInt16) : Nat → Nat
  | 0 => 0
  | n+1 =>
      let offset := offsetReached handleBlob runtime connectionHandle handle sizes n
      offset+(attReadCallback handleBlob runtime
        ⟨connectionHandle,handle,UInt16.ofNat offset,true,sizes n⟩).returned.toNat

/-- The reads of a long read. -/
def longRead (handleBlob : HandleBlob) (runtime : Option RuntimeState)
    (connectionHandle handle : UInt16) (sizes : Nat → UInt16) (n : Nat) : ReadReply :=
  attReadCallback handleBlob runtime ⟨connectionHandle,handle,
    UInt16.ofNat (offsetReached handleBlob runtime connectionHandle handle sizes n),true,sizes n⟩

variable {handleBlob : HandleBlob} {σ : RuntimeState} {handle : UInt16} {ch : RuntimeCharacteristic}

section

variable (hblob : HandlesBlob handleBlob)
  (hch : σ.characteristicsByValueHandle.lookup handle = some ch) (hlen : ch.value.length ≤ 65535)
  (connectionHandle : UInt16) (sizes : Nat → UInt16)

include hblob hch hlen

private theorem read_at {offset : Nat} (hoffset : offset ≤ ch.value.length) (size : UInt16) :
    let reply := attReadCallback handleBlob (some σ)
      ⟨connectionHandle,handle,UInt16.ofNat offset,true,size⟩
    reply.copied = window ch.value offset size.toNat ∧
      reply.returned.toNat = reply.copied.length := by
  have hcast : (UInt16.ofNat offset).toNat = offset := by
    rw [UInt16.toNat_ofNat']
    exact Nat.mod_eq_of_lt (by omega)
  have hread := attReadCallback_copy hblob hch (by omega) connectionHandle (UInt16.ofNat offset) size
  rwa [hcast] at hread

theorem offsetReached_eq (n : Nat) :
    offsetReached handleBlob (some σ) connectionHandle handle sizes n =
      reached ch.value (fun k => (sizes k).toNat) n := by
  induction n with
  | zero => rfl
  | succ n ih =>
    have hle := reached_le ch.value (fun k => (sizes k).toNat) n
    obtain ⟨hcopied,hreturned⟩ := read_at hblob hch hlen connectionHandle hle (sizes n)
    rw [offsetReached,ih,hreturned,hcopied,reached]

theorem longRead_eq (n : Nat) :
    let reply := longRead handleBlob (some σ) connectionHandle handle sizes n
    reply.copied =
        window ch.value (reached ch.value (fun k => (sizes k).toNat) n) (sizes n).toNat ∧
      reply.returned.toNat = reply.copied.length := by
  rw [longRead,offsetReached_eq hblob hch hlen]
  exact read_at hblob hch hlen connectionHandle (reached_le _ _ n) (sizes n)

theorem longRead_value (hsizes : ∀ n, sizes n ≠ 0) :
    (List.range ch.value.length).flatMap
        (fun k => (longRead handleBlob (some σ) connectionHandle handle sizes k).copied) = ch.value ∧
      ∀ m, ch.value.length ≤ m →
        longRead handleBlob (some σ) connectionHandle handle sizes m = ⟨[],0⟩ := by
  have hpos : ∀ k, 0 < (sizes k).toNat := fun k => by
    have hne := hsizes k
    rw [ne_eq,← UInt16.toNat_inj] at hne
    exact Nat.pos_of_ne_zero hne
  constructor
  · have hwindows := flatMap_windows ch.value (fun k => (sizes k).toNat) ch.value.length
    rw [reached_eq_length ch.value hpos (Nat.le_refl _),List.take_length] at hwindows
    refine Eq.trans ?_ hwindows
    congr 1
    funext k
    exact (longRead_eq hblob hch hlen connectionHandle sizes k).1
  · intro m hm
    obtain ⟨hcopied,hreturned⟩ := longRead_eq hblob hch hlen connectionHandle sizes m
    rw [reached_eq_length ch.value hpos hm,window_eq_nil (Nat.le_refl _)] at hcopied
    rw [hcopied,List.length_nil] at hreturned
    generalize longRead handleBlob (some σ) connectionHandle handle sizes m = reply at *
    rcases reply with ⟨copied,returned⟩
    rw [ReadReply.mk.injEq]
    exact ⟨hcopied,UInt16.toNat_inj.mp hreturned⟩

end

/-- Chunks of `v` that cover it leave `v`, whatever the other calls do. -/
theorem value_afterAll_of_chunks {v : Bytes}
    (hch : σ.characteristicsByValueHandle.lookup handle = some ch)
    (hwritable : ch.spec.writable = true) (hccc : handle ∉ σ.cccToValueHandle)
    (hshort : ch.value.length ≤ v.length) {cs : List Callback}
    (hslice : ∀ p ∈ cs.filterMap (chunk handle), p.IsSlice v)
    (hcover : ∀ i, i < v.length → ∃ p ∈ cs.filterMap (chunk handle), (p.at? i).isSome) :
    (σ.afterAll cs).characteristicsByValueHandle.lookup handle = some { ch with value := v } := by
  have haccepts : σ.accepts handle = true := by
    rw [RuntimeState.accepts,hch,AList.lookup_eq_none.mpr hccc,Option.any_some,hwritable]
    rfl
  have hwritten : σ.written handle = chunk handle := by
    funext c
    cases c with
    | attWrite w => simp [RuntimeState.written,chunk,haccepts]
    | attRead r => rfl
    | packet p => rfl
  rw [(σ.lookup_afterAll handle cs).1,hch,Option.map_some,hwritten,
    Patch.applyAll_eq_of_slices hshort hslice hcover]

/-- A long write, interleaved with anything else, and a long read after it: the identity. -/
theorem longWrite_longRead {v : Bytes} (hv : v.length ≤ 65535) (hblob : HandlesBlob handleBlob)
    (hch : σ.characteristicsByValueHandle.lookup handle = some ch)
    (hwritable : ch.spec.writable = true) (hccc : handle ∉ σ.cccToValueHandle)
    (hshort : ch.value.length ≤ v.length) (cs : List Callback)
    (hslice : ∀ p ∈ cs.filterMap (chunk handle), p.IsSlice v)
    (hcover : ∀ i, i < v.length → ∃ p ∈ cs.filterMap (chunk handle), (p.at? i).isSome)
    (connectionHandle : UInt16) (sizes : Nat → UInt16) (hsizes : ∀ n, sizes n ≠ 0) :
    ∃ n, (List.range n).flatMap (fun k =>
        (longRead handleBlob (some (σ.afterAll cs)) connectionHandle handle sizes k).copied) = v ∧
      ∀ m, n ≤ m →
        longRead handleBlob (some (σ.afterAll cs)) connectionHandle handle sizes m = ⟨[],0⟩ := by
  have hafter := value_afterAll_of_chunks hch hwritable hccc hshort hslice hcover
  exact ⟨v.length,longRead_value hblob hafter hv connectionHandle sizes hsizes⟩

def noteChunks : List Callback :=
  [.attWrite ⟨0x40,3,attTransactionModeActive,1,some (fun i => [2,3].getD i 0),2⟩,
    .attWrite ⟨0x40,3,attTransactionModeActive,0,some (fun i => [1,2].getD i 0),2⟩]

theorem longWrite_longRead_note : ∃ σ,
    setup (fun _ => numberedDatabase) asStored noteSpec = .ok σ ∧
      ∃ n, (List.range n).flatMap (fun k => (longRead documentedHandleBlob
          (some (σ.afterAll noteChunks)) 0x40 3 (fun _ => 2) k).copied) = [1,2,3] ∧
        ∀ m, n ≤ m → longRead documentedHandleBlob (some (σ.afterAll noteChunks)) 0x40 3
          (fun _ => 2) m = ⟨[],0⟩ := by
  obtain ⟨σ,hsetup,hch,hccc,-⟩ := setup_noteSpec
  have hnot : (3 : UInt16) ∉ σ.cccToValueHandle := by
    rw [← AList.lookup_eq_none,hccc]
    rfl
  have hchunks : noteChunks.filterMap (chunk 3) = [⟨1,[2,3]⟩,⟨0,[1,2]⟩] := rfl
  have hslice : ∀ p ∈ noteChunks.filterMap (chunk 3), p.IsSlice [1,2,3] := by
    intro p hp
    rw [hchunks] at hp
    rcases List.mem_pair.mp hp with rfl | rfl
    · exact ⟨[1],[],rfl,rfl⟩
    · exact ⟨[],[3],rfl,rfl⟩
  have hcover : ∀ i, i < [1,2,3].length →
      ∃ p ∈ noteChunks.filterMap (chunk 3), (p.at? i).isSome := by
    rw [hchunks]
    decide
  exact ⟨σ,hsetup,longWrite_longRead (by decide) documentedHandleBlob_handlesBlob (hch 3) rfl hnot
    (by decide) _ hslice hcover 0x40 (fun _ => 2) (fun _ => by decide)⟩

end BtstackRs.Gatt.Peripheral
