import BtstackRs.Gatt.Peripheral.Server

/-!
# Memory lent to BTstack

BTstack keeps pointers to the ATT database and to the advertising data. The latter lies in a
configuration that `new` moves into `RUNTIME`; the former stays in the specification, which is
dropped when `new` returns.
-/

namespace BtstackRs.Gatt.Peripheral

open Sequence Transport Concurrent

variable {database : Bytes → AttDatabase} {order : IterationOrder UInt16 RuntimeCharacteristic}
  {s t : World} {a : Action}

namespace World

/-- What BTstack retains is still owned by `RUNTIME`. -/
def Lent (s : World) : Prop :=
  (∀ b, s.btstack.attDatabase = some b → s.owner b = .runtime) ∧
    ∀ b, s.retainedData = some b → s.owner b = .runtime

/-- BTstack retains something of this specification. -/
def RetainsOf (s : World) (number : Nat) : Prop :=
  s.btstack.attDatabase = some (.profileData number) ∨
    s.retainedData = some (.advertisingData number)

end World

/-- What holds of the owners between the calls, until a server is dropped. -/
structure Owned (s : World) : Prop where
  noSpec : ∀ b, s.owner b ≠ .spec
  profileData : ∀ k, s.owner (.profileData k) ≠ .runtime
  retained : ∀ b, s.btstack.attDatabase = some b → ∃ k, k < s.created ∧ b = .profileData k
  initialised : ∀ server, s.runtime = some server → s.btstack.attDatabase.isSome
  moved : ∀ server, s.runtime = some server →
    server.number < s.created ∧ s.owner (.advertisingData server.number) = .runtime
  handed : ∀ length b, .setData length b ∈ s.btstack.gapCalls ++ s.remaining →
    ∃ server, s.runtime = some server ∧ b = .advertisingData server.number

theorem owned_init : Owned World.init where
  noSpec := by simp [World.init]
  profileData := by simp [World.init]
  retained := by simp [World.init]
  initialised := by simp [World.init]
  moved := by simp [World.init]
  handed := by simp [World.init,World.remaining]

@[simp] theorem World.dropSpec_owner_eq_runtime_iff {b : Buffer} :
    s.dropSpec.owner b = .runtime ↔ s.owner b = .runtime := by
  simp only [World.dropSpec]
  split
  · rename_i hspec
    simp [hspec]
  · rfl

theorem World.dropSpec_owner_ne_spec (s : World) (b : Buffer) : s.dropSpec.owner b ≠ .spec := by
  simp only [World.dropSpec]
  split
  · simp
  · assumption

theorem Owned.of_dropSpec (hprofile : ∀ k, s.owner (.profileData k) ≠ .runtime)
    (hretained : ∀ b, s.btstack.attDatabase = some b → ∃ k, k < s.created ∧ b = .profileData k)
    (hinitialised : ∀ server, s.runtime = some server → s.btstack.attDatabase.isSome)
    (hmoved : ∀ server, s.runtime = some server →
      server.number < s.created ∧ s.owner (.advertisingData server.number) = .runtime)
    (hhanded : ∀ length b, .setData length b ∈ s.btstack.gapCalls ++ s.remaining →
      ∃ server, s.runtime = some server ∧ b = .advertisingData server.number) :
    Owned s.dropSpec where
  noSpec := s.dropSpec_owner_ne_spec
  profileData := fun k hk => hprofile k (World.dropSpec_owner_eq_runtime_iff.mp hk)
  retained := hretained
  initialised := hinitialised
  moved := fun server hruntime =>
    ⟨(hmoved server hruntime).1,World.dropSpec_owner_eq_runtime_iff.mpr (hmoved server hruntime).2⟩
  handed := hhanded

theorem Owned.takeSpec_profileData (hs : Owned s) (k : Nat) :
    s.takeSpec.owner (.profileData k) ≠ .runtime := by
  have hk := hs.profileData k
  simp only [World.takeSpec]
  split
  · simp
  · exact hk

theorem Owned.new (hs : Owned s) (spec : GattPeripheralSpec) :
    Owned (s.new database order spec).1 := by
  have hlent : ∀ b, some (Buffer.profileData s.created) = some b →
      ∃ k, k < s.created+1 ∧ b = .profileData k := by
    intro b hb
    cases hb
    exact ⟨s.created,Nat.lt_succ_self _,rfl⟩
  rcases World.new_cases database order s spec with
    ⟨hsome,hnew⟩ | ⟨e,hnone,-,hnew⟩ | ⟨state,hnone,hsetup,hnew⟩
  · rw [hnew]
    refine Owned.of_dropSpec hs.takeSpec_profileData ?_ hs.initialised ?_ hs.handed
    · intro b hb
      obtain ⟨k,hk,rfl⟩ := hs.retained b hb
      exact ⟨k,Nat.lt_succ_of_lt hk,rfl⟩
    · intro server hruntime
      obtain ⟨hlt,howner⟩ := hs.moved server hruntime
      refine ⟨Nat.lt_succ_of_lt hlt,?_⟩
      have hne : Buffer.advertisingData server.number ≠ .advertisingData s.created :=
        fun heq => Nat.ne_of_lt hlt (Buffer.advertisingData.inj heq)
      simp [World.takeSpec,hne,howner]
  · rw [hnew]
    refine Owned.of_dropSpec hs.takeSpec_profileData hlent (fun _ _ => rfl) ?_ hs.handed
    intro server hruntime
    have hcontra : s.runtime = some server := hruntime
    rw [hnone] at hcontra
    cases hcontra
  · rw [hnew]
    refine Owned.of_dropSpec ?_ hlent (fun _ _ => rfl) ?_ ?_
    · intro k
      have hk := hs.takeSpec_profileData k
      simpa [World.initCall,World.storeRuntime,World.wired,World.attServerInit] using hk
    · intro server hruntime
      cases hruntime
      exact ⟨Nat.lt_succ_self _,if_pos (.inl rfl)⟩
    · intro length b hb
      obtain ⟨server,hruntime,-⟩ := hs.handed length b hb
      rw [hnone] at hruntime
      cases hruntime

theorem setData_mem_update {runtime : Option Server} {length : UInt8} {b : Buffer}
    (h : .setData length b ∈ runLoopAdvertisingUpdate runtime) :
    ∃ server, runtime = some server ∧ b = .advertisingData server.number := by
  cases runtime with
  | none => cases h
  | some server =>
    refine ⟨server,rfl,?_⟩
    simp only [runLoopAdvertisingUpdate] at h
    split at h
    · simp at h
      exact h.2
    · simp at h

theorem Owned.calling (hs : Owned s) (howner : t.owner = s.owner) (hruntime : t.runtime = s.runtime)
    (hcreated : t.created = s.created)
    (hdatabase : t.btstack.attDatabase = s.btstack.attDatabase)
    (hcalls : ∀ call ∈ t.btstack.gapCalls ++ t.remaining,
      call ∈ s.btstack.gapCalls ++ s.remaining ∨ call ∈ runLoopAdvertisingUpdate s.runtime ∨
        call = .enable false) : Owned t where
  noSpec := howner ▸ hs.noSpec
  profileData := howner ▸ hs.profileData
  retained := by
    rw [hdatabase,hcreated]
    exact hs.retained
  initialised := by
    rw [hruntime,hdatabase]
    exact hs.initialised
  moved := by
    rw [hruntime,hcreated,howner]
    exact hs.moved
  handed := by
    intro length b hb
    rw [hruntime]
    rcases hcalls _ hb with hold | hupdate | hother
    · exact hs.handed length b hold
    · exact setData_mem_update hupdate
    · cases hother

theorem Owned.updating (hs : Owned s) {server : Server} (hruntime : s.runtime = some server)
    (state : RuntimeState) (callers : List Nat) :
    Owned { s with runtime := some { server with state := state }, callers := callers } where
  noSpec := hs.noSpec
  profileData := hs.profileData
  retained := hs.retained
  initialised := fun _ _ => hs.initialised server hruntime
  moved := by
    intro server' heq
    cases heq
    exact hs.moved server hruntime
  handed := by
    intro length b hb
    obtain ⟨server',hruntime',rfl⟩ := hs.handed length b hb
    rw [hruntime] at hruntime'
    cases hruntime'
    exact ⟨_,rfl,rfl⟩

theorem Owned.step (hs : Owned s) (h : (server database order).step s a = some t)
    (hkept : a ≠ .dropClear) : Owned t := by
  cases does_of_step h with
  | new spec => exact hs.new spec
  | setEnabled thread enabled server hruntime _ _ => exact hs.updating hruntime _ _
  | register thread _ => exact hs.calling rfl rfl rfl rfl fun _ => .inl
  | update _ hidle =>
    refine hs.calling rfl rfl rfl rfl fun call hcall => ?_
    simp only [World.remaining,hidle,List.append_nil,List.mem_append] at hcall
    exact hcall.imp (List.mem_append_left _) .inl
  | remove _ hidle =>
    refine hs.calling rfl rfl rfl rfl fun call hcall => .inl ?_
    simpa only [World.remaining,hidle] using hcall
  | look hexecuting =>
    refine hs.calling rfl rfl rfl rfl fun call hcall => ?_
    simp only [World.remaining,List.mem_append] at hcall
    exact hcall.imp (List.mem_append_left _) .inl
  | issue call calls hexecuting =>
    refine hs.calling rfl rfl rfl rfl fun call hcall => .inl ?_
    simpa only [World.remaining,World.gapCall,hexecuting,List.append_assoc,
      List.singleton_append] using hcall
  | finish hexecuting =>
    refine hs.calling rfl rfl rfl rfl fun call hcall => .inl ?_
    simpa only [World.remaining,hexecuting] using hcall
  | callback c server hruntime => exact hs.updating hruntime _ _
  | noServer c _ => exact hs
  | dropDisable server _ _ _ =>
    refine hs.calling rfl rfl rfl rfl fun call hcall => ?_
    simp only [World.remaining,World.gapCall,List.mem_append,List.mem_singleton] at hcall ⊢
    rcases hcall with (hold | hdisable) | hleft
    · exact .inl (.inl hold)
    · exact .inr (.inr hdisable)
    · exact .inl (.inr hleft)
  | dropClear _ => exact absurd rfl hkept

theorem Owned.retainedData_eq (hs : Owned s) {b : Buffer} (hb : s.retainedData = some b) :
    ∃ server, s.runtime = some server ∧ b = .advertisingData server.number := by
  obtain ⟨⟨length,_⟩,hlatest,rfl⟩ := Option.map_eq_some_iff.mp hb
  obtain ⟨before,call,after,hcalls,hcall,-⟩ := latest_eq_some_iff.mp hlatest
  cases call with
  | setData length data =>
    cases hcall
    exact hs.handed length _ (by simp [hcalls])
  | setParams => cases hcall
  | enable enabled => cases hcall

theorem Owned.retainedData (hs : Owned s) {b : Buffer} (hb : s.retainedData = some b) :
    s.owner b = .runtime := by
  obtain ⟨server,hruntime,rfl⟩ := hs.retainedData_eq hb
  exact (hs.moved server hruntime).2

/-- A failing `new` leaves nothing of its specification with BTstack exactly if there was a server
already. -/
theorem Owned.rejected_iff (hs : Owned s) {spec : GattPeripheralSpec} {e : GattPeripheralError}
    (he : (s.new database order spec).2 = .error e) :
    ¬(s.new database order spec).1.RetainsOf s.created ↔ s.runtime.isSome := by
  rcases World.new_cases database order s spec with
    ⟨hsome,hnew⟩ | ⟨e',hnone,-,hnew⟩ | ⟨state,hnone,hsetup,hnew⟩
  · refine iff_of_true ?_ hsome
    rw [hnew]
    rintro (hretained | hretained)
    · obtain ⟨k,hk,heq⟩ := hs.retained _ hretained
      cases heq
      exact Nat.lt_irrefl _ hk
    · obtain ⟨server,hruntime,heq⟩ := hs.retainedData_eq hretained
      have hlt := (hs.moved server hruntime).1
      have hnumber := Buffer.advertisingData.inj heq
      omega
  · refine iff_of_false ?_ (by simp [hnone])
    rw [hnew]
    exact fun hnot => hnot (.inl rfl)
  · rw [hnew] at he
    cases he

theorem Owned.attDatabase_step (hs : Owned s) (h : (server database order).step s a = some t) :
    t.btstack.attDatabase.isSome ↔ (∃ spec, a = .new spec) ∨ s.btstack.attDatabase.isSome := by
  cases does_of_step h with
  | new spec =>
    refine iff_of_true ?_ (.inl ⟨spec,rfl⟩)
    rcases World.new_cases database order s spec with
      ⟨hsome,hnew⟩ | ⟨e,hnone,-,hnew⟩ | ⟨state,hnone,hsetup,hnew⟩
    · obtain ⟨server,hruntime⟩ := Option.isSome_iff_exists.mp hsome
      rw [hnew]
      exact hs.initialised server hruntime
    · rw [hnew]
      rfl
    · rw [hnew]
      rfl
  | _ => simp [World.executeOnMainThread,World.gapCall,World.clearRuntime]

/-- The database is lent until it is handed over. The advertising data stays lent, and a failing
`new` leaves something of its specification unless there was a server. -/
theorem lent_iff {as : List Action} (hrun : (server database order).run World.init as = some s)
    (hkept : ∀ a ∈ as, a ≠ .dropClear) :
    (s.Lent ↔ ∀ spec, .new spec ∉ as) ∧ (∀ b, s.retainedData = some b → s.owner b = .runtime) ∧
      ∀ spec e, (s.new database order spec).2 = .error e →
        (¬(s.new database order spec).1.RetainsOf s.created ↔ s.runtime.isSome) := by
  have hinv : Owned s ∧ (s.btstack.attDatabase.isSome ↔ ∃ spec, .new spec ∈ as) := by
    refine Machine.run_induction (P := fun as s => (∀ a ∈ as, a ≠ .dropClear) → Owned s ∧
      (s.btstack.attDatabase.isSome ↔ ∃ spec, .new spec ∈ as)) ?_ ?_ hrun hkept
    · exact fun _ => ⟨owned_init,by simp [World.init]⟩
    · intro as s a t _ ih hstep hkept
      obtain ⟨howned,hdatabase⟩ := ih fun a ha => hkept a (List.mem_append_left _ ha)
      refine ⟨howned.step hstep (hkept a (by simp)),?_⟩
      rw [howned.attDatabase_step hstep,hdatabase]
      simp only [List.mem_append,List.mem_singleton,eq_comm (a := a)]
      grind
  obtain ⟨howned,hdatabase⟩ := hinv
  refine ⟨?_,fun b hb => howned.retainedData hb,fun spec e he => howned.rejected_iff he⟩
  constructor
  · intro hlent spec hspec
    obtain ⟨b,hb⟩ := Option.isSome_iff_exists.mp (hdatabase.mpr ⟨spec,hspec⟩)
    obtain ⟨k,-,rfl⟩ := howned.retained b hb
    exact howned.profileData k (hlent.1 _ hb)
  · intro hnone
    refine ⟨fun b hb => ?_,fun b hb => howned.retainedData hb⟩
    obtain ⟨spec,hspec⟩ := hdatabase.mp (Option.isSome_iff_exists.mpr ⟨b,hb⟩)
    exact absurd hspec (hnone spec)

def firstUpdate : List Action := [.new noteSpec,.setEnabled 0 true,.register 0,.update]

theorem firstUpdate_danglingDatabase : ∃ s,
    (server (fun _ => numberedDatabase) asStored).run World.init firstUpdate = some s ∧
      s.btstack.attDatabase = some (.profileData 0) ∧ s.owner (.profileData 0) = .nobody ∧
      ¬s.Lent := by
  refine ⟨_,rfl,rfl,rfl,fun hlent => ?_⟩
  have howner := hlent.1 (.profileData 0) rfl
  cases howner

theorem lent_iff_firstUpdate : ∃ s,
    (server (fun _ => numberedDatabase) asStored).run World.init firstUpdate = some s ∧
      s.retainedData = some (.advertisingData 0) ∧ s.owner (.advertisingData 0) = .runtime := by
  have hrun : ((server (fun _ => numberedDatabase) asStored).run World.init firstUpdate).map
      (fun s => s.retainedData) = some (some (.advertisingData 0)) := rfl
  obtain ⟨s,hs,hdata⟩ := Option.map_eq_some_iff.mp hrun
  exact ⟨s,hs,hdata,(lent_iff hs (by simp [firstUpdate])).2.1 _ hdata⟩

end BtstackRs.Gatt.Peripheral
