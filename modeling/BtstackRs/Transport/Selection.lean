import BtstackRs.Transport.Step

/-!
# Which device, and which endpoints

The device that is opened depends on the last configuration and on the device list only, and the
endpoints on the first alternate setting of the claimed interface. Both are first matches.
-/

namespace BtstackRs.Transport

open Concurrent

def IsFirstOf {Item : Type} (items : List Item) (Wanted : Item → Prop) (x : Item) : Prop :=
  ∃ before after, items = before ++ x :: after ∧ Wanted x ∧ ∀ y ∈ before, ¬Wanted y

theorem find?_eq_some_iff_isFirstOf {Item : Type} {items : List Item} {p : Item → Bool}
    {Wanted : Item → Prop} (hp : ∀ x, p x = true ↔ Wanted x) {x : Item} :
    items.find? p = some x ↔ IsFirstOf items Wanted x := by
  rw [List.find?_eq_some_iff_append,IsFirstOf,hp]
  constructor
  · rintro ⟨hx,before,after,hitems,hbefore⟩
    refine ⟨before,after,hitems,hx,fun y hy hwanted => ?_⟩
    have hnot := hbefore y hy
    rw [(hp y).mpr hwanted] at hnot
    cases hnot
  · rintro ⟨before,after,hitems,hx,hbefore⟩
    refine ⟨hx,before,after,hitems,fun y hy => ?_⟩
    rw [Bool.not_eq_true',← Bool.not_eq_true,hp]
    exact hbefore y hy

theorem find?_filter_of_imp {Item : Type} {p kind : Item → Bool}
    (h : ∀ x, kind x = true → p x = true) (items : List Item) :
    (items.filter p).find? kind = items.find? kind := by
  rw [List.find?_filter]
  congr 1
  funext x
  cases hkind : kind x with
  | false => simp
  | true => simp [h x hkind]

namespace TransportConfig

variable (config : TransportConfig)

/-- The path has a length, and one that the array can hold. -/
def HasPath : Prop := 1 ≤ config.pathLen.toNat ∧ config.pathLen.toNat ≤ usbMaxPathLen

def Effective : Prop :=
  config.vendorId ≠ 0 ∨ config.productId ≠ 0 ∨ config.busNumber ≠ 0 ∨ config.HasPath

structure Matches (device : DeviceInfo) : Prop where
  vendorId : config.vendorId ≠ 0 → device.vendorId = config.vendorId
  productId : config.productId ≠ 0 → device.productId = config.productId
  busNumber : config.busNumber ≠ 0 → device.busNumber = config.busNumber
  path : config.HasPath → usbPath device = some (config.path.take config.pathLen.toNat)

end TransportConfig

def DeviceInfo.Bluetooth (device : DeviceInfo) : Prop :=
  ∃ i ∈ device.interfaces, i.interfaceClass = 0xE0 ∧ i.subclass = 1 ∧ i.protocol = 1

/-- The device has the given fields, or a Bluetooth interface when none is given. -/
def Wanted : Option TransportConfig → DeviceInfo → Prop
  | none, device => device.Bluetooth
  | some config, device =>
      (config.Effective → config.Matches device) ∧ (¬config.Effective → device.Bluetooth)

theorem isBluetoothDevice_eq_true_iff {device : DeviceInfo} :
    isBluetoothDevice device = true ↔ device.Bluetooth := by
  simp [isBluetoothDevice,DeviceInfo.Bluetooth,and_assoc]

section

variable {config : TransportConfig}

theorem selectionOf_path {path : Bytes} : (selectionOf (some config)).path = some path ↔
    config.HasPath ∧ config.path.take config.pathLen.toNat = path := by
  have hpos : config.pathLen > 0 ↔ 1 ≤ config.pathLen.toNat := UInt8.lt_iff_toNat_lt
  have hgiven : config.pathLen.toNat ≤ config.path.length ∧ config.pathLen > 0 ↔
      config.HasPath := by
    rw [hpos,config.path_length,TransportConfig.HasPath,and_comm]
  simp only [selectionOf]
  split
  · rename_i hpath
    simp [hgiven.mp hpath]
  · rename_i hpath
    simp [mt hgiven.mpr hpath]

private theorem ite_ne_eq_some {Value : Type} [DecidableEq Value] {x zero v : Value} :
    (if x ≠ zero then some x else none) = some v ↔ x ≠ zero ∧ x = v := by
  split
  · rename_i hx
    simp [hx]
  · rename_i hx
    simp [hx]

theorem selectionOf_eq_default_iff : selectionOf (some config) = {} ↔ ¬config.Effective := by
  have hnone : ∀ {Value : Type} (o : Option Value), o = none ↔ ∀ v, o ≠ some v :=
    fun o => Option.eq_none_iff_forall_ne_some
  have hext : selectionOf (some config) = {} ↔ (selectionOf (some config)).vendorId = none ∧
      (selectionOf (some config)).productId = none ∧
      (selectionOf (some config)).busNumber = none ∧ (selectionOf (some config)).path = none := by
    constructor
    · intro h
      rw [h]
      exact ⟨rfl,rfl,rfl,rfl⟩
    · rcases selectionOf (some config) with ⟨vendorId,productId,busNumber,path⟩
      rintro ⟨rfl,rfl,rfl,rfl⟩
      rfl
  have hpath : (selectionOf (some config)).path = none ↔ ¬config.HasPath := by
    rw [hnone]
    simp only [ne_eq,selectionOf_path]
    exact ⟨fun h hgiven => h _ ⟨hgiven,rfl⟩,fun h path hgiven => h hgiven.1⟩
  rw [hext,hpath,TransportConfig.Effective]
  simp [selectionOf]

/-- A candidate for the selection is what the configuration asks for. -/
theorem isCandidateDevice_selectionOf_iff {config : Option TransportConfig} {device : DeviceInfo} :
    isCandidateDevice device (selectionOf config) = true ↔ Wanted config device := by
  rw [isCandidateDevice_eq_true_iff,isBluetoothDevice_eq_true_iff]
  cases config with
  | none => simp [selectionOf,Wanted]
  | some config =>
    have hmatches : config.Matches device ↔
        (∀ v, (selectionOf (some config)).vendorId = some v → device.vendorId = v) ∧
        (∀ v, (selectionOf (some config)).productId = some v → device.productId = v) ∧
        (∀ v, (selectionOf (some config)).busNumber = some v → device.busNumber = v) ∧
        ∀ path, (selectionOf (some config)).path = some path → usbPath device = some path := by
      simp only [selectionOf_path]
      simp only [selectionOf,ite_ne_eq_some]
      constructor
      · intro h
        refine ⟨?_,?_,?_,?_⟩
        · rintro v ⟨hgiven,rfl⟩
          exact h.vendorId hgiven
        · rintro v ⟨hgiven,rfl⟩
          exact h.productId hgiven
        · rintro v ⟨hgiven,rfl⟩
          exact h.busNumber hgiven
        · rintro path ⟨hgiven,rfl⟩
          exact h.path hgiven
      · rintro ⟨hvendor,hproduct,hbus,hpath⟩
        exact ⟨fun h => hvendor _ ⟨h,rfl⟩,fun h => hproduct _ ⟨h,rfl⟩,fun h => hbus _ ⟨h,rfl⟩,
          fun h => hpath _ ⟨h,rfl⟩⟩
    have hnothing : ¬config.Effective → config.Matches device := by
      intro h
      rw [TransportConfig.Effective,not_or,not_or,not_or] at h
      exact ⟨fun hgiven => absurd hgiven h.1,fun hgiven => absurd hgiven h.2.1,
        fun hgiven => absurd hgiven h.2.2.1,fun hgiven => absurd hgiven h.2.2.2⟩
    rw [selectionOf_eq_default_iff,Wanted]
    constructor
    · rintro ⟨hvendor,hproduct,hbus,hpath,hbluetooth⟩
      exact ⟨fun _ => hmatches.mpr ⟨hvendor,hproduct,hbus,hpath⟩,hbluetooth⟩
    · rintro ⟨hgiven,hbluetooth⟩
      have hall : config.Matches device := by
        by_cases heffective : config.Effective
        · exact hgiven heffective
        · exact hnothing heffective
      obtain ⟨hvendor,hproduct,hbus,hpath⟩ := hmatches.mp hall
      exact ⟨hvendor,hproduct,hbus,hpath,hbluetooth⟩

end

/-- The configuration that a step of `transport_init` stores. -/
def System.stores (σ : System) (a : Action) : Option (Option TransportConfig) :=
  match σ.threads[a.thread]? with
  | none => none
  | some th =>
      match th.stack with
      | .locked (.init config) :: _ => some config
      | _ => none

/-- A reachable state, with the configurations stored so far. -/
inductive Configured : System → List (Option TransportConfig) → Prop where
  | initial (clients : Nat) (handler : Option Handler) :
      Configured (System.initial clients handler) []
  | step {σ σ' : System} {a : Action} {configs : List (Option TransportConfig)}
      (h : Configured σ configs) (hstep : machine.step σ a = some σ') :
      Configured σ' (configs ++ (σ.stores a).toList)

theorem step_selected {σ σ' : System} {a : Action} (h : machine.step σ a = some σ') :
    σ'.state.selected = ((σ.stores a).map selectionOf).getD σ.state.selected := by
  obtain ⟨th,rest,d,hthread,hstack,hmove⟩ := step_moves h
  show d.state.selected = _
  rw [System.stores,hthread]
  simp only [hstack]
  generalize th.role = role at hmove
  cases hmove with
  | sectionGoto s state g hsection => cases hsection <;> rfl
  | sectionRet s state result hsection => cases hsection <;> rfl
  | call op s hchoice hcan henters => cases hcan <;> rfl
  | callRet op result hchoice hcan henter => cases hcan <;> rfl
  | reader kind l link r hrole hrest hlink hreader hquiet => rw [hrest]; rfl
  | readerDeliver kind l link r data hrole hrest hlink hreader hdata => rw [hrest]; rfl
  | writer l link link' hrole hrest hlink hwriter hquiet => rw [hrest]; rfl
  | writerAcknowledge l link link' hrole hrest hlink hwriter hack => rw [hrest]; rfl
  | _ => rfl

theorem Configured.selected {σ : System} {configs : List (Option TransportConfig)}
    (h : Configured σ configs) :
    σ.state.selected = (configs.getLast?.map selectionOf).getD {} := by
  induction h with
  | initial clients handler => rfl
  | step h hstep ih =>
    rw [step_selected hstep,ih]
    cases System.stores _ _ with
    | none => simp
    | some config => simp

/-- In every run the device that is picked is the first one that the last configuration asks for,
and none exactly when there is no such device. -/
theorem selectDevice_last {σ : System} {configs : List (Option TransportConfig)}
    {config : Option TransportConfig} (h : Configured σ (configs ++ [config]))
    (devices : List DeviceInfo) :
    (∀ device, selectDevice (some devices) σ.state.selected = some device ↔
      IsFirstOf devices (Wanted config) device) ∧
    (selectDevice (some devices) σ.state.selected = none ↔
      ∀ device ∈ devices, ¬Wanted config device) := by
  have hselected : σ.state.selected = selectionOf config := by
    rw [h.selected]
    simp
  have hfind : selectDevice (some devices) σ.state.selected =
      devices.find? (fun device => isCandidateDevice device (selectionOf config)) := by
    rw [hselected]
    rfl
  rw [hfind]
  constructor
  · intro device
    exact find?_eq_some_iff_isFirstOf (fun _ => isCandidateDevice_selectionOf_iff)
  · rw [List.find?_eq_none]
    simp only [isCandidateDevice_selectionOf_iff]

def vendorConfig : TransportConfig := ⟨0x1234,0,0,0,List.replicate usbMaxPathLen 0,rfl⟩

def longPathConfig : TransportConfig := ⟨0,0,0,9,List.replicate usbMaxPathLen 1,rfl⟩

def portConfig : TransportConfig := ⟨0x0a12,0,0,2,[1,3,0,0,0,0,0],rfl⟩

def mixedDevices : List DeviceInfo :=
  [⟨0x1234,1,1,none,[]⟩,⟨0x0a12,1,2,none,[⟨0xE0,1,1⟩]⟩]

def adapterAt (port : Char) : DeviceInfo :=
  ⟨0x0a12,1,2,some ['2','-','1','.',port],[⟨0xE0,1,1⟩]⟩

private theorem exists_configured : ∃ σ σ',
    Configured σ ([some vendorConfig] ++ [some longPathConfig]) ∧
      Configured σ' ([some vendorConfig,some longPathConfig] ++ [some portConfig]) := by
  have hcalled : Configured _ [] := .step (.initial 1 none)
    (a := ⟨0,.call (.transportInit (some vendorConfig))⟩) rfl
  have hlocked : Configured _ [] := .step hcalled (a := ⟨0,.go⟩) rfl
  have hstored : Configured _ [some vendorConfig] := .step hlocked (a := ⟨0,.go⟩) rfl
  have hcalled' : Configured _ [some vendorConfig] := .step hstored
    (a := ⟨0,.call (.transportInit (some longPathConfig))⟩) rfl
  have hlocked' : Configured _ [some vendorConfig] := .step hcalled' (a := ⟨0,.go⟩) rfl
  have hstored' : Configured _ [some vendorConfig,some longPathConfig] :=
    .step hlocked' (a := ⟨0,.go⟩) rfl
  have hcalled'' : Configured _ [some vendorConfig,some longPathConfig] := .step hstored'
    (a := ⟨0,.call (.transportInit (some portConfig))⟩) rfl
  have hlocked'' : Configured _ [some vendorConfig,some longPathConfig] :=
    .step hcalled'' (a := ⟨0,.go⟩) rfl
  exact ⟨_,_,hstored',.step hlocked'' (a := ⟨0,.go⟩) rfl⟩

theorem selectDevice_last_longPath : ∃ σ σ',
    Configured σ ([some vendorConfig] ++ [some longPathConfig]) ∧
    selectDevice (some mixedDevices) σ.state.selected =
      some ⟨0x0a12,1,2,none,[⟨0xE0,1,1⟩]⟩ ∧
    Configured σ' ([some vendorConfig,some longPathConfig] ++ [some portConfig]) ∧
    selectDevice (some [adapterAt '2',adapterAt '3']) σ'.state.selected =
      some (adapterAt '3') := by
  obtain ⟨σ,σ',hσ,hσ'⟩ := exists_configured
  refine ⟨σ,σ',hσ,((selectDevice_last hσ mixedDevices).1 _).mpr ?_,hσ',
    ((selectDevice_last hσ' _).1 _).mpr ?_⟩
  · have hnothing : ¬longPathConfig.Effective := by
      simp [TransportConfig.Effective,TransportConfig.HasPath,longPathConfig,usbMaxPathLen]
    have hbluetooth : DeviceInfo.Bluetooth ⟨0x0a12,1,2,none,[⟨0xE0,1,1⟩]⟩ :=
      ⟨⟨0xE0,1,1⟩,by simp,rfl,rfl,rfl⟩
    refine ⟨[⟨0x1234,1,1,none,[]⟩],[],rfl,
      ⟨fun heffective => absurd heffective hnothing,fun _ => hbluetooth⟩,?_⟩
    intro device hdevice hwanted
    cases List.mem_singleton.mp hdevice
    obtain ⟨i,hi,-⟩ := hwanted.2 hnothing
    cases hi
  · have heffective : portConfig.Effective := .inl (by decide)
    have hpath : portConfig.HasPath := ⟨by decide,by decide⟩
    refine ⟨[adapterAt '2'],[],rfl,⟨fun _ => ?_,fun hnothing => absurd heffective hnothing⟩,?_⟩
    · exact ⟨fun _ => rfl,fun hgiven => absurd rfl hgiven,fun hgiven => absurd rfl hgiven,
        fun _ => rfl⟩
    · intro device hdevice hwanted
      cases List.mem_singleton.mp hdevice
      have hother := (hwanted.1 heffective).path hpath
      exact absurd hother (by decide)

def EndpointDescriptor.isEventIn (e : EndpointDescriptor) : Bool :=
  e.transferType == .interrupt && e.direction == .into

def EndpointDescriptor.isAclIn (e : EndpointDescriptor) : Bool :=
  e.transferType == .bulk && e.direction == .into

def EndpointDescriptor.isAclOut (e : EndpointDescriptor) : Bool :=
  e.transferType == .bulk && e.direction == .out

/-- The endpoints in setting 0 of the claimed interface, in descriptor order. -/
def Interface.endpoints (interface : Interface) : List EndpointDescriptor :=
  (interface.descriptors.filter (fun alt => alt.interfaceNumber == interface.interfaceNumber &&
    alt.alternateSetting == 0)).flatMap (fun alt => alt.endpoints)

/-- The address of the first endpoint of a kind, or the default where there is none. -/
inductive FirstAddress (endpoints : List EndpointDescriptor) (kind : EndpointDescriptor → Bool)
    (default : UInt8) : UInt8 → Prop where
  | first {e : EndpointDescriptor} (h : IsFirstOf endpoints (fun e => kind e = true) e) :
      FirstAddress endpoints kind default e.address
  | none (h : ∀ e ∈ endpoints, kind e = false) : FirstAddress endpoints kind default default

def scanned (endpoints : List EndpointDescriptor) : EndpointScan where
  config :=
    { eventIn := ((endpoints.find? (·.isEventIn)).map (·.address)).getD defaultEventEp
      aclIn := ((endpoints.find? (·.isAclIn)).map (·.address)).getD defaultAclInEp
      aclOut := ((endpoints.find? (·.isAclOut)).map (·.address)).getD defaultAclOutEp }
  foundEvent := (endpoints.find? (·.isEventIn)).isSome
  foundAclIn := (endpoints.find? (·.isAclIn)).isSome
  foundAclOut := (endpoints.find? (·.isAclOut)).isSome

theorem scanEndpoint_scanned (endpoints : List EndpointDescriptor) (e : EndpointDescriptor) :
    scanEndpoint (scanned endpoints) e = scanned (endpoints ++ [e]) := by
  have hother : ∀ kind : EndpointDescriptor → Bool, kind e = false →
      (endpoints ++ [e]).find? kind = endpoints.find? kind := by
    intro kind hkind
    rw [List.find?_append,List.find?_singleton,hkind]
    simp
  have hthis : ∀ kind : EndpointDescriptor → Bool, kind e = true →
      (endpoints ++ [e]).find? kind = (endpoints.find? kind).or (some e) := by
    intro kind hkind
    rw [List.find?_append,List.find?_singleton,if_pos hkind]
  rw [scanned,scanned]
  rcases e with ⟨address,transferType,direction⟩
  cases transferType with
  | control =>
    rw [hother EndpointDescriptor.isEventIn rfl,hother EndpointDescriptor.isAclIn rfl,
      hother EndpointDescriptor.isAclOut rfl]
    rfl
  | isochronous =>
    rw [hother EndpointDescriptor.isEventIn rfl,hother EndpointDescriptor.isAclIn rfl,
      hother EndpointDescriptor.isAclOut rfl]
    rfl
  | interrupt =>
    cases direction with
    | out =>
      rw [hother EndpointDescriptor.isEventIn rfl,hother EndpointDescriptor.isAclIn rfl,
        hother EndpointDescriptor.isAclOut rfl]
      rfl
    | into =>
      rw [hthis EndpointDescriptor.isEventIn rfl,hother EndpointDescriptor.isAclIn rfl,
        hother EndpointDescriptor.isAclOut rfl]
      cases endpoints.find? EndpointDescriptor.isEventIn <;> rfl
  | bulk =>
    cases direction with
    | into =>
      rw [hthis EndpointDescriptor.isAclIn rfl,hother EndpointDescriptor.isEventIn rfl,
        hother EndpointDescriptor.isAclOut rfl]
      cases endpoints.find? EndpointDescriptor.isAclIn <;> rfl
    | out =>
      rw [hthis EndpointDescriptor.isAclOut rfl,hother EndpointDescriptor.isEventIn rfl,
        hother EndpointDescriptor.isAclIn rfl]
      cases endpoints.find? EndpointDescriptor.isAclOut <;> rfl

theorem foldl_scanEndpoint (endpoints : List EndpointDescriptor) :
    endpoints.foldl scanEndpoint {} = scanned endpoints := by
  induction endpoints using List.reverseRecOn with
  | nil => rfl
  | append_singleton endpoints e ih =>
    rw [List.foldl_append,ih]
    exact scanEndpoint_scanned endpoints e

theorem detectEndpoints_eq (interface : Interface) :
    detectEndpoints interface = (scanned interface.endpoints).config := by
  rw [← foldl_scanEndpoint,Interface.endpoints,List.foldl_flatMap]
  rfl

theorem firstAddress_find? (endpoints : List EndpointDescriptor)
    (kind : EndpointDescriptor → Bool) (default : UInt8) :
    FirstAddress endpoints kind default
      (((endpoints.find? kind).map (·.address)).getD default) := by
  cases hfind : endpoints.find? kind with
  | none =>
    refine .none fun e he => ?_
    simpa using List.find?_eq_none.mp hfind e he
  | some e => exact .first ((find?_eq_some_iff_isFirstOf (fun _ => Iff.rfl)).mp hfind)

/-- Each address is that of the first endpoint of its kind in the claimed interface's setting 0,
and the default where there is none; no other endpoint matters. -/
theorem detectEndpoints_first (interface : Interface) :
    FirstAddress interface.endpoints (·.isEventIn) defaultEventEp
        (detectEndpoints interface).eventIn ∧
      FirstAddress interface.endpoints (·.isAclIn) defaultAclInEp
        (detectEndpoints interface).aclIn ∧
      FirstAddress interface.endpoints (·.isAclOut) defaultAclOutEp
        (detectEndpoints interface).aclOut ∧
      ∀ interface' : Interface,
        interface'.endpoints.filter (fun e => e.isEventIn || e.isAclIn || e.isAclOut) =
          interface.endpoints.filter (fun e => e.isEventIn || e.isAclIn || e.isAclOut) →
        detectEndpoints interface' = detectEndpoints interface := by
  rw [detectEndpoints_eq]
  refine ⟨firstAddress_find? _ _ _,firstAddress_find? _ _ _,firstAddress_find? _ _ _,?_⟩
  intro interface' hsame
  have hfind : ∀ kind : EndpointDescriptor → Bool,
      (∀ e, kind e = true → (e.isEventIn || e.isAclIn || e.isAclOut) = true) →
      interface'.endpoints.find? kind = interface.endpoints.find? kind := by
    intro kind hkind
    rw [← find?_filter_of_imp hkind interface'.endpoints,hsame,find?_filter_of_imp hkind]
  rw [detectEndpoints_eq,scanned,scanned,hfind _ (fun e h => by simp [h]),
    hfind _ (fun e h => by simp [h]),hfind _ (fun e h => by simp [h])]

end BtstackRs.Transport
