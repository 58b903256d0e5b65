import BtstackRs.Gatt.Peripheral.Server

/-!
# Advertising

Requests meet in one flag and one registration, which is ignored while it is pending. As long as the
server lives no request is lost: whatever is not yet applied has a caller, a registration or an
execution that will look at the flag again. The drop disables advertising outside of this scheme.
-/

namespace BtstackRs.Gatt.Peripheral

open Sequence Transport Concurrent

variable {database : Bytes → AttDatabase} {order : IterationOrder UInt16 RuntimeCharacteristic}
  {s t : World} {a : Action}

/-- Calls and drops only happen to a server, and never at the same time. -/
structure Guarded (s : World) : Prop where
  free : s.runtime = none → s.callers = [] ∧ s.dropping = false
  exclusive : s.dropping = true → s.callers = []

theorem World.new_callers (database : Bytes → AttDatabase)
    (order : IterationOrder UInt16 RuntimeCharacteristic) (s : World) (spec : GattPeripheralSpec) :
    (s.new database order spec).1.callers = s.callers ∧
      (s.new database order spec).1.dropping = s.dropping ∧
      (s.new database order spec).1.executing = s.executing ∧
      (s.new database order spec).1.btstack.pending = s.btstack.pending ∧
      (s.new database order spec).1.btstack.gapCalls = s.btstack.gapCalls := by
  rcases World.new_cases database order s spec with
    ⟨-,hnew⟩ | ⟨e,-,-,hnew⟩ | ⟨state,-,-,hnew⟩
  all_goals
    rw [hnew]
    exact ⟨rfl,rfl,rfl,rfl,rfl⟩

theorem World.new_runtime {server : Server} (hruntime : s.runtime = some server)
    (spec : GattPeripheralSpec) : (s.new database order spec).1.runtime = some server := by
  rcases World.new_cases database order s spec with
    ⟨-,hnew⟩ | ⟨e,hnone,-,-⟩ | ⟨state,hnone,-,-⟩
  · rw [hnew]
    exact hruntime
  · rw [hruntime] at hnone
    cases hnone
  · rw [hruntime] at hnone
    cases hnone

theorem Guarded.step (hs : Guarded s) (h : (server database order).step s a = some t) :
    Guarded t := by
  cases does_of_step h with
  | new spec =>
    obtain ⟨hcallers,hdropping,-⟩ := World.new_callers database order s spec
    constructor
    · intro hnone
      rw [hcallers,hdropping]
      apply hs.free
      cases hruntime : s.runtime with
      | none => rfl
      | some server =>
        rw [World.new_runtime hruntime spec] at hnone
        cases hnone
    · rw [hcallers,hdropping]
      exact hs.exclusive
  | setEnabled thread enabled server hruntime _ hkept =>
    refine ⟨nofun,fun hdropping => ?_⟩
    rw [hkept] at hdropping
    cases hdropping
  | register thread hcaller =>
    constructor
    · intro hnone
      rw [(hs.free hnone).1] at hcaller
      cases hcaller
    · intro hdropping
      rw [hs.exclusive hdropping] at hcaller
      cases hcaller
  | callback c server hruntime =>
    exact ⟨nofun,hs.exclusive⟩
  | dropDisable server hruntime hfree _ =>
    refine ⟨fun hnone => ?_,fun _ => hfree⟩
    have hcontra : s.runtime = none := hnone
    rw [hruntime] at hcontra
    cases hcontra
  | dropClear hdropping =>
    exact ⟨fun _ => ⟨hs.exclusive hdropping,rfl⟩,fun _ => hs.exclusive hdropping⟩
  | update _ _ => exact ⟨hs.free,hs.exclusive⟩
  | remove _ _ => exact ⟨hs.free,hs.exclusive⟩
  | look _ => exact ⟨hs.free,hs.exclusive⟩
  | issue _ _ _ => exact ⟨hs.free,hs.exclusive⟩
  | finish _ => exact ⟨hs.free,hs.exclusive⟩
  | noServer c _ => exact hs

theorem guarded_of_run {as : List Action}
    (h : (server database order).run World.init as = some s) : Guarded s := by
  refine Machine.run_induction (P := fun _ s => Guarded s) ?_ ?_ h
  · exact ⟨fun _ => ⟨rfl,rfl⟩,fun _ => rfl⟩
  · exact fun _ _ _ _ _ ih hstep => ih.step hstep

/-- A server as `new` leaves it. An earlier one may have left its advertising, and its registration
with the run loop. -/
structure Constructed (s : World) (server : Server) : Prop where
  runtime : s.runtime = some server
  disabled : server.state.advertisingEnabled = false
  callers : s.callers = []
  idle : s.executing = none

/-- In every run a successful `new`, with no execution under way, constructs its server. -/
theorem constructed_of_new {as : List Action}
    (hrun : (server database order).run World.init as = some s) (hidle : s.executing = none)
    {spec : GattPeripheralSpec} (hok : (s.new database order spec).2 = .ok ()) :
    ∃ server, Constructed (s.new database order spec).1 server ∧
      server.state.advertising = spec.advertising := by
  obtain ⟨hcallers,-,hexecuting,-⟩ := World.new_callers database order s spec
  rcases World.new_cases database order s spec with
    ⟨-,hnew⟩ | ⟨e,-,-,hnew⟩ | ⟨state,hnone,hsetup,hnew⟩
  · rw [hnew] at hok
    cases hok
  · rw [hnew] at hok
    cases hok
  · obtain ⟨characteristics,-,hstate⟩ := setup_ok hsetup
    refine ⟨⟨s.created,state⟩,⟨?_,?_,?_,?_⟩,?_⟩
    · rw [hnew]
      rfl
    · rw [hstate]
    · rw [hcallers]
      exact ((guarded_of_run hrun).free hnone).1
    · rw [hexecuting]
      exact hidle
    · rw [hstate]

/-- What a flag update asks for. -/
def Action.requests : Action → Option Bool
  | .setEnabled _ enabled => some enabled
  | _ => none

/-- No call is in progress, and no update is pending or under way. -/
structure Settled (s : World) : Prop where
  callers : s.callers = []
  pending : s.btstack.pending = false
  idle : s.executing = none

def Server.params (server : Server) : GapCall :=
  .setParams server.state.advertising.intervalMin server.state.advertising.intervalMax
    server.state.advertising.advType 0 [0,0,0,0,0,0] server.state.advertising.channelMap
    server.state.advertising.filterPolicy

def Server.data (server : Server) : UInt8 × Buffer :=
  (UInt8.ofNat server.state.advertising.data.length,.advertisingData server.number)

/-- Advertising is only enabled with the parameters and the data of this server set before. -/
def ConfiguredFor (server : Server) (before : List GapCall) (call : GapCall) : Prop :=
  call = .enable true → latest GapCall.params? before = some server.params ∧
    latest GapCall.data? before = some server.data

/-- What advertising will be when the execution under way has finished. -/
def World.upcoming (s : World) : Option Bool :=
  if s.executing = some .removed then some s.requested
  else latest GapCall.enabled? (s.btstack.gapCalls ++ s.remaining)

/-- Two servers with the same configuration: their flags and tables may differ. -/
def SameConfiguration (server server' : Server) : Prop :=
  server'.number = server.number ∧ server'.state.advertising = server.state.advertising

theorem SameConfiguration.configuredFor {server server' : Server}
    (h : SameConfiguration server server') : ConfiguredFor server' = ConfiguredFor server := by
  have hparams : server'.params = server.params := by simp only [Server.params,h.2]
  have hdata : server'.data = server.data := by simp only [Server.data,h.1,h.2]
  funext before call
  rw [ConfiguredFor,ConfiguredFor,hparams,hdata]

theorem latest_enabled_update (calls : List GapCall) (server : Server) :
    latest GapCall.enabled? (calls ++ runLoopAdvertisingUpdate (some server)) =
      some server.state.advertisingEnabled := by
  rw [latest_append,runLoopAdvertisingUpdate]
  cases server.state.advertisingEnabled <;> rfl

theorem eachAfter_update {calls : List GapCall} {server : Server}
    (h : EachAfter (ConfiguredFor server) calls) :
    EachAfter (ConfiguredFor server) (calls ++ runLoopAdvertisingUpdate (some server)) := by
  rw [runLoopAdvertisingUpdate]
  cases server.state.advertisingEnabled with
  | false =>
    refine eachAfter_concat.mpr ⟨h,fun henable => ?_⟩
    cases henable
  | true =>
    have hparams : EachAfter (ConfiguredFor server) (calls ++ [server.params]) :=
      eachAfter_concat.mpr ⟨h,fun henable => by cases henable⟩
    have hdata : EachAfter (ConfiguredFor server)
        (calls ++ [server.params] ++ [.setData server.data.1 server.data.2]) :=
      eachAfter_concat.mpr ⟨hparams,fun henable => by cases henable⟩
    have henable : EachAfter (ConfiguredFor server)
        (calls ++ [server.params] ++ [.setData server.data.1 server.data.2] ++ [.enable true]) := by
      refine eachAfter_concat.mpr ⟨hdata,fun _ => ⟨?_,?_⟩⟩
      · rw [latest_concat,latest_concat]
        rfl
      · rw [latest_concat]
        rfl
    rw [List.append_assoc,List.append_assoc] at henable
    exact henable

/-- What holds in a run from the construction of `server₀` on, before its drop. -/
structure Advertises (s₀ : World) (server₀ : Server) (as : List Action) (s : World) : Prop where
  serves : ∃ server, s.runtime = some server ∧ SameConfiguration server₀ server ∧
    server.state.advertisingEnabled = (latest Action.requests as).getD false
  since : ∃ since, s.btstack.gapCalls = s₀.btstack.gapCalls ++ since ∧
    EachAfter (ConfiguredFor server₀) (since ++ s.remaining)
  applied : ∀ b, latest Action.requests as = some b → s.callers = [] →
    s.btstack.pending = false → s.upcoming = some b

theorem Advertises.of_constructed {s₀ : World} {server₀ : Server} (h : Constructed s₀ server₀) :
    Advertises s₀ server₀ [] s₀ where
  serves := ⟨server₀,h.runtime,⟨rfl,rfl⟩,h.disabled⟩
  since := ⟨[],by simp,by simpa [World.remaining,h.idle] using eachAfter_nil _⟩
  applied := by simp

theorem World.requested_eq {server : Server} (h : s.runtime = some server) :
    s.requested = server.state.advertisingEnabled := by
  rw [requested,h,Option.any_some]

theorem Advertises.frame {s₀ : World} {server₀ server server' : Server} {as : List Action}
    (hs : Advertises s₀ server₀ as s) (hruntime : s.runtime = some server)
    (hruntime' : t.runtime = some server') (hsame : SameConfiguration server server')
    (hflag : server'.state.advertisingEnabled = server.state.advertisingEnabled)
    (hcalls : t.btstack.gapCalls = s.btstack.gapCalls) (hexecuting : t.executing = s.executing)
    (hcallers : t.callers = s.callers) (hpending : t.btstack.pending = s.btstack.pending)
    (ha : a.requests = none) : Advertises s₀ server₀ (as ++ [a]) t := by
  have hrequests : latest Action.requests (as ++ [a]) = latest Action.requests as := by
    rw [latest_concat,ha,Option.none_or]
  have hremaining : t.remaining = s.remaining := by
    rw [World.remaining,hexecuting,← World.remaining]
  have hrequested : t.requested = s.requested := by
    rw [World.requested_eq hruntime',World.requested_eq hruntime,hflag]
  refine ⟨?_,?_,?_⟩
  · obtain ⟨server₁,hruntime₁,hsame₁,hflag₁⟩ := hs.serves
    rw [hruntime] at hruntime₁
    cases hruntime₁
    exact ⟨server',hruntime',⟨hsame.1.trans hsame₁.1,hsame.2.trans hsame₁.2⟩,
      by rw [hflag,hflag₁,hrequests]⟩
  · rw [hcalls,hremaining]
    exact hs.since
  · rw [hrequests,hcallers,hpending,World.upcoming,hexecuting,hrequested,hcalls,hremaining,
      ← World.upcoming]
    exact hs.applied

theorem Advertises.serves_after {s₀ : World} {server₀ : Server} {as : List Action}
    (hs : Advertises s₀ server₀ as s) (hruntime : t.runtime = s.runtime) (ha : a.requests = none) :
    ∃ server, t.runtime = some server ∧ SameConfiguration server₀ server ∧
      server.state.advertisingEnabled = (latest Action.requests (as ++ [a])).getD false := by
  rw [hruntime,latest_concat,ha,Option.none_or]
  exact hs.serves

theorem Advertises.proceeding {s₀ : World} {server₀ : Server} {as : List Action}
    {issued : List GapCall} (hs : Advertises s₀ server₀ as s) (hruntime : t.runtime = s.runtime)
    (hcallers : t.callers = s.callers) (hpending : t.btstack.pending = s.btstack.pending)
    (hcalls : t.btstack.gapCalls = s.btstack.gapCalls ++ issued)
    (hremaining : issued ++ t.remaining = s.remaining) (hlooked : s.executing ≠ some .removed)
    (hlooked' : t.executing ≠ some .removed) (ha : a.requests = none) :
    Advertises s₀ server₀ (as ++ [a]) t := by
  obtain ⟨since,hsince,hconfigured⟩ := hs.since
  refine ⟨hs.serves_after hruntime ha,⟨since ++ issued,?_,?_⟩,fun b hb hnone hidle => ?_⟩
  · rw [hcalls,hsince,List.append_assoc]
  · rw [List.append_assoc,hremaining]
    exact hconfigured
  · rw [latest_concat,ha,Option.none_or] at hb
    have hupcoming := hs.applied b hb (hcallers ▸ hnone) (hpending ▸ hidle)
    rw [World.upcoming,if_neg hlooked] at hupcoming
    rw [World.upcoming,if_neg hlooked',hcalls,List.append_assoc,hremaining]
    exact hupcoming

theorem Advertises.looking {s₀ : World} {server₀ : Server} {as : List Action}
    {issued : List GapCall} (hs : Advertises s₀ server₀ as s) (hruntime : t.runtime = s.runtime)
    (hcalls : t.btstack.gapCalls = s.btstack.gapCalls ++ issued)
    (hremaining : issued ++ t.remaining = runLoopAdvertisingUpdate s.runtime)
    (hfree : s.remaining = []) (hlooked : t.executing ≠ some .removed) (ha : a.requests = none) :
    Advertises s₀ server₀ (as ++ [a]) t := by
  obtain ⟨since,hsince,hconfigured⟩ := hs.since
  obtain ⟨server,hserver,hsame,hflag⟩ := hs.serves
  rw [hfree,List.append_nil,← hsame.configuredFor] at hconfigured
  refine ⟨hs.serves_after hruntime ha,⟨since ++ issued,?_,?_⟩,fun b hb _ _ => ?_⟩
  · rw [hcalls,hsince,List.append_assoc]
  · rw [List.append_assoc,hremaining,hserver,← hsame.configuredFor]
    exact eachAfter_update hconfigured
  · rw [latest_concat,ha,Option.none_or] at hb
    rw [World.upcoming,if_neg hlooked,hcalls,List.append_assoc,hremaining,hserver,
      latest_enabled_update,hflag,hb,Option.getD_some]

theorem Advertises.step {s₀ : World} {server₀ : Server} {as : List Action}
    (hs : Advertises s₀ server₀ as s) (h : (server database order).step s a = some t)
    (hkept : a ≠ .dropDisable ∧ a ≠ .dropClear) : Advertises s₀ server₀ (as ++ [a]) t := by
  obtain ⟨server,hruntime,hsame,hflag⟩ := hs.serves
  cases does_of_step h with
  | new spec =>
    obtain ⟨hcallers,-,hexecuting,hpending,hcalls⟩ := World.new_callers database order s spec
    exact hs.frame hruntime (World.new_runtime hruntime spec) ⟨rfl,rfl⟩ rfl hcalls hexecuting
      hcallers hpending rfl
  | callback c server' hruntime' =>
    rw [hruntime] at hruntime'
    cases hruntime'
    obtain ⟨henabled,hadvertising⟩ := server.state.advertising_after c
    exact hs.frame hruntime rfl ⟨rfl,hadvertising⟩ henabled rfl rfl rfl rfl rfl
  | setEnabled thread enabled server' hruntime' _ _ =>
    rw [hruntime] at hruntime'
    cases hruntime'
    refine ⟨⟨_,rfl,hsame,?_⟩,hs.since,fun b _ hcallers => ?_⟩
    · rw [latest_concat]
      rfl
    · cases hcallers
  | register thread _ =>
    refine ⟨hs.serves_after rfl rfl,hs.since,fun b _ _ hpending => ?_⟩
    cases hpending
  | update _ hidle =>
    have hfree : s.remaining = [] := by rw [World.remaining,hidle]
    have hleft : runLoopAdvertisingUpdate s.runtime ++ s.remaining =
        runLoopAdvertisingUpdate s.runtime := by rw [hfree,List.append_nil]
    exact hs.looking rfl rfl hleft hfree (by simp [hidle]) rfl
  | remove _ hidle =>
    obtain ⟨since,hsince,hconfigured⟩ := hs.since
    rw [World.remaining,hidle] at hconfigured
    refine ⟨hs.serves_after rfl rfl,⟨since,hsince,hconfigured⟩,fun b hb _ _ => ?_⟩
    rw [latest_concat] at hb
    have hrequested : latest Action.requests as = some b := hb
    rw [hrequested,Option.getD_some] at hflag
    rw [World.upcoming,if_pos rfl]
    exact congrArg some ((World.requested_eq hruntime).trans hflag)
  | look hexecuting =>
    have hfree : s.remaining = [] := by rw [World.remaining,hexecuting]
    exact hs.looking rfl (List.append_nil _).symm rfl hfree (by simp) rfl
  | issue call calls hexecuting =>
    have hleft : [call] ++ calls = s.remaining := by
      rw [World.remaining,hexecuting]
      rfl
    exact hs.proceeding rfl rfl rfl rfl hleft (by simp [hexecuting]) (by simp) rfl
  | finish hexecuting =>
    have hleft : [] = s.remaining := by rw [World.remaining,hexecuting]
    exact hs.proceeding rfl rfl rfl (List.append_nil _).symm hleft (by simp [hexecuting]) (by simp)
      rfl
  | noServer c hnone =>
    rw [hruntime] at hnone
    cases hnone
  | dropDisable _ _ _ _ => exact absurd rfl hkept.1
  | dropClear _ => exact absurd rfl hkept.2

/-- Once everything has settled, the last request is what is advertised. Advertising is never
enabled but with the parameters and the data of the current configuration. -/
theorem lastRequest_wins {s₀ : World} {server₀ : Server} (h₀ : Constructed s₀ server₀)
    {as : List Action} (hrun : (server database order).run s₀ as = some s)
    (hkept : ∀ a ∈ as, a ≠ .dropDisable ∧ a ≠ .dropClear) :
    (∀ b, latest Action.requests as = some b → Settled s →
      s.requested = b ∧ s.advertising = b) ∧
    ∃ since, s.btstack.gapCalls = s₀.btstack.gapCalls ++ since ∧
      EachAfter (ConfiguredFor server₀) since := by
  have hs : Advertises s₀ server₀ as s := by
    refine Machine.run_induction (P := fun as s =>
      (∀ a ∈ as, a ≠ .dropDisable ∧ a ≠ .dropClear) → Advertises s₀ server₀ as s) ?_ ?_ hrun hkept
    · exact fun _ => .of_constructed h₀
    · intro as s a t _ ih hstep hkept
      exact (ih fun a ha => hkept a (List.mem_append_left _ ha)).step hstep (hkept a (by simp))
  constructor
  · intro b hb hsettled
    obtain ⟨server,hruntime,-,hflag⟩ := hs.serves
    have hupcoming := hs.applied b hb hsettled.callers hsettled.pending
    rw [World.upcoming,hsettled.idle,if_neg (by simp),World.remaining,hsettled.idle,
      List.append_nil] at hupcoming
    rw [World.requested_eq hruntime,hflag,hb,World.advertising,hupcoming]
    exact ⟨rfl,rfl⟩
  · obtain ⟨since,hsince,hconfigured⟩ := hs.since
    exact ⟨since,hsince,hconfigured.of_append⟩

def overtakenRequest : List Action :=
  [.setEnabled 0 true,.register 0,.updateStep,.updateStep,.setEnabled 1 false,.updateStep,
    .register 1,.updateStep,.updateStep,.updateStep,.update]

theorem lastRequest_wins_overtaken : ∃ s₀ s,
    (server (fun _ => numberedDatabase) asStored).run World.init [.new noteSpec] = some s₀ ∧
      (server (fun _ => numberedDatabase) asStored).run s₀ overtakenRequest = some s ∧
      s.requested = false ∧ s.advertising = false := by
  have hnew : ∃ s₀ server₀,
      (server (fun _ => numberedDatabase) asStored).run World.init [.new noteSpec] = some s₀ ∧
        Constructed s₀ server₀ ∧
        ((server (fun _ => numberedDatabase) asStored).run s₀ overtakenRequest).map
          (fun s => (s.callers,s.btstack.pending,s.executing)) = some ([],false,none) :=
    ⟨_,_,rfl,⟨rfl,rfl,rfl,rfl⟩,rfl⟩
  obtain ⟨s₀,server₀,hs₀,hconstructed,hrun⟩ := hnew
  obtain ⟨s,hs,hsettled⟩ := Option.map_eq_some_iff.mp hrun
  rw [Prod.mk.injEq,Prod.mk.injEq] at hsettled
  have hkept : ∀ a ∈ overtakenRequest, a ≠ .dropDisable ∧ a ≠ .dropClear := by
    simp [overtakenRequest]
  exact ⟨s₀,s,hs₀,hs,(lastRequest_wins hconstructed hs hkept).1 false rfl
    ⟨hsettled.1,hsettled.2.1,hsettled.2.2⟩⟩

/-- Neither a single step of an update nor a call of `start_advertising`. -/
def Action.Quiet (a : Action) : Prop :=
  a ≠ .updateStep ∧ ∀ thread, a ≠ .setEnabled thread true

/-- Nothing is advertised, and nobody asks for it. -/
structure Silent (s : World) : Prop where
  off : s.advertising = false
  unasked : s.requested = false

theorem latest_enabled_unrequested (calls : List GapCall) {runtime : Option Server}
    (h : runtime.any (fun server => server.state.advertisingEnabled) = false)
    (hoff : (latest GapCall.enabled? calls).getD false = false) :
    (latest GapCall.enabled? (calls ++ runLoopAdvertisingUpdate runtime)).getD false = false := by
  cases runtime with
  | none => rwa [runLoopAdvertisingUpdate,List.append_nil]
  | some server =>
    rw [latest_enabled_update]
    exact h

theorem Silent.step (hs : Silent s) (h : (server database order).step s a = some t)
    (hquiet : a.Quiet) : Silent t := by
  cases does_of_step h with
  | new spec =>
    obtain ⟨-,-,-,-,hcalls⟩ := World.new_callers database order s spec
    refine ⟨by rw [World.advertising,hcalls]; exact hs.off,?_⟩
    rcases World.new_cases database order s spec with
      ⟨-,hnew⟩ | ⟨e,hnone,-,hnew⟩ | ⟨state,hnone,hsetup,hnew⟩
    · rw [hnew]
      exact hs.unasked
    · rw [hnew]
      exact hs.unasked
    · obtain ⟨characteristics,-,hstate⟩ := setup_ok hsetup
      rw [hnew,hstate]
      rfl
  | setEnabled thread enabled server hruntime _ _ =>
    cases enabled with
    | false => exact ⟨hs.off,rfl⟩
    | true => exact absurd rfl (hquiet.2 thread)
  | register thread _ => exact ⟨hs.off,hs.unasked⟩
  | update _ _ => exact ⟨latest_enabled_unrequested _ hs.unasked hs.off,hs.unasked⟩
  | callback c server hruntime =>
    refine ⟨hs.off,?_⟩
    have hunasked := hs.unasked
    rw [World.requested_eq hruntime] at hunasked
    exact (server.state.advertising_after c).1.trans hunasked
  | noServer c _ => exact hs
  | dropDisable server _ _ _ =>
    refine ⟨?_,hs.unasked⟩
    rw [World.advertising,World.gapCall,latest_concat]
    rfl
  | dropClear _ => exact ⟨hs.off,rfl⟩
  | _ => exact absurd rfl hquiet.1

/-- What holds between the two steps of the drop. -/
structure Dropping (asked : Bool) (as : List Action) (s : World) : Prop where
  dropping : s.dropping = true
  callers : s.callers = []
  serves : ∃ server, s.runtime = some server ∧ server.state.advertisingEnabled = asked
  decided : s.advertising = true ↔ asked = true ∧ Action.update ∈ as

theorem Dropping.step {asked : Bool} {as : List Action} (hs : Dropping asked as s)
    (h : (server database order).step s a = some t) (ha : a ≠ .dropClear ∧ a ≠ .updateStep) :
    Dropping asked (as ++ [a]) t := by
  obtain ⟨server,hruntime,hflag⟩ := hs.serves
  have hother : ∀ (a : Action), a ≠ .update →
      (s.advertising = true ↔ asked = true ∧ Action.update ∈ as ++ [a]) := by
    intro a hne
    simp [hs.decided,Ne.symm hne]
  cases does_of_step h with
  | new spec =>
    obtain ⟨hcallers,hdropping,-,-,hcalls⟩ := World.new_callers database order s spec
    refine ⟨hdropping.trans hs.dropping,hcallers.trans hs.callers,
      ⟨server,World.new_runtime hruntime spec,hflag⟩,?_⟩
    rw [World.advertising,hcalls]
    exact hother _ nofun
  | setEnabled thread enabled server' _ _ hkept =>
    rw [hs.dropping] at hkept
    cases hkept
  | register thread hcaller =>
    rw [hs.callers] at hcaller
    cases hcaller
  | update _ _ =>
    refine ⟨hs.dropping,hs.callers,⟨server,hruntime,hflag⟩,?_⟩
    simp only [World.advertising,hruntime,latest_enabled_update,hflag,Option.getD_some]
    simp
  | callback c server' hruntime' =>
    rw [hruntime] at hruntime'
    cases hruntime'
    exact ⟨hs.dropping,hs.callers,
      ⟨_,rfl,(server.state.advertising_after c).1.trans hflag⟩,hother _ nofun⟩
  | noServer c hnone =>
    rw [hruntime] at hnone
    cases hnone
  | dropDisable _ _ _ hkept =>
    rw [hs.dropping] at hkept
    cases hkept
  | dropClear _ => exact absurd rfl ha.1
  | _ => exact absurd rfl ha.2

/-- The drop ends advertising, until a server is asked again, exactly if no update finds advertising
requested between its two steps. -/
theorem drop_disables_iff {s s₁ s₂ s₃ : World} {as : List Action}
    (hdisable : (server database order).step s .dropDisable = some s₁)
    (hwindow : (server database order).run s₁ as = some s₂)
    (hone : ∀ a ∈ as, a ≠ .dropClear ∧ a ≠ .updateStep)
    (hclear : (server database order).step s₂ .dropClear = some s₃) :
    (∀ t, (server database order).Steps (fun _ a => a.Quiet) s₃ t → t.advertising = false) ↔
      ¬(s.requested = true ∧ Action.update ∈ as) := by
  have hdropping : Dropping s.requested as s₂ := by
    refine Machine.run_induction (P := fun as s₂ =>
      (∀ a ∈ as, a ≠ .dropClear ∧ a ≠ .updateStep) → Dropping s.requested as s₂) ?_ ?_ hwindow hone
    · intro _
      cases does_of_step hdisable with
      | dropDisable server hruntime hfree _ =>
        refine ⟨rfl,hfree,⟨server,hruntime,(World.requested_eq hruntime).symm⟩,?_⟩
        rw [World.advertising,World.gapCall,latest_concat]
        simp [GapCall.enabled?]
    · intro as s a t _ ih hstep hone
      exact (ih fun a ha => hone a (List.mem_append_left _ ha)).step hstep (hone a (by simp))
  have hafter : s₃.advertising = s₂.advertising ∧ s₃.requested = false := by
    cases does_of_step hclear with
    | dropClear _ => exact ⟨rfl,rfl⟩
  rw [← hdropping.decided,Bool.not_eq_true,← hafter.1]
  constructor
  · exact fun h => h s₃ (.refl s₃)
  · intro hoff t hsteps
    have hsilent : Silent t :=
      hsteps.invariant ⟨hoff,hafter.2⟩ (fun _ _ _ hs hquiet hstep => hs.step hstep hquiet)
    exact hsilent.off

def lateUpdate : List Action :=
  [.new noteSpec,.setEnabled 0 true,.register 0,.dropDisable,.update,.dropClear]

theorem lateUpdate_advertises : ∃ s,
    (server (fun _ => numberedDatabase) asStored).run World.init lateUpdate = some s ∧
      s.runtime.isNone ∧ s.advertising = true :=
  ⟨_,rfl,rfl,rfl⟩

def quietServer : List Action := [.new noteSpec,.setEnabled 0 true,.register 0,.update]

theorem drop_disables_iff_quietServer : ∃ s,
    (server (fun _ => numberedDatabase) asStored).run World.init
        (quietServer ++ [.dropDisable] ++ [.dropClear]) = some s ∧
      ∀ t, (server (fun _ => numberedDatabase) asStored).Steps (fun _ a => a.Quiet) s t →
        t.advertising = false := by
  have hruns : (((server (fun _ => numberedDatabase) asStored).run World.init quietServer).bind
      fun s => ((server (fun _ => numberedDatabase) asStored).step s .dropDisable).bind
        fun s₁ => (server (fun _ => numberedDatabase) asStored).step s₁ .dropClear).isSome :=
    rfl
  obtain ⟨s₃,hs₃⟩ := Option.isSome_iff_exists.mp hruns
  obtain ⟨s,hs,hbind⟩ := Option.bind_eq_some_iff.mp hs₃
  obtain ⟨s₁,hdisable,hclear⟩ := Option.bind_eq_some_iff.mp hbind
  have hwindow : (server (fun _ => numberedDatabase) asStored).run s₁ [] = some s₁ := rfl
  have hrun := Machine.run_concat (Machine.run_concat hs hdisable) hclear
  exact ⟨s₃,hrun,(drop_disables_iff hdisable hwindow (by simp) hclear).mpr (by simp)⟩

end BtstackRs.Gatt.Peripheral
