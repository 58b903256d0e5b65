import BtstackRs.Transport.Step

/-!
# Links that exist

Frames and the active record only mention links that have been created. A new link is
therefore mentioned nowhere, and all sums over frames start at zero for it.
-/

namespace BtstackRs.Transport

open Concurrent

def EmitSite.mentions (l : Nat) : EmitSite → Nat
  | .reader _ l' | .writer l' => if l' = l then 1 else 0
  | .usbInfo => 0

def Section.mentions (l : Nat) : Section → Nat
  | .openStore active => if active.link = l then 1 else 0
  | .emitLookup site _ _ => site.mentions l
  | _ => 0

def Frame.mentions (l : Nat) : Frame → Nat
  | .lock s | .locked s => s.mentions l
  | .openSpawn l' _ => if l' = l then 1 else 0
  | .closeStop active | .closeJoinReaders active _ | .closeJoinWriter active =>
      if active.link = l then 1 else 0
  | .send _ handles _ => if handles.link = l then 1 else 0
  | .emitCall site _ _ _ | .emitRunning site _ _ => site.mentions l
  | .opening _ | .openCreate _ => 0

structure WellScoped (σ : System) : Prop where
  frames : ∀ l, σ.links.length ≤ l → Pool.total (Frame.mentions l) σ.threads = 0
  active : ∀ active, σ.state.active = some active → active.link < σ.links.length

private theorem move_mentions {σ : System} {t : Nat} {c : Choice} {role : Role}
    {rest : List Frame} {d : Delta} (hσ : WellScoped σ) (h : Move σ t c role rest d)
    {l : Nat} (hl : d.links.length ≤ l)
    (htop : Pool.stackWeight (Frame.mentions l) d.top = 0) :
    Pool.stackWeight (Frame.mentions l) d.top' = 0 := by
  have hlt : ∀ {l' : Nat} {link : Link}, σ.links[l']? = some link → l' ≠ l := by
    rintro l' link hlink rfl
    have hlength := h.links_length
    have hbound := (List.getElem?_eq_some_iff.mp hlink).1
    omega
  have hactive : ∀ {active : ActiveTransport}, σ.state.active = some active →
      active.link ≠ l := by
    intro active hactive
    have hbound := hσ.active active hactive
    have hlength := h.links_length
    omega
  cases h with
  | sectionGoto s state g hsection =>
    cases hsection with
    | openCheck hclosed => rfl
    | closeTake active h => simp [Frame.mentions,hactive h]
    | sendLookup call active h => simp [Frame.mentions,hactive h]
    | emitLookup site packetType packet handler h =>
      simpa [Frame.mentions,Section.mentions] using htop
  | create endpoints =>
    have hne : σ.links.length ≠ l := by
      simp only [List.length_append,List.length_singleton] at hl
      omega
    simp [Frame.mentions,hne]
  | spawn l' pc => cases pc <;> simpa [Frame.mentions,SpawnPc.after,Section.mentions] using htop
  | call op s hchoice hcan henters => cases henters <;> rfl
  | readerDeliver kind l' link r data hrole hrest hlink hreader hdata =>
    simp [Frame.mentions,Section.mentions,EmitSite.mentions,hlt hlink]
  | writerAcknowledge l' link link' hrole hrest hlink hwriter hack =>
    simp [Frame.mentions,Section.mentions,EmitSite.mentions,hlt hlink]
  | lock | openingClaim | sendGoto | stop | joinedReaders | joinReader | enter => exact htop
  | _ => rfl

private theorem move_active {σ : System} {t : Nat} {c : Choice} {role : Role}
    {rest : List Frame} {d : Delta} (hσ : WellScoped σ)
    (hstack : ∀ l, σ.links.length ≤ l → Pool.stackWeight (Frame.mentions l) d.top = 0)
    (h : Move σ t c role rest d) {active : ActiveTransport} (hactive : d.state.active = some active) :
    active.link < d.links.length := by
  have hlength := h.links_length
  have hkeep : σ.state.active = some active → active.link < d.links.length :=
    fun hsame => Nat.lt_of_lt_of_le (hσ.active active hsame) hlength
  have hstored : d.top = [.locked (.openStore active)] → active.link < d.links.length := by
    intro htop
    by_contra hge
    have hzero := hstack active.link (by omega)
    simp [htop,Frame.mentions,Section.mentions] at hzero
  cases h with
  | sectionGoto s state g hsection =>
    cases hsection with
    | closeTake taken h => cases hactive
    | _ => exact hkeep hactive
  | sectionRet s state result hsection =>
    cases hsection with
    | openStore stored =>
      cases hactive
      exact hstored rfl
    | _ => exact hkeep hactive
  | _ => exact hkeep hactive

theorem wellScoped_moves {σ σ' : System} {a : Action} (hσ : WellScoped σ) (h : Moves σ a σ') :
    WellScoped σ' := by
  obtain ⟨th,rest,d,hthread,hstack,hmove⟩ := h
  have htop : ∀ l, σ.links.length ≤ l → Pool.stackWeight (Frame.mentions l) d.top = 0 := by
    intro l hl
    have hle := Pool.stackWeight_le_total (Frame.mentions l) hthread
    rw [hσ.frames l hl,hstack,Pool.stackWeight_append] at hle
    omega
  constructor
  · intro l hl
    have hold : σ.links.length ≤ l := Nat.le_trans hmove.links_length hl
    have hsum := total_apply (Frame.mentions l) hthread hstack
    rw [hσ.frames l hold,htop l hold,move_mentions hσ hmove hl (htop l hold)] at hsum
    omega
  · intro active hactive
    exact move_active hσ htop hmove hactive

theorem Reachable.wellScoped {σ : System} (h : Reachable σ) : WellScoped σ := by
  apply h.invariant
  · intro clients handler
    exact ⟨fun l _ => total_initial _ clients handler,fun active hactive => by cases hactive⟩
  · exact fun σ a σ' _ hσ hmoves => wellScoped_moves hσ hmoves

end BtstackRs.Transport
