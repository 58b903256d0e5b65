import BtstackRs.Transport.Step

/-!
# The crew of a link

`transport_open` spawns the readers and the writer of the link that it has created, one after the
other. Whatever other calls do in the meantime, each of the three loops of each link is run by
exactly one thread, or still to be spawned by exactly one open.
-/

namespace BtstackRs.Transport

open Concurrent

def SpawnPc.ahead (l : Nat) : SpawnPc → List Role
  | event => [.reader .event l,.reader .acl l,.writer l]
  | acl _ => [.reader .acl l,.writer l]
  | writer _ _ => [.writer l]

def Frame.spawns (role : Role) : Frame → Nat
  | .openSpawn l pc => (pc.ahead l).count role
  | _ => 0

/-- How many threads run the loop or will be spawned for it. -/
def System.crew (σ : System) (role : Role) : Nat :=
  (σ.threads.map Thread.role).count role + Pool.total (Frame.spawns role) σ.threads

def Role.workOn : Role → Option Nat
  | .client => none
  | .reader _ l | .writer l => some l

theorem count_ahead {role : Role} {l : Nat} (hrole : role.workOn = some l) (l' : Nat) :
    (SpawnPc.event.ahead l').count role = if l = l' then 1 else 0 := by
  by_cases hl : l = l'
  · subst hl
    cases role with
    | client => cases hrole
    | reader kind l' =>
      cases hrole
      cases kind <;> simp [SpawnPc.ahead]
    | writer l' =>
      cases hrole
      simp [SpawnPc.ahead]
  · rw [if_neg hl,List.count_eq_zero]
    intro hmem
    simp only [SpawnPc.ahead,List.mem_cons,List.not_mem_nil,or_false] at hmem
    rcases hmem with rfl | rfl | rfl <;> exact hl (Option.some_inj.mp hrole).symm

/-- A new link is due one thread for each loop, and a spawn leaves one less to spawn. -/
theorem Move.crew_eq {σ : System} {t : Nat} {c : Choice} {role₀ : Role} {rest : List Frame}
    {d : Delta} (h : Move σ t c role₀ rest d) {role : Role} {l : Nat} (hrole : role.workOn = some l) :
    d.spawned.count role + Pool.stackWeight (Frame.spawns role) d.top' +
        (if l < σ.links.length then 1 else 0) =
      Pool.stackWeight (Frame.spawns role) d.top + if l < d.links.length then 1 else 0 := by
  cases h with
  | sectionGoto s state g hsection => cases hsection <;> simp [Frame.spawns]
  | create endpoints =>
    simp only [Frame.spawns,Pool.stackWeight_cons,Pool.stackWeight_nil,List.count_nil,
      List.length_append,List.length_singleton,count_ahead hrole]
    split <;> split <;> split <;> omega
  | spawn l' pc =>
    cases pc <;>
      simp [Frame.spawns,SpawnPc.after,SpawnPc.role,SpawnPc.ahead,List.count_cons] <;> omega
  | _ => simp [Frame.spawns]

theorem roles_apply {σ : System} (t : Nat) (rest : List Frame) (d : Delta) :
    (σ.apply t rest d).threads.map Thread.role = σ.threads.map Thread.role ++ d.spawned := by
  rw [System.apply,List.map_append,Pool.map_role_setStack,List.map_map]
  exact congrArg (_ ++ ·) (List.map_id d.spawned)

def Crewed (role : Role) (l : Nat) (σ : System) : Prop :=
  σ.crew role = if l < σ.links.length then 1 else 0

theorem Reachable.crewed {σ : System} (h : Reachable σ) {role : Role} {l : Nat}
    (hrole : role.workOn = some l) : Crewed role l σ := by
  apply h.invariant
  · intro clients handler
    rw [Crewed,System.crew,total_initial,List.count_eq_zero.mpr]
    · rfl
    · intro hmem
      obtain ⟨th,hth,rfl⟩ := List.mem_map.mp hmem
      obtain ⟨t,ht⟩ := List.getElem?_of_mem hth
      rw [(initial_thread ht).1] at hrole
      cases hrole
  · intro σ a σ' _ hσ hmoves
    obtain ⟨th,rest,d,hthread,hstack,hmove⟩ := hmoves
    have hcrew := hmove.crew_eq hrole
    have hsum := total_apply (Frame.spawns role) hthread hstack
    have hlinks : (σ.apply a.thread rest d).links = d.links := rfl
    simp only [Crewed,System.crew,roles_apply,List.count_append,hlinks] at hσ ⊢
    omega

theorem Reachable.role_unique {σ : System} (h : Reachable σ) {t u : Nat} {role : Role} {l : Nat}
    (hrole : role.workOn = some l) (ht : σ.threads.HasRole t role) (hu : σ.threads.HasRole u role) :
    t = u := by
  have hcrew := h.crewed hrole
  have hcount : (σ.threads.map Thread.role).count role ≤ 1 := by
    unfold Crewed System.crew at hcrew
    split at hcrew <;> omega
  exact Pool.HasRole.index_unique hcount ht hu

end BtstackRs.Transport
