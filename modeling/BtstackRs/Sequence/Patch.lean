import BtstackRs.Concurrent.History

/-!
# Patches

A patch puts data into a list at an offset; a list that is too short is first extended with a
fill element. What a list of patches leaves at a position is decided by the last patch that
covers it, and the length by the patch that ends last.
-/

namespace Sequence

open Concurrent

universe u

structure Patch (Item : Type u) where
  offset : Nat
  data : List Item

namespace Patch

variable {Item : Type u}

def limit (p : Patch Item) : Nat := p.offset+p.data.length

/-- What the patch puts at position `i`, if it covers it. -/
def at? (p : Patch Item) (i : Nat) : Option Item :=
  if p.offset ≤ i then p.data[i-p.offset]? else none

def extend (fill : Item) (value : List Item) (n : Nat) : List Item :=
  value ++ List.replicate (n-value.length) fill

def overwrite (value : List Item) (offset : Nat) (data : List Item) : List Item :=
  value.take offset ++ data ++ value.drop (offset+data.length)

def apply (fill : Item) (value : List Item) (p : Patch Item) : List Item :=
  overwrite (extend fill value p.limit) p.offset p.data

def applyAll (fill : Item) (value : List Item) (ps : List (Patch Item)) : List Item :=
  ps.foldl (apply fill) value

/-- The data of the patch stands in `w` at its offset. -/
def IsSlice (w : List Item) (p : Patch Item) : Prop :=
  ∃ front back, w = front ++ p.data ++ back ∧ front.length = p.offset

@[simp] theorem length_extend (fill : Item) (value : List Item) (n : Nat) :
    (extend fill value n).length = max value.length n := by
  simp only [extend,List.length_append,List.length_replicate]
  omega

theorem extend_of_le {fill : Item} {value : List Item} {n : Nat} (h : n ≤ value.length) :
    extend fill value n = value := by
  simp [extend,Nat.sub_eq_zero_of_le h]

theorem getElem?_extend (fill : Item) (value : List Item) {n i : Nat}
    (h : i < max value.length n) :
    (extend fill value n)[i]? = some (value[i]?.getD fill) := by
  rw [extend,List.getElem?_append]
  split
  · rename_i hi
    simp [hi]
  · rename_i hi
    have hnone : value[i]? = none := List.getElem?_eq_none (by omega)
    rw [hnone,List.getElem?_replicate,if_pos (by omega),Option.getD_none]

theorem length_overwrite {value : List Item} {offset : Nat} {data : List Item}
    (h : offset+data.length ≤ value.length) :
    (overwrite value offset data).length = value.length := by
  simp only [overwrite,List.length_append,List.length_take,List.length_drop]
  omega

theorem getElem?_overwrite {value : List Item} {offset : Nat} {data : List Item}
    (h : offset+data.length ≤ value.length) (i : Nat) :
    (overwrite value offset data)[i]? = ((⟨offset,data⟩ : Patch Item).at? i).or value[i]? := by
  have htake : (value.take offset).length = offset := by
    rw [List.length_take]
    omega
  rw [overwrite,List.append_assoc,List.getElem?_append,htake,at?]
  split
  · rename_i hi
    rw [if_neg (Nat.not_le.mpr hi),List.getElem?_take_of_lt hi,Option.none_or]
  · rename_i hi
    rw [if_pos (Nat.not_lt.mp hi),List.getElem?_append]
    split
    · rename_i hcovered
      simp [hcovered]
    · rename_i hafter
      have hnone : data[i-offset]? = none := List.getElem?_eq_none (by omega)
      rw [hnone,Option.none_or,List.getElem?_drop]
      congr 1
      omega

@[simp] theorem length_apply (fill : Item) (value : List Item) (p : Patch Item) :
    (apply fill value p).length = max value.length p.limit := by
  rw [apply,length_overwrite,length_extend]
  rw [length_extend]
  exact Nat.le_max_right _ _

theorem at?_eq_none_of_limit_le {p : Patch Item} {i : Nat} (h : p.limit ≤ i) : p.at? i = none := by
  rw [at?]
  split
  · exact List.getElem?_eq_none (by rw [limit] at h; omega)
  · rfl

theorem apply_front (fill : Item) (value data : List Item) :
    apply fill value ⟨0,data⟩ = data ++ value.drop data.length := by
  rw [apply,overwrite,extend,limit,Nat.zero_add,List.take_zero,List.nil_append]
  congr 1
  rw [List.drop_append]
  simp

theorem apply_front_eq_iff {fill : Item} {value data : List Item} :
    apply fill value ⟨0,data⟩ = data ↔ value.length ≤ data.length := by
  rw [apply_front,List.append_right_eq_self,List.drop_eq_nil_iff]

theorem getElem?_apply (fill : Item) (value : List Item) (p : Patch Item) {i : Nat}
    (h : i < max value.length p.limit) :
    (apply fill value p)[i]? = some ((p.at? i).getD (value[i]?.getD fill)) := by
  have hfits : p.offset+p.data.length ≤ (extend fill value p.limit).length := by
    rw [length_extend]
    exact Nat.le_max_right _ _
  rw [apply,getElem?_overwrite hfits,getElem?_extend fill value h]
  cases p.at? i <;> rfl

@[simp] theorem applyAll_nil (fill : Item) (value : List Item) : applyAll fill value [] = value :=
  rfl

@[simp] theorem applyAll_concat (fill : Item) (value : List Item) (ps : List (Patch Item))
    (p : Patch Item) : applyAll fill value (ps ++ [p]) = apply fill (applyAll fill value ps) p := by
  simp [applyAll,List.foldl_append]

theorem length_applyAll_le_iff {fill : Item} {value : List Item} {ps : List (Patch Item)} {n : Nat} :
    (applyAll fill value ps).length ≤ n ↔ value.length ≤ n ∧ ∀ p ∈ ps, p.limit ≤ n := by
  induction ps using List.reverseRecOn with
  | nil => simp
  | append_singleton ps p ih =>
    rw [applyAll_concat,length_apply,Nat.max_le,ih]
    simp only [List.mem_append,List.mem_singleton]
    grind

theorem length_le_applyAll (fill : Item) (value : List Item) (ps : List (Patch Item)) :
    value.length ≤ (applyAll fill value ps).length :=
  (length_applyAll_le_iff.mp (Nat.le_refl _)).1

theorem limit_le_applyAll (fill : Item) (value : List Item) {ps : List (Patch Item)} {p : Patch Item}
    (hp : p ∈ ps) : p.limit ≤ (applyAll fill value ps).length :=
  (length_applyAll_le_iff.mp (Nat.le_refl _)).2 p hp

/-- The last patch that covers a position decides what stands there. -/
theorem getElem?_applyAll (fill : Item) (value : List Item) (ps : List (Patch Item)) {i : Nat}
    (h : i < (applyAll fill value ps).length) :
    (applyAll fill value ps)[i]? =
      some ((latest (fun p => p.at? i) ps).getD (value[i]?.getD fill)) := by
  induction ps using List.reverseRecOn with
  | nil =>
    rw [applyAll_nil] at h
    simp [h]
  | append_singleton ps p ih =>
    rw [applyAll_concat,length_apply] at h
    rw [applyAll_concat,getElem?_apply fill _ p h,latest_concat]
    cases hat : p.at? i with
    | some a => rfl
    | none =>
      rw [Option.getD_none,Option.none_or]
      rcases Nat.lt_or_ge i (applyAll fill value ps).length with hi | hi
      · rw [ih hi,Option.getD_some]
      · -- beyond the earlier end and not covered by the patch: the fill element
        have hlatest : latest (fun p => p.at? i) ps = none := by
          rw [latest_eq_none_iff]
          intro q hq
          exact at?_eq_none_of_limit_le (Nat.le_trans (limit_le_applyAll fill value hq) hi)
        have hvalue : value[i]? = none :=
          List.getElem?_eq_none (Nat.le_trans (length_le_applyAll fill value ps) hi)
        rw [hlatest,hvalue,List.getElem?_eq_none hi,Option.getD_none,Option.getD_none]

theorem lt_length_applyAll_iff {fill : Item} {value : List Item} {ps : List (Patch Item)} {i : Nat} :
    i < (applyAll fill value ps).length ↔ i < value.length ∨ ∃ p ∈ ps, i < p.limit := by
  rw [← Nat.not_le,length_applyAll_le_iff,Classical.not_and_iff_not_or_not,Nat.not_le]
  simp only [not_forall,Nat.not_le,exists_prop]

theorem getElem?_applyAll_eq (fill : Item) (value : List Item) (ps : List (Patch Item)) (i : Nat) :
    (applyAll fill value ps)[i]? = if i < value.length ∨ ∃ p ∈ ps, i < p.limit then
      some ((latest (fun p => p.at? i) ps).getD (value[i]?.getD fill)) else none := by
  split
  · rename_i hi
    exact getElem?_applyAll fill value ps (lt_length_applyAll_iff.mpr hi)
  · rename_i hi
    rw [← @lt_length_applyAll_iff Item fill] at hi
    exact List.getElem?_eq_none (Nat.not_lt.mp hi)

/-- Patches leave a list alone exactly when none reaches beyond its end and the last one at every
position carries what stands there. -/
theorem applyAll_eq_self_iff {fill : Item} {value : List Item} {ps : List (Patch Item)} :
    applyAll fill value ps = value ↔ (∀ p ∈ ps, p.limit ≤ value.length) ∧
      ∀ i a, latest (fun p => p.at? i) ps = some a → value[i]? = some a := by
  constructor
  · intro h
    have hlimit : ∀ p ∈ ps, p.limit ≤ value.length := by
      intro p hp
      have hle := limit_le_applyAll fill value hp
      rwa [h] at hle
    refine ⟨hlimit,fun i a ha => ?_⟩
    obtain ⟨before,p,after,hsplit,hat,-⟩ := latest_eq_some_iff.mp ha
    have hi : i < (applyAll fill value ps).length := by
      rcases Nat.lt_or_ge i p.limit with hlt | hge
      · exact Nat.lt_of_lt_of_le hlt (limit_le_applyAll fill value (by simp [hsplit]))
      · rw [at?_eq_none_of_limit_le hge] at hat
        cases hat
    have hget := getElem?_applyAll fill value ps hi
    rwa [ha,h] at hget
  · rintro ⟨hlimit,hlatest⟩
    have hlen : (applyAll fill value ps).length = value.length :=
      Nat.le_antisymm (length_applyAll_le_iff.mpr ⟨Nat.le_refl _,hlimit⟩)
        (length_le_applyAll fill value ps)
    apply List.ext_getElem?
    intro i
    rcases Nat.lt_or_ge i value.length with hi | hi
    · rw [getElem?_applyAll fill value ps (hlen ▸ hi)]
      cases hlast : latest (fun p => p.at? i) ps with
      | none => simp [hi]
      | some a => rw [hlatest i a hlast,Option.getD_some]
    · rw [List.getElem?_eq_none (hlen ▸ hi),List.getElem?_eq_none hi]

theorem IsSlice.limit_le {w : List Item} {p : Patch Item} (h : IsSlice w p) :
    p.limit ≤ w.length := by
  obtain ⟨front,back,rfl,hfront⟩ := h
  rw [limit,List.length_append,List.length_append,hfront]
  omega

theorem IsSlice.at?_eq {w : List Item} {p : Patch Item} (h : IsSlice w p) {i : Nat} {a : Item}
    (ha : p.at? i = some a) : w[i]? = some a := by
  obtain ⟨front,back,rfl,hfront⟩ := h
  rw [at?] at ha
  split at ha
  · rename_i hi
    have hlt : i-p.offset < p.data.length := (List.getElem?_eq_some_iff.mp ha).1
    rw [List.append_assoc,List.getElem?_append_right (hfront ▸ hi),hfront,
      List.getElem?_append_left hlt,ha]
  · cases ha

/-- Slices that together cover a list build it, in any order and with any repetitions. -/
theorem applyAll_eq_of_slices {fill : Item} {value w : List Item} {ps : List (Patch Item)}
    (hvalue : value.length ≤ w.length) (hslice : ∀ p ∈ ps, IsSlice w p)
    (hcover : ∀ i, i < w.length → ∃ p ∈ ps, (p.at? i).isSome) : applyAll fill value ps = w := by
  have hle : (applyAll fill value ps).length ≤ w.length :=
    length_applyAll_le_iff.mpr ⟨hvalue,fun p hp => (hslice p hp).limit_le⟩
  have hlong : ∀ i, i < w.length → i < (applyAll fill value ps).length := by
    intro i hi
    obtain ⟨p,hp,hat⟩ := hcover i hi
    rcases Nat.lt_or_ge i p.limit with hlt | hge
    · exact Nat.lt_of_lt_of_le hlt (limit_le_applyAll fill value hp)
    · simp [at?_eq_none_of_limit_le hge] at hat
  apply List.ext_getElem?
  intro i
  rcases Nat.lt_or_ge i w.length with hi | hi
  · rw [getElem?_applyAll fill value ps (hlong i hi)]
    cases hlast : latest (fun p => p.at? i) ps with
    | none =>
      obtain ⟨p,hp,hat⟩ := hcover i hi
      rw [latest_eq_none_iff.mp hlast p hp] at hat
      cases hat
    | some a =>
      obtain ⟨before,p,after,hsplit,hat,-⟩ := latest_eq_some_iff.mp hlast
      rw [Option.getD_some,(hslice p (by simp [hsplit])).at?_eq hat]
  · rw [List.getElem?_eq_none (Nat.le_trans hle hi),List.getElem?_eq_none hi]

end Patch

end Sequence
