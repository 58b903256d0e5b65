import Mathlib.Data.List.AList
import Mathlib.Data.List.Dedup
import Mathlib.Data.List.Induction

/-!
# Tables

Finite maps with one value type, as Mathlib's association lists. A table that a loop fills from
the entries of another one does not depend on the order in which the loop meets them.
-/

namespace Sequence

universe u v w

abbrev Table (Key : Type u) (Value : Type v) := AList (fun _ : Key => Value)

namespace Table

variable {Key : Type u} {Value : Type v} {Value' : Type w}

def mapValues (f : Value → Value') (table : Table Key Value) : Table Key Value' where
  entries := table.entries.map (.map id fun _ => f)
  nodupKeys := List.NodupKeys.map₂ (fun _ => f) table.entries table.nodupKeys

variable [DecidableEq Key]

@[simp] theorem lookup_mapValues (f : Value → Value') (table : Table Key Value) (k : Key) :
    (table.mapValues f).lookup k = (table.lookup k).map f :=
  List.dlookup_map₂ k

/-- The table that a loop of insertions makes, from no entries. -/
def insertAll {Entry : Type w} (assign : Entry → Option (Key × Value)) (entries : List Entry) :
    Table Key Value :=
  entries.foldl (fun table entry => match assign entry with
    | some (k,v) => table.insert k v
    | none => table) ∅

theorem insertAll_concat {Entry : Type w} (assign : Entry → Option (Key × Value))
    (entries : List Entry) (last : Entry) :
    insertAll assign (entries ++ [last]) = match assign last with
      | some (k,v) => (insertAll assign entries).insert k v
      | none => insertAll assign entries := by
  simp [insertAll,List.foldl_append]

theorem exists_of_lookup_insertAll {Entry : Type w} {assign : Entry → Option (Key × Value)}
    {entries : List Entry} {k : Key} {v : Value}
    (h : (insertAll assign entries).lookup k = some v) : ∃ e ∈ entries, assign e = some (k,v) := by
  induction entries using List.reverseRecOn with
  | nil => simp [insertAll] at h
  | append_singleton entries last ih =>
    have hbefore : (insertAll assign entries).lookup k = some v →
        ∃ e ∈ entries ++ [last], assign e = some (k,v) := by
      intro hlookup
      obtain ⟨e,he,hassign⟩ := ih hlookup
      exact ⟨e,List.mem_append_left _ he,hassign⟩
    rw [insertAll_concat] at h
    cases hlast : assign last with
    | none =>
      rw [hlast] at h
      exact hbefore h
    | some pair =>
      rw [hlast] at h
      by_cases hk : k = pair.1
      · subst hk
        rw [AList.lookup_insert] at h
        cases h
        exact ⟨last,by simp,hlast⟩
      · rw [AList.lookup_insert_ne hk] at h
        exact hbefore h

theorem mem_insertAll {Entry : Type w} {assign : Entry → Option (Key × Value)}
    {entries : List Entry} {k : Key} :
    k ∈ insertAll assign entries ↔ ∃ e ∈ entries, ∃ v, assign e = some (k,v) := by
  constructor
  · intro h
    obtain ⟨v,hv⟩ := Option.isSome_iff_exists.mp (AList.lookup_isSome.mpr h)
    obtain ⟨e,he,hassign⟩ := exists_of_lookup_insertAll hv
    exact ⟨e,he,v,hassign⟩
  · rintro ⟨e,he,v,hassign⟩
    induction entries using List.reverseRecOn with
    | nil => cases he
    | append_singleton entries last ih =>
      rw [insertAll_concat]
      rcases List.mem_append.mp he with he | he
      · cases assign last with
        | none => exact ih he
        | some pair => exact (AList.mem_insert _).mpr (.inr (ih he))
      · rw [List.mem_singleton] at he
        subst he
        rw [hassign]
        exact (AList.mem_insert _).mpr (.inl rfl)

def keyed (key : Value → Key) (values : List Value) : Table Key Value :=
  values.foldl (fun table v => table.insert (key v) v) ∅

@[simp] theorem keyed_concat (key : Value → Key) (values : List Value) (v : Value) :
    keyed key (values ++ [v]) = (keyed key values).insert (key v) v := by
  simp [keyed,List.foldl_append]

theorem mem_keyed {key : Value → Key} {values : List Value} {k : Key} :
    k ∈ keyed key values ↔ k ∈ values.map key := by
  induction values using List.reverseRecOn with
  | nil => simp [keyed]
  | append_singleton values v ih =>
    rw [keyed_concat,AList.mem_insert,ih,List.map_append,List.mem_append,or_comm]
    simp

theorem entries_keyed_perm {key : Value → Key} {values : List Value}
    (h : (values.map key).Nodup) :
    (keyed key values).entries.Perm (values.map (fun v => ⟨key v,v⟩)) := by
  induction values using List.reverseRecOn with
  | nil => exact .refl _
  | append_singleton values v ih =>
    rw [List.map_append,List.map_singleton] at h
    have hfresh : key v ∉ keyed key values := by
      rw [mem_keyed]
      intro hmem
      exact (List.disjoint_of_nodup_append h) hmem (by simp)
    rw [keyed_concat,AList.entries_insert_of_notMem hfresh,List.map_append,List.map_singleton]
    exact ((ih h.of_append_left).cons _).trans (List.perm_append_singleton _ _).symm

theorem lookup_keyed {key : Value → Key} {values : List Value} (h : (values.map key).Nodup)
    {v : Value} (hv : v ∈ values) : (keyed key values).lookup (key v) = some v := by
  apply AList.mem_lookup_iff.mpr
  rw [(entries_keyed_perm h).mem_iff]
  exact List.mem_map_of_mem hv

theorem length_keyed_iff {key : Value → Key} {values : List Value} :
    (keyed key values).entries.length = values.length ↔ (values.map key).Nodup := by
  constructor
  · intro h
    have hperm : (keyed key values).keys.Perm (values.map key).dedup := by
      rw [List.perm_ext_iff_of_nodup (AList.keys_nodup _) (List.nodup_dedup _)]
      intro k
      rw [← AList.mem_keys,mem_keyed,List.mem_dedup]
    have hlength : (values.map key).dedup.length = (values.map key).length := by
      rw [← hperm.length_eq,AList.keys,List.keys,List.length_map,h,List.length_map]
    rw [← List.dedup_eq_self]
    exact (List.dedup_sublist _).eq_of_length hlength
  · intro h
    rw [(entries_keyed_perm h).length_eq,List.length_map]

end Table

end Sequence
