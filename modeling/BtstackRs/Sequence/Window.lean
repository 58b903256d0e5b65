import Mathlib.Data.List.Basic

/-!
# Windows

A list is read in windows, each of them at the offset that the windows before it have reached.
With windows of any non-zero sizes the end is reached, and the windows joined are the list.
-/

namespace Sequence

universe u

variable {Item : Type u}

/-- At most `size` elements from an offset on. -/
def window (value : List Item) (offset size : Nat) : List Item := (value.drop offset).take size

def reached (value : List Item) (sizes : Nat → Nat) : Nat → Nat
  | 0 => 0
  | n+1 => reached value sizes n+(window value (reached value sizes n) (sizes n)).length

theorem length_window (value : List Item) (offset size : Nat) :
    (window value offset size).length = min size (value.length-offset) := by
  rw [window,List.length_take,List.length_drop]

theorem window_eq_nil {value : List Item} {offset : Nat} (h : value.length ≤ offset) (size : Nat) :
    window value offset size = [] := by
  rw [window,List.drop_eq_nil_of_le h,List.take_nil]

theorem reached_le (value : List Item) (sizes : Nat → Nat) (n : Nat) :
    reached value sizes n ≤ value.length := by
  induction n with
  | zero => exact Nat.zero_le _
  | succ n ih =>
    rw [reached,length_window]
    omega

theorem min_le_reached (value : List Item) {sizes : Nat → Nat} (hsizes : ∀ k, 0 < sizes k) (n : Nat) :
    min n value.length ≤ reached value sizes n := by
  induction n with
  | zero => simp
  | succ n ih =>
    have hsize := hsizes n
    rw [reached,length_window]
    omega

theorem reached_eq_length (value : List Item) {sizes : Nat → Nat} (hsizes : ∀ k, 0 < sizes k)
    {n : Nat} (h : value.length ≤ n) : reached value sizes n = value.length := by
  have hmin := min_le_reached value hsizes n
  rw [Nat.min_eq_right h] at hmin
  exact Nat.le_antisymm (reached_le value sizes n) hmin

theorem flatMap_windows (value : List Item) (sizes : Nat → Nat) (n : Nat) :
    (List.range n).flatMap (fun k => window value (reached value sizes k) (sizes k)) =
      value.take (reached value sizes n) := by
  induction n with
  | zero => simp [reached]
  | succ n ih =>
    rw [List.range_succ,List.flatMap_append,ih,List.flatMap_singleton,reached,List.take_add]
    congr 1
    rw [length_window,← List.length_drop,window,List.take_eq_take_iff]
    omega

end Sequence
