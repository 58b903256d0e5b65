import Mathlib.Data.List.Forall2

/-!
# Numerals

Texts that are read piece by piece, where a piece may not be readable: what stands before a
separator, the elements of a list, and the digits of a number.
-/

namespace Sequence

universe u v

theorem mapM_eq_some_iff {Item : Type u} {Value : Type v} {f : Item → Option Value}
    {xs : List Item} {ys : List Value} :
    xs.mapM f = some ys ↔ List.Forall₂ (fun x y => f x = some y) xs ys := by
  induction xs generalizing ys with
  | nil =>
    rw [List.mapM_nil,List.forall₂_nil_left_iff]
    exact Option.some_inj.trans eq_comm
  | cons x xs ih =>
    rw [List.mapM_cons,List.forall₂_cons_left_iff]
    constructor
    · intro h
      obtain ⟨y,hy,h⟩ := Option.bind_eq_some_iff.mp h
      obtain ⟨ys',hys,h⟩ := Option.bind_eq_some_iff.mp h
      exact ⟨y,ys',hy,ih.mp hys,(Option.some.inj h).symm⟩
    · rintro ⟨y,ys',hy,hys,rfl⟩
      rw [hy,ih.mpr hys]
      rfl

theorem not_mem_intercalate {Item : Type u} {x : Item} {sep : List Item} (hsep : x ∉ sep)
    {parts : List (List Item)} (h : ∀ part ∈ parts, x ∉ part) : x ∉ sep.intercalate parts := by
  induction parts with
  | nil => simp
  | cons part parts ih =>
    rw [List.forall_mem_cons] at h
    cases parts with
    | nil =>
      rw [List.intercalate_singleton]
      exact h.1
    | cons part' parts =>
      rw [List.intercalate_cons_cons]
      simp [h.1,hsep,ih h.2]

structure IsDecimal (digits : List Char) : Prop where
  nonempty : digits ≠ []
  digit : ∀ c ∈ digits, c.isDigit = true

theorem IsDecimal.ne_cons {digits cs : List Char} (h : IsDecimal digits) {c : Char}
    (hc : c.isDigit = false) : digits ≠ c :: cs := by
  rintro rfl
  rw [h.digit c List.mem_cons_self] at hc
  cases hc

def decimalValue (digits : List Char) : Nat := Nat.ofDigitChars 10 digits 0

theorem le_ofDigitChars (digits : List Char) (n : Nat) : n ≤ Nat.ofDigitChars 10 digits n := by
  rw [Nat.ofDigitChars_eq_ofDigitChars_zero]
  have hpow : 1 ≤ 10^digits.length := Nat.one_le_pow _ _ (by decide)
  have hmul : 1*n ≤ 10^digits.length*n := Nat.mul_le_mul_right n hpow
  omega

theorem isDecimal_toDigits (n : Nat) : IsDecimal (Nat.toDigits 10 n) :=
  ⟨Nat.toDigits_ne_nil,fun _ hc => Nat.isDigit_of_mem_toDigits (by decide) (by decide) hc⟩

theorem decimalValue_toDigits (n : Nat) : decimalValue (Nat.toDigits 10 n) = n :=
  Nat.ofDigitChars_ten_toDigits

theorem decimalValue_leftpad (n : Nat) (digits : List Char) :
    decimalValue (digits.leftpad n '0') = decimalValue digits := by
  rw [decimalValue,List.leftpad,Nat.ofDigitChars_append,Nat.ofDigitChars_replicate_zero,Nat.mul_zero,
    decimalValue]

end Sequence
