import BtstackRs.Sequence.Numeral
import BtstackRs.Transport.Usb

/-!
# Port chains

What `parse_usb_path` accepts: a name, a dash, and one to seven numerals with dots between them.
The names that Linux gives to devices behind hubs are of this form, and the ports are read back.
-/

namespace BtstackRs.Transport

open Sequence

structure HasDigits (s digits : List Char) : Prop where
  sign : s = digits ∨ s = '+' :: digits
  decimal : IsDecimal digits

/-- What `u8::from_str` accepts: the digits of a number that fits. -/
def IsNumeral (s : List Char) (n : UInt8) : Prop :=
  ∃ digits, HasDigits s digits ∧ decimalValue digits = n.toNat

/-- Port numerals behind the first dash, and the list of their values. -/
structure IsPortChain (s : List Char) (bus : List Char) (parts : List (List Char)) (path : Bytes) :
    Prop where
  name : s = bus ++ '-' :: ['.'].intercalate parts
  firstDash : '-' ∉ bus
  numerals : List.Forall₂ IsNumeral parts path
  count : 1 ≤ parts.length ∧ parts.length ≤ usbMaxPathLen

def portName (bus : List Char) (path : Bytes) : List Char :=
  bus ++ '-' :: ['.'].intercalate (path.map (fun port => Nat.toDigits 10 port.toNat))

theorem splitOnce_append {sep : Char} {before : List Char} (h : sep ∉ before) (after : List Char) :
    splitOnce sep (before ++ sep :: after) = some (before,after) := by
  induction before with
  | nil => simp [splitOnce]
  | cons c before ih =>
    rw [List.mem_cons,not_or] at h
    rw [List.cons_append,splitOnce,if_neg (Ne.symm h.1),ih h.2]
    rfl

theorem splitOnce_eq_none {sep : Char} {s : List Char} (h : sep ∉ s) : splitOnce sep s = none := by
  induction s with
  | nil => rfl
  | cons c s ih =>
    rw [List.mem_cons,not_or] at h
    rw [splitOnce,if_neg (Ne.symm h.1),ih h.2]
    rfl

theorem splitOnce_eq_some_iff {sep : Char} {s before after : List Char} :
    splitOnce sep s = some (before,after) ↔ s = before ++ sep :: after ∧ sep ∉ before := by
  constructor
  · intro h
    induction s generalizing before with
    | nil => cases h
    | cons c s ih =>
      rw [splitOnce] at h
      split at h
      · rename_i hc
        cases h
        exact ⟨by rw [hc]; rfl,by simp⟩
      · rename_i hc
        obtain ⟨⟨before',after'⟩,hsplit,hparts⟩ := Option.map_eq_some_iff.mp h
        cases hparts
        obtain ⟨rfl,hbefore⟩ := ih hsplit
        exact ⟨rfl,by simp [hbefore,Ne.symm hc]⟩
  · rintro ⟨rfl,hbefore⟩
    exact splitOnce_append hbefore after

/-- The overflow check in every round says no more than one at the end. -/
theorem parseDigits_eq_some_iff {digits : List Char} {acc n : Nat} (hacc : acc ≤ 255) :
    parseDigits acc digits = some n ↔
      (∀ c ∈ digits, c.isDigit = true) ∧ Nat.ofDigitChars 10 digits acc = n ∧ n ≤ 255 := by
  induction digits generalizing acc with
  | nil =>
    rw [parseDigits,Nat.ofDigitChars_nil,Option.some_inj]
    constructor
    · rintro rfl
      exact ⟨by simp,rfl,hacc⟩
    · exact fun h => h.2.1
  | cons c digits ih =>
    have hnext : 10*acc+(c.toNat - '0'.toNat) ≤
        Nat.ofDigitChars 10 digits (10*acc+(c.toNat - '0'.toNat)) := le_ofDigitChars _ _
    rw [parseDigits,Nat.ofDigitChars_cons,Nat.mul_comm acc 10,List.forall_mem_cons]
    by_cases hdigit : c.isDigit = true
    · rw [if_pos hdigit]
      by_cases hfits : 10*acc+(c.toNat - '0'.toNat) ≤ 255
      · show (if _ then _ else _) = some n ↔ _
        rw [if_pos hfits,ih hfits]
        simp [hdigit]
      · show (if _ then _ else _) = some n ↔ _
        rw [if_neg hfits]
        constructor
        · intro h
          cases h
        · rintro ⟨-,rfl,hn⟩
          exact absurd (Nat.le_trans hnext hn) hfits
    · rw [if_neg hdigit]
      constructor
      · intro h
        cases h
      · intro h
        exact absurd h.1.1 hdigit

theorem HasDigits.unique {s digits digits' : List Char} (h : HasDigits s digits)
    (h' : HasDigits s digits') : digits = digits' := by
  rcases h.sign with rfl | rfl
  · rcases h'.sign with heq | heq
    · exact heq
    · exact absurd heq (h.decimal.ne_cons (by decide))
  · rcases h'.sign with heq | heq
    · exact absurd heq.symm (h'.decimal.ne_cons (by decide))
    · exact (List.cons.inj heq).2

theorem parseU8_eq_some_iff {s : List Char} {n : UInt8} : parseU8 s = some n ↔ IsNumeral s n := by
  have hdigits : ∀ digits : List Char,
      (if digits = [] then none else (parseDigits 0 digits).map UInt8.ofNat) = some n ↔
        IsDecimal digits ∧ decimalValue digits = n.toNat := by
    intro digits
    by_cases hempty : digits = []
    · rw [if_pos hempty]
      constructor
      · intro h
        cases h
      · intro h
        exact absurd hempty h.1.nonempty
    · rw [if_neg hempty,Option.map_eq_some_iff]
      constructor
      · rintro ⟨value,hvalue,rfl⟩
        obtain ⟨hdigit,hvalue,hfits⟩ := (parseDigits_eq_some_iff (by decide)).mp hvalue
        refine ⟨⟨hempty,hdigit⟩,?_⟩
        rw [UInt8.toNat_ofNat',decimalValue,hvalue]
        omega
      · rintro ⟨hdecimal,hvalue⟩
        refine ⟨n.toNat,(parseDigits_eq_some_iff (by decide)).mpr
          ⟨hdecimal.digit,hvalue,?_⟩,UInt8.ofNat_toNat⟩
        exact Nat.lt_succ_iff.mp n.toNat_lt
  by_cases hplus : ∃ digits, s = '+' :: digits
  · obtain ⟨digits,rfl⟩ := hplus
    refine (hdigits digits).trans ⟨fun h => ⟨digits,⟨.inr rfl,h.1⟩,h.2⟩,?_⟩
    rintro ⟨digits',⟨heq | heq,hdecimal⟩,hvalue⟩
    · exact absurd heq.symm (hdecimal.ne_cons (by decide))
    · cases heq
      exact ⟨hdecimal,hvalue⟩
  · have hparse : parseU8 s = if s = [] then none else (parseDigits 0 s).map UInt8.ofNat := by
      rw [parseU8]
      exact fun digits hs => hplus ⟨digits,hs⟩
    rw [hparse,hdigits]
    refine ⟨fun h => ⟨s,⟨.inl rfl,h.1⟩,h.2⟩,?_⟩
    rintro ⟨digits',⟨rfl | rfl,hdecimal⟩,hvalue⟩
    · exact ⟨hdecimal,hvalue⟩
    · exact absurd ⟨_,rfl⟩ hplus

theorem IsNumeral.not_mem {s : List Char} {n : UInt8} (h : IsNumeral s n) {c : Char}
    (hdigit : c.isDigit = false) (hplus : c ≠ '+') : c ∉ s := by
  obtain ⟨digits,⟨hs,hdecimal⟩,-⟩ := h
  intro hc
  have hmem : c ∈ digits := by
    rcases hs with rfl | rfl
    · exact hc
    · exact (List.mem_cons.mp hc).resolve_left hplus
  rw [hdecimal.digit c hmem] at hdigit
  cases hdigit

theorem isNumeral_toDigits (n : UInt8) : IsNumeral (Nat.toDigits 10 n.toNat) n :=
  ⟨_,⟨.inl rfl,isDecimal_toDigits _⟩,decimalValue_toDigits _⟩

theorem exists_isNumeral {parts : List (List Char)} {path : Bytes}
    (h : List.Forall₂ IsNumeral parts path) : ∀ part ∈ parts, ∃ n, IsNumeral part n := by
  induction h with
  | nil => simp
  | cons hpart _ ih => exact List.forall_mem_cons.mpr ⟨⟨_,hpart⟩,ih⟩

theorem splitOn_numerals {parts : List (List Char)} {path : Bytes}
    (h : List.Forall₂ IsNumeral parts path) (hcount : 1 ≤ parts.length) :
    (['.'].intercalate parts).splitOn '.' = parts := by
  refine List.splitOn_intercalate '.' ?_ (List.ne_nil_of_length_pos hcount)
  intro part hpart
  obtain ⟨n,hnumeral⟩ := exists_isNumeral h part hpart
  exact hnumeral.not_mem (by decide) (by decide)

theorem parseUsbPath_eq_some_iff {s : List Char} {path : Bytes} :
    parseUsbPath s = some path ↔ ∃ bus parts, IsPortChain s bus parts path := by
  have hchain : parseUsbPath s = some path ↔ ∃ bus chain, splitOnce '-' s = some (bus,chain) ∧
      (chain.splitOn '.').mapM parseU8 = some path ∧ 1 ≤ path.length ∧
      path.length ≤ usbMaxPathLen := by
    rw [parseUsbPath,Option.bind_eq_bind,Option.bind_eq_some_iff]
    constructor
    · rintro ⟨⟨bus,chain⟩,hsplit,h⟩
      obtain ⟨ports,hports,h⟩ := Option.bind_eq_some_iff.mp h
      split at h
      · cases h
      · rename_i hcount
        cases h
        rw [Bool.or_eq_true,not_or,List.isEmpty_iff,decide_eq_true_eq,Nat.not_lt] at hcount
        exact ⟨bus,chain,hsplit,hports,List.length_pos_iff.mpr hcount.1,hcount.2⟩
    · rintro ⟨bus,chain,hsplit,hports,hpos,hcount⟩
      refine ⟨(bus,chain),hsplit,Option.bind_eq_some_iff.mpr ⟨path,hports,if_neg ?_⟩⟩
      rw [Bool.or_eq_true,not_or,List.isEmpty_iff,decide_eq_true_eq,Nat.not_lt]
      exact ⟨List.length_pos_iff.mp hpos,hcount⟩
  rw [hchain]
  constructor
  · rintro ⟨bus,chain,hsplit,hparts,hcount⟩
    obtain ⟨rfl,hbus⟩ := splitOnce_eq_some_iff.mp hsplit
    have hnumerals := (mapM_eq_some_iff.mp hparts).imp (fun _ _ => parseU8_eq_some_iff.mp)
    refine ⟨bus,chain.splitOn '.',?_,hbus,hnumerals,?_⟩
    · rw [List.intercalate_splitOn]
    · rw [hnumerals.length_eq]
      exact hcount
  · rintro ⟨bus,parts,rfl,hbus,hnumerals,hcount⟩
    refine ⟨bus,_,splitOnce_append hbus _,?_,?_⟩
    · rw [splitOn_numerals hnumerals hcount.1,mapM_eq_some_iff]
      exact hnumerals.imp (fun _ _ => parseU8_eq_some_iff.mpr)
    · rw [← hnumerals.length_eq]
      exact hcount

theorem parseUsbPath_portName {bus : List Char} {path : Bytes} (hbus : '-' ∉ bus)
    (hcount : 1 ≤ path.length ∧ path.length ≤ usbMaxPathLen) :
    parseUsbPath (portName bus path) = some path := by
  refine parseUsbPath_eq_some_iff.mpr ⟨bus,_,rfl,hbus,?_,by rwa [List.length_map]⟩
  rw [List.forall₂_map_left_iff,List.forall₂_same]
  exact fun port _ => isNumeral_toDigits port

/-- The part of a name behind its first dash that is no chain of ports: it has a colon or too many
parts, or one of its parts is empty or a number that is too large. -/
def NoChain (chain : List Char) : Prop :=
  ':' ∈ chain ∨ usbMaxPathLen < (chain.splitOn '.').length ∨
    ∃ part ∈ chain.splitOn '.',
      part = [] ∨ ∃ digits, HasDigits part digits ∧ 255 < decimalValue digits

theorem parseUsbPath_eq_none {bus chain : List Char} (hbus : '-' ∉ bus) (hchain : NoChain chain) :
    parseUsbPath (bus ++ '-' :: chain) = none := by
  rw [Option.eq_none_iff_forall_ne_some]
  intro path hpath
  obtain ⟨bus',parts,hname,hbus',hnumerals,hcount⟩ := parseUsbPath_eq_some_iff.mp hpath
  have hsplit := splitOnce_append hbus chain
  rw [hname,splitOnce_append hbus',Option.some.injEq,Prod.mk.injEq] at hsplit
  obtain ⟨-,rfl⟩ := hsplit
  rw [NoChain,splitOn_numerals hnumerals hcount.1] at hchain
  rcases hchain with hcolon | hlong | ⟨part,hpart,hbad⟩
  · refine not_mem_intercalate (by decide) (fun part hpart => ?_) hcolon
    obtain ⟨n,hnumeral⟩ := exists_isNumeral hnumerals part hpart
    exact hnumeral.not_mem (by decide) (by decide)
  · exact absurd hcount.2 (Nat.not_le.mpr hlong)
  · obtain ⟨n,digits,hdigits,hvalue⟩ := exists_isNumeral hnumerals part hpart
    rcases hbad with rfl | ⟨digits',hdigits',hlarge⟩
    · rcases hdigits.sign with heq | heq
      · exact hdigits.decimal.nonempty heq.symm
      · cases heq
    · rw [hdigits'.unique hdigits,hvalue] at hlarge
      exact absurd n.toNat_lt (Nat.not_lt.mpr hlarge)

/-- The parser accepts the names of port chains, and no others, and inverts their rendering. -/
theorem parseUsbPath_grammar :
    (∀ s path, parseUsbPath s = some path ↔ ∃ bus parts, IsPortChain s bus parts path) ∧
    (∀ bus path, '-' ∉ bus → 1 ≤ path.length ∧ path.length ≤ usbMaxPathLen →
      parseUsbPath (portName bus path) = some path) ∧
    (∀ s, '-' ∉ s → parseUsbPath s = none) ∧
    ∀ bus chain, '-' ∉ bus → NoChain chain → parseUsbPath (bus ++ '-' :: chain) = none := by
  refine ⟨fun _ _ => parseUsbPath_eq_some_iff,fun _ _ => parseUsbPath_portName,?_,
    fun _ _ => parseUsbPath_eq_none⟩
  intro s hs
  rw [parseUsbPath,splitOnce_eq_none hs]
  rfl

end BtstackRs.Transport
