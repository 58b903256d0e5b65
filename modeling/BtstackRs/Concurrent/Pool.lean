import Mathlib.Data.List.Basic
import Mathlib.Order.MinMax

/-!
# Pools of threads with call stacks

A pool is a list of threads, each with a role that never changes and a stack of call frames.
A weight on frames is summed over the whole pool; replacing one thread's stack changes the sum
by exactly the difference of the two stacks. Accounting invariants of interleaved programs
are stated with these sums and never look at the other threads.
-/

namespace Concurrent

universe u v

/-- A thread: what it was created for, and its call frames from the innermost outwards. -/
structure Thread (Role : Type u) (Frame : Type v) where
  role : Role
  stack : List Frame

abbrev Pool (Role : Type u) (Frame : Type v) := List (Thread Role Frame)

namespace Pool

variable {Role : Type u} {Frame : Type v}

def stackWeight (w : Frame → Nat) : List Frame → Nat
  | [] => 0
  | f :: rest => w f + stackWeight w rest

/-- The summed weight of all frames of all threads. -/
def total (w : Frame → Nat) : Pool Role Frame → Nat
  | [] => 0
  | th :: p => stackWeight w th.stack + total w p

def setStack (p : Pool Role Frame) (t : Nat) (stack : List Frame) : Pool Role Frame :=
  p.modify t (fun th => { th with stack := stack })

def HasRole (p : Pool Role Frame) (t : Nat) (role : Role) : Prop :=
  ∃ th, p[t]? = some th ∧ th.role = role

theorem HasRole.unique {p : Pool Role Frame} {t : Nat} {role role' : Role} (h : p.HasRole t role)
    (h' : p.HasRole t role') : role = role' := by
  obtain ⟨th,hth,rfl⟩ := h
  obtain ⟨th',hth',rfl⟩ := h'
  rw [hth] at hth'
  cases hth'
  rfl

@[simp] theorem stackWeight_nil (w : Frame → Nat) : stackWeight w [] = 0 := rfl

@[simp] theorem stackWeight_cons (w : Frame → Nat) (f : Frame) (rest : List Frame) :
    stackWeight w (f :: rest) = w f + stackWeight w rest := rfl

theorem stackWeight_append (w : Frame → Nat) (front back : List Frame) :
    stackWeight w (front ++ back) = stackWeight w front + stackWeight w back := by
  induction front with
  | nil => simp
  | cons f front ih =>
    rw [List.cons_append,stackWeight_cons,stackWeight_cons,ih]
    omega

@[simp] theorem total_nil (w : Frame → Nat) : total w ([] : Pool Role Frame) = 0 := rfl

@[simp] theorem total_cons (w : Frame → Nat) (th : Thread Role Frame) (p : Pool Role Frame) :
    total w (th :: p) = stackWeight w th.stack + total w p := rfl

@[simp] theorem total_append (w : Frame → Nat) (p q : Pool Role Frame) :
    total w (p ++ q) = total w p + total w q := by
  induction p with
  | nil => simp
  | cons th p ih =>
    rw [List.cons_append,total_cons,total_cons,ih]
    omega

theorem total_eq_zero {w : Frame → Nat} {p : Pool Role Frame}
    (h : ∀ th ∈ p, th.stack = []) : total w p = 0 := by
  induction p with
  | nil => rfl
  | cons th p ih =>
    rw [total_cons,h th List.mem_cons_self,ih (fun th' hth' => h th' (List.mem_cons_of_mem _ hth')),
      stackWeight_nil]

@[simp] theorem length_setStack (p : Pool Role Frame) (t : Nat) (stack : List Frame) :
    (p.setStack t stack).length = p.length := by
  simp [setStack]

theorem getElem?_setStack (p : Pool Role Frame) (t u : Nat) (stack : List Frame) :
    (p.setStack t stack)[u]? =
      if u = t then p[u]?.map (fun th => { th with stack := stack }) else p[u]? := by
  rw [setStack,List.getElem?_modify]
  by_cases h : t = u
  · simp [h]
  · simp [h,Ne.symm h]

theorem getElem?_setStack_self {p : Pool Role Frame} {t : Nat} {th : Thread Role Frame}
    (h : p[t]? = some th) (stack : List Frame) :
    (p.setStack t stack)[t]? = some { th with stack := stack } := by
  simp [getElem?_setStack,h]

theorem getElem?_setStack_ne (p : Pool Role Frame) {t u : Nat} (h : u ≠ t) (stack : List Frame) :
    (p.setStack t stack)[u]? = p[u]? := by
  simp [getElem?_setStack,h]

@[simp] theorem map_role_setStack (p : Pool Role Frame) (t : Nat) (stack : List Frame) :
    (p.setStack t stack).map Thread.role = p.map Thread.role := by
  apply List.ext_getElem?
  intro u
  rw [List.getElem?_map,List.getElem?_map,getElem?_setStack]
  split
  · cases p[u]? <;> rfl
  · rfl

theorem HasRole.index_unique [DecidableEq Role] {p : Pool Role Frame} {role : Role}
    (hcount : (p.map Thread.role).count role ≤ 1) {t u : Nat} (ht : p.HasRole t role)
    (hu : p.HasRole u role) : t = u := by
  obtain ⟨th,hth,hrole⟩ := ht
  obtain ⟨th',hth',hrole'⟩ := hu
  induction p generalizing t u with
  | nil => cases hth
  | cons head tail ih =>
    have hmem : ∀ {v : Nat} {th : Thread Role Frame}, tail[v]? = some th → th.role = role →
        role ∈ tail.map Thread.role := by
      rintro v th hv rfl
      exact List.mem_map.mpr ⟨th,List.mem_of_getElem? hv,rfl⟩
    rw [List.map_cons,List.count_cons] at hcount
    cases t with
    | zero =>
      cases u with
      | zero => rfl
      | succ u =>
        cases hth
        have hpos := List.count_pos_iff.mpr (hmem hth' hrole')
        rw [if_pos (beq_iff_eq.mpr hrole)] at hcount
        omega
    | succ t =>
      cases u with
      | zero =>
        cases hth'
        have hpos := List.count_pos_iff.mpr (hmem hth hrole)
        rw [if_pos (beq_iff_eq.mpr hrole')] at hcount
        omega
      | succ u => exact congrArg Nat.succ (ih (by omega) hth hth')

theorem setStack_self {p : Pool Role Frame} {t : Nat} {th : Thread Role Frame}
    (h : p[t]? = some th) : p.setStack t th.stack = p := by
  apply List.ext_getElem?
  intro u
  by_cases hu : u = t
  · subst u
    rw [getElem?_setStack_self h,h]
  · rw [getElem?_setStack_ne p hu]

theorem setStack_setStack (p : Pool Role Frame) (t : Nat) (stack stack' : List Frame) :
    (p.setStack t stack).setStack t stack' = p.setStack t stack' := by
  apply List.ext_getElem?
  intro u
  by_cases hu : u = t
  · subst hu
    cases h : p[u]? <;> simp [getElem?_setStack,h]
  · simp [getElem?_setStack,hu]

theorem setStack_append {p : Pool Role Frame} {t : Nat} (h : t < p.length)
    (q : Pool Role Frame) (stack : List Frame) :
    setStack (p ++ q) t stack = p.setStack t stack ++ q := by
  induction p generalizing t with
  | nil => cases h
  | cons head tail ih =>
    cases t with
    | zero => rfl
    | succ t =>
      have htail := ih (Nat.lt_of_succ_lt_succ h)
      simpa [setStack] using htail

/-- The accounting rule: a replaced stack exchanges its own weight, nothing else. -/
theorem total_setStack (w : Frame → Nat) {p : Pool Role Frame} {t : Nat}
    {th : Thread Role Frame} (h : p[t]? = some th) (stack : List Frame) :
    total w (p.setStack t stack) + stackWeight w th.stack = total w p + stackWeight w stack := by
  induction p generalizing t with
  | nil => simp at h
  | cons head tail ih =>
    cases t with
    | zero =>
      obtain rfl : head = th := by simpa using h
      simp only [setStack,List.modify_zero_cons,total_cons]
      omega
    | succ t =>
      have htail := ih (t := t) (by simpa using h)
      simp only [setStack,List.modify_succ_cons,total_cons] at htail ⊢
      omega

theorem stackWeight_le_total (w : Frame → Nat) {p : Pool Role Frame} {t : Nat}
    {th : Thread Role Frame} (h : p[t]? = some th) : stackWeight w th.stack ≤ total w p := by
  have hset := total_setStack w h []
  rw [stackWeight_nil] at hset
  omega

theorem le_stackWeight (w : Frame → Nat) {stack : List Frame} {f : Frame} (h : f ∈ stack) :
    w f ≤ stackWeight w stack := by
  obtain ⟨front,back,rfl⟩ := List.append_of_mem h
  rw [stackWeight_append,stackWeight_cons]
  omega

theorem le_total (w : Frame → Nat) {p : Pool Role Frame} {t : Nat} {th : Thread Role Frame}
    (h : p[t]? = some th) {f : Frame} (hf : f ∈ th.stack) : w f ≤ total w p :=
  Nat.le_trans (le_stackWeight w hf) (stackWeight_le_total w h)

theorem exists_of_stackWeight_pos {w : Frame → Nat} {stack : List Frame}
    (h : 0 < stackWeight w stack) : ∃ f ∈ stack, 0 < w f := by
  induction stack with
  | nil => simp at h
  | cons f rest ih =>
    by_cases hf : 0 < w f
    · exact ⟨f,List.mem_cons_self,hf⟩
    · rw [stackWeight_cons] at h
      obtain ⟨g,hg,hpos⟩ := ih (by omega)
      exact ⟨g,List.mem_cons_of_mem _ hg,hpos⟩

theorem exists_of_total_pos {w : Frame → Nat} {p : Pool Role Frame} (h : 0 < total w p) :
    ∃ th ∈ p, ∃ f ∈ th.stack, 0 < w f := by
  induction p with
  | nil => simp at h
  | cons th p ih =>
    by_cases hth : 0 < stackWeight w th.stack
    · exact ⟨th,List.mem_cons_self,exists_of_stackWeight_pos hth⟩
    · rw [total_cons] at h
      obtain ⟨th',hth',hf⟩ := ih (by omega)
      exact ⟨th',List.mem_cons_of_mem _ hth',hf⟩

theorem stackWeight_mono {w w' : Frame → Nat} (hw : ∀ f, w f ≤ w' f) (stack : List Frame) :
    stackWeight w stack ≤ stackWeight w' stack := by
  induction stack with
  | nil => simp
  | cons f rest ih =>
    have hf := hw f
    simp only [stackWeight_cons]
    omega

theorem total_mono {w w' : Frame → Nat} (hw : ∀ f, w f ≤ w' f) (p : Pool Role Frame) :
    total w p ≤ total w' p := by
  induction p with
  | nil => simp
  | cons th p ih =>
    have hth := stackWeight_mono hw th.stack
    simp only [total_cons]
    omega

theorem add_le_total (w : Frame → Nat) {p : Pool Role Frame} {t u : Nat}
    {th th' : Thread Role Frame} (ht : p[t]? = some th) (hu : p[u]? = some th') (hne : u ≠ t)
    {f g : Frame} (hf : f ∈ th.stack) (hg : g ∈ th'.stack) : w f + w g ≤ total w p := by
  have hset := total_setStack w ht []
  have hg' := le_total w (p := p.setStack t []) (by rw [getElem?_setStack_ne p hne,hu]) hg
  have hf' := le_stackWeight w hf
  simp only [stackWeight_nil] at hset
  omega

theorem add_le_stackWeight (w : Frame → Nat) {stack : List Frame} {f g : Frame} (hf : f ∈ stack)
    (hg : g ∈ stack) (hne : f ≠ g) : w f + w g ≤ stackWeight w stack := by
  induction stack with
  | nil => cases hf
  | cons h rest ih =>
    rw [stackWeight_cons]
    rcases List.mem_cons.mp hf with rfl | hf'
    · rcases List.mem_cons.mp hg with rfl | hg'
      · exact absurd rfl hne
      · have hle := le_stackWeight w hg'
        omega
    · rcases List.mem_cons.mp hg with rfl | hg'
      · have hle := le_stackWeight w hf'
        omega
      · have hle := ih hf' hg'
        omega

theorem eq_of_total_le_one {w : Frame → Nat} {p : Pool Role Frame} (h : total w p ≤ 1) {t u : Nat}
    {th th' : Thread Role Frame} (ht : p[t]? = some th) (hu : p[u]? = some th') {f g : Frame}
    (hf : f ∈ th.stack) (hg : g ∈ th'.stack) (hwf : 0 < w f) (hwg : 0 < w g) :
    t = u ∧ f = g := by
  by_cases htu : t = u
  · subst htu
    rw [ht] at hu
    cases hu
    refine ⟨rfl,?_⟩
    by_contra hne
    have htwo := add_le_stackWeight w hf hg hne
    have hle := stackWeight_le_total w ht
    omega
  · have htwo := add_le_total w ht hu (Ne.symm htu) hf hg
    omega

theorem any_setStack_nil (q : Frame → Bool) {p : Pool Role Frame} {t : Nat}
    {th : Thread Role Frame} (h : p[t]? = some th) (hnone : ∀ f ∈ th.stack, q f = false) :
    (p.setStack t []).any (fun th => th.stack.any q) = p.any (fun th => th.stack.any q) := by
  induction p generalizing t with
  | nil => simp at h
  | cons head tail ih =>
    cases t with
    | zero =>
      obtain rfl : head = th := by simpa using h
      have hstack : head.stack.any q = false := by simpa using hnone
      simp [setStack,hstack]
    | succ t =>
      have htail := ih (t := t) (by simpa using h)
      simp only [setStack,List.modify_succ_cons,List.any_cons] at htail ⊢
      rw [htail]

/-- Every frame stands on what is below it as `P` says. -/
def Nested (P : Frame → List Frame → Prop) : List Frame → Prop
  | [] => True
  | f :: rest => P f rest ∧ Nested P rest

theorem Nested.of_append {P : Frame → List Frame → Prop} {front back : List Frame}
    (h : Nested P (front ++ back)) : Nested P back := by
  induction front with
  | nil => exact h
  | cons f front ih => exact ih h.2

theorem Nested.exists_below {P : Frame → List Frame → Prop} {stack : List Frame}
    (h : Nested P stack) {f : Frame} (hf : f ∈ stack) :
    ∃ front rest, stack = front ++ f :: rest ∧ P f rest := by
  obtain ⟨front,rest,rfl⟩ := List.append_of_mem hf
  exact ⟨front,rest,rfl,h.of_append.1⟩

theorem Nested.stackWeight_le {P : Frame → List Frame → Prop} {w w' : Frame → Nat}
    (hsits : ∀ f rest, P f rest → w f = 0 ∨
      w f = 1 ∧ ∃ g rest', rest = g :: rest' ∧ w g = 0 ∧ w' g = 1) {stack : List Frame}
    (h : Nested P stack) : stackWeight w stack ≤ stackWeight w' stack := by
  induction hlength : stack.length using Nat.strongRecOn generalizing stack with
  | ind n ih =>
    subst hlength
    cases stack with
    | nil => exact Nat.le_refl 0
    | cons f rest =>
      rcases hsits f rest h.1 with hzero | ⟨hone,g,rest',rfl,hg,hg'⟩
      · have hrest := ih rest.length (Nat.lt_succ_self _) h.2 rfl
        simp only [stackWeight_cons,hzero]
        omega
      · have hshorter : rest'.length < (f :: g :: rest').length := Nat.lt_add_of_pos_right Nat.two_pos
        have hrest := ih rest'.length hshorter h.2.2 rfl
        simp only [stackWeight_cons,hone,hg,hg']
        omega

theorem total_le_of_stacks {w w' : Frame → Nat} {p : Pool Role Frame}
    (h : ∀ th ∈ p, stackWeight w th.stack ≤ stackWeight w' th.stack) :
    total w p ≤ total w' p := by
  induction p with
  | nil => exact Nat.le_refl 0
  | cons th p ih =>
    have hth := h th List.mem_cons_self
    have hrest := ih (fun th' hth' => h th' (List.mem_cons_of_mem _ hth'))
    simp only [total_cons]
    omega

variable {Item : Type*}

/-- What the frames of a pool carry, thread by thread. -/
def gather (f : Frame → Option Item) (p : Pool Role Frame) : List Item :=
  p.flatMap (fun th => th.stack.filterMap f)

theorem gather_append (f : Frame → Option Item) (p q : Pool Role Frame) :
    gather f (p ++ q) = gather f p ++ gather f q := List.flatMap_append

theorem gather_eq_nil {f : Frame → Option Item} {p : Pool Role Frame}
    (h : ∀ th ∈ p, th.stack = []) : gather f p = [] := by
  rw [gather,List.flatMap_eq_nil_iff]
  intro th hth
  rw [h th hth,List.filterMap_nil]

theorem exists_of_gather_ne_nil {f : Frame → Option Item} {p : Pool Role Frame}
    (h : gather f p ≠ []) : ∃ (t : Nat) (th : Thread Role Frame), p[t]? = some th ∧
      ∃ frame ∈ th.stack, f frame ≠ none := by
  obtain ⟨item,hitem⟩ := List.exists_mem_of_ne_nil _ h
  obtain ⟨th,hth,hmem⟩ := List.mem_flatMap.mp hitem
  obtain ⟨frame,hframe,hsome⟩ := List.mem_filterMap.mp hmem
  obtain ⟨t,ht⟩ := List.getElem?_of_mem hth
  exact ⟨t,th,ht,frame,hframe,by simp [hsome]⟩

theorem gather_setStack (f : Frame → Option Item) {p : Pool Role Frame} {t : Nat}
    {th : Thread Role Frame} (h : p[t]? = some th) :
    ∃ before after, gather f p = before ++ th.stack.filterMap f ++ after ∧
      ∀ stack, gather f (p.setStack t stack) = before ++ stack.filterMap f ++ after := by
  induction p generalizing t with
  | nil => simp at h
  | cons head tail ih =>
    cases t with
    | zero =>
      obtain rfl : head = th := by simpa using h
      exact ⟨[],gather f tail,rfl,fun stack => rfl⟩
    | succ t =>
      obtain ⟨before,after,htail,hset⟩ := ih (t := t) (by simpa using h)
      refine ⟨head.stack.filterMap f ++ before,after,?_,fun stack => ?_⟩
      · show head.stack.filterMap f ++ gather f tail = _
        rw [htail]
        simp only [List.append_assoc]
      · show head.stack.filterMap f ++ gather f (setStack tail t stack) = _
        rw [hset]
        simp only [List.append_assoc]

theorem length_gather_le {f : Frame → Option Item} {w : Frame → Nat}
    (hw : ∀ g, (f g).toList.length ≤ w g) (p : Pool Role Frame) :
    (gather f p).length ≤ total w p := by
  have hstack : ∀ stack : List Frame, (stack.filterMap f).length ≤ stackWeight w stack := by
    intro stack
    induction stack with
    | nil => exact Nat.le_refl 0
    | cons g rest ih =>
      have hg := hw g
      cases hf : f g with
      | none =>
        rw [List.filterMap_cons_none hf,stackWeight_cons]
        omega
      | some item =>
        rw [hf] at hg
        rw [List.filterMap_cons_some hf,List.length_cons,stackWeight_cons]
        simp only [Option.toList_some,List.length_singleton] at hg
        omega
  induction p with
  | nil => exact Nat.le_refl 0
  | cons th p ih =>
    have hth := hstack th.stack
    show (th.stack.filterMap f ++ gather f p).length ≤ _
    rw [List.length_append,total_cons]
    omega

/-- Where one item is carried at most, those that leave the pool do so in the order in which they
came into it. -/
theorem gather_exchange {f : Frame → Option Item} {p : Pool Role Frame} {t : Nat}
    {th : Thread Role Frame} (h : p[t]? = some th) {top top' rest : List Frame}
    (hstack : th.stack = top ++ rest) (hone : (gather f p).length ≤ 1) {gone begun : List Item}
    (hbegun : begun ≠ [] → gather f p = [])
    (hmove : gone ++ top'.filterMap f = top.filterMap f ++ begun) :
    gone ++ gather f (p.setStack t (top' ++ rest)) = gather f p ++ begun := by
  obtain ⟨before,after,hgather,hset⟩ := gather_setStack f h
  rw [hset,List.filterMap_append]
  rw [hstack,List.filterMap_append] at hgather
  by_cases hnew : begun = []
  · subst hnew
    rw [List.append_nil] at hmove ⊢
    cases htop : top.filterMap f with
    | nil =>
      rw [htop,List.append_eq_nil_iff] at hmove
      rw [hgather,htop,hmove.1,hmove.2]
      rfl
    | cons item items =>
      rw [hgather,htop] at hone
      simp only [List.length_append,List.length_cons] at hone
      have hbefore : before = [] := List.eq_nil_of_length_eq_zero (by omega)
      rw [hgather,← hmove,hbefore]
      simp only [List.nil_append,List.append_assoc]
  · have hempty := hbegun hnew
    rw [hgather] at hempty
    simp only [List.append_eq_nil_iff] at hempty
    obtain ⟨⟨hbefore,htop,hrest⟩,hafter⟩ := hempty
    rw [htop,List.nil_append] at hmove
    rw [hgather,htop,hbefore,hrest,hafter]
    simpa using hmove

end Pool

end Concurrent
