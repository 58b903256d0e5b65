import BtstackRs.Concurrent.Machine

/-!
# Histories

What an ordering claim says about a history: every entry fits what came before it. Histories only
grow at their end, so such a claim is established, and broken, one entry at a time.
-/

namespace Concurrent

universe u v w

variable {Entry : Type u}

/-- Every entry stands after a prefix that it fits. -/
def EachAfter (P : List Entry → Entry → Prop) (history : List Entry) : Prop :=
  ∀ before e after, history = before ++ e :: after → P before e

theorem eachAfter_nil (P : List Entry → Entry → Prop) : EachAfter P [] := by
  intro before e after h
  simp at h

theorem EachAfter.of_append {P : List Entry → Entry → Prop} {history new : List Entry}
    (h : EachAfter P (history ++ new)) : EachAfter P history := by
  intro before e after hhistory
  exact h before e (after ++ new) (by simp [hhistory])

theorem eachAfter_concat {P : List Entry → Entry → Prop} {history : List Entry} {e : Entry} :
    EachAfter P (history ++ [e]) ↔ EachAfter P history ∧ P history e := by
  constructor
  · exact fun h => ⟨h.of_append,h history e [] rfl⟩
  · rintro ⟨hhistory,he⟩ before e' after heq
    obtain rfl | ⟨after',last,rfl⟩ := List.eq_nil_or_concat after
    · obtain ⟨rfl,hlast⟩ := List.append_inj' heq rfl
      cases hlast
      exact he
    · rw [List.concat_eq_append,← List.cons_append,← List.append_assoc] at heq
      exact hhistory before e' after' (List.append_inj' heq rfl).1

theorem EachAfter.append {P : List Entry → Entry → Prop}
    (hmono : ∀ before more e, P before e → P (before ++ more) e) {history new : List Entry}
    (h : EachAfter P history) (hnew : ∀ e ∈ new, P history e) : EachAfter P (history ++ new) := by
  induction new using List.reverseRecOn with
  | nil => rwa [List.append_nil]
  | append_singleton new e ih =>
    rw [← List.append_assoc]
    exact eachAfter_concat.mpr ⟨ih (fun e' he' => hnew e' (List.mem_append_left _ he')),
      hmono history new e (hnew e (by simp))⟩

/-- What each entry contributes, in the light of those before it. -/
def collect {Value : Type v} (f : List Entry → Entry → Option Value) (history : List Entry) :
    List Value :=
  go [] history
where
  go (before : List Entry) : List Entry → List Value
    | [] => []
    | e :: after => (f before e).toList ++ go (before ++ [e]) after

@[simp] theorem collect_nil {Value : Type v} (f : List Entry → Entry → Option Value) :
    collect f [] = [] := rfl

@[simp] theorem collect_concat {Value : Type v} (f : List Entry → Entry → Option Value)
    (history : List Entry) (e : Entry) :
    collect f (history ++ [e]) = collect f history ++ (f history e).toList := by
  have hgo : ∀ before, collect.go f before (history ++ [e]) =
      collect.go f before history ++ (f (before ++ history) e).toList := by
    induction history with
    | nil => simp [collect.go]
    | cons e' history ih =>
      intro before
      rw [List.cons_append,collect.go,collect.go,ih,List.append_assoc,List.append_assoc,
        List.singleton_append]
  exact hgo []

/-- A run with a check, in terms of the run without. -/
theorem eachAfter_of_runWhere {State : Type v} {M : Machine State Entry}
    {check : State → Entry → Bool} {s u : State} {entries : List Entry}
    (h : M.runWhere check s entries = some u) :
    M.run s entries = some u ∧
      EachAfter (fun before a => ∀ t, M.run s before = some t → check t a = true) entries := by
  apply Machine.runWhere_induction (P := fun entries u => M.run s entries = some u ∧
    EachAfter (fun before a => ∀ t, M.run s before = some t → check t a = true) entries) _ _ h
  · exact ⟨rfl,eachAfter_nil _⟩
  · rintro before t a u - ⟨hrun,hbefore⟩ hcheck hstep
    refine ⟨Machine.run_concat hrun hstep,eachAfter_concat.mpr ⟨hbefore,fun t' ht' => ?_⟩⟩
    rw [hrun] at ht'
    cases ht'
    exact hcheck

variable {Key : Type v} [DecidableEq Key]

def about (key : Entry → Option Key) (k : Key) (history : List Entry) : List Entry :=
  history.filter (fun e => key e == some k)

theorem about_append_self (key : Entry → Option Key) {k : Key} (history : List Entry)
    {new : List Entry} (h : ∀ e ∈ new, key e = some k) :
    about key k (history ++ new) = about key k history ++ new := by
  have hnew : new.filter (fun e => key e == some k) = new := by
    rw [List.filter_eq_self]
    intro e he
    simp [h e he]
  rw [about,List.filter_append,hnew,about]

theorem about_append_of_ne (key : Entry → Option Key) {k : Key} (history : List Entry)
    {new : List Entry} (h : ∀ e ∈ new, key e ≠ some k) :
    about key k (history ++ new) = about key k history := by
  have hnew : new.filter (fun e => key e == some k) = [] := by
    rw [List.filter_eq_nil_iff]
    intro e he
    simpa using h e he
  rw [about,List.filter_append,hnew,List.append_nil,about]

theorem mem_about {key : Entry → Option Key} {k : Key} {history : List Entry} {e : Entry}
    (he : key e = some k) : e ∈ about key k history ↔ e ∈ history := by
  simp [about,he]

theorem count_about [BEq Entry] [LawfulBEq Entry] {key : Entry → Option Key} {k : Key}
    (history : List Entry) {e : Entry} (he : key e = some k) :
    (about key k history).count e = history.count e := by
  rw [about,List.count_filter]
  simp [he]

variable {Value : Type w}

def latest (f : Entry → Option Value) (history : List Entry) : Option Value :=
  (history.filterMap f).getLast?

@[simp] theorem latest_nil (f : Entry → Option Value) : latest f [] = none := rfl

theorem latest_append (f : Entry → Option Value) (history new : List Entry) :
    latest f (history ++ new) = (latest f new).or (latest f history) := by
  rw [latest,List.filterMap_append,List.getLast?_append,latest,latest]

@[simp] theorem latest_concat (f : Entry → Option Value) (history : List Entry) (e : Entry) :
    latest f (history ++ [e]) = (f e).or (latest f history) := by
  rw [latest_append]
  cases h : f e <;> simp [latest,h]

theorem latest_cons (f : Entry → Option Value) (e : Entry) (history : List Entry) :
    latest f (e :: history) = (latest f history).or (f e) := by
  have happend := latest_append f [e] history
  rw [List.singleton_append] at happend
  rw [happend]
  cases h : f e <;> simp [latest,h]

theorem latest_eq_none_iff {f : Entry → Option Value} {history : List Entry} :
    latest f history = none ↔ ∀ e ∈ history, f e = none := by
  rw [latest,List.getLast?_eq_none_iff,List.filterMap_eq_nil_iff]

theorem latest_eq_some_iff {f : Entry → Option Value} {history : List Entry} {v : Value} :
    latest f history = some v ↔ ∃ before e after, history = before ++ e :: after ∧
      f e = some v ∧ ∀ x ∈ after, f x = none := by
  constructor
  · intro h
    induction history with
    | nil => simp at h
    | cons e history ih =>
      rw [latest_cons] at h
      cases hlater : latest f history with
      | none =>
        rw [hlater,Option.none_or] at h
        exact ⟨[],e,history,rfl,h,latest_eq_none_iff.mp hlater⟩
      | some v' =>
        rw [hlater,Option.some_or] at h
        obtain ⟨before,e',after,hsplit,he',hafter⟩ := ih (hlater.trans h)
        exact ⟨e :: before,e',after,by rw [hsplit,List.cons_append],he',hafter⟩
  · rintro ⟨before,e,after,rfl,he,hafter⟩
    rw [latest_append,latest_cons,latest_eq_none_iff.mpr hafter,he]
    rfl

end Concurrent
