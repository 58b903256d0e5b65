import BtstackRs.Gatt.Counter
import BtstackRs.Gatt.Peripheral.Values
import BtstackRs.Sequence.Numeral

/-!
# What the counter shows

The value of the counter characteristic is a text for the number of beats, of which `setup` makes
one and every heartbeat another one while the notifications are on. Reads and notifications show
this text, and it can be read back.
-/

namespace BtstackRs.Gatt.Counter

open Transport Concurrent Sequence Peripheral

def counterLabel : List Char := "BTstack counter ".toList

def characters (text : Bytes) : List Char := text.map (fun b => Char.ofNat b.toNat)

/-- The number that a counter text shows. -/
def shownNumber (text : Bytes) : Option Nat :=
  if counterLabel <+: characters text then
    some (decimalValue ((characters text).drop counterLabel.length))
  else none

theorem characters_map {cs : List Char} (h : ∀ c ∈ cs, c.toNat < 256) :
    characters (cs.map (fun c => UInt8.ofNat c.toNat)) = cs := by
  rw [characters,List.map_map]
  refine (List.map_congr_left ?_).trans (List.map_id cs)
  intro c hc
  show Char.ofNat (UInt8.ofNat c.toNat).toNat = c
  rw [UInt8.toNat_ofNat_of_lt' (h c hc),Char.ofNat_toNat]

def counterDigits (counter : UInt32) : List Char :=
  (Nat.toDigits 10 counter.toNat).leftpad 4 '0'

theorem isDigit_of_mem_counterDigits {counter : UInt32} {c : Char}
    (hc : c ∈ counterDigits counter) : c.isDigit = true := by
  rw [counterDigits,List.leftpad,List.mem_append] at hc
  rcases hc with hc | hc
  · rw [List.eq_of_mem_replicate hc]
    rfl
  · exact (isDecimal_toDigits counter.toNat).digit c hc

theorem length_counterDigits_le (counter : UInt32) : (counterDigits counter).length ≤ 10 := by
  have hlt : counter.toNat < 10^10 := Nat.lt_trans counter.toNat_lt (by decide)
  have hdigits := (Nat.length_toDigits_le_iff (by decide) (by decide)).mpr hlt
  rw [counterDigits,List.length_leftpad]
  omega

theorem length_counterText_le (counter : UInt32) : (counterText counter).length ≤ 26 := by
  have hdigits := length_counterDigits_le counter
  have hlabel : counterLabel.length = 16 := rfl
  have htext : (counterText counter).length =
      (counterLabel ++ counterDigits counter).length := List.length_map ..
  rw [htext,List.length_append]
  omega

theorem characters_counterText (counter : UInt32) :
    characters (counterText counter) = counterLabel ++ counterDigits counter := by
  have hlabel : counterLabel.all (fun c => decide (c.toNat < 256)) = true := rfl
  apply characters_map
  intro c hc
  rcases List.mem_append.mp hc with hc | hc
  · exact of_decide_eq_true (List.all_eq_true.mp hlabel c hc)
  · have hdigit := (Char.isDigit_iff_toNat.mp (isDigit_of_mem_counterDigits hc)).2
    exact Nat.lt_of_le_of_lt hdigit (by decide)

/-- The number is read back from the text. -/
theorem shownNumber_counterText (counter : UInt32) :
    shownNumber (counterText counter) = some counter.toNat := by
  rw [shownNumber,characters_counterText,if_pos (List.prefix_append ..),List.drop_left,counterDigits,
    decimalValue_leftpad,decimalValue_toDigits]

/-- What is documented of `btstack_snprintf_assert_complete`: where the text and a terminating zero
fit into the buffer they are written to its start, and the number of characters is returned. -/
structure PrintsComplete (snprintf : Snprintf) : Prop where
  capacity : ∀ buffer size counter, (counterText counter).length < size → size ≤ buffer.length →
    (snprintf buffer size counter).1.length = buffer.length
  text : ∀ buffer size counter, (counterText counter).length < size → size ≤ buffer.length →
    counterText counter ++ [0] <+: (snprintf buffer size counter).1
  returned : ∀ buffer size counter, (counterText counter).length < size → size ≤ buffer.length →
    (snprintf buffer size counter).2.toNat = (counterText counter).length

theorem documentedSnprintf_printsComplete : PrintsComplete documentedSnprintf where
  capacity := by
    intro buffer size counter htext hsize
    simp only [documentedSnprintf,if_pos (And.intro htext hsize)]
    refine Patch.length_overwrite ?_
    rw [List.length_append,List.length_singleton]
    omega
  text := by
    intro buffer size counter htext hsize
    simp only [documentedSnprintf,if_pos (And.intro htext hsize),Patch.overwrite,List.take_zero,
      List.nil_append]
    exact List.prefix_append _ _
  returned := by
    intro buffer size counter htext hsize
    simp only [documentedSnprintf,if_pos (And.intro htext hsize)]
    exact UInt16.toNat_ofNat_of_lt'
      (Nat.lt_of_le_of_lt (length_counterText_le counter) (by decide))

/-- The buffer shows this counter, with a terminating zero after the text. -/
structure Shows (g : Globals) (counter : UInt32) : Prop where
  count : g.counter = counter
  capacity : g.counterBuffer.length = counterBufferCapacity
  text : g.counterBuffer.take g.counterLen.toNat = counterText counter
  terminated : g.counterBuffer[g.counterLen.toNat]? = some 0

theorem length_counterText_lt (counter : UInt32) :
    (counterText counter).length < counterBufferCapacity :=
  Nat.lt_of_le_of_lt (length_counterText_le counter) (by decide)

theorem shows_beat {snprintf : Snprintf} (hprints : PrintsComplete snprintf) {g : Globals}
    (hcapacity : g.counterBuffer.length = counterBufferCapacity) :
    Shows (beat snprintf g) (g.counter+1) := by
  have hfits := length_counterText_lt (g.counter+1)
  have hsize := Nat.le_of_eq hcapacity.symm
  have hreturned := hprints.returned g.counterBuffer counterBufferCapacity _ hfits hsize
  obtain ⟨rest,hrest⟩ := hprints.text g.counterBuffer counterBufferCapacity _ hfits hsize
  refine ⟨rfl,(hprints.capacity _ _ _ hfits hsize).trans hcapacity,?_,?_⟩
  · rw [beat,hreturned,← hrest,List.append_assoc,List.take_left]
  · rw [beat,hreturned,← hrest,List.append_assoc,List.getElem?_append_right (Nat.le_refl _),
      Nat.sub_self]
    rfl

theorem Shows.frame {g g' : Globals} {counter : UInt32} (h : Shows g counter)
    (hcounter : g'.counter = g.counter) (hbuffer : g'.counterBuffer = g.counterBuffer)
    (hlen : g'.counterLen = g.counterLen) : Shows g' counter := by
  obtain ⟨hcount,hcapacity,htext,hterminated⟩ := h
  rw [← hbuffer,← hlen] at htext hterminated
  exact ⟨hcounter.trans hcount,by rw [hbuffer,hcapacity],htext,hterminated⟩

def attReadCallback (handleBlob : HandleBlob) (g : Globals) (r : AttRead) : ReadReply :=
  if r.attHandle = attCounterValueHandle then
    handleBlob g.counterBuffer g.counterLen r.offset r.hasBuffer r.bufferSize
  else ⟨[],0⟩

theorem Shows.read {handleBlob : HandleBlob} (hblob : HandlesBlob handleBlob) {g : Globals}
    {counter : UInt32} (h : Shows g counter) {r : AttRead}
    (hhandle : r.attHandle = attCounterValueHandle) (hbuffer : r.hasBuffer = true) :
    (attReadCallback handleBlob g r).copied =
      window (counterText counter) r.offset.toNat r.bufferSize.toNat := by
  have hinside : g.counterLen.toNat < g.counterBuffer.length :=
    (List.getElem?_eq_some_iff.mp h.terminated).1
  rw [attReadCallback,if_pos hhandle,hbuffer,hblob.copy _ _ _ _ (Nat.le_of_lt hinside),h.text]

def beatsAt (before : List Action) : Action → Option Unit
  | .heartbeat => if (latest Action.tells before).getD false then some () else none
  | _ => none

/-- The number of beats, with the one of `setup`. -/
def beats (history : List Action) : Nat := (collect beatsAt history).length+1

def shown (history : List Action) : Bytes := counterText (UInt32.ofNat (beats history))

def named (history : List Action) : UInt16 :=
  ((latest Action.configuration history).map Prod.fst).getD 0

def sentAt (before : List Action) : Action → Option Notification
  | .canSendNow _ => some ⟨named before,attCounterValueHandle,shown before⟩
  | _ => none

/-- The calls of `att_server_notify`: one for every slot, with the text of that moment. -/
def sent (history : List Action) : List Notification := collect sentAt history

structure Displays (history : List Action) (s : World) : Prop where
  shows : Shows s.globals (UInt32.ofNat (beats history))
  notified : s.notified = sent history
  paid : s.notified.length+s.requests.length < beats history

variable {snprintf : Snprintf} {s t : World} {a : Action} {history : List Action}

theorem displays_init (hprints : PrintsComplete snprintf) : Displays [] (World.init snprintf) where
  shows := shows_beat hprints rfl
  notified := rfl
  paid := Nat.zero_lt_one

theorem beats_concat (history : List Action) (a : Action) :
    beats (history ++ [a]) = beats history+(beatsAt history a).toList.length := by
  rw [beats,collect_concat,List.length_append,beats]
  omega

theorem sent_concat (history : List Action) (a : Action) :
    sent (history ++ [a]) = sent history ++ (sentAt history a).toList :=
  collect_concat sentAt history a

theorem Displays.step (hprints : PrintsComplete snprintf) (h : Displays history s)
    (hview : View snprintf history s) (hdoes : Does snprintf s a t) :
    Displays (history ++ [a]) t := by
  obtain ⟨hshows,hnotified,hpaid⟩ := h
  cases hdoes with
  | heartbeat =>
    rw [heartbeatHandler]
    cases henabled : s.globals.notificationEnabled with
    | false =>
      have hquiet : beatsAt history .heartbeat = none := by
        rw [beatsAt,← hview.enabled,henabled]
        rfl
      refine ⟨?_,?_,?_⟩
      · rw [beats_concat,hquiet]
        exact hshows
      · rw [sent_concat]
        simpa [sentAt] using hnotified
      · rw [beats_concat,hquiet]
        simpa using hpaid
    | true =>
      have hbeats : beatsAt history .heartbeat = some () := by
        rw [beatsAt,← hview.enabled,henabled]
        rfl
      refine ⟨?_,?_,?_⟩
      · rw [beats_concat,hbeats,Option.toList_some,List.length_singleton,UInt32.ofNat_add,
          ← hshows.count]
        exact shows_beat hprints hshows.capacity
      · rw [sent_concat]
        simpa [sentAt] using hnotified
      · rw [beats_concat,hbeats]
        simp only [if_pos,Option.toList_some,List.length_append,List.length_singleton]
        omega
  | attWrite w =>
    rw [attWriteCallback_eq]
    refine ⟨?_,?_,?_⟩
    · rw [beats_concat]
      split <;> exact hshows.frame rfl rfl rfl
    · rw [sent_concat]
      simpa [sentAt] using hnotified
    · rw [beats_concat]
      exact Nat.lt_of_lt_of_le hpaid (Nat.le_add_right _ _)
  | packet p =>
    have hopen := List.length_filter_le (fun client => disconnected p != some client) s.requests
    refine ⟨?_,?_,?_⟩
    · rw [beats_concat]
      exact hshows.frame rfl rfl rfl
    · rw [sent_concat]
      simpa [sentAt] using hnotified
    · rw [beats_concat]
      exact Nat.lt_of_le_of_lt (Nat.add_le_add_left hopen _)
        (Nat.lt_of_lt_of_le hpaid (Nat.le_add_right _ _))
  | canSendNow client hmem =>
    have hopen := List.length_erase_of_mem hmem
    have hpos := List.length_pos_of_mem hmem
    refine ⟨?_,?_,?_⟩
    · rw [beats_concat]
      exact hshows
    · rw [sent_concat,hnotified,sentAt,hview.handle,hshows.text]
      rfl
    · rw [beats_concat]
      simp only [beatsAt,Option.toList_none,List.length_append,List.length_nil,
        List.length_singleton]
      omega

theorem displays_of_run (hprints : PrintsComplete snprintf)
    (h : (service snprintf).run (World.init snprintf) history = some s) : Displays history s := by
  refine Machine.run_induction (P := Displays) (displays_init hprints) ?_ h
  intro history s a t hrun hdisplays hstep
  exact hdisplays.step hprints (view_of_run hrun) (does_of_step hstep)

/-- Every run of the service, as clients see it: the value that they read, and all notifications,
show the number of beats at that moment, and there are fewer notifications than beats. -/
theorem counter_shown {handleBlob : HandleBlob} (hblob : HandlesBlob handleBlob)
    (hprints : PrintsComplete snprintf)
    (h : (service snprintf).run (World.init snprintf) history = some s) :
    s.notified = sent history ∧ s.notified.length < beats history ∧
      (∀ before, shownNumber (shown before) = some (beats before % UInt32.size)) ∧
      ∀ r, r.attHandle = attCounterValueHandle → r.hasBuffer = true →
        (attReadCallback handleBlob s.globals r).copied =
          window (shown history) r.offset.toNat r.bufferSize.toNat := by
  obtain ⟨hshows,hnotified,hpaid⟩ := displays_of_run hprints h
  refine ⟨hnotified,Nat.lt_of_le_of_lt (Nat.le_add_right _ _) hpaid,?_,?_⟩
  · intro before
    rw [shown,shownNumber_counterText,UInt32.toNat_ofNat']
  · intro r hhandle hbuffer
    exact hshows.read hblob hhandle hbuffer

def oneNotification : List Action :=
  [.heartbeat,configure 0x40 1,.heartbeat,.canSendNow 0x40]

theorem counter_shown_once : ∃ s,
    (service documentedSnprintf).run (World.init documentedSnprintf) oneNotification = some s ∧
    s.notified = sent oneNotification ∧ shownNumber (shown oneNotification) = some 2 := by
  have hruns : ((service documentedSnprintf).run (World.init documentedSnprintf)
      oneNotification).isSome := rfl
  obtain ⟨s,hs⟩ := Option.isSome_iff_exists.mp hruns
  have hshown := counter_shown documentedHandleBlob_handlesBlob documentedSnprintf_printsComplete hs
  exact ⟨s,hs,hshown.1,hshown.2.2.1 oneNotification⟩

end BtstackRs.Gatt.Counter
