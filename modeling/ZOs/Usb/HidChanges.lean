import Mathlib.Algebra.Ring.Int.Defs
import Mathlib.Algebra.Group.Prod
import Mathlib.Algebra.BigOperators.Group.List.Basic
import ZOs.Usb.HidEvents

/-!
# An event for each change

The loop over the slots of two reports takes an empty slot for a key: where
one report has an empty slot and the other has none, key 0 goes up or down.
A report of the mouse that equals the one before it makes no event, although
it says how far the mouse has moved since.
-/

namespace ZOs.Usb.Hid

/-! ## Keys -/

/-- No key is in two slots. -/
def KeyboardReport.NoRepeats (report : KeyboardReport) : Prop :=
  ∀ i j, report.keypress i = report.keypress j → report.keypress i ≠ keyNone → i = j

instance (report : KeyboardReport) : Decidable report.NoRepeats :=
  inferInstanceAs (Decidable (∀ _ _, _ → _ → _))

instance (report : KeyboardReport) (key : BitVec 8) : Decidable (report.Modifies key) :=
  inferInstanceAs (Decidable (∃ _ < 8, _))

/-- One event for each key that is new and each that is gone, in the slots
and among the modifiers, and none for an empty slot. -/
structure OneEach (events : List Event) (previous latest : KeyboardReport) : Prop where
  down : ∀ key ≠ keyNone, events.count (.keyDown key) =
    (if latest.Modifies key ∧ ¬previous.Modifies key then 1 else 0) +
      if latest.Presses key ∧ ¬previous.Presses key then 1 else 0
  up : ∀ key ≠ keyNone, events.count (.keyUp key) =
    (if previous.Modifies key ∧ ¬latest.Modifies key then 1 else 0) +
      if previous.Presses key ∧ ¬latest.Presses key then 1 else 0
  none : Event.keyDown keyNone ∉ events ∧ Event.keyUp keyNone ∉ events

/-- Nothing has changed. -/
def SameKeys (previous latest : KeyboardReport) : Prop :=
  ∀ key ≠ keyNone, (previous.Presses key ↔ latest.Presses key) ∧
    (previous.Modifies key ↔ latest.Modifies key)

/-- How many slots have the key. -/
def KeyboardReport.slotCount (report : KeyboardReport) (key : BitVec 8) : Nat :=
  (List.finRange 6).countP fun i => report.keypress i = key

section
variable {previous latest report : KeyboardReport} {key : BitVec 8}

theorem slotCount_of_not_presses (h : ¬report.Presses key) : report.slotCount key = 0 :=
  List.countP_eq_zero.mpr fun i _ hkey => h ⟨i, of_decide_eq_true hkey⟩

theorem KeyboardReport.NoRepeats.slotCount (h : report.NoRepeats) (hkey : key ≠ keyNone) :
    report.slotCount key = if report.Presses key then 1 else 0 := by
  split
  · rename_i hpresses
    obtain ⟨i, hi⟩ := hpresses
    have hsame : ∀ j, report.keypress j = key ↔ j = i := fun j =>
      ⟨fun hj => h j i (hj.trans hi.symm) (hj.symm ▸ hkey), fun hj => hj ▸ hi⟩
    unfold KeyboardReport.slotCount
    simp only [hsame]
    exact (List.count_eq_countP.symm.trans
      (List.count_eq_one_of_mem (List.nodup_finRange 6) (List.mem_finRange i)) : _)
  · rename_i hpresses
    exact slotCount_of_not_presses hpresses

theorem count_slotEvents_down (i : Fin 6) : (slotEvents previous latest i).count (.keyDown key) =
    if previous.Presses key then 0 else if latest.keypress i = key then 1 else 0 := by
  unfold slotEvents
  simp only [reportContainsKey_iff, List.count_append]
  have hup : (if latest.Presses (previous.keypress i) then []
      else [Event.keyUp (previous.keypress i)]).count (.keyDown key) = 0 := by
    split <;> simp
  rw [hup, Nat.zero_add]
  by_cases hkey : latest.keypress i = key
  · rw [hkey, if_pos rfl]
    split <;> simp
  · rw [if_neg hkey]
    split <;> simp [hkey]

theorem count_slotEvents_up (i : Fin 6) : (slotEvents previous latest i).count (.keyUp key) =
    if latest.Presses key then 0 else if previous.keypress i = key then 1 else 0 := by
  unfold slotEvents
  simp only [reportContainsKey_iff, List.count_append]
  have hdown : (if previous.Presses (latest.keypress i) then []
      else [Event.keyDown (latest.keypress i)]).count (.keyUp key) = 0 := by
    split <;> simp
  rw [hdown, Nat.add_zero]
  by_cases hkey : previous.keypress i = key
  · rw [hkey, if_pos rfl]
    split <;> simp
  · rw [if_neg hkey]
    split <;> simp [hkey]

theorem count_flatMap_ite {α β : Type} [BEq β] {f : α → List β} {b : β} {c : Prop} [Decidable c]
    {q : α → Prop} [DecidablePred q]
    (h : ∀ a, (f a).count b = if c then 0 else if q a then 1 else 0)
    (as : List α) : (as.flatMap f).count b = if c then 0 else as.countP fun a => q a := by
  induction as with
  | nil => simp
  | cons a as ih =>
    rw [List.flatMap_cons, List.count_append, h, ih, List.countP_cons]
    split
    · rfl
    · simp only [decide_eq_true_eq]
      exact Nat.add_comm _ _

/-- A key goes down once for each of its slots. -/
theorem count_slots_down : ((List.finRange 6).flatMap (slotEvents previous latest)).count
    (.keyDown key) = if previous.Presses key then 0 else latest.slotCount key :=
  count_flatMap_ite count_slotEvents_down _

theorem count_slots_up : ((List.finRange 6).flatMap (slotEvents previous latest)).count
    (.keyUp key) = if latest.Presses key then 0 else previous.slotCount key :=
  count_flatMap_ite count_slotEvents_up _

/-- A modifier that has changed makes one event. -/
theorem nodup_modifiers :
    ((bitIndices 8 (previous.modifiers ^^^ latest.modifiers)).map
      (modifierEvent latest)).Nodup := by
  have hbits : (bitIndices 8 (previous.modifiers ^^^ latest.modifiers)).Nodup := by
    rw [bitIndices_eq]
    exact List.nodup_range.filter _
  refine hbits.map_on fun i hi j hj hsame => ?_
  have hi := (mem_bitIndices.mp hi).1
  have hj := (mem_bitIndices.mp hj).1
  rw [modifierEvent_eq hi, modifierEvent_eq hj] at hsame
  refine modifier_inj i hi j hj ?_
  split at hsame <;> split at hsame
  · exact Event.keyDown.inj hsame
  · cases hsame
  · cases hsame
  · exact Event.keyUp.inj hsame

theorem count_modifiers (event : Event) :
    ((bitIndices 8 (previous.modifiers ^^^ latest.modifiers)).map (modifierEvent latest)).count
      event = if ∃ key, latest.Modifies key ∧ ¬previous.Modifies key ∧ event = .keyDown key ∨
        previous.Modifies key ∧ ¬latest.Modifies key ∧ event = .keyUp key then 1 else 0 := by
  by_cases hmem : event ∈ (bitIndices 8 (previous.modifiers ^^^ latest.modifiers)).map
      (modifierEvent latest)
  · rw [if_pos ((mem_modifiers event).mp hmem)]
    exact List.count_eq_one_of_mem nodup_modifiers hmem
  · rw [if_neg fun h => hmem ((mem_modifiers event).mpr h)]
    exact List.count_eq_zero.mpr hmem

theorem count_keyDown : (keyboardEvents previous latest).count (.keyDown key) =
    (if latest.Modifies key ∧ ¬previous.Modifies key then 1 else 0) +
      if previous.Presses key then 0 else latest.slotCount key := by
  unfold keyboardEvents
  rw [List.count_append, count_modifiers, count_slots_down]
  simp

theorem count_keyUp : (keyboardEvents previous latest).count (.keyUp key) =
    (if previous.Modifies key ∧ ¬latest.Modifies key then 1 else 0) +
      if latest.Presses key then 0 else previous.slotCount key := by
  unfold keyboardEvents
  rw [List.count_append, count_modifiers, count_slots_up]
  simp

theorem not_modifies_none : ¬report.Modifies keyNone := by
  have hne : ∀ i < 8, keyNone ≠ keyLeftctrl + BitVec.ofNat 8 i := by decide
  rintro ⟨i, hi, -, hkey⟩
  exact hne i hi hkey

/-- There is an event for key 0 if one report has an empty slot and the other
has none. -/
theorem none_mem_keyboardEvents :
    Event.keyDown keyNone ∉ keyboardEvents previous latest ∧
        Event.keyUp keyNone ∉ keyboardEvents previous latest ↔
      (previous.Presses keyNone ↔ latest.Presses keyNone) := by
  have hprevious : ¬previous.Modifies keyNone := not_modifies_none
  have hlatest : ¬latest.Modifies keyNone := not_modifies_none
  rw [keyDown_mem, keyUp_mem]
  grind

/-- With the device there, there is one event for each change just if both
reports have an empty slot or neither has. -/
theorem oneEach_keyboardEvents (hprevious : previous.NoRepeats) (hlatest : latest.NoRepeats) :
    OneEach (keyboardEvents previous latest) previous latest ↔
      (previous.Presses keyNone ↔ latest.Presses keyNone) := by
  constructor
  · exact fun h => none_mem_keyboardEvents.mp h.none
  · intro hempty
    refine ⟨fun key hkey => ?_, fun key hkey => ?_, none_mem_keyboardEvents.mpr hempty⟩
    · rw [count_keyDown, hlatest.slotCount hkey]
      refine Nat.add_left_cancel_iff.mpr ?_
      by_cases hpresses : previous.Presses key <;> simp [hpresses]
    · rw [count_keyUp, hprevious.slotCount hkey]
      refine Nat.add_left_cancel_iff.mpr ?_
      by_cases hpresses : latest.Presses key <;> simp [hpresses]

/-- Without any event there is one for each change just if there is none. -/
theorem oneEach_nil : OneEach [] previous latest ↔ SameKeys previous latest := by
  constructor
  · intro h key hkey
    have hdown := h.down key hkey
    have hup := h.up key hkey
    rw [List.count_nil] at hdown hup
    grind
  · intro h
    refine ⟨fun key hkey => ?_, fun key hkey => ?_, List.not_mem_nil, List.not_mem_nil⟩
    · rw [List.count_nil]
      simp [(h key hkey).1, (h key hkey).2]
    · rw [List.count_nil]
      simp [(h key hkey).1, (h key hkey).2]

end

/-- A report without repeated keys makes one event for each change just if it
and the one before it both have an empty slot, or both have none; while there
is no input device, just if nothing has changed. -/
theorem keyEvents_iff (D E : Type) (d : Driver D E) (device : Bool) (data : List (BitVec 8))
    (hprevious : (keyboardReport d.latestReport.data).NoRepeats)
    (hlatest : (keyboardReport data).NoRepeats) :
    OneEach (d.emits .keyboard ⟨device, some data⟩) (keyboardReport d.latestReport.data)
        (keyboardReport data) ↔
      if device then
        ((keyboardReport d.latestReport.data).Presses keyNone ↔
          (keyboardReport data).Presses keyNone)
      else SameKeys (keyboardReport d.latestReport.data) (keyboardReport data) := by
  cases device with
  | false => exact oneEach_nil
  | true =>
    have hevents : d.emits .keyboard ⟨true, some data⟩ = keyboardEvents
        (keyboardReport d.latestReport.data)
        (keyboardReport (data.take Kind.keyboard.reportLength)) := rfl
    rw [hevents, keyboardReport_take]
    exact oneEach_keyboardEvents hprevious hlatest

/-- The first report has six keys. -/
theorem sixKeys_events : ¬OneEach ((Driver.zero .keyboard : Driver Unit Unit).emits .keyboard
    ⟨true, some [0, 0, 4, 5, 6, 7, 8, 9]⟩) (keyboardReport (List.replicate 8 0))
    (keyboardReport [0, 0, 4, 5, 6, 7, 8, 9]) := by
  have hiff := keyEvents_iff Unit Unit (Driver.zero .keyboard) true [0, 0, 4, 5, 6, 7, 8, 9]
    (by decide) (by decide)
  rw [if_pos rfl] at hiff
  exact fun h => absurd (hiff.mp h) (by decide)

theorem sixKeys_counterexample : ¬∀ (d : Driver Unit Unit) data,
    (keyboardReport d.latestReport.data).NoRepeats → (keyboardReport data).NoRepeats →
    OneEach (d.emits .keyboard ⟨true, some data⟩) (keyboardReport d.latestReport.data)
      (keyboardReport data) := by
  intro h
  have hone := h (Driver.zero .keyboard) [0, 0, 4, 5, 6, 7, 8, 9] (by decide) (by decide)
  exact absurd ((oneEach_keyboardEvents (by decide) (by decide)).mp hone) (by decide)

/-! ## Motion -/

/-- How far a report says that the mouse has moved. -/
def MouseReport.displacement (report : MouseReport) : Int × Int := (report.x.toInt, report.y.toInt)

def Event.motion : Event → Int × Int
  | .mouseMove deltaX deltaY => (deltaX.toInt, deltaY.toInt)
  | _ => 0

/-- The sum of the motion of the events. -/
def motion (events : List Event) : Int × Int := (events.map Event.motion).sum

/-- `cursor_move`, without bounds for the position. -/
def cursorMove (position : Int × Int) (deltaX deltaY : BitVec 8) : Int × Int :=
  if deltaX = 0 ∧ deltaY = 0 then position
  else (position.1 + deltaX.toInt, position.2 + deltaY.toInt)

/-- The loop of `cursor_update`, as far as the position goes. -/
def cursorUpdate : List Event → Int × Int → Int × Int
  | [], position => position
  | .mouseMove deltaX deltaY :: events, position =>
    cursorUpdate events (cursorMove position deltaX deltaY)
  | _ :: events, position => cursorUpdate events position

/-- How far the delivered reports say that the mouse has moved. -/
def displacement (deliveries : List Delivery) : Int × Int :=
  (deliveries.map fun a => a.data.elim 0 fun data => (mouseReport data).displacement).sum

/-- The events lead to where the reports say. -/
structure MotionKept (events : List Event) (deliveries : List Delivery) : Prop where
  sum : motion events = displacement deliveries
  cursor : ∀ position, cursorUpdate events position = position + displacement deliveries

/-- A report that arrives says that the mouse has not moved, or the device is
there and the report before said something else. -/
def Moves {D E : Type} (d : Driver D E) (a : Delivery) : Prop :=
  ∀ data, a.data = some data → (mouseReport data).displacement = 0 ∨ a.device = true ∧
    (mouseReport data).displacement ≠ (mouseReport d.latestReport.data).displacement

section
variable {previous latest : MouseReport} {events : List Event} {deliveries : List Delivery}
  {D E : Type} {s : Session D E} {d : Driver D E} {a : Delivery}

theorem cursorMove_eq (position : Int × Int) (deltaX deltaY : BitVec 8) :
    cursorMove position deltaX deltaY = position + (deltaX.toInt, deltaY.toInt) := by
  unfold cursorMove
  split
  · rename_i hzero
    rw [hzero.1, hzero.2]
    exact (add_zero position).symm
  · rfl

/-- The cursor is moved by the sum of the events. -/
theorem cursorUpdate_eq (events : List Event) (position : Int × Int) :
    cursorUpdate events position = position + motion events := by
  induction events generalizing position with
  | nil => exact (add_zero position).symm
  | cons event events ih =>
    have hmotion : motion (event :: events) = event.motion + motion events := List.sum_cons
    rw [hmotion, ← add_assoc]
    cases event with
    | mouseMove deltaX deltaY => exact (ih _).trans (congrArg (· + _) (cursorMove_eq ..))
    | _ => exact (ih _).trans (congrArg (· + _) (add_zero position).symm)

theorem motionKept_iff : MotionKept events deliveries ↔ motion events = displacement deliveries :=
  ⟨MotionKept.sum, fun h => ⟨h, fun position => h ▸ cursorUpdate_eq events position⟩⟩

theorem motion_append (events events' : List Event) :
    motion (events ++ events') = motion events + motion events' := by
  unfold motion
  rw [List.map_append, List.sum_append]

theorem motion_buttons (is : List Nat) : motion (is.map (buttonEvent latest)) = 0 := by
  induction is with
  | nil => rfl
  | cons i is ih =>
    refine (List.sum_cons ..).trans ?_
    have hzero : (buttonEvent latest i).motion = 0 := by
      unfold buttonEvent
      dsimp only
      split <;> rfl
    rw [hzero, zero_add]
    exact ih

theorem displacement_inj : previous.displacement = latest.displacement ↔
    previous.x = latest.x ∧ previous.y = latest.y := by
  unfold MouseReport.displacement
  rw [Prod.mk.injEq, BitVec.toInt_inj, BitVec.toInt_inj]

/-- A report that says something else than the one before makes an event. -/
theorem motion_mouseEvents (previous latest : MouseReport) : motion (mouseEvents previous latest) =
    if latest.displacement = previous.displacement then 0 else latest.displacement := by
  unfold mouseEvents
  rw [motion_append, motion_buttons, add_zero]
  by_cases hsame : latest.displacement = previous.displacement
  · obtain ⟨hx, hy⟩ := displacement_inj.mp hsame
    rw [if_pos hsame, if_neg fun h => h.elim (· hx.symm) (· hy.symm)]
    rfl
  · have hmoved : previous.x ≠ latest.x ∨ previous.y ≠ latest.y := by
      by_contra hnot
      rw [not_or, not_not, not_not] at hnot
      exact hsame (displacement_inj.mpr ⟨hnot.1.symm, hnot.2.symm⟩)
    rw [if_neg hsame, if_pos hmoved]
    exact add_zero _

/-- What a delivery adds to the sum of the events is what it says, if it
moves. -/
theorem motion_emits_iff : motion (d.emits .mouse a) =
    a.data.elim 0 (fun data => (mouseReport data).displacement) ↔ Moves d a := by
  obtain ⟨device, data⟩ := a
  unfold Moves
  cases data with
  | none => exact iff_of_true rfl fun _ h => nomatch h
  | some data =>
    have hdata : (∀ data', some data = some data' → (mouseReport data').displacement = 0 ∨
        device = true ∧ (mouseReport data').displacement ≠
          (mouseReport d.latestReport.data).displacement) ↔
        (mouseReport data).displacement = 0 ∨ device = true ∧
          (mouseReport data).displacement ≠ (mouseReport d.latestReport.data).displacement :=
      ⟨fun h => h data rfl, fun h _ heq => Option.some.inj heq ▸ h⟩
    rw [hdata]
    cases device with
    | false =>
      refine Iff.trans ?_ (or_iff_left fun h => nomatch h.1).symm
      exact eq_comm
    | true =>
      have hevents : d.emits .mouse ⟨true, some data⟩ =
          mouseEvents (mouseReport d.latestReport.data)
            (mouseReport (data.take Kind.mouse.reportLength)) := rfl
      rw [hevents, mouseReport_take, motion_mouseEvents]
      show (if _ then _ else _) = (mouseReport data).displacement ↔ _
      split
      · rename_i hsame
        exact ⟨fun h => .inl h.symm, fun h => (h.resolve_right fun h => h.2 hsame).symm⟩
      · rename_i hother
        exact iff_of_true rfl (.inr ⟨rfl, hother⟩)

theorem displacement_concat (deliveries : List Delivery) (a : Delivery) :
    displacement (deliveries ++ [a]) = displacement deliveries +
      a.data.elim 0 fun data => (mouseReport data).displacement := by
  unfold displacement
  rw [List.map_append, List.sum_append, List.map_singleton, List.sum_singleton]

theorem deliverAll_concat (k : Kind) (deliveries : List Delivery) (a : Delivery) :
    s.deliverAll k (deliveries ++ [a]) = (s.deliverAll k deliveries).deliver k a :=
  List.foldl_concat ..

end

/-- The mouse of the start, after some deliveries. -/
def mouseAfter (D E : Type) (deliveries : List Delivery) : Session D E :=
  (Session.start .mouse).deliverAll .mouse deliveries

/-- The events always lead to where the reports say just if every report that
says that the mouse has moved finds the device, and says something else than
the one before. -/
theorem motion_kept_iff (D E : Type) (deliveries : List Delivery) :
    (∀ before, before <+: deliveries → MotionKept (mouseAfter D E before).emitted before) ↔
      ∀ before a, before ++ [a] <+: deliveries → Moves (mouseAfter D E before).driver a := by
  induction deliveries using List.reverseRecOn with
  | nil =>
    refine iff_of_true (fun before hbefore => ?_) fun before a hbefore => ?_
    · rw [List.prefix_nil.mp hbefore]
      exact motionKept_iff.mpr rfl
    · exact absurd (List.prefix_nil.mp hbefore) (by simp)
  | append_singleton deliveries a ih =>
    have hkept : (∀ before, before <+: deliveries ++ [a] →
        MotionKept (mouseAfter D E before).emitted before) ↔
        MotionKept (mouseAfter D E (deliveries ++ [a])).emitted (deliveries ++ [a]) ∧
          ∀ before, before <+: deliveries → MotionKept (mouseAfter D E before).emitted before := by
      simp only [List.prefix_concat_iff]
      exact ⟨fun h => ⟨h _ (.inl rfl), fun before hbefore => h before (.inr hbefore)⟩,
        fun h before hbefore => hbefore.elim (fun heq => heq ▸ h.1) (h.2 before)⟩
    have hmoves : (∀ before a', before ++ [a'] <+: deliveries ++ [a] →
        Moves (mouseAfter D E before).driver a') ↔
        Moves (mouseAfter D E deliveries).driver a ∧
          ∀ before a', before ++ [a'] <+: deliveries → Moves (mouseAfter D E before).driver a' := by
      simp only [List.prefix_concat_iff]
      refine ⟨fun h => ⟨h _ _ (.inl rfl), fun before a' hbefore => h before a' (.inr hbefore)⟩,
        fun h before a' hbefore => hbefore.elim (fun heq => ?_) (h.2 before a')⟩
      obtain ⟨rfl, rfl⟩ := List.append_singleton_inj.mp heq
      exact h.1
    rw [hkept, hmoves, ← ih]
    refine and_congr_left fun hbefore => ?_
    have hsum := (hbefore deliveries (List.prefix_refl _)).sum
    have hnext : (mouseAfter D E (deliveries ++ [a])).emitted =
        (mouseAfter D E deliveries).emitted ++
          (mouseAfter D E deliveries).driver.emits .mouse a := by
      unfold mouseAfter
      rw [deliverAll_concat]
      rfl
    rw [motionKept_iff, hnext, motion_append, displacement_concat, hsum, add_right_inj,
      motion_emits_iff]

/-- Two equal reports in a row. -/
def steadyMotion : List Delivery := [⟨true, some [0, 1, 0, 0]⟩, ⟨true, some [0, 1, 0, 0]⟩]

theorem steadyMotion_lost : ¬∀ deliveries, (∀ a ∈ deliveries, a.device = true) →
    MotionKept (mouseAfter Unit Unit deliveries).emitted deliveries := by
  intro h
  exact absurd (h steadyMotion (by decide)).sum (by decide)

end ZOs.Usb.Hid
