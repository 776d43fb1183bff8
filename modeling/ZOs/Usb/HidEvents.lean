import Mathlib.Data.Finset.Basic
import Mathlib.Data.Finset.Insert
import ZOs.Usb.Hid

/-!
# The events of reports

What the callbacks of the HID drivers emit: a report is compared with the
one before it, and what has changed becomes events. A reader sees the events
alone. Replayed, they give the keys and the buttons that are held; whether
there is one event for each change, and whether the motion adds up, depends
on the reports.
-/

namespace ZOs.Usb.Hid

open Runs

/-! ## Reports and events -/

/-- `input_device_event_t`. -/
inductive Event
  | keyDown (keycode : BitVec 8)
  | keyUp (keycode : BitVec 8)
  | mouseDown (button : BitVec 8)
  | mouseUp (button : BitVec 8)
  | mouseMove (deltaX deltaY : BitVec 8)
  deriving DecidableEq

/-- `KEY_NONE`. -/
def keyNone : BitVec 8 := 0x00

/-- `KEY_LEFTCTRL`. -/
def keyLeftctrl : BitVec 8 := 0xe0

/-- `usb_hid_keyboard_report_t`. -/
structure KeyboardReport where
  modifiers : BitVec 8
  keypress : Fin 6 → BitVec 8

/-- `usb_hid_mouse_report_t`. -/
structure MouseReport where
  buttons : BitVec 8
  x : BitVec 8
  y : BitVec 8

/-- The bytes of a report. The second one is reserved. -/
def keyboardReport (data : List (BitVec 8)) : KeyboardReport where
  modifiers := data.getD 0 0
  keypress i := data.getD (2 + i) 0

def mouseReport (data : List (BitVec 8)) : MouseReport where
  buttons := data.getD 0 0
  x := data.getD 1 0
  y := data.getD 2 0

/-- `report_contains_key`. -/
def reportContainsKey (report : KeyboardReport) (key : BitVec 8) : Bool :=
  decide (∃ i, report.keypress i = key)

/-- `__builtin_ctz` of a byte: the index of the lowest bit that is set. -/
def countTrailingZeros (x : BitVec 8) : Nat :=
  (List.range 8).findIdx fun i => x.getLsbD i

/-- The loop over the bits that are set, the lowest first. -/
def bitIndices : Nat → BitVec 8 → List Nat
  | 0, _ => []
  | fuel + 1, changed =>
    if changed = 0 then []
    else countTrailingZeros changed :: bitIndices fuel (changed &&& (changed - 1))

/-- The event of a modifier that has changed. -/
def modifierEvent (latest : KeyboardReport) (index : Nat) : Event :=
  let modifier := 1#8 <<< index
  let keycode := keyLeftctrl + BitVec.ofNat 8 index
  if latest.modifiers &&& modifier ≠ 0 then .keyDown keycode else .keyUp keycode

/-- The events of slot `i` of both reports. -/
def slotEvents (previous latest : KeyboardReport) (i : Fin 6) : List Event :=
  let prevKey := previous.keypress i
  let newKey := latest.keypress i
  (if reportContainsKey latest prevKey then [] else [.keyUp prevKey]) ++
    if reportContainsKey previous newKey then [] else [.keyDown newKey]

/-- What `usb_hid_keyboard_transfer_callback` emits. -/
def keyboardEvents (previous latest : KeyboardReport) : List Event :=
  (bitIndices 8 (previous.modifiers ^^^ latest.modifiers)).map (modifierEvent latest) ++
    (List.finRange 6).flatMap (slotEvents previous latest)

/-- The event of a button that has changed. -/
def buttonEvent (latest : MouseReport) (index : Nat) : Event :=
  let button := 1#8 <<< index
  if latest.buttons &&& button ≠ 0 then .mouseDown button else .mouseUp button

/-- What `usb_hid_mouse_transfer_callback` emits. -/
def mouseEvents (previous latest : MouseReport) : List Event :=
  (if previous.x ≠ latest.x ∨ previous.y ≠ latest.y then [.mouseMove latest.x latest.y] else []) ++
    (bitIndices 8 (previous.buttons ^^^ latest.buttons)).map (buttonEvent latest)

def Kind.events : Kind → Report → Report → List Event
  | .keyboard, previous, latest =>
    keyboardEvents (keyboardReport previous.data) (keyboardReport latest.data)
  | .mouse, previous, latest => mouseEvents (mouseReport previous.data) (mouseReport latest.data)

/-- What is handed to a callback: whether the input device is there, and the
data of a completion that is a success. -/
structure Delivery where
  device : Bool
  data : Option (List (BitVec 8))

/-- A driver, and what its callback has emitted so far. -/
structure Session (D E : Type) where
  driver : Driver D E
  emitted : List Event

variable {D E : Type}

/-- What the callback of a driver emits. -/
def Driver.emits (k : Kind) (d : Driver D E) (a : Delivery) : List Event :=
  if a.data.isSome ∧ a.device then
    k.events d.latestReport (transferCallback k a.data d).latestReport
  else []

/-- `usb_hid_keyboard_transfer_callback` and its twin. -/
def Session.deliver (k : Kind) (s : Session D E) (a : Delivery) : Session D E where
  driver := transferCallback k a.data s.driver
  emitted := s.emitted ++ s.driver.emits k a

/-- Before the first report. -/
def Session.start (k : Kind) : Session D E := ⟨Driver.zero k, []⟩

/-- One report after the other. -/
def Session.deliverAll (k : Kind) (s : Session D E) (deliveries : List Delivery) : Session D E :=
  deliveries.foldl (Session.deliver k) s

/-! ## The loop over the bits -/

/-- The loop comes to its end, and has been at the set bits. -/
theorem bitIndices_eq : ∀ changed : BitVec 8,
    bitIndices 8 changed = (List.range 8).filter fun i => changed.getLsbD i := by
  decide +kernel

theorem mem_bitIndices {changed : BitVec 8} {i : Nat} :
    i ∈ bitIndices 8 changed ↔ i < 8 ∧ changed.getLsbD i = true := by
  rw [bitIndices_eq, List.mem_filter, List.mem_range]

theorem and_bit_ne_zero {x : BitVec 8} {i : Nat} (hi : i < 8) :
    x &&& 1#8 <<< i ≠ 0 ↔ x.getLsbD i = true := by
  rw [← BitVec.twoPow_eq, BitVec.and_twoPow]
  split
  · rename_i hbit
    refine iff_of_true (fun hzero => ?_) hbit
    have hsame := congrArg (·.getLsbD i) hzero
    simp [hi] at hsame
  · rename_i hbit
    exact iff_of_false (absurd rfl) hbit

/-! ## Replaying -/

/-- A key event, as an insertion into a set or a deletion from it. -/
def Event.replayKey (keys : Finset (BitVec 8)) : Event → Finset (BitVec 8)
  | .keyDown keycode => if keycode = keyNone then keys else insert keycode keys
  | .keyUp keycode => if keycode = keyNone then keys else keys.erase keycode
  | _ => keys

def replayKeys (events : List Event) (keys : Finset (BitVec 8)) : Finset (BitVec 8) :=
  events.foldl Event.replayKey keys

/-- A button event, as bits of a mask that are set or cleared. -/
def Event.replayButton (buttons : BitVec 8) : Event → BitVec 8
  | .mouseDown button => buttons ||| button
  | .mouseUp button => buttons &&& ~~~button
  | _ => buttons

def replayButtons (events : List Event) (buttons : BitVec 8) : BitVec 8 :=
  events.foldl Event.replayButton buttons

/-- The key is in a slot. -/
def KeyboardReport.Presses (report : KeyboardReport) (key : BitVec 8) : Prop :=
  ∃ i, report.keypress i = key

instance (report : KeyboardReport) (key : BitVec 8) : Decidable (report.Presses key) :=
  inferInstanceAs (Decidable (∃ _, _))

/-- The bit of modifier `key` is set. -/
def KeyboardReport.Modifies (report : KeyboardReport) (key : BitVec 8) : Prop :=
  ∃ i < 8, report.modifiers.getLsbD i = true ∧ key = keyLeftctrl + BitVec.ofNat 8 i

/-- The keys of a report: those in the slots, and the modifiers. -/
def KeyboardReport.Holds (report : KeyboardReport) (key : BitVec 8) : Prop :=
  key ≠ keyNone ∧ (report.Presses key ∨ report.Modifies key)

section
variable {previous latest : KeyboardReport} {events : List Event} {keys : Finset (BitVec 8)}
  {key : BitVec 8}

theorem replayKeys_append (events events' : List Event) (keys : Finset (BitVec 8)) :
    replayKeys (events ++ events') keys = replayKeys events' (replayKeys events keys) :=
  List.foldl_append

/-- Where no key goes down and up, the order of the events does not matter. -/
theorem mem_replayKeys (hkey : key ≠ keyNone)
    (honce : ¬(Event.keyDown key ∈ events ∧ Event.keyUp key ∈ events)) :
    key ∈ replayKeys events keys ↔
      Event.keyDown key ∈ events ∨ key ∈ keys ∧ Event.keyUp key ∉ events := by
  induction events generalizing keys with
  | nil => simp [replayKeys]
  | cons event events ih =>
    have hrest : ¬(Event.keyDown key ∈ events ∧ Event.keyUp key ∈ events) := fun h =>
      honce ⟨List.mem_cons_of_mem _ h.1, List.mem_cons_of_mem _ h.2⟩
    have hstep : key ∈ event.replayKey keys ↔
        event = .keyDown key ∨ key ∈ keys ∧ event ≠ .keyUp key := by
      unfold Event.replayKey
      cases event with
      | keyDown keycode =>
        by_cases hnone : keycode = keyNone
        · simp [hnone, Ne.symm hkey]
        · simp [hnone, eq_comm]
      | keyUp keycode =>
        by_cases hnone : keycode = keyNone
        · simp [hnone]
          grind
        · simp [hnone]
          grind
      | _ => simp
    show key ∈ replayKeys events (event.replayKey keys) ↔ _
    rw [ih hrest, hstep, List.mem_cons, List.mem_cons]
    grind

theorem zero_mem_replayKeys : keyNone ∈ replayKeys events keys ↔ keyNone ∈ keys := by
  induction events generalizing keys with
  | nil => rfl
  | cons event events ih =>
    refine ih.trans ?_
    unfold Event.replayKey
    cases event with
    | keyDown keycode =>
      dsimp only
      split
      · rfl
      · rename_i hne
        exact Finset.mem_insert.trans (or_iff_right (Ne.symm hne))
    | keyUp keycode =>
      dsimp only
      split
      · rfl
      · rename_i hne
        exact Finset.mem_erase.trans (and_iff_right (Ne.symm hne))
    | _ => rfl

/-! ## Keys -/

/-- Modifiers have different keycodes. -/
theorem modifier_inj : ∀ i < 8, ∀ j < 8,
    keyLeftctrl + BitVec.ofNat 8 i = keyLeftctrl + BitVec.ofNat 8 j → i = j := by
  decide

theorem modifies_iff {i : Nat} (hi : i < 8) :
    latest.Modifies (keyLeftctrl + BitVec.ofNat 8 i) ↔ latest.modifiers.getLsbD i = true := by
  constructor
  · rintro ⟨j, hj, hset, hsame⟩
    rwa [modifier_inj i hi j hj hsame]
  · exact fun hset => ⟨i, hi, hset, rfl⟩

theorem mem_modifierEvents {i : Nat} :
    i ∈ bitIndices 8 (previous.modifiers ^^^ latest.modifiers) ↔
      i < 8 ∧ previous.modifiers.getLsbD i ≠ latest.modifiers.getLsbD i := by
  rw [mem_bitIndices, BitVec.getLsbD_xor, bne_iff_ne]

theorem modifierEvent_eq {i : Nat} (hi : i < 8) : modifierEvent latest i =
    if latest.modifiers.getLsbD i = true then .keyDown (keyLeftctrl + BitVec.ofNat 8 i)
    else .keyUp (keyLeftctrl + BitVec.ofNat 8 i) := by
  unfold modifierEvent
  simp only [and_bit_ne_zero hi]

/-- A modifier goes down when its bit gets set, and up when it is cleared. -/
theorem mem_modifiers (event : Event) :
    event ∈ (bitIndices 8 (previous.modifiers ^^^ latest.modifiers)).map (modifierEvent latest) ↔
      ∃ key, latest.Modifies key ∧ ¬previous.Modifies key ∧ event = .keyDown key ∨
        previous.Modifies key ∧ ¬latest.Modifies key ∧ event = .keyUp key := by
  rw [List.mem_map]
  constructor
  · rintro ⟨i, hi, rfl⟩
    obtain ⟨hlt, hchanged⟩ := mem_modifierEvents.mp hi
    refine ⟨keyLeftctrl + BitVec.ofNat 8 i, ?_⟩
    rw [modifierEvent_eq hlt, modifies_iff hlt, modifies_iff hlt]
    by_cases hset : latest.modifiers.getLsbD i = true
    · rw [if_pos hset]
      exact .inl ⟨hset, fun h => hchanged (h.trans hset.symm), rfl⟩
    · rw [if_neg hset]
      refine .inr ⟨?_, hset, rfl⟩
      rw [Bool.not_eq_true] at hset
      rw [hset] at hchanged
      exact Bool.eq_true_of_not_eq_false hchanged
  · rintro ⟨key, ⟨⟨i, hi, hset, rfl⟩, hnot, rfl⟩ | ⟨⟨i, hi, hset, rfl⟩, hnot, rfl⟩⟩
    · rw [modifies_iff hi] at hnot
      refine ⟨i, mem_modifierEvents.mpr ⟨hi, fun h => hnot (h.trans hset)⟩, ?_⟩
      rw [modifierEvent_eq hi, if_pos hset]
    · rw [modifies_iff hi] at hnot
      refine ⟨i, mem_modifierEvents.mpr ⟨hi, fun h => hnot (h.symm.trans hset)⟩, ?_⟩
      rw [modifierEvent_eq hi, if_neg hnot]

theorem reportContainsKey_iff : reportContainsKey latest key = true ↔ latest.Presses key :=
  decide_eq_true_iff

theorem mem_slotEvents {event : Event} {i : Fin 6} : event ∈ slotEvents previous latest i ↔
    ¬latest.Presses (previous.keypress i) ∧ event = .keyUp (previous.keypress i) ∨
      ¬previous.Presses (latest.keypress i) ∧ event = .keyDown (latest.keypress i) := by
  unfold slotEvents
  simp only [List.mem_append, reportContainsKey_iff]
  apply or_congr
  · split
    · simp_all
    · simp_all
  · split
    · simp_all
    · simp_all

/-- A key goes down when it is in a slot and was in none, and up when it was
in a slot and is in none. -/
theorem mem_slots (event : Event) :
    event ∈ (List.finRange 6).flatMap (slotEvents previous latest) ↔
      ∃ key, latest.Presses key ∧ ¬previous.Presses key ∧ event = .keyDown key ∨
        previous.Presses key ∧ ¬latest.Presses key ∧ event = .keyUp key := by
  rw [List.mem_flatMap]
  constructor
  · rintro ⟨i, -, hi⟩
    rcases mem_slotEvents.mp hi with ⟨hnot, hevent⟩ | ⟨hnot, hevent⟩
    · exact ⟨_, .inr ⟨⟨i, rfl⟩, hnot, hevent⟩⟩
    · exact ⟨_, .inl ⟨⟨i, rfl⟩, hnot, hevent⟩⟩
  · rintro ⟨key, ⟨⟨i, rfl⟩, hnot, hevent⟩ | ⟨⟨i, rfl⟩, hnot, hevent⟩⟩
    · exact ⟨i, List.mem_finRange i, mem_slotEvents.mpr (.inr ⟨hnot, hevent⟩)⟩
    · exact ⟨i, List.mem_finRange i, mem_slotEvents.mpr (.inl ⟨hnot, hevent⟩)⟩

theorem mem_keyboardEvents (event : Event) : event ∈ keyboardEvents previous latest ↔
    ∃ key,
      (latest.Modifies key ∧ ¬previous.Modifies key ∨ latest.Presses key ∧ ¬previous.Presses key) ∧
          event = .keyDown key ∨
        (previous.Modifies key ∧ ¬latest.Modifies key ∨
          previous.Presses key ∧ ¬latest.Presses key) ∧ event = .keyUp key := by
  unfold keyboardEvents
  rw [List.mem_append, mem_modifiers, mem_slots, ← exists_or]
  exact exists_congr fun key => by grind

theorem keyDown_mem : Event.keyDown key ∈ keyboardEvents previous latest ↔
    latest.Modifies key ∧ ¬previous.Modifies key ∨
      latest.Presses key ∧ ¬previous.Presses key := by
  simp [mem_keyboardEvents]

theorem keyUp_mem : Event.keyUp key ∈ keyboardEvents previous latest ↔
    previous.Modifies key ∧ ¬latest.Modifies key ∨
      previous.Presses key ∧ ¬latest.Presses key := by
  simp [mem_keyboardEvents]

/-- No slot has the keycode of a modifier. -/
def KeyboardReport.BelowModifiers (report : KeyboardReport) : Prop :=
  ∀ i, report.keypress i < keyLeftctrl

theorem KeyboardReport.BelowModifiers.not_modifies {report : KeyboardReport}
    (h : report.BelowModifiers) (hpresses : report.Presses key) : ¬latest.Modifies key := by
  obtain ⟨i, rfl⟩ := hpresses
  rintro ⟨j, hj, -, hsame⟩
  have hlt := h i
  have hle : ∀ j < 8, keyLeftctrl ≤ keyLeftctrl + BitVec.ofNat 8 j := by decide
  rw [hsame] at hlt
  exact absurd (hle j hj) (BitVec.not_le.mpr hlt)

/-- The events of a report turn the keys of the one before it into its own. -/
theorem replay_keyboardEvents (hprevious : previous.BelowModifiers)
    (hlatest : latest.BelowModifiers)
    (hkeys : ∀ key, key ∈ keys ↔ previous.Holds key) (key : BitVec 8) :
    key ∈ replayKeys (keyboardEvents previous latest) keys ↔ latest.Holds key := by
  unfold KeyboardReport.Holds at hkeys ⊢
  by_cases hnone : key = keyNone
  · subst hnone
    rw [zero_mem_replayKeys, hkeys]
    exact iff_of_false (fun h => h.1 rfl) fun h => h.1 rfl
  -- the key is one of the slots, or a modifier
  have hslot : previous.Presses key ∨ latest.Presses key →
      ¬previous.Modifies key ∧ ¬latest.Modifies key := by
    rintro (h | h)
    · exact ⟨hprevious.not_modifies h, hprevious.not_modifies h⟩
    · exact ⟨hlatest.not_modifies h, hlatest.not_modifies h⟩
  rw [mem_replayKeys hnone, keyDown_mem, keyUp_mem, hkeys]
  · grind
  · rw [keyDown_mem, keyUp_mem]
    grind

end

/-! ## Buttons -/

section
variable {previous latest : MouseReport}

theorem buttonEvent_eq {i : Nat} (hi : i < 8) : buttonEvent latest i =
    if latest.buttons.getLsbD i = true then .mouseDown (1#8 <<< i) else .mouseUp (1#8 <<< i) := by
  unfold buttonEvent
  simp only [and_bit_ne_zero hi]

/-- One bit becomes that of the report. -/
theorem replayButton_bit (buttons : BitVec 8) {i : Nat} (hi : i < 8) (j : Nat) :
    ((buttonEvent latest i).replayButton buttons).getLsbD j =
      if j = i then latest.buttons.getLsbD i else buttons.getLsbD j := by
  rw [buttonEvent_eq hi]
  by_cases hset : latest.buttons.getLsbD i = true
  · rw [if_pos hset]
    show (buttons ||| 1#8 <<< i).getLsbD j = _
    rw [← BitVec.twoPow_eq, BitVec.getLsbD_or, BitVec.getLsbD_twoPow]
    by_cases hj : j = i
    · simp [hj, hi, hset]
    · simp [hj, Ne.symm hj]
  · rw [if_neg hset]
    show (buttons &&& ~~~(1#8 <<< i)).getLsbD j = _
    rw [← BitVec.twoPow_eq, BitVec.getLsbD_and, BitVec.getLsbD_not, BitVec.getLsbD_twoPow]
    by_cases hj : j = i
    · rw [if_pos hj, hj, Bool.eq_false_of_not_eq_true hset]
      simp [hi]
    · by_cases hlt : j < 8
      · simp [hj, Ne.symm hj, hlt]
      · simp [hj, hlt, BitVec.getLsbD_of_ge buttons j (Nat.le_of_not_lt hlt)]

theorem replayButtons_bit {is : List Nat} (his : ∀ i ∈ is, i < 8) (buttons : BitVec 8) (j : Nat) :
    (replayButtons (is.map (buttonEvent latest)) buttons).getLsbD j =
      if j ∈ is then latest.buttons.getLsbD j else buttons.getLsbD j := by
  induction is generalizing buttons with
  | nil => rfl
  | cons i is ih =>
    obtain ⟨hi, his⟩ := List.forall_mem_cons.mp his
    refine (ih his _).trans ?_
    rw [replayButton_bit _ hi]
    by_cases hmem : j ∈ is
    · simp [hmem]
    · by_cases hj : j = i
      · simp [hj]
      · simp [hmem, hj]

/-- The events of a report turn the mask of the one before it into its own. -/
theorem replay_mouseEvents (previous latest : MouseReport) :
    replayButtons (mouseEvents previous latest) previous.buttons = latest.buttons := by
  have hmove : replayButtons (mouseEvents previous latest) previous.buttons = replayButtons
      ((bitIndices 8 (previous.buttons ^^^ latest.buttons)).map (buttonEvent latest))
      previous.buttons := by
    unfold mouseEvents
    split <;> rfl
  rw [hmove]
  apply BitVec.eq_of_getLsbD_eq
  intro j hj
  rw [replayButtons_bit fun i hi => (mem_bitIndices.mp hi).1]
  by_cases hmem : j ∈ bitIndices 8 (previous.buttons ^^^ latest.buttons)
  · rw [if_pos hmem]
  · rw [if_neg hmem]
    rw [mem_bitIndices, BitVec.getLsbD_xor, bne_iff_ne] at hmem
    by_contra hne
    exact hmem ⟨hj, hne⟩

theorem replayButtons_append (events events' : List Event) (buttons : BitVec 8) :
    replayButtons (events ++ events') buttons =
      replayButtons events' (replayButtons events buttons) :=
  List.foldl_append

end

/-! ## Runs -/

section
variable {s : Session D E} {reports : List (Option (List (BitVec 8)))} {data : List (BitVec 8)}

theorem keyboardReport_take (data : List (BitVec 8)) :
    keyboardReport (data.take Kind.keyboard.reportLength) = keyboardReport data := by
  have htake : ∀ i < 8, (data.take 8).getD i 0 = data.getD i 0 := fun i hi => by
    rw [List.getD_eq_getElem?_getD, List.getD_eq_getElem?_getD, List.getElem?_take_of_lt hi]
  unfold keyboardReport
  rw [KeyboardReport.mk.injEq]
  exact ⟨htake 0 (by decide), funext fun i => htake (2 + i) (by omega)⟩

theorem mouseReport_take (data : List (BitVec 8)) :
    mouseReport (data.take Kind.mouse.reportLength) = mouseReport data := by
  have htake : ∀ i < 4, (data.take 4).getD i 0 = data.getD i 0 := fun i hi => by
    rw [List.getD_eq_getElem?_getD, List.getD_eq_getElem?_getD, List.getElem?_take_of_lt hi]
  unfold mouseReport
  rw [MouseReport.mk.injEq]
  exact ⟨htake 0 (by decide), htake 1 (by decide), htake 2 (by decide)⟩

/-- The keys that a reader takes to be held are those of the latest report. -/
structure KeysFollow (s : Session D E) : Prop where
  below : (keyboardReport s.driver.latestReport.data).BelowModifiers
  keys : ∀ key, key ∈ replayKeys s.emitted ∅ ↔
    (keyboardReport s.driver.latestReport.data).Holds key

theorem keyboardReport_zero :
    keyboardReport (List.replicate Kind.keyboard.reportLength 0) = ⟨0, fun _ => 0⟩ := by
  have hpress : ∀ i : Fin 6, (List.replicate 8 (0 : BitVec 8)).getD (2 + i) 0 = 0 := by decide
  unfold keyboardReport
  rw [KeyboardReport.mk.injEq]
  exact ⟨rfl, funext hpress⟩

theorem KeysFollow.start : KeysFollow (Session.start .keyboard : Session D E) := by
  have hzero : keyboardReport (Session.start .keyboard : Session D E).driver.latestReport.data =
      ⟨0, fun _ => 0⟩ := keyboardReport_zero
  constructor
  · rw [hzero]
    intro i
    show (0 : BitVec 8) < keyLeftctrl
    decide
  · intro key
    rw [hzero]
    refine iff_of_false (Finset.notMem_empty _) ?_
    rintro ⟨hnone, ⟨i, hpress⟩ | ⟨i, hi, hset, -⟩⟩
    · exact hnone hpress.symm
    · exact absurd hset (by simp)

theorem KeysFollow.deliver (h : KeysFollow s) {report : Option (List (BitVec 8))}
    (hbelow : ∀ data, report = some data → (keyboardReport data).BelowModifiers) :
    KeysFollow (s.deliver .keyboard ⟨true, report⟩) := by
  cases report with
  | none =>
    refine ⟨h.below, fun key => ?_⟩
    show key ∈ replayKeys (s.emitted ++ []) ∅ ↔ _
    rw [List.append_nil]
    exact h.keys key
  | some data =>
    have hdata := hbelow data rfl
    rw [← keyboardReport_take] at hdata
    refine ⟨hdata, fun key => ?_⟩
    show key ∈ replayKeys (s.emitted ++ keyboardEvents _ _) ∅ ↔ _
    rw [replayKeys_append]
    exact replay_keyboardEvents h.below hdata h.keys key

/-- So for the buttons. -/
def ButtonsFollow (s : Session D E) : Prop :=
  replayButtons s.emitted 0 = (mouseReport s.driver.latestReport.data).buttons

theorem ButtonsFollow.start : ButtonsFollow (Session.start .mouse : Session D E) := rfl

theorem ButtonsFollow.deliver (h : ButtonsFollow s) (report : Option (List (BitVec 8))) :
    ButtonsFollow (s.deliver .mouse ⟨true, report⟩) := by
  unfold ButtonsFollow at h ⊢
  cases report with
  | none =>
    show replayButtons (s.emitted ++ []) 0 = _
    rw [List.append_nil]
    exact h
  | some data =>
    show replayButtons (s.emitted ++ mouseEvents _ _) 0 = _
    rw [replayButtons_append, h]
    exact replay_mouseEvents _ _

theorem KeysFollow.deliverAll (h : KeysFollow s)
    (hbelow : ∀ data, some data ∈ reports → (keyboardReport data).BelowModifiers) :
    KeysFollow (s.deliverAll .keyboard (reports.map (Delivery.mk true))) := by
  induction reports generalizing s with
  | nil => exact h
  | cons report reports ih =>
    refine ih (h.deliver fun data hdata => ?_) fun data hmem => ?_
    · exact hbelow data (hdata ▸ List.mem_cons_self ..)
    · exact hbelow data (List.mem_cons_of_mem _ hmem)

theorem ButtonsFollow.deliverAll (h : ButtonsFollow s) (reports : List (Option (List (BitVec 8)))) :
    ButtonsFollow (s.deliverAll .mouse (reports.map (Delivery.mk true))) := by
  induction reports generalizing s with
  | nil => exact h
  | cons report reports ih => exact ih (h.deliver report)

/-- A report that arrives is the latest one. -/
theorem latestReport_deliverAll (k : Kind) (s : Session D E) (deliveries : List Delivery)
    (device : Bool) (data : List (BitVec 8)) :
    (s.deliverAll k (deliveries ++ [⟨device, some data⟩])).driver.latestReport.data =
      data.take k.reportLength := by
  unfold Session.deliverAll
  rw [List.foldl_append]
  rfl

end

/-- Replayed, the events give the keys and the buttons of the last report. -/
theorem events_reconstruct (D E : Type)
    (keyboardReports mouseReports : List (Option (List (BitVec 8))))
    (keyboardData mouseData : List (BitVec 8))
    (hbelow : ∀ data, some data ∈ keyboardReports ++ [some keyboardData] →
      (keyboardReport data).BelowModifiers) :
    (∀ key, key ∈ replayKeys ((Session.start .keyboard : Session D E).deliverAll .keyboard
        ((keyboardReports ++ [some keyboardData]).map (Delivery.mk true))).emitted ∅ ↔
      (keyboardReport keyboardData).Holds key) ∧
    replayButtons ((Session.start .mouse : Session D E).deliverAll .mouse
        ((mouseReports ++ [some mouseData]).map (Delivery.mk true))).emitted 0 =
      (mouseReport mouseData).buttons := by
  have hkeys : KeysFollow ((Session.start .keyboard : Session D E).deliverAll .keyboard
      ((keyboardReports ++ [some keyboardData]).map (Delivery.mk true))) :=
    KeysFollow.start.deliverAll hbelow
  have hbuttons : ButtonsFollow ((Session.start .mouse : Session D E).deliverAll .mouse
      ((mouseReports ++ [some mouseData]).map (Delivery.mk true))) :=
    ButtonsFollow.start.deliverAll _
  constructor
  · intro key
    rw [hkeys.keys, List.map_append]
    show KeyboardReport.Holds
      (keyboardReport (Session.deliverAll _ _ (_ ++ [_])).driver.latestReport.data) key ↔ _
    rw [latestReport_deliverAll, keyboardReport_take]
  · refine hbuttons.trans ?_
    rw [List.map_append]
    show (mouseReport (Session.deliverAll _ _ (_ ++ [_])).driver.latestReport.data).buttons = _
    rw [latestReport_deliverAll, mouseReport_take]

/-- Shift and two keys, twice the same one, and the left button. -/
theorem shift_a_reconstruct :
    (∀ key, key ∈ replayKeys ((Session.start .keyboard : Session Unit Unit).deliverAll .keyboard
        ((([none] : List (Option (List (BitVec 8)))) ++ [some [2, 0, 4, 5, 4, 0, 0, 0]]).map
          (Delivery.mk true))).emitted ∅ ↔
      (keyboardReport [2, 0, 4, 5, 4, 0, 0, 0]).Holds key) ∧
    replayButtons ((Session.start .mouse : Session Unit Unit).deliverAll .mouse
        ((([] : List (Option (List (BitVec 8)))) ++ [some [1, 0, 0, 0]]).map
          (Delivery.mk true))).emitted 0 =
      (mouseReport [1, 0, 0, 0]).buttons := by
  refine events_reconstruct Unit Unit [none] [] [2, 0, 4, 5, 4, 0, 0, 0] [1, 0, 0, 0] ?_
  intro data hdata
  obtain rfl : data = [2, 0, 4, 5, 4, 0, 0, 0] := by simpa using hdata
  unfold KeyboardReport.BelowModifiers
  decide

end ZOs.Usb.Hid
