import ZOs.Lib.Bits

/-!
# Context fields

The macros of `xhci.c` that set the fields of slot contexts and of endpoint
contexts. Each clears the bits under a mask and sets those of a value that is
shifted. Of one field the mask and the value are shifted by different numbers:
the number of context entries is cut by a bit, and the field next to it is
cleared.
-/

namespace ZOs.Usb

open Bits

/-! ## The macros -/

variable {w : Nat}

/-- `CLEAR_AND_SET`. -/
def clearAndSet (value mask set : BitVec w) : BitVec w := (value &&& ~~~mask) ||| (set &&& mask)

/-- `BIT_MASK`. -/
def bitMask (w bits : Nat) : BitVec w := (1#w <<< bits) - 1

/-- `SLOT_CONTEXT_SET_CONTEXT_ENTRIES`. -/
def slotContextSetContextEntries (data0 entries : BitVec 32) : BitVec 32 :=
  clearAndSet data0 (bitMask 32 5 <<< 26) (entries <<< 27)

/-- `SLOT_CONTEXT_SET_HUB`. -/
def slotContextSetHub (data0 : BitVec 32) : BitVec 32 :=
  clearAndSet data0 (bitMask 32 1 <<< 26) (1 <<< 26)

/-- `SLOT_CONTEXT_SET_MTT`. -/
def slotContextSetMtt (data0 : BitVec 32) : BitVec 32 :=
  clearAndSet data0 (bitMask 32 1 <<< 25) (1 <<< 25)

/-- `SLOT_CONTEXT_SET_SPEED`. -/
def slotContextSetSpeed (data0 speed : BitVec 32) : BitVec 32 :=
  clearAndSet data0 (bitMask 32 4 <<< 20) (speed <<< 20)

/-- `SLOT_CONTEXT_SET_ROUTE_STRING`. -/
def slotContextSetRouteString (data0 routeString : BitVec 32) : BitVec 32 :=
  clearAndSet data0 (bitMask 32 20) routeString

/-- `SLOT_CONTEXT_SET_INTERRUPTER_TARGET`. -/
def slotContextSetInterrupterTarget (data1 target : BitVec 16) : BitVec 16 :=
  clearAndSet data1 (bitMask 16 10 <<< 6) (target <<< 6)

/-- `SLOT_CONTEXT_SET_TTT`. -/
def slotContextSetTtt (data1 ttt : BitVec 16) : BitVec 16 :=
  clearAndSet data1 (bitMask 16 2 <<< 0) (ttt <<< 0)

/-- `SLOT_CONTEXT_SET_SLOT_STATE`. -/
def slotContextSetSlotState (data2 state : BitVec 8) : BitVec 8 :=
  clearAndSet data2 (bitMask 8 5 <<< 3) (state <<< 3)

/-- `ENDPOINT_CONTEXT_SET_HID`. -/
def endpointContextSetHid (control hid : BitVec 8) : BitVec 8 :=
  clearAndSet control (bitMask 8 1 <<< 7) (hid <<< 7)

/-- `ENDPOINT_CONTEXT_SET_EP_TYPE`. -/
def endpointContextSetEpType (control type : BitVec 8) : BitVec 8 :=
  clearAndSet control (bitMask 8 3 <<< 3) (type <<< 3)

/-- `ENDPOINT_CONTEXT_SET_CErr`. -/
def endpointContextSetCErr (control cErr : BitVec 8) : BitVec 8 :=
  clearAndSet control (bitMask 8 2 <<< 1) (cErr <<< 1)

/-! ## The words and their fields -/

/-- `data0`, `data1` and `data2` of `xhci_slot_context_t`, and `control` of
`xhci_endpoint_context_t`. -/
inductive ContextWord
  | data0
  | data1
  | data2
  | control

def ContextWord.width : ContextWord → Nat
  | .data0 => 32
  | .data1 => 16
  | .data2 => 8
  | .control => 8

/-- The setters of a word. -/
inductive Setter : ContextWord → Type
  | contextEntries : Setter .data0
  | hub : Setter .data0
  | mtt : Setter .data0
  | speed : Setter .data0
  | routeString : Setter .data0
  | interrupterTarget : Setter .data1
  | ttt : Setter .data1
  | slotState : Setter .data2
  | hid : Setter .control
  | epType : Setter .control
  | cErr : Setter .control

variable {c : ContextWord}

/-- The word with the value set. The fields of one bit that are for hubs have
no value but 1. -/
def Setter.set : Setter c → BitVec c.width → BitVec c.width → BitVec c.width
  | .contextEntries => slotContextSetContextEntries
  | .hub => fun data0 _ => slotContextSetHub data0
  | .mtt => fun data0 _ => slotContextSetMtt data0
  | .speed => slotContextSetSpeed
  | .routeString => slotContextSetRouteString
  | .interrupterTarget => slotContextSetInterrupterTarget
  | .ttt => slotContextSetTtt
  | .slotState => slotContextSetSlotState
  | .hid => endpointContextSetHid
  | .epType => endpointContextSetEpType
  | .cErr => endpointContextSetCErr

/-- The first bit of the field, where it is documented. -/
def Setter.first : Setter c → Nat
  | .contextEntries => 27
  | .hub => 26
  | .mtt => 25
  | .speed => 20
  | .routeString => 0
  | .interrupterTarget => 6
  | .ttt => 0
  | .slotState => 3
  | .hid => 7
  | .epType => 3
  | .cErr => 1

/-- The number of bits of the field. -/
def Setter.bits : Setter c → Nat
  | .contextEntries => 5
  | .hub => 1
  | .mtt => 1
  | .speed => 4
  | .routeString => 20
  | .interrupterTarget => 10
  | .ttt => 2
  | .slotState => 5
  | .hid => 1
  | .epType => 3
  | .cErr => 2

/-- The bit behind the field. -/
def Setter.behind (s : Setter c) : Nat := s.first + s.bits

/-- The setter has no argument, and sets 1. -/
def Setter.SetsOne : Setter c → Prop
  | .hub => True
  | .mtt => True
  | _ => False

/-- A value that the field has room for, and that the setter can set. -/
def Setter.Fits (s : Setter c) (value : BitVec c.width) : Prop :=
  value.toNat < 2 ^ s.bits ∧ (s.SetsOne → value.toNat = 1)

/-- The value can be read back, and the other bits are as they were. -/
structure Setter.Lens (s : Setter c) (word value : BitVec c.width) : Prop where
  get : getField (s.set word value) s.first s.behind = value
  other : ∀ i < c.width, ¬(s.first ≤ i ∧ i < s.behind) →
    (s.set word value).getLsbD i = word.getLsbD i

/-- For the context entries: the bit below the field is clear, and the last bit
of the field is already that of the value. -/
def Setter.Hits : Setter c → BitVec c.width → BitVec c.width → Prop
  | .contextEntries, data0, entries =>
    data0.getLsbD 26 = false ∧ data0.getLsbD 31 = entries.getLsbD 4
  | _, _, _ => True

/-- One setter is that of the context entries, and the other that of the hub. -/
def Setter.Clash : Setter c → Setter c → Prop
  | .contextEntries, .hub => True
  | .hub, .contextEntries => True
  | _, _ => False

/-! ## Setting a field -/

/-- The mask of a setter. -/
def Setter.mask : Setter c → BitVec c.width
  | .contextEntries => bitMask 32 5 <<< 26
  | .hub => bitMask 32 1 <<< 26
  | .mtt => bitMask 32 1 <<< 25
  | .speed => bitMask 32 4 <<< 20
  | .routeString => bitMask 32 20
  | .interrupterTarget => bitMask 16 10 <<< 6
  | .ttt => bitMask 16 2 <<< 0
  | .slotState => bitMask 8 5 <<< 3
  | .hid => bitMask 8 1 <<< 7
  | .epType => bitMask 8 3 <<< 3
  | .cErr => bitMask 8 2 <<< 1

/-- What a setter sets, of a value that it can set. -/
theorem Setter.set_eq (s : Setter c) {word value : BitVec c.width} (h : s.Fits value) :
    s.set word value = replace word s.mask (value <<< s.first) := by
  cases s with
  | hub =>
    obtain rfl : value = 1#32 := BitVec.eq_of_toNat_eq (h.2 trivial)
    rfl
  | mtt =>
    obtain rfl : value = 1#32 := BitVec.eq_of_toNat_eq (h.2 trivial)
    rfl
  | routeString => exact congrArg (replace word (bitMask 32 20)) (BitVec.shiftLeft_zero _).symm
  | _ => rfl

theorem Setter.behind_le (s : Setter c) : s.behind ≤ c.width := by
  cases s <;> decide

/-- The mask is that of the field, but for the context entries. -/
theorem Setter.mask_eq (s : Setter c) (h : ∀ word value, s.Hits word value) :
    s.mask = field c.width s.first s.behind := by
  cases s with
  | contextEntries => exact absurd (h 0xffffffff#32 0#32).1 (by decide)
  | _ => decide

/-- The context entries are put under a mask that begins and ends one bit
early. -/
theorem contextEntries_mask : (bitMask 32 5 <<< 26 : BitVec 32) = field 32 26 31 := by decide

/-- A setter with the mask of its field is a lens. -/
theorem Setter.lens_of_mask (s : Setter c) {word value : BitVec c.width} (h : s.Fits value)
    (hmask : s.mask = field c.width s.first s.behind) : s.Lens word value := by
  have hbits : s.behind - s.first = s.bits := Nat.add_sub_cancel_left ..
  constructor
  · rw [s.set_eq h, hmask]
    exact getField_replace s.behind_le (by rw [hbits]; exact h.1)
  · intro i hi hout
    rw [s.set_eq h, hmask, getLsbD_replace hi, getLsbD_field hi]
    have hbit : (decide (s.first ≤ i) && decide (i < s.behind)) = false := by
      simpa using fun hle => Nat.not_lt.mp fun hlt => hout ⟨hle, hlt⟩
    simp [hbit]

/-- The bits of the word with the context entries set. -/
theorem getLsbD_contextEntries (data0 entries : BitVec 32) {i : Nat} (hi : i < 32) :
    (slotContextSetContextEntries data0 entries).getLsbD i =
      if 27 ≤ i ∧ i < 31 then entries.getLsbD (i - 27)
      else if i = 26 then false else data0.getLsbD i := by
  show (replace data0 (bitMask 32 5 <<< 26) (entries <<< 27)).getLsbD i = _
  rw [contextEntries_mask, getLsbD_replace hi, getLsbD_field hi, BitVec.getLsbD_shiftLeft]
  by_cases h : 27 ≤ i ∧ i < 31
  · have hle : 26 ≤ i := by omega
    have hnot : ¬i < 27 := by omega
    simp [h.1, h.2, hle, hi, hnot]
  · rw [if_neg h]
    by_cases h26 : i = 26
    · subst h26
      simp
    · have hout : (decide (26 ≤ i) && decide (i < 31)) = false := by
        rw [← Bool.decide_and, decide_eq_false_iff_not]
        omega
      simp [h26, hout]

/-- The context entries are a lens where the bits that are lost are as they
should be. -/
theorem contextEntries_lens_iff {data0 entries : BitVec 32}
    (h : (Setter.contextEntries).Fits entries) :
    (Setter.contextEntries).Lens data0 entries ↔ (Setter.contextEntries).Hits data0 entries := by
  have hset {i : Nat} (hi : i < 32) := getLsbD_contextEntries data0 entries hi
  constructor
  · intro hlens
    constructor
    · have hother : (slotContextSetContextEntries data0 entries).getLsbD 26 = data0.getLsbD 26 :=
        hlens.other 26 (by decide) (by decide)
      rw [hset (by decide)] at hother
      exact hother.symm
    · have hget : (getField (slotContextSetContextEntries data0 entries) 27 32).getLsbD 4 =
          entries.getLsbD 4 := congrArg (·.getLsbD 4) hlens.get
      rw [getLsbD_getField (by decide), hset (by decide), if_neg (by decide),
        if_neg (by decide)] at hget
      exact (Bool.and_true _).symm.trans hget
  · rintro ⟨hhub, hlast⟩
    constructor
    · show getField (slotContextSetContextEntries data0 entries) 27 32 = entries
      apply BitVec.eq_of_getLsbD_eq
      intro i hi
      rw [getLsbD_getField hi]
      by_cases hlt : i < 5
      · rw [hset (by omega)]
        by_cases h4 : i = 4
        · subst h4
          rw [if_neg (by decide), if_neg (by decide)]
          exact (Bool.and_true _).trans hlast
        · have hmiddle : 27 ≤ 27 + i ∧ 27 + i < 31 := by omega
          rw [if_pos hmiddle, Nat.add_sub_cancel_left]
          simp [hlt]
      · have hbit : entries.getLsbD i = false := Nat.testBit_lt_two_pow
          (Nat.lt_of_lt_of_le h.1 (Nat.pow_le_pow_right (by decide) (Nat.not_lt.mp hlt)))
        rw [hbit]
        simp [hlt]
    · intro i hi hout
      have hi' : i < 32 := hi
      have hout' : ¬(27 ≤ i ∧ i < 32) := hout
      show (slotContextSetContextEntries data0 entries).getLsbD i = data0.getLsbD i
      rw [hset hi', if_neg (by omega)]
      split
      · rename_i h26
        rw [h26]
        exact hhub.symm
      · rfl

/-- Setting a field is a lens exactly where the context entries hit. -/
theorem Setter.lens_iff (s : Setter c) {word value : BitVec c.width} (h : s.Fits value) :
    s.Lens word value ↔ s.Hits word value := by
  cases s with
  | contextEntries => exact contextEntries_lens_iff h
  | _ => exact iff_of_true (Setter.lens_of_mask _ h (Setter.mask_eq _ fun _ _ => trivial)) trivial

/-! ## Setting two fields -/

/-- The masks of two setters have no bit in common, but for those that clash. -/
theorem mask_and_mask {s s' : Setter c} (hne : s ≠ s') (hclash : ¬s.Clash s') :
    s.mask &&& s'.mask = 0 := by
  cases s <;> cases s' <;> first
    | exact absurd rfl hne
    | exact absurd trivial hclash
    | decide

/-- Of the context entries and the hub, the one that is set last decides on
the bit of the hub. -/
theorem contextEntries_hub_ne (data0 entries : BitVec 32) :
    slotContextSetContextEntries (slotContextSetHub data0) entries ≠
      slotContextSetHub (slotContextSetContextEntries data0 entries) := by
  intro h
  have hbit : (slotContextSetContextEntries (slotContextSetHub data0) entries).getLsbD 26 =
      (slotContextSetHub (slotContextSetContextEntries data0 entries)).getLsbD 26 :=
    congrArg (·.getLsbD 26) h
  have hentries : (slotContextSetContextEntries (slotContextSetHub data0) entries).getLsbD 26 =
      false := by
    rw [getLsbD_contextEntries _ _ (by decide)]
    rfl
  have hhub (data0 : BitVec 32) : (slotContextSetHub data0).getLsbD 26 = true := by
    show (replace data0 (bitMask 32 1 <<< 26) (1 <<< 26)).getLsbD 26 = true
    rw [getLsbD_replace (by decide)]
    rfl
  rw [hentries, hhub] at hbit
  cases hbit

theorem Setter.comm_iff {s s' : Setter c} {word value value' : BitVec c.width} (hne : s ≠ s')
    (h : s.Fits value) (h' : s'.Fits value') :
    s'.set (s.set word value) value' = s.set (s'.set word value') value ↔ ¬s.Clash s' := by
  by_cases hclash : s.Clash s'
  · refine iff_of_false ?_ (not_not_intro hclash)
    cases s with
    | contextEntries =>
      cases s' with
      | hub => exact fun heq => contextEntries_hub_ne word value heq.symm
      | _ => cases hclash
    | hub =>
      cases s' with
      | contextEntries => exact contextEntries_hub_ne word value'
      | _ => cases hclash
    | _ => cases hclash
  · refine iff_of_true ?_ hclash
    rw [s.set_eq h, s'.set_eq h', s.set_eq h, s'.set_eq h']
    exact replace_comm (mask_and_mask hne hclash)

/-- Setting a value that fits is a lens exactly where the context entries hit,
and setting two fields of a word commutes exactly for setters that do not
clash. -/
theorem contextSetters_iff (c : ContextWord) (word : BitVec c.width) :
    (∀ (s : Setter c) (value : BitVec c.width), s.Fits value →
      (s.Lens word value ↔ s.Hits word value)) ∧
    ∀ (s s' : Setter c) (value value' : BitVec c.width), s ≠ s' → s.Fits value → s'.Fits value' →
      (s'.set (s.set word value) value' = s.set (s'.set word value') value ↔ ¬s.Clash s') :=
  ⟨fun s _ h => s.lens_iff h, fun _ _ _ _ hne h h' => Setter.comm_iff hne h h'⟩

/-- The speed is a lens, and commutes with the route string. -/
theorem speed_lens : (Setter.speed).Lens 0#32 3#32 ∧
    slotContextSetRouteString (slotContextSetSpeed 0 3) 5 =
      slotContextSetSpeed (slotContextSetRouteString 0 5) 3 := by
  have hspeed : (Setter.speed).Fits 3#32 := ⟨by decide, nofun⟩
  have hroute : (Setter.routeString).Fits 5#32 := ⟨by decide, nofun⟩
  exact ⟨((contextSetters_iff .data0 0#32).1 .speed 3#32 hspeed).mpr trivial,
    ((contextSetters_iff .data0 0#32).2 .speed .routeString 3#32 5#32 nofun hspeed hroute).mpr
      nofun⟩

/-- Sixteen context entries come to none, and no context entries clear the bit
of the hub. -/
theorem contextEntries_not_lens :
    ¬(Setter.contextEntries).Lens 0#32 16#32 ∧
      ¬(Setter.contextEntries).Lens (1#32 <<< 26) 0#32 := by
  constructor
  · intro h
    have hget : getField (slotContextSetContextEntries 0 16) 27 32 = 16#32 := h.get
    exact absurd hget (by decide)
  · intro h
    have hother : (slotContextSetContextEntries (1 <<< 26) 0).getLsbD 26 =
        (1#32 <<< 26).getLsbD 26 := h.other 26 (by decide) (by decide)
    exact absurd hother (by decide)

end ZOs.Usb
