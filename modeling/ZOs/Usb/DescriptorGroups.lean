import Mathlib.Data.List.SplitBy
import Mathlib.Data.List.TakeWhile
import ZOs.Usb.Enumeration

/-!
# The grouping of the descriptors

What `enumerate_configuration` is for: an interface for each run of interface
descriptors with one `bInterfaceNumber`, in it an alternate setting for each
of them, and with that the endpoint descriptors that follow it. A descriptor
is the list of its bytes here.
-/

namespace ZOs.UsbCore.Groups

/-! ## The descriptors -/

abbrev Raw := List UInt8

def isInterface (d : Raw) : Bool := d[1]? == some usbDescriptorTypeInterface

def isEndpoint (d : Raw) : Bool := d[1]? == some usbDescriptorTypeEndpoint

def bInterfaceNumber (d : Raw) : UInt8 := d.getD 2 0

/-- An interface descriptor, and those of its endpoints. -/
structure Setting where
  descriptor : Raw
  endpoints : List Raw

/-- The interface descriptors, each with the endpoints before the next one. -/
def settings : List Raw → List Setting
  | [] => []
  | d :: ds =>
    if isInterface d then
      ⟨d, (ds.takeWhile fun e => !isInterface e).filter isEndpoint⟩ :: settings ds
    else settings ds

/-- The runs of one interface number. -/
def grouping (ds : List Raw) : List (List Setting) :=
  (settings ds).splitBy fun s s' =>
    bInterfaceNumber s.descriptor == bInterfaceNumber s'.descriptor

/-! ## The records -/

/-- The first `n` bytes of the descriptor are in the record. -/
def Copied (n : Nat) (record : Bytes) (d : Raw) : Prop := ∀ i < n, d[i]? = some (record i)

structure BuildsSetting (setting : AlternateSetting) (s : Setting) : Prop where
  descriptor : Copied interfaceDescriptorLength setting.interfaceDescriptor s.descriptor
  count : setting.numEndpoints = s.endpoints.length
  endpoints : ∀ k e, s.endpoints[k]? = some e →
    Copied endpointDescriptorLength (setting.endpoints k) e

structure BuildsInterface (interface : Interface) (g : List Setting) : Prop where
  count : interface.numAlternateSettings = g.length
  number : ∀ s ∈ g, interface.interfaceNumber = bInterfaceNumber s.descriptor
  settings : ∀ j s, g[j]? = some s → BuildsSetting (interface.alternateSettings j) s
  rest : ∀ j, g.length ≤ j → interface.alternateSettings j = zeroSetting

/-- The configuration has the groups and nothing else. -/
structure Builds (config : Configuration) (groups : List (List Setting)) : Prop where
  count : config.numInterfaces = groups.length
  interfaces : ∀ i g, groups[i]? = some g → BuildsInterface (config.interfaces i) g
  rest : ∀ i, groups.length ≤ i → config.interfaces i = zeroInterface

/-! ## The order of the descriptors -/

def Setting.raw (s : Setting) : List Raw := s.descriptor :: s.endpoints

/-- A descriptor that the loop does not skip. -/
def isKnown (d : Raw) : Bool := isInterface d || isEndpoint d

section
variable {d : Raw} {ds : List Raw} {s : Setting} {g : List Setting}

theorem not_endpoint_of_interface (h : isInterface d = true) : isEndpoint d = false := by
  unfold isInterface at h
  unfold isEndpoint
  rw [beq_iff_eq.mp h]
  decide

theorem settings_interface (h : isInterface d = true) : settings (d :: ds) =
    ⟨d, (ds.takeWhile fun e => !isInterface e).filter isEndpoint⟩ :: settings ds := if_pos h

theorem settings_other (h : isInterface d = false) : settings (d :: ds) = settings ds :=
  if_neg (by simp [h])

/-- Interface and endpoint descriptors, in their order. -/
theorem filter_known (ds : List Raw) : ds.filter isKnown =
    (ds.takeWhile fun e => !isInterface e).filter isEndpoint ++
      (settings ds).flatMap Setting.raw := by
  induction ds with
  | nil => rfl
  | cons d ds ih =>
    cases hinterface : isInterface d with
    | true =>
      have hknown : isKnown d = true := by simp [isKnown, hinterface]
      rw [List.filter_cons_of_pos hknown, ih, settings_interface hinterface]
      simp [hinterface, Setting.raw]
    | false =>
      have hknown : isKnown d = isEndpoint d := by simp [isKnown, hinterface]
      rw [List.filter_cons, hknown, ih, settings_other hinterface]
      simp only [hinterface, List.takeWhile_cons, Bool.not_false, if_true, List.filter_cons]
      split <;> rfl

theorem isInterface_of_mem_settings (h : s ∈ settings ds) :
    isInterface s.descriptor = true ∧ ∀ e ∈ s.endpoints, isEndpoint e = true := by
  induction ds with
  | nil => cases h
  | cons d ds ih =>
    unfold settings at h
    split at h
    · rename_i hinterface
      rcases List.mem_cons.mp h with rfl | h
      · exact ⟨hinterface, fun e he => (List.mem_filter.mp he).2⟩
      · exact ih h
    · exact ih h

/-- Every endpoint descriptor has an interface descriptor before it. -/
def Preceded (ds : List Raw) : Prop :=
  ∀ l e r, ds = l ++ e :: r → isEndpoint e = true → ∃ d ∈ l, isInterface d = true

theorem Preceded.none (h : Preceded ds) :
    (ds.takeWhile fun e => !isInterface e).filter isEndpoint = [] := by
  rw [List.filter_eq_nil_iff]
  intro e he hendpoint
  obtain ⟨l, r, hlr⟩ := List.append_of_mem he
  have hds : ds = l ++ e :: (r ++ ds.dropWhile fun e => !isInterface e) := by
    rw [← List.cons_append, ← List.append_assoc, ← hlr, List.takeWhile_append_dropWhile]
  obtain ⟨d, hd, hinterface⟩ := h l e _ hds hendpoint
  have hmem : d ∈ ds.takeWhile fun e => !isInterface e := hlr ▸ List.mem_append_left _ hd
  have hnot := List.mem_takeWhile_imp hmem
  rw [hinterface] at hnot
  cases hnot

theorem preceded_of_none (h : (ds.takeWhile fun e => !isInterface e).filter isEndpoint = []) :
    Preceded ds := by
  rintro l e r rfl hendpoint
  by_contra hnone
  have hl : ∀ d ∈ l, (!isInterface d) = true := fun d hd =>
    (Bool.not_eq_true' _).mpr (Bool.eq_false_iff.mpr fun hinterface =>
      hnone ⟨d, hd, hinterface⟩)
  have he : (!isInterface e) = true := by
    cases hinterface : isInterface e with
    | true =>
      rw [not_endpoint_of_interface hinterface] at hendpoint
      cases hendpoint
    | false => rfl
  have htake : (e :: r).takeWhile (fun d => !isInterface d) =
      e :: r.takeWhile fun d => !isInterface d := List.takeWhile_cons_of_pos he
  rw [List.takeWhile_append_of_pos hl, htake] at h
  exact (List.filter_eq_nil_iff.mp h) e (List.mem_append_right _ List.mem_cons_self) hendpoint

/-- So that all of them are in the grouping. -/
theorem Preceded.filter_known (h : Preceded ds) :
    ds.filter isKnown = (grouping ds).flatten.flatMap Setting.raw := by
  rw [Groups.filter_known, h.none, List.nil_append]
  unfold grouping
  rw [List.flatten_splitBy]

end

end ZOs.UsbCore.Groups
