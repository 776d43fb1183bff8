import ZOs.Lib.Ensures
import ZOs.Usb.Enumeration

/-!
# When the enumeration is safe

Of the bytes of a configuration: the descriptors they are cut into all lie
in the buffer, the last of them ends the configuration, and there is room
for each of them in the driver's records when it comes. Of a device: all
its configurations that are asked for. Of the ports: all their devices.
-/

namespace ZOs.UsbCore

open Checked

/-- A descriptor, as far as it matters where it is put. -/
inductive Descriptor
  | interface (number : UInt8)
  | endpoint
  | other
  deriving DecidableEq

/-- The descriptor that starts at `offset`. -/
def descriptorAt (buffer : Bytes) (offset : Nat) : Descriptor :=
  if buffer (offset + 1) = usbDescriptorTypeInterface then .interface (buffer (offset + 2))
  else if buffer (offset + 1) = usbDescriptorTypeEndpoint then .endpoint
  else .other

/-- The bytes of a descriptor that are looked at. -/
def Descriptor.size : Descriptor → Nat
  | .interface _ => interfaceDescriptorLength
  | .endpoint => endpointDescriptorLength
  | .other => 2

theorem Descriptor.two_le_size (d : Descriptor) : 2 ≤ d.size := by
  cases d <;> simp [size, interfaceDescriptorLength, endpointDescriptorLength]

/-- The number of an interface descriptor. -/
def Descriptor.number : Descriptor → Option UInt8
  | .interface number => some number
  | _ => none

/-- The bytes from `offset` up to `totalLength` are cut into descriptors of
the buffer, none of which has length 0. -/
inductive Cut (buffer : Bytes) (totalLength : Nat) : Nat → List Descriptor → Prop
  | done {offset} : totalLength ≤ offset → Cut buffer totalLength offset []
  | next {offset rest} : offset < totalLength →
      offset + (descriptorAt buffer offset).size ≤ usbDataBufferSize → buffer offset ≠ 0 →
      Cut buffer totalLength (offset + (buffer offset).toNat) rest →
      Cut buffer totalLength offset (descriptorAt buffer offset :: rest)

/-! Counts over the descriptors seen so far, the latest first. -/

/-- The numbers of the interface descriptors. -/
def numbers (seen : List Descriptor) : List UInt8 := seen.filterMap Descriptor.number

/-- The interfaces: a new one begins where the number changes. -/
def interfaceCount (seen : List Descriptor) : Nat := ((numbers seen).destutter (· ≠ ·)).length

/-- The alternate settings of the latest interface. -/
def settingCount (seen : List Descriptor) : Nat :=
  ((numbers seen).takeWhile fun n => some n = (numbers seen).head?).length

/-- The endpoints since the latest interface descriptor. -/
def endpointCount (seen : List Descriptor) : Nat :=
  (seen.takeWhile fun d => d.number = none).count .endpoint

/-- There is room for the latest descriptor. -/
structure Fits (seen : List Descriptor) : Prop where
  interfaces : interfaceCount seen ≤ usbMaxNumInterfaces
  settings : settingCount seen ≤ usbMaxNumAlternateSettings
  endpoints : endpointCount seen ≤ usbMaxNumEndpoints
  owned : seen.head? = some .endpoint → numbers seen ≠ []

/-- There is room for each of the descriptors after those seen before it. -/
def AllFit : List Descriptor → List Descriptor → Prop
  | _, [] => True
  | seen, d :: rest => Fits (d :: seen) ∧ AllFit (d :: seen) rest

/-- The bytes that are in the buffer when `length` bytes were copied to it. -/
def received (page : Bytes) (length : Nat) : Bytes := fun i => if i < length then page i else 0

/-- A configuration that the driver's records can hold. -/
def ConfigurationFits (descriptor page : Bytes) : Prop :=
  wTotalLength descriptor ≤ usbDataBufferSize ∧
    ∃ descriptors, Cut (received page (wTotalLength descriptor)) (wTotalLength descriptor) 0
      descriptors ∧ AllFit [] descriptors

/-- The transfers for configuration `i` succeed. -/
def Answers.configured (device : Answers) (i : Nat) : Prop :=
  (device.configurationDescriptor i).isSome ∧ (device.allConfigurationDescriptors i).isSome

/-- There is a place for configuration `i`, and it fits. -/
def Answers.fitsAt (device : Answers) (i : Nat) : Prop :=
  i < usbMaxNumConfigurations ∧
    ∀ config page, device.configurationDescriptor i = some config →
      device.allConfigurationDescriptors i = some page → ConfigurationFits config page

/-- A device that the driver's records can hold, as far as it answers. -/
def DeviceFits (device : Answers) : Prop :=
  ∀ descriptor, device.deviceDescriptor = some descriptor →
    ∀ i < bNumConfigurations descriptor, (∀ j < i, device.configured j) → device.fitsAt i

/-- The device answers everything that it is asked. -/
def Answers.complete (device : Answers) : Prop :=
  ∃ descriptor, device.deviceDescriptor = some descriptor ∧
    ∀ i < bNumConfigurations descriptor, device.configured i

/-- There is a device at the port that is to be enumerated. -/
def Port.found (port : Port) : Bool := port.status.any PortStatus.isNew

/-- The enumeration goes on to the next port. -/
def Port.passed (port : Port) : Prop :=
  port.status.isSome ∧ (port.found → port.device.addressed ∧ port.device.complete)

/-- Ports whose devices fit behind the `n` there are: every port that is
come to has a place for its device, and its device fits. -/
def PortsFit (n : Nat) (ports : List Port) : Prop :=
  ∀ before port after, ports = before ++ port :: after → (∀ p ∈ before, p.passed) → port.found →
    n + before.countP Port.found < usbMaxNumDevices ∧
      (port.device.addressed → DeviceFits port.device)

/-- The enumeration is safe: it comes to its end without an access that is
not allowed, and returns -1 if the driver's records cannot hold the devices. -/
def Lawful (ports : List Port) : Prop :=
  ∃ fuel result, usbEnumerateRootHub fuel ports = .ok result ∧ (¬ PortsFit 0 ports → result = none)

/-! ## The counts -/

section Counts

variable {seen : List Descriptor} {number : UInt8}

@[simp] theorem numbers_interface :
    numbers (.interface number :: seen) = number :: numbers seen := rfl

@[simp] theorem numbers_endpoint : numbers (.endpoint :: seen) = numbers seen := rfl

@[simp] theorem numbers_other : numbers (.other :: seen) = numbers seen := rfl

theorem interfaceCount_same (h : (numbers seen).head? = some number) :
    interfaceCount (.interface number :: seen) = interfaceCount seen := by
  obtain ⟨rest, hrest⟩ := List.head?_eq_some_iff.mp h
  unfold interfaceCount
  rw [numbers_interface, hrest, List.destutter_cons_cons, if_neg (by simp),
    List.destutter_cons']

theorem interfaceCount_new (h : (numbers seen).head? ≠ some number) :
    interfaceCount (.interface number :: seen) = interfaceCount seen + 1 := by
  unfold interfaceCount
  rw [numbers_interface]
  cases hseen : numbers seen with
  | nil => rfl
  | cons n rest =>
    have hne : number ≠ n := by
      rintro rfl
      simp [hseen] at h
    rw [List.destutter_cons_cons, if_pos hne, List.length_cons, List.destutter_cons']

theorem settingCount_same (h : (numbers seen).head? = some number) :
    settingCount (.interface number :: seen) = settingCount seen + 1 := by
  unfold settingCount
  rw [numbers_interface, h, List.head?_cons, List.takeWhile_cons_of_pos (by simp),
    List.length_cons]

theorem settingCount_new (h : (numbers seen).head? ≠ some number) :
    settingCount (.interface number :: seen) = 1 := by
  unfold settingCount
  rw [numbers_interface, List.head?_cons, List.takeWhile_cons_of_pos (by simp), List.length_cons]
  cases hseen : numbers seen with
  | nil => rfl
  | cons n rest =>
    have hne : ¬ some n = some number := by simpa [hseen] using h
    rw [List.takeWhile_cons_of_neg (by simpa using hne)]
    rfl

theorem endpointCount_interface : endpointCount (.interface number :: seen) = 0 := rfl

theorem endpointCount_endpoint : endpointCount (.endpoint :: seen) = endpointCount seen + 1 := by
  unfold endpointCount
  rw [List.takeWhile_cons_of_pos rfl, List.count_cons_self]

theorem endpointCount_other : endpointCount (.other :: seen) = endpointCount seen := by
  unfold endpointCount
  rw [List.takeWhile_cons_of_pos rfl, List.count_cons_of_ne (by decide)]

theorem fits_nil : Fits [] := by
  constructor <;> simp [interfaceCount, settingCount, endpointCount, numbers]

end Counts

/-! ## The loop over the descriptors -/

/-- The settings of an interface that are not begun have no endpoints. -/
def Interface.Clean (interface : Interface) : Prop :=
  ∀ j, interface.numAlternateSettings ≤ j → (interface.alternateSettings j).numEndpoints = 0

/-- Beyond the `count` interfaces that are begun nothing is filled in. -/
structure Configuration.Clean (config : Configuration) : Prop where
  fresh : ∀ i, config.numInterfaces ≤ i → (config.interfaces i).numAlternateSettings = 0
  unused : ∀ i, (config.interfaces i).Clean

theorem Configuration.Clean.store {config : Configuration} {i : Nat} {interface : Interface}
    (h : config.Clean) (hi : i < config.numInterfaces) (hclean : interface.Clean) :
    (config.store i interface).Clean := by
  constructor
  · intro i' hi'
    have hne : i' ≠ i := by
      have hi' : config.numInterfaces ≤ i' := hi'
      omega
    rw [Configuration.store_of_ne hne]
    exact h.fresh i' hi'
  · intro i'
    by_cases hsame : i' = i
    · rw [hsame, Configuration.store_self]
      exact hclean
    · rw [Configuration.store_of_ne hsame]
      exact h.unused i'

/-- The records of the driver agree with the counts. -/
structure Tracks (seen : List Descriptor) (c : Cursor) : Prop where
  clean : c.config.Clean
  interfaces : c.config.numInterfaces = interfaceCount seen
  none : numbers seen = [] → c.interface = none ∧ c.alternateSetting = none
  current : ∀ n, (numbers seen).head? = some n → ∃ i j, c.interface = some i ∧
    c.alternateSetting = some (i, j) ∧ i < c.config.numInterfaces ∧
    (c.config.interfaces i).interfaceNumber = n ∧
    (c.config.interfaces i).numAlternateSettings = j + 1 ∧ settingCount seen = j + 1 ∧
    ((c.config.interfaces i).alternateSettings j).numEndpoints = endpointCount seen

/-- An interface with `number` is begun or gone on with; it has `m` settings. -/
structure Begun (seen : List Descriptor) (number : UInt8) (c : Cursor) (i m : Nat) : Prop where
  clean : c.config.Clean
  interfaces : c.config.numInterfaces = interfaceCount (.interface number :: seen)
  interface : c.interface = some i
  inside : i < c.config.numInterfaces
  isNumber : (c.config.interfaces i).interfaceNumber = number
  settings : (c.config.interfaces i).numAlternateSettings = m
  settingCount : settingCount (.interface number :: seen) = m + 1

section Loop

variable {seen : List Descriptor} {c : Cursor} {buffer : Bytes} {number : UInt8}

theorem ensures_readByte {Allowed : Fault → Prop} {P : UInt8 → Prop} {offset : Nat}
    (hin : offset < usbDataBufferSize → P (buffer offset))
    (hout : ¬ offset < usbDataBufferSize → Allowed .buffer) :
    Ensures Allowed (readByte buffer offset) P := by
  unfold readByte
  split
  · exact hin ‹_›
  · exact hout ‹_›

theorem ensures_readStruct {Allowed : Fault → Prop} {P : Bytes → Prop} {offset length : Nat}
    (hin : offset + length ≤ usbDataBufferSize → ∀ b, P b)
    (hout : ¬ offset + length ≤ usbDataBufferSize → Allowed .buffer) :
    Ensures Allowed (readStruct buffer offset length) P := by
  unfold readStruct
  split
  · exact hin ‹_› _
  · exact hout ‹_›

theorem Tracks.isCurrent (h : Tracks seen c) :
    c.isCurrent number = true ↔ (numbers seen).head? = some number := by
  unfold Cursor.isCurrent
  cases hhead : (numbers seen).head? with
  | none =>
    rw [(h.none (List.head?_eq_none_iff.mp hhead)).1]
    simp
  | some n =>
    obtain ⟨i, j, hi, -, -, hnumber, -⟩ := h.current n hhead
    rw [hi]
    simp [hnumber]

theorem Tracks.nextInterface (h : Tracks seen c) (hnew : (numbers seen).head? ≠ some number) :
    Ensures (fun _ => ¬ interfaceCount (.interface number :: seen) ≤ usbMaxNumInterfaces)
      (c.nextInterface number) fun c' =>
        interfaceCount (.interface number :: seen) ≤ usbMaxNumInterfaces ∧
          ∃ i m, Begun seen number c' i m := by
  have hcount := interfaceCount_new hnew
  have hn := h.interfaces
  unfold Cursor.nextInterface
  dsimp only
  split
  · rename_i hroom
    have hsettings := h.clean.fresh c.config.numInterfaces le_rfl
    refine ⟨by omega, c.config.numInterfaces, 0, ⟨?_, ?_⟩, ?_, rfl, Nat.lt_succ_self _, ?_, ?_,
      settingCount_new hnew⟩
    · intro i hi
      have hi : c.config.numInterfaces + 1 ≤ i := hi
      have hne : i ≠ c.config.numInterfaces := by omega
      show ((c.config.store _ _).interfaces i).numAlternateSettings = 0
      rw [Configuration.store_of_ne hne]
      exact h.clean.fresh i (by omega)
    · intro i
      show ((c.config.store _ _).interfaces i).Clean
      by_cases hsame : i = c.config.numInterfaces
      · rw [hsame, Configuration.store_self]
        exact h.clean.unused c.config.numInterfaces
      · rw [Configuration.store_of_ne hsame]
        exact h.clean.unused i
    · show c.config.numInterfaces + 1 = _
      omega
    · show ((c.config.store _ _).interfaces _).interfaceNumber = number
      rw [Configuration.store_self]
    · show ((c.config.store _ _).interfaces _).numAlternateSettings = 0
      rw [Configuration.store_self]
      exact hsettings
  · rename_i hroom
    show ¬ _
    omega

/-- The interface is found, or begun where there is room. -/
theorem Tracks.findInterface (h : Tracks seen c) (hfit : Fits seen) :
    Ensures (fun _ => ¬ interfaceCount (.interface number :: seen) ≤ usbMaxNumInterfaces)
      (c.findInterface number) fun c' =>
        interfaceCount (.interface number :: seen) ≤ usbMaxNumInterfaces ∧
          ∃ i m, Begun seen number c' i m := by
  unfold Cursor.findInterface
  by_cases hcur : c.isCurrent number = true
  · have hhead := h.isCurrent.mp hcur
    obtain ⟨i, j, hi, -, hlt, hnumber, hsettings, hcount, -⟩ := h.current number hhead
    have hsame := interfaceCount_same hhead
    rw [if_pos hcur, ensures_ok]
    refine ⟨hsame ▸ hfit.interfaces, i, j + 1, h.clean, ?_, hi, hlt, hnumber, hsettings, ?_⟩
    · rw [h.interfaces, hsame]
    · rw [settingCount_same hhead, hcount]
  · rw [if_neg hcur]
    exact h.nextInterface fun hh => hcur (h.isCurrent.mpr hh)

/-- The next alternate setting of the interface, where there is room. -/
theorem Begun.nextSetting {i m : Nat} {descriptor : Bytes} (h : Begun seen number c i m) :
    Ensures (fun _ => ¬ ZOs.UsbCore.settingCount (.interface number :: seen) ≤
        usbMaxNumAlternateSettings)
      (c.nextSetting descriptor) fun c' =>
        ZOs.UsbCore.settingCount (.interface number :: seen) ≤ usbMaxNumAlternateSettings ∧
          Tracks (.interface number :: seen) c' := by
  have hm := h.settings
  have hcount := h.settingCount
  have hlt := h.inside
  have hunused := h.clean.unused i
  unfold Cursor.nextSetting
  rw [h.interface]
  dsimp only
  rw [hm]
  split
  · rename_i hroom
    refine ⟨by omega, h.clean.store hlt ?_, h.interfaces, ?_, ?_⟩
    · intro j hj
      have hj : m + 1 ≤ j := hj
      have hne : j ≠ m := by omega
      show (((c.config.interfaces i).store _ _).alternateSettings j).numEndpoints = 0
      rw [Interface.store_of_ne hne]
      exact hunused j (by omega)
    · intro hnil
      cases hnil
    · intro n hn
      cases hn
      refine ⟨i, m, rfl, rfl, hlt, ?_, ?_, hcount, ?_⟩
      · rw [Configuration.store_self]
        exact h.isNumber
      · rw [Configuration.store_self]
      · rw [Configuration.store_self, endpointCount_interface]
        show (((c.config.interfaces i).store _ _).alternateSettings m).numEndpoints = 0
        rw [Interface.store_self]
        exact hunused m (by omega)
  · rename_i hroom
    show ¬ _
    omega

/-- The next endpoint, where there is a setting and room in it. -/
theorem Tracks.nextEndpoint {descriptor : Bytes} (h : Tracks seen c) (hfit : Fits seen) :
    Ensures (fun _ => ¬ Fits (.endpoint :: seen)) (c.nextEndpoint descriptor) fun c' =>
      Fits (.endpoint :: seen) ∧ Tracks (.endpoint :: seen) c' := by
  unfold Cursor.nextEndpoint
  cases hhead : (numbers seen).head? with
  | none =>
    have hnil := List.head?_eq_none_iff.mp hhead
    rw [(h.none hnil).2]
    exact fun hnext => hnext.owned rfl hnil
  | some n =>
    have hne : numbers seen ≠ [] := by
      intro hnil
      rw [hnil] at hhead
      cases hhead
    obtain ⟨i, j, hi, halt, hlt, hnumber, hsettings, hcount, hendpoints⟩ := h.current n hhead
    rw [halt]
    dsimp only
    rw [hendpoints]
    split
    · rename_i hroom
      refine ⟨⟨hfit.interfaces, hfit.settings, ?_, fun _ => hne⟩, h.clean.store hlt ?_,
        h.interfaces, fun hnil => (hne hnil).elim, ?_⟩
      · rw [endpointCount_endpoint]
        exact hroom
      · intro j' hj'
        have hj' : (c.config.interfaces i).numAlternateSettings ≤ j' := hj'
        have hne : j' ≠ j := by omega
        rw [Interface.store_of_ne hne]
        exact h.clean.unused i j' hj'
      · intro n' hn'
        cases hhead.symm.trans hn'
        refine ⟨i, j, hi, rfl, hlt, ?_, ?_, hcount, ?_⟩
        · rw [Configuration.store_self]
          exact hnumber
        · rw [Configuration.store_self]
          exact hsettings
        · rw [Configuration.store_self, Interface.store_self, endpointCount_endpoint]
    · rename_i hroom
      intro hnext
      have hendpoints := hnext.endpoints
      rw [endpointCount_endpoint] at hendpoints
      exact hroom hendpoints

/-- The descriptor is read and there is room for it, or the driver faults. -/
theorem Tracks.takeDescriptor {offset : Nat} (h : Tracks seen c) (hfit : Fits seen) :
    Ensures (fun _ => ¬ (offset + (descriptorAt buffer offset).size ≤ usbDataBufferSize ∧
        Fits (descriptorAt buffer offset :: seen)))
      (c.takeDescriptor buffer offset) fun c' =>
        (offset + (descriptorAt buffer offset).size ≤ usbDataBufferSize ∧
          Fits (descriptorAt buffer offset :: seen)) ∧
        Tracks (descriptorAt buffer offset :: seen) c' := by
  have hsize := (descriptorAt buffer offset).two_le_size
  unfold Cursor.takeDescriptor
  rw [ensures_bind]
  refine ensures_readByte ?_ fun hout hroom => hout (by omega)
  intro hin
  by_cases hinterface : buffer (offset + 1) = usbDescriptorTypeInterface
  · have hat : descriptorAt buffer offset = .interface (buffer (offset + 2)) := if_pos hinterface
    rw [if_pos hinterface, hat]
    unfold Cursor.takeInterface
    have hroom : (Descriptor.interface (buffer (offset + 2))).size = 9 := rfl
    rw [hroom, ensures_bind]
    refine ensures_readByte ?_ fun hout hroom => hout (by omega)
    intro _
    rw [ensures_bind]
    cases hfind : c.findInterface (buffer (offset + 2)) with
    | error e =>
      have hfull := (h.findInterface hfit).allowed hfind
      exact fun hnext => hfull hnext.2.interfaces
    | ok c₁ =>
      obtain ⟨hinterfaces, i, m, hbegun⟩ := (h.findInterface hfit).result hfind
      rw [ensures_ok, ensures_bind]
      refine ensures_readStruct ?_ fun hout hnext => hout hnext.1
      intro hstruct descriptor
      cases hsetting : c₁.nextSetting descriptor with
      | error e =>
        have hfull := hbegun.nextSetting.allowed hsetting
        exact fun hnext => hfull hnext.2.settings
      | ok c₂ =>
        obtain ⟨hsettings, htracks⟩ := hbegun.nextSetting.result hsetting
        refine ⟨⟨hstruct, hinterfaces, hsettings, ?_, ?_⟩, htracks⟩
        · rw [endpointCount_interface]
          exact Nat.zero_le _
        · intro hhead
          cases hhead
  · rw [if_neg hinterface]
    by_cases hendpoint : buffer (offset + 1) = usbDescriptorTypeEndpoint
    · have hat : descriptorAt buffer offset = .endpoint :=
        (if_neg hinterface).trans (if_pos hendpoint)
      rw [if_pos hendpoint, hat]
      unfold Cursor.takeEndpoint
      rw [ensures_bind]
      refine ensures_readStruct ?_ fun hout hnext => hout hnext.1
      intro hstruct descriptor
      cases hset : c.nextEndpoint descriptor with
      | error e => exact fun hnext => (h.nextEndpoint hfit).allowed hset hnext.2
      | ok c₁ =>
        obtain ⟨hnext, htracks⟩ := (h.nextEndpoint hfit).result hset
        exact ⟨⟨hstruct, hnext⟩, htracks⟩
    · have hat : descriptorAt buffer offset = .other :=
        (if_neg hinterface).trans (if_neg hendpoint)
      rw [if_neg hendpoint, hat]
      refine ⟨⟨hin, ⟨hfit.interfaces, hfit.settings, ?_, ?_⟩⟩, h.clean, h.interfaces, h.none, ?_⟩
      · rw [endpointCount_other]
        exact hfit.endpoints
      · intro hhead
        cases hhead
      · intro n hn
        rw [endpointCount_other]
        exact h.current n hn

variable {totalLength : Nat}

/-- A descriptor of length 0 is never left. -/
theorem scan_stuck {offset : Nat} (hlt : offset < totalLength) (hzero : buffer offset = 0) :
    ∀ fuel c c', scan buffer totalLength fuel offset c ≠ .ok c' := by
  intro fuel
  induction fuel with
  | zero =>
    intro c c' h
    cases h
  | succ fuel ih =>
    intro c c' h
    unfold scan at h
    rw [if_pos hlt] at h
    cases hc : c.takeDescriptor buffer offset with
    | error e =>
      rw [hc] at h
      cases h
    | ok c₁ =>
      rw [hc] at h
      change (readByte buffer offset >>= fun length =>
        scan buffer totalLength fuel (offset + length.toNat) c₁) = .ok c' at h
      unfold readByte at h
      split at h
      · rw [hzero] at h
        exact ih c₁ c' h
      · cases h

/-- A loop that ends has met only descriptors there is room for. -/
theorem Tracks.cut_of_scan {fuel : Nat} : ∀ {offset seen c c'}, Tracks seen c → Fits seen →
    scan buffer totalLength fuel offset c = .ok c' →
    ∃ descriptors, Cut buffer totalLength offset descriptors ∧ AllFit seen descriptors := by
  induction fuel with
  | zero =>
    intro offset seen c c' h hfit heq
    cases heq
  | succ fuel ih =>
    intro offset seen c c' h hfit heq
    by_cases hlt : offset < totalLength
    · have hne : buffer offset ≠ 0 := fun hzero => scan_stuck hlt hzero _ _ _ heq
      unfold scan at heq
      rw [if_pos hlt] at heq
      cases hc : c.takeDescriptor buffer offset with
      | error e =>
        rw [hc] at heq
        cases heq
      | ok c₁ =>
        obtain ⟨⟨hroom, hnext⟩, htracks⟩ := (h.takeDescriptor hfit).result hc
        rw [hc] at heq
        change (readByte buffer offset >>= fun length =>
          scan buffer totalLength fuel (offset + length.toNat) c₁) = .ok c' at heq
        unfold readByte at heq
        split at heq
        · obtain ⟨rest, hcut, hall⟩ := ih htracks hnext heq
          exact ⟨_, .next hlt hroom hne hcut, hnext, hall⟩
        · cases heq
    · exact ⟨[], .done (by omega), trivial⟩

/-- Where there is room for all descriptors the loop ends. -/
theorem Tracks.scan_of_cut {offset : Nat} {descriptors : List Descriptor}
    (hcut : Cut buffer totalLength offset descriptors) : ∀ {seen c fuel}, Tracks seen c →
    Fits seen → AllFit seen descriptors → descriptors.length < fuel →
    ∃ c', scan buffer totalLength fuel offset c = .ok c' := by
  induction hcut with
  | done hend =>
    intro seen c fuel h hfit _ hfuel
    obtain ⟨fuel, rfl⟩ := Nat.exists_eq_succ_of_ne_zero (Nat.ne_of_gt hfuel)
    exact ⟨c, if_neg (by omega)⟩
  | @next offset rest hlt hroom hne hcut ih =>
    intro seen c fuel h hfit hall hfuel
    obtain ⟨fuel, rfl⟩ := Nat.exists_eq_succ_of_ne_zero (Nat.ne_of_gt (Nat.zero_lt_of_lt hfuel))
    obtain ⟨hnext, hrest⟩ := hall
    unfold scan
    rw [if_pos hlt]
    cases hc : c.takeDescriptor buffer offset with
    | error e => exact ((h.takeDescriptor hfit).allowed hc ⟨hroom, hnext⟩).elim
    | ok c₁ =>
      have htracks := ((h.takeDescriptor hfit).result hc).2
      have hin : offset < usbDataBufferSize := by
        have hsize := (descriptorAt buffer offset).two_le_size
        omega
      obtain ⟨c', heq⟩ := ih htracks hnext hrest (Nat.lt_of_succ_lt_succ hfuel)
      refine ⟨c', ?_⟩
      show (readByte buffer offset >>= fun length =>
        scan buffer totalLength fuel (offset + length.toNat) c₁) = .ok c'
      unfold readByte
      rw [if_pos hin]
      exact heq

/-- There are at most as many descriptors as bytes. -/
theorem Cut.length_le {offset : Nat} {descriptors : List Descriptor}
    (h : Cut buffer totalLength offset descriptors) :
    offset ≤ totalLength → descriptors.length ≤ totalLength - offset := by
  induction h with
  | done _ => simp
  | @next offset rest hlt hroom hne hcut ih =>
    intro _
    have hpos : 0 < (buffer offset).toNat := by
      rw [Nat.pos_iff_ne_zero]
      exact fun hzero => hne (UInt8.toNat_inj.mp hzero)
    rw [List.length_cons]
    by_cases hle : offset + (buffer offset).toNat ≤ totalLength
    · have := ih hle
      omega
    · cases hcut with
      | done _ =>
        rw [List.length_nil]
        omega
      | next hlt' => omega

end Loop

/-! ## Configurations -/

section Configurations

variable {device : Answers} {fuel i : Nat}

theorem usbGetDescriptor_fits {page : Bytes} {size length : Nat} (h : length ≤ size) :
    usbGetDescriptor (some page) size length = .ok (some (received page length)) := if_pos h

theorem usbGetDescriptor_overflow {page : Bytes} {size length : Nat} (h : ¬ length ≤ size) :
    usbGetDescriptor (some page) size length = .error .buffer := if_neg h

theorem bNumConfigurations_received (page : Bytes) :
    bNumConfigurations (received page deviceDescriptorLength) = bNumConfigurations page := rfl

theorem tracks_start (descriptor : Bytes) : Tracks [] (.start descriptor) := by
  refine ⟨⟨fun _ _ => rfl, fun _ _ _ => rfl⟩, rfl, fun _ => ⟨rfl, rfl⟩, ?_⟩
  intro n hhead
  cases hhead

/-- A configuration that was gone through fits. -/
theorem fitsAt_of_enumerate {result : Option Configuration}
    (h : enumerateConfiguration fuel device i = .ok result) :
    device.fitsAt i ∧ (result.isSome ↔ device.configured i) := by
  unfold enumerateConfiguration at h
  split at h
  · rename_i hi
    unfold Answers.fitsAt Answers.configured
    cases hconfig : device.configurationDescriptor i with
    | none =>
      rw [hconfig] at h
      cases h
      exact ⟨⟨hi, nofun⟩, by simp⟩
    | some config =>
      rw [hconfig, usbGetDescriptor_fits le_rfl] at h
      change (usbGetDescriptor (device.allConfigurationDescriptors i) usbDataBufferSize
        (wTotalLength config) >>= _) = _ at h
      cases hpage : device.allConfigurationDescriptors i with
      | none =>
        rw [hpage] at h
        cases h
        exact ⟨⟨hi, nofun⟩, by simp⟩
      | some page =>
        rw [hpage] at h
        by_cases hlength : wTotalLength config ≤ usbDataBufferSize
        · rw [usbGetDescriptor_fits hlength] at h
          change (scan (received page (wTotalLength config)) (wTotalLength config) fuel 0
            _ >>= _) = _ at h
          cases hscan : scan (received page (wTotalLength config)) (wTotalLength config) fuel 0
              (.start (received config configurationDescriptorLength)) with
          | error e =>
            rw [hscan] at h
            cases h
          | ok c =>
            rw [hscan] at h
            cases h
            refine ⟨⟨hi, ?_⟩, by simp⟩
            rintro _ _ ⟨⟩ ⟨⟩
            exact ⟨hlength, (tracks_start _).cut_of_scan fits_nil hscan⟩
        · rw [usbGetDescriptor_overflow hlength] at h
          cases h
  · cases h

/-- Passes that are enough for any configuration in the buffer. -/
def enoughFuel : Nat := usbDataBufferSize + 1

/-- A configuration that fits is gone through. -/
theorem enumerate_of_fitsAt (h : device.fitsAt i) :
    ∃ result, enumerateConfiguration enoughFuel device i = .ok result := by
  obtain ⟨hi, hfits⟩ := h
  unfold enumerateConfiguration
  rw [if_pos hi]
  cases hconfig : device.configurationDescriptor i with
  | none => exact ⟨none, rfl⟩
  | some config =>
    rw [usbGetDescriptor_fits le_rfl]
    cases hpage : device.allConfigurationDescriptors i with
    | none => exact ⟨none, rfl⟩
    | some page =>
      obtain ⟨hlength, descriptors, hcut, hall⟩ := hfits config page hconfig hpage
      have hfuel : descriptors.length < enoughFuel := by
        have hle := hcut.length_le (Nat.zero_le _)
        unfold enoughFuel
        omega
      obtain ⟨c, hscan⟩ := Tracks.scan_of_cut hcut
        (tracks_start (received config configurationDescriptorLength)) fits_nil hall hfuel
      refine ⟨some c.config, ?_⟩
      show (usbGetDescriptor (some page) usbDataBufferSize (wTotalLength config) >>= _) = _
      rw [usbGetDescriptor_fits hlength]
      show (scan (received page (wTotalLength config)) (wTotalLength config) enoughFuel 0
        _ >>= _) = _
      rw [hscan]
      rfl

/-- The configurations from `i` on, as far as the device answers. -/
def FitFrom (device : Answers) (i remaining : Nat) : Prop :=
  ∀ k, i ≤ k → k < i + remaining → (∀ j, i ≤ j → j < k → device.configured j) → device.fitsAt k

theorem fitFrom_succ {remaining : Nat} : FitFrom device i (remaining + 1) ↔
    device.fitsAt i ∧ (device.configured i → FitFrom device (i + 1) remaining) := by
  constructor
  · intro h
    refine ⟨h i le_rfl (by omega) fun j hj hlt => by omega, ?_⟩
    intro hi k hk hlt hbefore
    refine h k (by omega) (by omega) fun j hj hjk => ?_
    by_cases hji : j = i
    · exact hji ▸ hi
    · exact hbefore j (by omega) hjk
  · rintro ⟨hfits, hrest⟩ k hk hlt hbefore
    by_cases hki : k = i
    · exact hki ▸ hfits
    · have hi := hbefore i le_rfl (by omega)
      exact hrest hi k (by omega) (by omega) fun j hj hjk => hbefore j (by omega) hjk

theorem fitFrom_of_enumerate {remaining : Nat} : ∀ {i record result},
    enumerateConfigurations fuel device remaining i record = .ok result →
    FitFrom device i remaining ∧
      (result.isSome ↔ ∀ k, i ≤ k → k < i + remaining → device.configured k) := by
  induction remaining with
  | zero =>
    intro i record result h
    cases h
    refine ⟨fun k hk hlt => by omega, iff_of_true rfl fun k hk hlt => by omega⟩
  | succ remaining ih =>
    intro i record result h
    unfold enumerateConfigurations at h
    cases hconfig : enumerateConfiguration fuel device i with
    | error e =>
      rw [hconfig] at h
      cases h
    | ok config =>
      obtain ⟨hfits, hsome⟩ := fitsAt_of_enumerate hconfig
      rw [hconfig] at h
      rw [fitFrom_succ]
      cases config with
      | none =>
        cases h
        have hnot : ¬ device.configured i := fun hi => by simpa using hsome.mpr hi
        refine ⟨⟨hfits, fun hi => (hnot hi).elim⟩, iff_of_false (by simp) fun hall => ?_⟩
        exact hnot (hall i le_rfl (by omega))
      | some config =>
        have hi := hsome.mp rfl
        obtain ⟨hrest, hresult⟩ := ih h
        refine ⟨⟨hfits, fun _ => hrest⟩, hresult.trans ⟨?_, ?_⟩⟩
        · intro hall k hk hlt
          by_cases hki : k = i
          · exact hki ▸ hi
          · exact hall k (by omega) (by omega)
        · intro hall k hk hlt
          exact hall k (by omega) (by omega)

theorem enumerate_of_fitFrom {remaining : Nat} : ∀ {i record}, FitFrom device i remaining →
    ∃ result, enumerateConfigurations enoughFuel device remaining i record = .ok result := by
  induction remaining with
  | zero => exact fun _ => ⟨_, rfl⟩
  | succ remaining ih =>
    intro i record h
    obtain ⟨hfits, hrest⟩ := fitFrom_succ.mp h
    obtain ⟨config, hconfig⟩ := enumerate_of_fitsAt hfits
    unfold enumerateConfigurations
    rw [hconfig]
    cases config with
    | none => exact ⟨none, rfl⟩
    | some config => exact ih (hrest ((fitsAt_of_enumerate hconfig).2.mp rfl))

theorem fitFrom_zero {n : Nat} : FitFrom device 0 n ↔
    ∀ i < n, (∀ j < i, device.configured j) → device.fitsAt i := by
  constructor
  · intro h i hi hbefore
    exact h i (Nat.zero_le _) (by omega) fun j _ hj => hbefore j hj
  · intro h k _ hk hbefore
    exact h k (by omega) fun j hj => hbefore j (Nat.zero_le _) hj

theorem deviceFits_of_enumerate {result : Option Device}
    (h : usbEnumerateDevice fuel device = .ok result) :
    DeviceFits device ∧ (result.isSome ↔ device.complete) := by
  unfold usbEnumerateDevice at h
  unfold DeviceFits Answers.complete
  cases hdescriptor : device.deviceDescriptor with
  | none =>
    rw [hdescriptor] at h
    cases h
    exact ⟨nofun, by simp⟩
  | some descriptor =>
    rw [hdescriptor, usbGetDescriptor_fits le_rfl] at h
    obtain ⟨hfits, hsome⟩ := fitFrom_of_enumerate h
    constructor
    · rintro _ ⟨⟩
      exact fitFrom_zero.mp hfits
    · rw [hsome, bNumConfigurations_received]
      constructor
      · intro hall
        exact ⟨descriptor, rfl, fun i hi => hall i (Nat.zero_le _) (by omega)⟩
      · rintro ⟨_, ⟨⟩, hall⟩ k _ hk
        exact hall k (by omega)

theorem enumerate_of_deviceFits (h : DeviceFits device) :
    ∃ result, usbEnumerateDevice enoughFuel device = .ok result := by
  unfold usbEnumerateDevice
  cases hdescriptor : device.deviceDescriptor with
  | none => exact ⟨none, rfl⟩
  | some descriptor =>
    rw [usbGetDescriptor_fits le_rfl]
    exact enumerate_of_fitFrom (fitFrom_zero.mpr (h descriptor hdescriptor))

end Configurations

/-! ## Ports -/

theorem portsFit_nil {n : Nat} : PortsFit n [] := by
  intro before port after h
  simp at h

theorem portsFit_cons {n : Nat} {port : Port} {ports : List Port} :
    PortsFit n (port :: ports) ↔
      (port.found → n < usbMaxNumDevices ∧ (port.device.addressed → DeviceFits port.device)) ∧
      (port.passed → PortsFit (if port.found then n + 1 else n) ports) := by
  constructor
  · intro h
    refine ⟨fun hfound => h [] port ports rfl (by simp) hfound, ?_⟩
    rintro hpassed before q after rfl hbefore hq
    have hall : ∀ p ∈ port :: before, p.passed := List.forall_mem_cons.mpr ⟨hpassed, hbefore⟩
    obtain ⟨hroom, hfits⟩ := h (port :: before) q after rfl hall hq
    rw [List.countP_cons] at hroom
    refine ⟨?_, hfits⟩
    split at hroom <;> simp_all
    omega
  · rintro ⟨hhead, hrest⟩ before q after heq hbefore hq
    cases before with
    | nil =>
      cases heq
      simpa using hhead hq
    | cons p before =>
      cases heq
      obtain ⟨hpassed, hbefore⟩ := List.forall_mem_cons.mp hbefore
      obtain ⟨hroom, hfits⟩ := hrest hpassed before q after rfl hbefore hq
      rw [List.countP_cons]
      refine ⟨?_, hfits⟩
      split at hroom <;> simp_all
      omega

section Ports

variable {fuel n : Nat} {driver : CoreDriver} {ports : List Port}

theorem allocDevice_room (h : driver.numDevices < usbMaxNumDevices) :
    allocDevice driver = .ok
      { devices := Function.update driver.devices driver.numDevices zeroDevice
        numDevices := driver.numDevices + 1 } := if_pos h

theorem allocDevice_full (h : ¬ driver.numDevices < usbMaxNumDevices) :
    allocDevice driver = .error .index := if_neg h

/-- Ports that were gone through fit. -/
theorem portsFit_of_enumerate : ∀ {ports driver result},
    enumeratePorts fuel ports driver = .ok result → PortsFit driver.numDevices ports := by
  intro ports
  induction ports with
  | nil => exact fun _ => portsFit_nil
  | cons port ports ih =>
    intro driver result h
    rw [portsFit_cons]
    unfold enumeratePorts at h
    unfold Port.passed Port.found
    cases hstatus : port.status with
    | none => simp
    | some status =>
      rw [hstatus] at h
      dsimp only at h
      rw [Option.any_some]
      by_cases hnew : status.isNew = true
      · rw [if_pos hnew] at h
        rw [hnew]
        by_cases hroom : driver.numDevices < usbMaxNumDevices
        · rw [allocDevice_room hroom] at h
          by_cases haddressed : port.device.addressed = true
          · change (if _ then _ else _) = _ at h
            rw [if_pos haddressed] at h
            cases hdevice : usbEnumerateDevice fuel port.device with
            | error e =>
              rw [hdevice] at h
              cases h
            | ok device =>
              obtain ⟨hfits, hcomplete⟩ := deviceFits_of_enumerate hdevice
              rw [hdevice] at h
              refine ⟨fun _ => ⟨hroom, fun _ => hfits⟩, ?_⟩
              rintro ⟨-, hpassed⟩
              cases device with
              | none => simpa using hcomplete.mpr (hpassed rfl).2
              | some device => exact ih h
          · refine ⟨fun _ => ⟨hroom, fun h' => (haddressed h').elim⟩, ?_⟩
            exact fun hpassed => (haddressed (hpassed.2 rfl).1).elim
        · rw [allocDevice_full hroom] at h
          cases h
      · rw [if_neg hnew] at h
        rw [if_neg hnew]
        exact ⟨fun hfound => (hnew hfound).elim, fun _ => ih h⟩

/-- Ports that fit are gone through. -/
theorem enumerate_of_portsFit : ∀ {driver}, PortsFit driver.numDevices ports →
    ∃ result, enumeratePorts enoughFuel ports driver = .ok result := by
  induction ports with
  | nil => exact fun _ => ⟨_, rfl⟩
  | cons port ports ih =>
    intro driver h
    rw [portsFit_cons] at h
    obtain ⟨hhead, hrest⟩ := h
    unfold Port.passed Port.found at hrest
    unfold Port.found at hhead
    unfold enumeratePorts
    cases hstatus : port.status with
    | none => exact ⟨none, rfl⟩
    | some status =>
      rw [hstatus, Option.any_some] at hhead hrest
      dsimp only
      by_cases hnew : status.isNew = true
      · obtain ⟨hroom, hfits⟩ := hhead hnew
        rw [if_pos hnew] at hrest
        rw [if_pos hnew, allocDevice_room hroom]
        show ∃ result, (if port.device.addressed = true then _ else _) = _
        by_cases haddressed : port.device.addressed = true
        · rw [if_pos haddressed]
          obtain ⟨device, hdevice⟩ := enumerate_of_deviceFits (hfits haddressed)
          rw [hdevice]
          cases device with
          | none => exact ⟨none, rfl⟩
          | some device =>
            have hcomplete := (deviceFits_of_enumerate hdevice).2.mp rfl
            exact ih (hrest ⟨rfl, fun _ => ⟨haddressed, hcomplete⟩⟩)
        · rw [if_neg haddressed]
          exact ⟨none, rfl⟩
      · rw [if_neg hnew] at hrest
        rw [if_neg hnew]
        exact ih (hrest ⟨rfl, fun hfound => (hnew hfound).elim⟩)

end Ports

/-- The enumeration of the root hub is safe exactly when the devices fit
into the driver's records. -/
theorem usb_enumerate_root_hub_lawful_iff (ports : List Port) :
    Lawful ports ↔ PortsFit 0 ports := by
  constructor
  · rintro ⟨fuel, result, heq, -⟩
    exact portsFit_of_enumerate heq
  · intro h
    have h : PortsFit zeroDriver.numDevices ports := h
    obtain ⟨result, heq⟩ := enumerate_of_portsFit h
    exact ⟨enoughFuel, result, heq, fun hnot => (hnot h).elim⟩

/-- A device whose only configuration begins with an endpoint descriptor. -/
def strayEndpoint : Answers where
  addressed := true
  deviceDescriptor := some fun _ => 1
  configurationDescriptor := fun _ => some fun i => if i = 2 then 16 else 0
  allConfigurationDescriptors := fun _ => some fun i => if i = 0 then 7 else 5

/-- It is taken to belong to the alternate setting at NULL. -/
theorem stray_endpoint_not_lawful : ¬ ∀ ports, Lawful ports := by
  intro h
  obtain ⟨fuel, result, heq, -⟩ := h [⟨some ⟨true, false⟩, strayEndpoint⟩]
  cases fuel with
  | zero => cases heq
  | succ fuel => cases heq

end ZOs.UsbCore
