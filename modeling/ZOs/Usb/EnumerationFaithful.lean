import Mathlib.Algebra.BigOperators.Group.List.Basic
import ZOs.Usb.DescriptorGroups
import ZOs.Usb.EnumerationSafe

/-!
# Enumeration of what is there

The loop copies 9 bytes for an interface descriptor and 7 for an endpoint
descriptor, however long the descriptor says it is. Where all of them are at
least that long, the configuration is the grouping of the descriptors, and
only there (`enumerate_faithful_iff`): what is missing in a short one is
taken from what is behind it.
-/

namespace ZOs.UsbCore.Groups

/-! ## One descriptor -/

/-- The first `n` bytes of a descriptor, as a record. -/
def record (n : Nat) (d : Raw) : Bytes := fun i => if i < n then d.getD i 0 else 0

/-- The loop's body, for a descriptor that is long enough. -/
def takeRaw (c : Cursor) (d : Raw) : Except Fault Cursor :=
  if isInterface d then do
    let c ← c.findInterface (bInterfaceNumber d)
    c.nextSetting (record interfaceDescriptorLength d)
  else if isEndpoint d then c.nextEndpoint (record endpointDescriptorLength d)
  else pure c

/-- The bytes that are copied are its own. -/
def Long (d : Raw) : Prop :=
  (isInterface d = true → interfaceDescriptorLength ≤ d.length) ∧
    (isEndpoint d = true → endpointDescriptorLength ≤ d.length)

/-- The loop has built these groups, and is in the last one. -/
structure Tracks (c : Cursor) (gs : List (List Setting)) (g : List Setting) : Prop where
  builds : Builds c.config (gs ++ [g])
  nonempty : g ≠ []
  interface : c.interface = some gs.length
  setting : c.alternateSetting = some (gs.length, g.length - 1)

section
variable {α : Type} {P : Nat → α → Prop} {l : List α} {x : α}

/-- All elements of a list to which one is added. -/
theorem forall_snoc (hl : ∀ i y, l[i]? = some y → P i y) (hx : P l.length x) :
    ∀ i y, (l ++ [x])[i]? = some y → P i y := by
  intro i y hy
  rcases Nat.lt_trichotomy i l.length with hlt | rfl | hgt
  · rw [List.getElem?_append_left hlt] at hy
    exact hl i y hy
  · rw [List.getElem?_concat_length] at hy
    cases hy
    exact hx
  · rw [List.getElem?_eq_none (by simp; omega)] at hy
    cases hy

theorem forall_of_snoc (h : ∀ i y, (l ++ [x])[i]? = some y → P i y) :
    ∀ i y, l[i]? = some y → P i y := by
  intro i y hy
  obtain ⟨hlt, -⟩ := List.getElem?_eq_some_iff.mp hy
  exact h i y ((List.getElem?_append_left hlt).trans hy)

theorem last_of_snoc (h : ∀ i y, (l ++ [x])[i]? = some y → P i y) : P l.length x :=
  h l.length x List.getElem?_concat_length

end

section
variable {c : Cursor} {gs : List (List Setting)} {g : List Setting} {s : Setting} {d e : Raw}
  {es ds : List Raw} {config : Configuration} {interface : Interface} {setting : AlternateSetting}
  {n : Nat}

theorem copied_record (h : n ≤ d.length) : Copied n (record n d) d := by
  intro i hi
  unfold record
  rw [if_pos hi, List.getD_eq_getElem?_getD, List.getElem?_eq_getElem (by omega), Option.getD_some]

/-- Another interface in the place of the last one, or behind it. -/
theorem Builds.place {config' : Configuration}
    (hinterfaces : ∀ i g, gs[i]? = some g → BuildsInterface (config.interfaces i) g)
    (hrest : ∀ i, gs.length < i → config.interfaces i = zeroInterface)
    (hinterface : BuildsInterface interface g) (hcount : config'.numInterfaces = gs.length + 1)
    (hstore : config'.interfaces = (config.store gs.length interface).interfaces) :
    Builds config' (gs ++ [g]) where
  count := by rw [hcount, List.length_append, List.length_singleton]
  interfaces := by
    rw [hstore]
    refine forall_snoc (fun i g hg => ?_) ?_
    · obtain ⟨hlt, -⟩ := List.getElem?_eq_some_iff.mp hg
      rw [Configuration.store_of_ne (Nat.ne_of_lt hlt)]
      exact hinterfaces i g hg
    · rw [Configuration.store_self]
      exact hinterface
  rest i hi := by
    rw [List.length_append] at hi
    have hlt : gs.length < i := hi
    rw [hstore, Configuration.store_of_ne (Nat.ne_of_gt hlt)]
    exact hrest i hlt

/-- The same for an alternate setting. -/
theorem BuildsInterface.place {interface' : Interface}
    (hsettings : ∀ j s, g[j]? = some s → BuildsSetting (interface.alternateSettings j) s)
    (hrest : ∀ j, g.length < j → interface.alternateSettings j = zeroSetting)
    (hsetting : BuildsSetting setting s) (hcount : interface'.numAlternateSettings = g.length + 1)
    (hnumber : ∀ s' ∈ g ++ [s], interface'.interfaceNumber = bInterfaceNumber s'.descriptor)
    (hstore : interface'.alternateSettings =
      (interface.store g.length setting).alternateSettings) :
    BuildsInterface interface' (g ++ [s]) where
  count := by rw [hcount, List.length_append, List.length_singleton]
  number := hnumber
  settings := by
    rw [hstore]
    refine forall_snoc (fun j s hs => ?_) ?_
    · obtain ⟨hlt, -⟩ := List.getElem?_eq_some_iff.mp hs
      rw [Interface.store_of_ne (Nat.ne_of_lt hlt)]
      exact hsettings j s hs
    · rw [Interface.store_self]
      exact hsetting
  rest j hj := by
    rw [List.length_append] at hj
    have hlt : g.length < j := hj
    rw [hstore, Interface.store_of_ne (Nat.ne_of_gt hlt)]
    exact hrest j hlt

/-- The interface of the last group. -/
theorem Builds.last (h : Builds config (gs ++ [g])) :
    BuildsInterface (config.interfaces gs.length) g := last_of_snoc h.interfaces

theorem Builds.beyond (h : Builds config (gs ++ [g])) {i : Nat} (hi : gs.length < i) :
    config.interfaces i = zeroInterface :=
  h.rest i (by rw [List.length_append]; exact hi)

theorem BuildsInterface.beyond (h : BuildsInterface interface (g ++ [s])) {j : Nat}
    (hj : g.length < j) : interface.alternateSettings j = zeroSetting :=
  h.rest j (by rw [List.length_append]; exact hj)

/-- The endpoint goes to the last alternate setting. -/
theorem Tracks.endpoint (h : Tracks c gs (g ++ [⟨d, es⟩])) (he : isEndpoint e = true)
    (hlong : Long e) (hroom : es.length < usbMaxNumEndpoints) :
    ∃ c', takeRaw c e = .ok c' ∧ Tracks c' gs (g ++ [⟨d, es ++ [e]⟩]) := by
  have hnot : isInterface e = false := by
    cases hinterface : isInterface e with
    | false => rfl
    | true => rw [not_endpoint_of_interface hinterface] at he; cases he
  have hlast := h.builds.last
  have hbuilt : BuildsSetting _ _ := last_of_snoc hlast.settings
  have hsetting : c.alternateSetting = some (gs.length, g.length) := by
    rw [h.setting, List.length_append]
    rfl
  let interface := c.config.interfaces gs.length
  let setting := interface.alternateSettings g.length
  have hcount : setting.numEndpoints = es.length := hbuilt.count
  let setting' : AlternateSetting := { setting with
    endpoints := Function.update setting.endpoints es.length (record endpointDescriptorLength e)
    numEndpoints := es.length + 1 }
  have hbuilt' : BuildsSetting setting' ⟨d, es ++ [e]⟩ :=
    { descriptor := hbuilt.descriptor
      count := by rw [List.length_append]; rfl
      endpoints := by
        refine forall_snoc (fun k e' he' => ?_) ?_
        · obtain ⟨hlt, -⟩ := List.getElem?_eq_some_iff.mp he'
          show Copied _ (Function.update setting.endpoints es.length _ k) e'
          rw [Function.update_of_ne (Nat.ne_of_lt hlt)]
          exact hbuilt.endpoints k e' he'
        · show Copied _ (Function.update setting.endpoints es.length _ es.length) e
          rw [Function.update_self]
          exact copied_record (hlong.2 he) }
  have hinterface' : BuildsInterface (interface.store g.length setting')
      (g ++ [⟨d, es ++ [e]⟩]) :=
    .place (forall_of_snoc hlast.settings) (fun j hj => hlast.beyond hj) hbuilt'
      (hlast.count.trans (by rw [List.length_append]; rfl)) (fun s hs => by
        rcases List.mem_append.mp hs with hs | hs
        · exact hlast.number s (List.mem_append_left _ hs)
        · rw [List.mem_singleton.mp hs]
          exact hlast.number ⟨d, es⟩ (by simp)) rfl
  refine ⟨{ c with config := c.config.store gs.length (interface.store g.length setting') }, ?_,
    ?_, by simp, h.interface, ?_⟩
  · unfold takeRaw Cursor.nextEndpoint
    rw [hnot, he, hsetting]
    dsimp only
    rw [hcount, if_pos hroom]
    rfl
  · exact .place (forall_of_snoc h.builds.interfaces) (fun i hi => h.builds.beyond hi) hinterface'
      (h.builds.count.trans (by rw [List.length_append]; rfl)) rfl
  · rw [hsetting, List.length_append]
    rfl

/-- An alternate setting without endpoints yet. -/
def newSetting (d : Raw) : AlternateSetting :=
  { zeroSetting with interfaceDescriptor := record interfaceDescriptorLength d }

theorem newSetting_builds (hlong : interfaceDescriptorLength ≤ d.length) :
    BuildsSetting (newSetting d) ⟨d, []⟩ :=
  ⟨copied_record hlong, rfl, fun _ _ he => nomatch he⟩

theorem Tracks.isCurrent (h : Tracks c gs (g ++ [s])) (number : UInt8) :
    c.isCurrent number = true ↔ bInterfaceNumber s.descriptor = number := by
  unfold Cursor.isCurrent
  rw [h.interface]
  dsimp only
  rw [decide_eq_true_iff, h.builds.last.number s (by simp)]

/-- An interface descriptor with the number of the one before it. -/
theorem Tracks.same (h : Tracks c gs (g ++ [s])) (hd : isInterface d = true) (hlong : Long d)
    (hnumber : bInterfaceNumber s.descriptor = bInterfaceNumber d)
    (hroom : (g ++ [s]).length < usbMaxNumAlternateSettings) :
    ∃ c', takeRaw c d = .ok c' ∧ Tracks c' gs (g ++ [s] ++ [⟨d, []⟩]) := by
  have hlast := h.builds.last
  let interface := c.config.interfaces gs.length
  have hcount : interface.numAlternateSettings = (g ++ [s]).length := hlast.count
  have hzero : interface.alternateSettings (g ++ [s]).length = zeroSetting :=
    hlast.rest _ (Nat.le_refl _)
  let interface' : Interface := { interface.store (g ++ [s]).length (newSetting d) with
    numAlternateSettings := (g ++ [s]).length + 1 }
  have hinterface' : BuildsInterface interface' (g ++ [s] ++ [⟨d, []⟩]) :=
    .place hlast.settings (fun j hj => hlast.rest j (Nat.le_of_lt hj))
      (newSetting_builds (hlong.1 hd)) rfl (fun s' hs' => by
        rcases List.mem_append.mp hs' with hs' | hs'
        · exact hlast.number s' hs'
        · rw [List.mem_singleton.mp hs']
          exact (hlast.number s (by simp)).trans hnumber) rfl
  refine ⟨{ c with
    config := c.config.store gs.length interface'
    alternateSetting := some (gs.length, (g ++ [s]).length) }, ?_, ?_, by simp, h.interface, ?_⟩
  · unfold takeRaw Cursor.findInterface
    rw [if_pos hd, if_pos ((h.isCurrent _).mpr hnumber)]
    show c.nextSetting _ = _
    unfold Cursor.nextSetting
    rw [h.interface]
    dsimp only
    rw [hcount, if_pos hroom, hzero]
    rfl
  · exact .place (forall_of_snoc h.builds.interfaces) (fun i hi => h.builds.beyond hi) hinterface'
      (h.builds.count.trans (by rw [List.length_append]; rfl)) rfl
  · simp

/-- An interface descriptor with another number, or the first one. -/
theorem Builds.next (h : Builds c.config gs) (hd : isInterface d = true) (hlong : Long d)
    (hnumber : ¬c.isCurrent (bInterfaceNumber d) = true) (hroom : gs.length < usbMaxNumInterfaces) :
    ∃ c', takeRaw c d = .ok c' ∧ Tracks c' gs [⟨d, []⟩] := by
  have hzero : c.config.interfaces gs.length = zeroInterface := h.rest _ (Nat.le_refl _)
  let interface' : Interface :=
    { alternateSettings := Function.update zeroInterface.alternateSettings 0 (newSetting d)
      numAlternateSettings := 1
      interfaceNumber := bInterfaceNumber d }
  have hempty : ∀ (j : Nat) (s : Setting), ([] : List Setting)[j]? = some s →
      BuildsSetting (zeroInterface.alternateSettings j) s := fun _ _ hs => nomatch hs
  have hinterface' : BuildsInterface interface' ([] ++ [⟨d, []⟩]) :=
    .place hempty (fun _ _ => rfl) (newSetting_builds (hlong.1 hd)) rfl
      (fun s hs => by rw [List.mem_singleton.mp hs]) rfl
  let first : Interface := { zeroInterface with interfaceNumber := bInterfaceNumber d }
  refine ⟨⟨{ (c.config.store gs.length first).store gs.length interface' with
    numInterfaces := gs.length + 1 }, some gs.length, some (gs.length, 0)⟩, ?_, ?_, by simp,
    rfl, rfl⟩
  · unfold takeRaw Cursor.findInterface Cursor.nextInterface
    rw [if_pos hd, if_neg hnumber]
    dsimp only
    rw [h.count, if_pos hroom, hzero]
    show Cursor.nextSetting ⟨_, some gs.length, _⟩ _ = _
    unfold Cursor.nextSetting
    dsimp only
    rw [Configuration.store_self]
    rfl
  · refine .place h.interfaces (fun i hi => h.rest i (Nat.le_of_lt hi)) hinterface' rfl ?_
    exact Function.update_idem ..

/-! ## All descriptors -/

/-- An alternate setting that the driver has room for. -/
structure Setting.Good (s : Setting) : Prop where
  interface : isInterface s.descriptor = true
  long : Long s.descriptor
  endpoints : ∀ e ∈ s.endpoints, isEndpoint e = true ∧ Long e
  room : s.endpoints.length ≤ usbMaxNumEndpoints

theorem foldlM_cons_ok {c' : Cursor} (h : takeRaw c d = .ok c') :
    (d :: ds).foldlM takeRaw c = ds.foldlM takeRaw c' := by
  rw [List.foldlM_cons, h]
  rfl

theorem foldlM_append_ok {c' : Cursor} {ds' : List Raw} (h : ds.foldlM takeRaw c = .ok c') :
    (ds ++ ds').foldlM takeRaw c = ds'.foldlM takeRaw c' := by
  rw [List.foldlM_append, h]
  rfl

theorem Tracks.endpoints {more : List Raw} : ∀ {c es}, Tracks c gs (g ++ [⟨d, es⟩]) →
    (∀ e ∈ more, isEndpoint e = true ∧ Long e) → es.length + more.length ≤ usbMaxNumEndpoints →
    ∃ c', more.foldlM takeRaw c = .ok c' ∧ Tracks c' gs (g ++ [⟨d, es ++ more⟩]) := by
  induction more with
  | nil =>
    intro c es h _ _
    exact ⟨c, rfl, by rwa [List.append_nil]⟩
  | cons e more ih =>
    intro c es h hmore hroom
    obtain ⟨⟨he, hlong⟩, hmore⟩ := List.forall_mem_cons.mp hmore
    rw [List.length_cons] at hroom
    obtain ⟨c₁, htake, h₁⟩ := h.endpoint he hlong (by omega)
    obtain ⟨c', hrest, h'⟩ := ih h₁ hmore (by rw [List.length_append, List.length_singleton]; omega)
    rw [List.append_assoc] at h'
    exact ⟨c', (foldlM_cons_ok htake).trans hrest, h'⟩

/-- The rest of a group. -/
theorem Tracks.group {more : List Setting} : ∀ {c g s}, Tracks c gs (g ++ [s]) →
    (s :: more).IsChain (fun s s' =>
      bInterfaceNumber s.descriptor = bInterfaceNumber s'.descriptor) →
    (∀ s ∈ more, s.Good) → (g ++ [s]).length + more.length ≤ usbMaxNumAlternateSettings →
    ∃ c', (more.flatMap Setting.raw).foldlM takeRaw c = .ok c' ∧
      Tracks c' gs (g ++ s :: more) := by
  induction more with
  | nil =>
    intro c g s h _ _ _
    exact ⟨c, rfl, h⟩
  | cons s' more ih =>
    intro c g s h hchain hmore hroom
    obtain ⟨hnumber, hchain⟩ := List.isChain_cons_cons.mp hchain
    obtain ⟨hgood, hmore⟩ := List.forall_mem_cons.mp hmore
    rw [List.length_cons] at hroom
    obtain ⟨c₁, htake, h₁⟩ := h.same hgood.interface hgood.long hnumber (by omega)
    obtain ⟨c₂, hendpoints, h₂⟩ := h₁.endpoints hgood.endpoints
      (by rw [List.length_nil, Nat.zero_add]; exact hgood.room)
    obtain ⟨c', hrest, h'⟩ := ih h₂ hchain hmore
      (by rw [List.length_append, List.length_singleton]; omega)
    refine ⟨c', ?_, by rwa [List.append_assoc] at h'⟩
    rw [List.flatMap_cons]
    refine (foldlM_append_ok ?_).trans hrest
    exact (foldlM_cons_ok htake).trans hendpoints

/-- A group from its first descriptor on. -/
theorem Builds.group (h : Builds c.config gs) (hgood : ∀ s' ∈ s :: g, s'.Good)
    (hnumber : ¬c.isCurrent (bInterfaceNumber s.descriptor) = true)
    (hchain : (s :: g).IsChain fun s s' =>
      bInterfaceNumber s.descriptor = bInterfaceNumber s'.descriptor)
    (hroom : gs.length < usbMaxNumInterfaces)
    (hsettings : (s :: g).length ≤ usbMaxNumAlternateSettings) :
    ∃ c', ((s :: g).flatMap Setting.raw).foldlM takeRaw c = .ok c' ∧ Tracks c' gs (s :: g) := by
  obtain ⟨hs, hg⟩ := List.forall_mem_cons.mp hgood
  obtain ⟨c₁, htake, h₁⟩ := h.next hs.interface hs.long hnumber hroom
  obtain ⟨c₂, hendpoints, h₂⟩ := Tracks.endpoints (g := []) h₁ hs.endpoints
    (by rw [List.length_nil, Nat.zero_add]; exact hs.room)
  rw [List.length_cons] at hsettings
  obtain ⟨c', hrest, h'⟩ := Tracks.group (g := []) h₂ hchain hg
    (by rw [List.nil_append, List.length_singleton]; omega)
  refine ⟨c', ?_, h'⟩
  rw [List.flatMap_cons]
  refine (foldlM_append_ok ?_).trans hrest
  exact (foldlM_cons_ok htake).trans hendpoints

/-- A run of one interface number that the driver has room for. -/
structure GoodGroup (g : List Setting) : Prop where
  nonempty : g ≠ []
  good : ∀ s ∈ g, s.Good
  same : g.IsChain fun s s' => bInterfaceNumber s.descriptor = bInterfaceNumber s'.descriptor
  room : g.length ≤ usbMaxNumAlternateSettings

/-- The number changes from one group to the next. -/
def Apart (g g' : List Setting) : Prop := ∃ (hg : g ≠ []) (hg' : g' ≠ []),
  bInterfaceNumber (g.getLast hg).descriptor ≠ bInterfaceNumber (g'.head hg').descriptor

theorem Tracks.groups {more : List (List Setting)} : ∀ {c gs g}, Tracks c gs g →
    (g :: more).IsChain Apart → (∀ g' ∈ more, GoodGroup g') →
    gs.length + 1 + more.length ≤ usbMaxNumInterfaces →
    ∃ c', (more.flatten.flatMap Setting.raw).foldlM takeRaw c = .ok c' ∧
      Builds c'.config (gs ++ g :: more) := by
  induction more with
  | nil =>
    intro c gs g h _ _ _
    exact ⟨c, rfl, h.builds⟩
  | cons g' more ih =>
    intro c gs g h hchain hgoods hroom
    obtain ⟨⟨hg, hg', hnumber⟩, hapart⟩ := List.isChain_cons_cons.mp hchain
    obtain ⟨hgood, hmore⟩ := List.forall_mem_cons.mp hgoods
    rw [List.length_cons] at hroom
    obtain ⟨s, rest, rfl⟩ := List.exists_cons_of_ne_nil hg'
    have hcurrent : ¬c.isCurrent (bInterfaceNumber s.descriptor) = true := by
      rw [← List.dropLast_append_getLast hg] at h
      rw [h.isCurrent]
      exact hnumber
    have hlength : (gs ++ [g]).length = gs.length + 1 := by
      rw [List.length_append, List.length_singleton]
    obtain ⟨c₁, htake, h₁⟩ := h.builds.group hgood.good hcurrent hgood.same (by omega) hgood.room
    obtain ⟨c', hrest, h'⟩ := ih h₁ hapart hmore (by omega)
    refine ⟨c', ?_, by rwa [List.append_assoc] at h'⟩
    rw [List.flatten_cons, List.flatMap_append]
    exact (foldlM_append_ok htake).trans hrest

/-- From the start of the loop. -/
theorem start_groups {groups : List (List Setting)} (descriptor : Bytes)
    (hchain : groups.IsChain Apart) (hgood : ∀ g ∈ groups, GoodGroup g)
    (hroom : groups.length ≤ usbMaxNumInterfaces) :
    ∃ c', (groups.flatten.flatMap Setting.raw).foldlM takeRaw (.start descriptor) = .ok c' ∧
      Builds c'.config groups := by
  have hstart : Builds (Cursor.start descriptor).config [] :=
    ⟨rfl, fun _ _ hg => (nomatch hg), fun _ _ => rfl⟩
  cases groups with
  | nil => exact ⟨_, rfl, hstart⟩
  | cons g more =>
    obtain ⟨hg, hmore⟩ := List.forall_mem_cons.mp hgood
    obtain ⟨s, rest, rfl⟩ := List.exists_cons_of_ne_nil hg.nonempty
    rw [List.length_cons] at hroom
    obtain ⟨c₁, htake, h₁⟩ := hstart.group hg.good Bool.false_ne_true hg.same (by decide) hg.room
    obtain ⟨c', hrest, h'⟩ := h₁.groups hchain hmore (by rw [List.length_nil]; omega)
    refine ⟨c', ?_, h'⟩
    rw [List.flatten_cons, List.flatMap_append]
    exact (foldlM_append_ok htake).trans hrest

/-- Other descriptors are skipped. -/
theorem foldlM_filter : ∀ {ds : List Raw} {c : Cursor},
    (ds.filter isKnown).foldlM takeRaw c = ds.foldlM takeRaw c
  | [], _ => rfl
  | d :: ds, c => by
    rw [List.filter_cons]
    split
    · rw [List.foldlM_cons, List.foldlM_cons]
      exact congrArg (takeRaw c d >>= ·) (funext fun c => foldlM_filter)
    · rename_i hknown
      have hneither : isInterface d = false ∧ isEndpoint d = false := by
        simpa [isKnown] using hknown
      have hskip : takeRaw c d = .ok c := by
        unfold takeRaw
        rw [hneither.1, hneither.2]
        rfl
      rw [foldlM_cons_ok hskip]
      exact foldlM_filter

/-! ## The block -/

/-- The bytes of a configuration, cut into descriptors. -/
structure Block (totalLength : Nat) (page : Bytes) (ds : List Raw) : Prop where
  lengths : ∀ d ∈ ds, 2 ≤ d.length ∧ ∃ length : UInt8, d[0]? = some length ∧
    length.toNat = d.length
  total : ds.flatten.length = totalLength
  room : totalLength ≤ usbDataBufferSize
  bytes : ∀ k < totalLength, ds.flatten[k]? = some (page k)

/-- The descriptor at an offset of the buffer. -/
def At (buffer : Bytes) (offset : Nat) (d : Raw) : Prop :=
  ∀ k < d.length, d[k]? = some (buffer (offset + k))

theorem At.record_eq {buffer : Bytes} {offset : Nat} (h : At buffer offset d)
    (hn : n ≤ d.length) (hroom : offset + d.length ≤ usbDataBufferSize) :
    readStruct buffer offset n = .ok (record n d) := by
  unfold readStruct
  rw [if_pos (by omega)]
  refine congrArg Except.ok (funext fun i => ?_)
  unfold record
  split
  · rw [List.getD_eq_getElem?_getD, h i (by omega), Option.getD_some]
  · rfl

theorem At.takeDescriptor {buffer : Bytes} {offset : Nat} (h : At buffer offset d)
    (htwo : 2 ≤ d.length) (hlong : Long d) (hroom : offset + d.length ≤ usbDataBufferSize) :
    c.takeDescriptor buffer offset = takeRaw c d := by
  have hread : ∀ i < d.length, readByte buffer (offset + i) = .ok (buffer (offset + i)) :=
    fun i hi => if_pos (by omega)
  have htype : d[1]? = some (buffer (offset + 1)) := h 1 (by omega)
  unfold Cursor.takeDescriptor takeRaw
  rw [hread 1 (by omega)]
  show (if buffer (offset + 1) = usbDescriptorTypeInterface then _ else _ : Except Fault Cursor) = _
  have hinterface : isInterface d = true ↔ buffer (offset + 1) = usbDescriptorTypeInterface := by
    unfold isInterface
    rw [htype, beq_iff_eq, Option.some.injEq]
  have hendpoint : isEndpoint d = true ↔ buffer (offset + 1) = usbDescriptorTypeEndpoint := by
    unfold isEndpoint
    rw [htype, beq_iff_eq, Option.some.injEq]
  by_cases hd : isInterface d = true
  · have hthree : 2 < d.length := Nat.lt_of_lt_of_le (by decide) (hlong.1 hd)
    rw [if_pos hd, if_pos (hinterface.mp hd)]
    unfold Cursor.takeInterface
    rw [hread 2 hthree, h.record_eq (hlong.1 hd) hroom]
    have hnumber : bInterfaceNumber d = buffer (offset + 2) := by
      unfold bInterfaceNumber
      rw [List.getD_eq_getElem?_getD, h 2 hthree, Option.getD_some]
    rw [hnumber]
    rfl
  · rw [if_neg hd, if_neg fun heq => hd (hinterface.mpr heq)]
    by_cases he : isEndpoint d = true
    · rw [if_pos he, if_pos (hendpoint.mp he)]
      unfold Cursor.takeEndpoint
      rw [h.record_eq (hlong.2 he) hroom]
      rfl
    · rw [if_neg he, if_neg fun heq => he (hendpoint.mpr heq)]

/-- The loop takes one descriptor after the other. -/
theorem scan_eq {buffer : Bytes} {totalLength : Nat} (hroom : totalLength ≤ usbDataBufferSize) :
    ∀ {ds : List Raw} {fuel offset : Nat} {c : Cursor}, ds.length < fuel →
      offset + ds.flatten.length = totalLength →
      (∀ k < ds.flatten.length, ds.flatten[k]? = some (buffer (offset + k))) →
      (∀ d ∈ ds, 2 ≤ d.length ∧ ∃ length : UInt8, d[0]? = some length ∧ length.toNat = d.length) →
      (∀ d ∈ ds, Long d) →
      scan buffer totalLength fuel offset c = ds.foldlM takeRaw c := by
  intro ds
  induction ds with
  | nil =>
    intro fuel offset c hfuel hoffset _ _ _
    obtain ⟨fuel, rfl⟩ : ∃ k, fuel = k + 1 := ⟨fuel - 1, by rw [List.length_nil] at hfuel; omega⟩
    have hend : ¬offset < totalLength := by
      rw [List.flatten_nil, List.length_nil] at hoffset
      omega
    exact if_neg hend
  | cons d ds ih =>
    intro fuel offset c hfuel hoffset hbytes hlengths hlong
    rw [List.length_cons] at hfuel
    obtain ⟨fuel, rfl⟩ : ∃ k, fuel = k + 1 := ⟨fuel - 1, by omega⟩
    obtain ⟨⟨htwo, length, hfirst, hlength⟩, hlengths⟩ := List.forall_mem_cons.mp hlengths
    obtain ⟨hd, hlong⟩ := List.forall_mem_cons.mp hlong
    rw [List.flatten_cons, List.length_append] at hoffset hbytes
    have hat : At buffer offset d := fun k hk => by
      rw [← hbytes k (by omega), List.getElem?_append_left hk]
    have hrest : ∀ k < ds.flatten.length,
        ds.flatten[k]? = some (buffer (offset + d.length + k)) := fun k hk => by
      rw [Nat.add_assoc, ← hbytes (d.length + k) (by omega),
        List.getElem?_append_right (by omega), Nat.add_sub_cancel_left]
    have hbuffer : buffer offset = length := by
      have heq := hat 0 (by omega)
      rw [hfirst] at heq
      exact (Option.some.inj heq).symm
    have hread : readByte buffer offset = .ok length := by
      rw [← hbuffer]
      exact if_pos (by omega)
    unfold scan
    rw [if_pos (by omega), hat.takeDescriptor htwo hd (by omega), hread, List.foldlM_cons]
    refine congrArg (takeRaw c d >>= ·) (funext fun c => ?_)
    show scan buffer totalLength fuel (offset + length.toNat) c = _
    rw [hlength]
    exact ih (by omega) (by omega) hrest hlengths hlong

/-- The driver has room for the grouping. -/
structure HasRoom (ds : List Raw) : Prop where
  interfaces : (grouping ds).length ≤ usbMaxNumInterfaces
  settings : ∀ g ∈ grouping ds, g.length ≤ usbMaxNumAlternateSettings
  endpoints : ∀ g ∈ grouping ds, ∀ s ∈ g, s.endpoints.length ≤ usbMaxNumEndpoints

/-- The descriptors of the grouping are those of the block. -/
theorem mem_of_grouping (hg : g ∈ grouping ds) (hs : s ∈ g) : s ∈ settings ds := by
  have hflatten : s ∈ (grouping ds).flatten := List.mem_flatten.mpr ⟨g, hg, hs⟩
  unfold grouping at hflatten
  rwa [List.flatten_splitBy] at hflatten

theorem raw_mem (hs : s ∈ settings ds) (hd : d ∈ s.raw) : d ∈ ds := by
  have hmem : d ∈ ds.filter isKnown := by
    rw [filter_known]
    exact List.mem_append_right _ (List.mem_flatMap.mpr ⟨s, hs, hd⟩)
  exact List.mem_of_mem_filter hmem

theorem HasRoom.goodGroup (h : HasRoom ds) (hlong : ∀ d ∈ ds, Long d) (hg : g ∈ grouping ds) :
    GoodGroup g where
  nonempty := List.ne_nil_of_mem_splitBy hg
  good s hs := by
    have hmem := mem_of_grouping hg hs
    obtain ⟨hinterface, hendpoints⟩ := isInterface_of_mem_settings hmem
    exact ⟨hinterface, hlong _ (raw_mem hmem List.mem_cons_self), fun e he =>
      ⟨hendpoints e he, hlong e (raw_mem hmem (List.mem_cons_of_mem _ he))⟩, h.endpoints g hg s hs⟩
  same := (List.isChain_of_mem_splitBy hg).imp fun _ _ heq => beq_iff_eq.mp heq
  room := h.settings g hg

theorem grouping_apart (ds : List Raw) : (grouping ds).IsChain Apart := by
  refine (List.isChain_getLast_head_splitBy _ (settings ds)).imp fun g g' hne => ?_
  obtain ⟨hg, hg', hnumber⟩ := hne
  exact ⟨hg, hg', beq_eq_false_iff_ne.mp hnumber⟩

/-- The loop over a block of descriptors that are long enough. -/
theorem Block.scan {totalLength : Nat} {page : Bytes} (h : Block totalLength page ds)
    (hpreceded : Preceded ds) (hroom : HasRoom ds) (hlong : ∀ d ∈ ds, Long d)
    (descriptor : Bytes) :
    ∃ c, scan (received page totalLength) totalLength enoughFuel 0 (.start descriptor) = .ok c ∧
      Builds c.config (grouping ds) := by
  obtain ⟨c, hfold, hbuilds⟩ := start_groups descriptor (grouping_apart ds)
    (fun g hg => hroom.goodGroup hlong hg) hroom.interfaces
  refine ⟨c, ?_, hbuilds⟩
  have htotal := h.total
  have hbound := h.room
  have hcount : ds.length ≤ ds.flatten.length := by
    rw [List.length_flatten]
    refine (Nat.le_of_eq (List.length_map _).symm).trans
      (List.length_le_sum_of_one_le _ fun n hn => ?_)
    obtain ⟨d, hd, rfl⟩ := List.mem_map.mp hn
    have htwo := (h.lengths d hd).1
    omega
  rw [scan_eq hbound (by unfold enoughFuel; omega) (by omega) (fun k hk => ?_) h.lengths hlong,
    ← foldlM_filter, hpreceded.filter_known]
  · exact hfold
  · rw [h.bytes k (by omega), Nat.zero_add]
    unfold received
    rw [if_pos (by omega)]

theorem Copied.length {r : Bytes} (h : Copied n r d) (hn : 0 < n) : n ≤ d.length := by
  have hlast := (List.getElem?_eq_some_iff.mp (h (n - 1) (by omega))).1
  omega

/-- A descriptor that is in the configuration was long enough. -/
theorem Builds.long (h : Builds config (grouping ds)) (hpreceded : Preceded ds) (hd : d ∈ ds) :
    Long d := by
  suffices hknown : isKnown d = true → Long d by
    refine ⟨fun hinterface => (hknown ?_).1 hinterface, fun hendpoint => (hknown ?_).2 hendpoint⟩
    · exact Bool.or_eq_true_iff.mpr (.inl hinterface)
    · exact Bool.or_eq_true_iff.mpr (.inr hendpoint)
  intro hknown
  have hmem : d ∈ (grouping ds).flatten.flatMap Setting.raw :=
    hpreceded.filter_known ▸ List.mem_filter.mpr ⟨hd, hknown⟩
  obtain ⟨s, hs, hraw⟩ := List.mem_flatMap.mp hmem
  obtain ⟨g, hg, hsg⟩ := List.mem_flatten.mp hs
  obtain ⟨hinterface, hendpoints⟩ := isInterface_of_mem_settings (mem_of_grouping hg hsg)
  obtain ⟨i, hi⟩ := List.mem_iff_getElem?.mp hg
  obtain ⟨j, hj⟩ := List.mem_iff_getElem?.mp hsg
  have hbuilds := (h.interfaces i g hi).settings j s hj
  rcases List.mem_cons.mp hraw with rfl | he
  · refine ⟨fun _ => hbuilds.descriptor.length (by decide), fun hendpoint => ?_⟩
    rw [not_endpoint_of_interface hinterface] at hendpoint
    cases hendpoint
  · obtain ⟨k, hk⟩ := List.mem_iff_getElem?.mp he
    refine ⟨fun hint => ?_, fun _ => (hbuilds.endpoints k d hk).length (by decide)⟩
    have hnot := hendpoints d he
    rw [not_endpoint_of_interface hint] at hnot
    cases hnot

end

/-! ## The enumeration -/

/-- `enumerate_configuration` returns 0 and has built the grouping of the
descriptors, if and only if none of those it takes is shorter than its record. -/
theorem enumerate_faithful_iff (device : Answers) (i : Nat) (descriptor page : Bytes)
    (ds : List Raw) (hi : i < usbMaxNumConfigurations)
    (hdescriptor : device.configurationDescriptor i = some descriptor)
    (hpage : device.allConfigurationDescriptors i = some page)
    (hblock : Block (wTotalLength descriptor) page ds) (hpreceded : Preceded ds)
    (hroom : HasRoom ds) :
    (∃ config, enumerateConfiguration enoughFuel device i = .ok (some config) ∧
      Builds config (grouping ds)) ↔ ∀ d ∈ ds, Long d := by
  constructor
  · rintro ⟨config, -, hbuilds⟩ d hd
    exact hbuilds.long hpreceded hd
  · intro hlong
    obtain ⟨c, hscan, hbuilds⟩ := hblock.scan hpreceded hroom hlong
      (received descriptor configurationDescriptorLength)
    refine ⟨c.config, ?_, hbuilds⟩
    unfold enumerateConfiguration
    rw [if_pos hi, hdescriptor, hpage, usbGetDescriptor_fits le_rfl]
    show (usbGetDescriptor (some page) usbDataBufferSize (wTotalLength descriptor) >>= _) = _
    rw [usbGetDescriptor_fits hblock.room]
    show (UsbCore.scan (received page (wTotalLength descriptor)) (wTotalLength descriptor)
      enoughFuel 0 (.start (received descriptor configurationDescriptorLength)) >>= _) = _
    rw [hscan]
    rfl

/-- A page with these descriptors. -/
def pageOf (ds : List Raw) : Bytes := fun k => ds.flatten.getD k 0

/-- A device that answers with them. -/
def answersWith (ds : List Raw) : Answers :=
  ⟨true, none, fun _ => some (pageOf ds), fun _ => some (pageOf ds)⟩

theorem block_pageOf {ds : List Raw}
    (hlengths : ∀ d ∈ ds, 2 ≤ d.length ∧ (d.getD 0 0).toNat = d.length)
    (htotal : ds.flatten.length = wTotalLength (pageOf ds))
    (hroom : ds.flatten.length ≤ usbDataBufferSize) :
    Block (wTotalLength (pageOf ds)) (pageOf ds) ds where
  lengths d hd := by
    obtain ⟨htwo, hlength⟩ := hlengths d hd
    refine ⟨htwo, d.getD 0 0, ?_, hlength⟩
    rw [List.getD_eq_getElem?_getD, List.getElem?_eq_getElem (by omega), Option.getD_some]
  total := htotal
  room := htotal ▸ hroom
  bytes k hk := by
    unfold pageOf
    rw [List.getD_eq_getElem?_getD, List.getElem?_eq_getElem (htotal ▸ hk), Option.getD_some]

/-- A configuration with an interface, an endpoint and a HID descriptor. -/
def mouseBlock : List Raw :=
  [[9, 2, 34, 0, 1, 1, 0, 0, 0], [9, 4, 0, 0, 1, 3, 1, 2, 0],
    [9, 0x21, 0x10, 1, 0, 1, 0x22, 0, 0], [7, 5, 0x81, 3, 4, 0, 10]]

theorem mouseBlock_faithful : ∃ config,
    enumerateConfiguration enoughFuel (answersWith mouseBlock) 0 = .ok (some config) ∧
      Builds config (grouping mouseBlock) := by
  refine (enumerate_faithful_iff (answersWith mouseBlock) 0 (pageOf mouseBlock)
    (pageOf mouseBlock) mouseBlock (by decide) rfl rfl ?_ ?_ ?_).mpr ?_
  · exact block_pageOf (by decide) (by decide) (by decide)
  · exact preceded_of_none (by decide)
  · exact ⟨by decide, by decide, by decide⟩
  · unfold Long
    decide

/-- An endpoint descriptor of three bytes. -/
def shortBlock : List Raw :=
  [[9, 2, 25, 0, 1, 1, 0, 0, 0], [9, 4, 0, 0, 1, 3, 1, 2, 0], [3, 5, 0x81], [4, 0x21, 0x10, 1]]

/-- Its attributes are the length of the descriptor behind it. -/
theorem shortBlock_unfaithful :
    (Block (wTotalLength (pageOf shortBlock)) (pageOf shortBlock) shortBlock ∧
      Preceded shortBlock ∧ HasRoom shortBlock) ∧
    (∃ config, enumerateConfiguration enoughFuel (answersWith shortBlock) 0 = .ok (some config) ∧
      ((config.interfaces 0).alternateSettings 0).endpoints 0 3 = 4) ∧
    ¬ ∃ config, enumerateConfiguration enoughFuel (answersWith shortBlock) 0 = .ok (some config) ∧
      Builds config (grouping shortBlock) := by
  have hpreceded : Preceded shortBlock := preceded_of_none (by decide)
  refine ⟨⟨block_pageOf (by decide) (by decide) (by decide), hpreceded, by decide, by decide,
    by decide⟩,
    ⟨_, rfl, rfl⟩, ?_⟩
  rintro ⟨config, -, hbuilds⟩
  have hlong := hbuilds.long hpreceded (List.mem_of_getElem? (i := 2) rfl)
  exact absurd (hlong.2 (by decide)) (by decide)

end ZOs.UsbCore.Groups
