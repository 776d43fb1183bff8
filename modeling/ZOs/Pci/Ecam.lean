import Mathlib.Data.BitVec
import ZOs.Lib.Search

/-!
# Configuration space

`pcie.c`. The configuration space of a range of buses is mapped, and each of
256 buses is searched for a device. The first bus of the range is at the
beginning of what is mapped, and the test reads two words of each function:
the one with the header type has to be 0 altogether.
-/

namespace ZOs.Pci

open Search

abbrev Word := BitVec 64
abbrev Word32 := BitVec 32
abbrev Byte := BitVec 8

/-! ## The functions -/

/-- `acpi_table_mcfg_entry_t`. -/
structure McfgEntry where
  baseAddress : Word
  startBusNumber : Byte
  endBusNumber : Byte

/-- `g_mcfg_entry` and `g_ecam_base_address`, and the end of the range that
`mmio_map_region` maps from there on. -/
structure Pcie where
  mcfgEntry : McfgEntry
  ecamBaseAddress : Word
  mappedEnd : Word

/-- `MMIO_BASE_ADDRESS`. -/
def mmioBaseAddress : Word := 0xFFFF200000000000

/-- `pcie_init`, of a range that can be mapped. -/
def pcieInit (entry : McfgEntry) : Pcie :=
  let busCount : Word :=
    BitVec.ofInt 64 (entry.endBusNumber.toNat - entry.startBusNumber.toNat + 1)
  let ecamSize := busCount <<< 20
  let virtualBaseAddress := mmioBaseAddress + entry.baseAddress
  ⟨entry, virtualBaseAddress, virtualBaseAddress + ecamSize⟩

/-- A function of a device on a bus. -/
structure Function where
  bus : Nat
  device : Nat
  function : Nat
  deriving DecidableEq

/-- `pcie_ecam_address`. The shifts are those of 32-bit numbers. -/
def Pcie.ecamAddress (p : Pcie) (f : Function) (offset : Word32) : Word :=
  p.ecamBaseAddress +
    ((BitVec.ofNat 32 f.bus - p.mcfgEntry.startBusNumber.setWidth 32) <<< 20).setWidth 64 +
    ((BitVec.ofNat 32 f.device : Word32) <<< 15).setWidth 64 +
    ((BitVec.ofNat 32 f.function : Word32) <<< 12).setWidth 64 + offset.setWidth 64

/-- `PCI_CONFIG_ADDRESS`. -/
def pciConfigAddress : Word32 := 0x0c

/-- `PCI_CONFIG_DATA`. -/
def pciConfigData : Word32 := 0x08

/-- What is searched for. -/
structure Wanted where
  headerType : Byte
  classCode : Byte
  subclassCode : Byte
  progInt : Byte

section

variable (p : Pcie) (memory : Word → Word32) (wanted : Wanted) (f : Function)

/-- `pcie_config_read32`, of what is in memory. -/
def Pcie.configRead32 (offset : Word32) : Word32 := memory (p.ecamAddress f offset)

/-- The comparisons of the class code, the subclass code and the programming
interface. -/
def Pcie.classMatches : Bool :=
  let value := p.configRead32 memory f pciConfigData
  wanted.classCode = (value >>> 24 &&& 0xff).setWidth 8 ∧
    wanted.subclassCode = (value >>> 16 &&& 0xff).setWidth 8 ∧
    wanted.progInt = (value >>> 8 &&& 0xff).setWidth 8

/-- The condition of the innermost loop. Its `header_type` is a variable of the
loop, not the argument. -/
def Pcie.matches : Bool :=
  p.configRead32 memory f pciConfigAddress = 0x0 ∧ p.classMatches memory wanted f

/-- The addresses that a round of the innermost loop reads. -/
def Pcie.roundReads : List Word := [p.ecamAddress f pciConfigAddress, p.ecamAddress f pciConfigData]

/-- The rounds of the innermost loop, with the addresses that are read. -/
def Pcie.search : List Function → List Word × Option Function
  | [] => ([], none)
  | f :: fs =>
    if p.matches memory wanted f then (p.roundReads f, some f)
    else
      let (reads, result) := Pcie.search fs
      (p.roundReads f ++ reads, result)

end

/-- The functions that the three loops come by, on some of the buses. -/
def functionsOf (buses : List Nat) : List Function :=
  buses.flatMap fun bus => (List.range 32).flatMap fun device =>
    (List.range 8).map fun function => ⟨bus, device, function⟩

/-- `pcie_locate_device`: the addresses that are read, and where the device is,
if the result is 0. -/
def pcieLocateDevice (p : Pcie) (memory : Word → Word32) (wanted : Wanted) :
    List Word × Option Function :=
  p.search memory wanted (functionsOf (List.range 256))

/-! ## What is right -/

/-- The four bytes at an address are in the range that is mapped. -/
def Pcie.Mapped (p : Pcie) (address : Word) : Prop :=
  p.ecamBaseAddress.toNat ≤ address.toNat ∧ address.toNat + 4 ≤ p.mappedEnd.toNat

/-- The function has the header type, the class, the subclass and the
programming interface. -/
def Pcie.Has (p : Pcie) (memory : Word → Word32) (wanted : Wanted) (f : Function) : Bool :=
  (p.configRead32 memory f pciConfigAddress >>> 16 &&& 0xff).setWidth 8 = wanted.headerType ∧
    p.classMatches memory wanted f

/-- The functions on the buses of the entry, in lexicographic order. -/
def McfgEntry.functions (entry : McfgEntry) : List Function :=
  functionsOf ((List.range 256).filter fun bus =>
    entry.startBusNumber.toNat ≤ bus ∧ bus ≤ entry.endBusNumber.toNat)

/-- The search reads what is mapped only, and finds the first function of the
range that is what is wanted, if there is one. -/
structure Locates (entry : McfgEntry) (memory : Word → Word32) (wanted : Wanted) : Prop where
  reads : ∀ a ∈ (pcieLocateDevice (pcieInit entry) memory wanted).1, (pcieInit entry).Mapped a
  result : (pcieLocateDevice (pcieInit entry) memory wanted).2 =
    entry.functions.find? ((pcieInit entry).Has memory wanted)

/-! ## Addresses -/

section

variable {entry : McfgEntry} {f : Function} {offset : Word32} {bus : Nat}

/-- Where `mmio_map_region` begins. -/
def McfgEntry.virtualBase (entry : McfgEntry) : Nat :=
  (mmioBaseAddress + entry.baseAddress).toNat

/-- The difference of the bus numbers behind the shift of 32 bits, which drops
all but 12 bits of it. -/
def busStep (start bus : Nat) : Nat := if start ≤ bus then bus - start else 4096 + bus - start

theorem busOffset_toNat (start : Byte) (hbus : bus < 256) :
    (((BitVec.ofNat 32 bus - start.setWidth 32) <<< 20).setWidth 64 : Word).toNat =
      busStep start.toNat bus * 2 ^ 20 := by
  have hstart := start.isLt
  rw [BitVec.toNat_setWidth, BitVec.toNat_shiftLeft, BitVec.toNat_sub, BitVec.toNat_setWidth,
    BitVec.toNat_ofNat, Nat.shiftLeft_eq, busStep]
  split <;> omega

/-- What the loops come by. -/
theorem mem_functionsOf {buses : List Nat} : f ∈ functionsOf buses ↔
    f.bus ∈ buses ∧ f.device < 32 ∧ f.function < 8 := by
  obtain ⟨bus, device, function⟩ := f
  simp [functionsOf]

/-- The bytes of a function from the beginning of the range on. -/
def ecamOffset (start : Nat) (f : Function) (offset : Nat) : Nat :=
  busStep start f.bus * 2 ^ 20 + f.device * 2 ^ 15 + f.function * 2 ^ 12 + offset

theorem ecamAddress_toNat (hf : f ∈ functionsOf (List.range 256)) (hoffset : offset.toNat < 4096) :
    ((pcieInit entry).ecamAddress f offset).toNat =
      (entry.virtualBase + ecamOffset entry.startBusNumber.toNat f offset.toNat) % 2 ^ 64 := by
  obtain ⟨hbus, hdevice, hfunction⟩ := mem_functionsOf.mp hf
  have hstep := busOffset_toNat entry.startBusNumber (List.mem_range.mp hbus)
  have hdev : (((BitVec.ofNat 32 f.device : Word32) <<< 15).setWidth 64 : Word).toNat =
      f.device * 2 ^ 15 := by
    rw [BitVec.toNat_setWidth, BitVec.toNat_shiftLeft, BitVec.toNat_ofNat, Nat.shiftLeft_eq]
    omega
  have hfun : (((BitVec.ofNat 32 f.function : Word32) <<< 12).setWidth 64 : Word).toNat =
      f.function * 2 ^ 12 := by
    rw [BitVec.toNat_setWidth, BitVec.toNat_shiftLeft, BitVec.toNat_ofNat, Nat.shiftLeft_eq]
    omega
  have hoff : (offset.setWidth 64 : Word).toNat = offset.toNat := by
    rw [BitVec.toNat_setWidth]
    omega
  show (mmioBaseAddress + entry.baseAddress +
    ((BitVec.ofNat 32 f.bus - entry.startBusNumber.setWidth 32) <<< 20).setWidth 64 +
    ((BitVec.ofNat 32 f.device : Word32) <<< 15).setWidth 64 +
    ((BitVec.ofNat 32 f.function : Word32) <<< 12).setWidth 64 + offset.setWidth 64).toNat = _
  generalize hbase : mmioBaseAddress + entry.baseAddress = base
  have hvirtual : entry.virtualBase = base.toNat := congrArg BitVec.toNat hbase
  simp only [BitVec.toNat_add, hstep, hdev, hfun, hoff, Nat.mod_add_mod, hvirtual]
  refine congrArg (· % 2 ^ 64) ?_
  unfold ecamOffset
  omega

/-- The bytes of a function lie in the MiB of its bus. -/
theorem ecamOffset_bounds (start : Nat) {o : Nat} (hf : f ∈ functionsOf (List.range 256))
    (ho : o + 4 ≤ 4096) :
    busStep start f.bus * 2 ^ 20 ≤ ecamOffset start f o ∧
      ecamOffset start f o + 4 ≤ (busStep start f.bus + 1) * 2 ^ 20 := by
  obtain ⟨-, hdevice, hfunction⟩ := mem_functionsOf.mp hf
  unfold ecamOffset
  omega

/-- How many bytes are mapped. -/
theorem mappedEnd_toNat (entry : McfgEntry) : (pcieInit entry).mappedEnd.toNat =
    (entry.virtualBase + if entry.startBusNumber.toNat ≤ entry.endBusNumber.toNat then
      (entry.endBusNumber.toNat - entry.startBusNumber.toNat + 1) * 2 ^ 20
    else 2 ^ 64 - (entry.startBusNumber.toNat - entry.endBusNumber.toNat - 1) * 2 ^ 20) %
      2 ^ 64 := by
  have hstart := entry.startBusNumber.isLt
  have hend := entry.endBusNumber.isLt
  show (mmioBaseAddress + entry.baseAddress + BitVec.ofInt 64 (entry.endBusNumber.toNat -
    entry.startBusNumber.toNat + 1) <<< 20).toNat = _
  rw [BitVec.toNat_add, BitVec.toNat_shiftLeft, BitVec.toNat_ofInt, Nat.shiftLeft_eq]
  show (entry.virtualBase + _) % 2 ^ 64 = _
  split <;> omega

/-! ## What is mapped -/

/-- The range starts with bus 0, and does not end behind the last address. -/
def McfgEntry.FromZero (entry : McfgEntry) : Prop :=
  entry.startBusNumber = 0 ∧
    entry.virtualBase + (entry.endBusNumber.toNat + 1) * 2 ^ 20 < 2 ^ 64

/-- A range of less than no buses at a base that wraps: what is said to be
mapped is almost everything. -/
def McfgEntry.Wraps (entry : McfgEntry) : Prop :=
  entry.endBusNumber.toNat < entry.startBusNumber.toNat ∧ entry.virtualBase <
    (entry.startBusNumber.toNat - entry.endBusNumber.toNat - 1) * 2 ^ 20

/-- Of a range from bus 0 on, the functions on its buses are mapped. -/
theorem mapped_iff_of_zero (hzero : entry.startBusNumber = 0)
    (hf : f ∈ functionsOf (List.range 256)) (ho : offset.toNat + 4 ≤ 4096) :
    (pcieInit entry).Mapped ((pcieInit entry).ecamAddress f offset) ↔
      entry.FromZero ∧ f.bus ≤ entry.endBusNumber.toNat := by
  have hbounds := ecamOffset_bounds 0 hf ho
  have hbus := List.mem_range.mp (mem_functionsOf.mp hf).1
  have hend := entry.endBusNumber.isLt
  have hvirtual : entry.virtualBase < 2 ^ 64 := (mmioBaseAddress + entry.baseAddress).isLt
  have hbase : (pcieInit entry).ecamBaseAddress.toNat = entry.virtualBase := rfl
  rw [Pcie.Mapped, hbase, mappedEnd_toNat, ecamAddress_toNat hf (by omega), McfgEntry.FromZero,
    hzero]
  show entry.virtualBase ≤ (entry.virtualBase + ecamOffset 0 f offset.toNat) % 2 ^ 64 ∧
    (entry.virtualBase + ecamOffset 0 f offset.toNat) % 2 ^ 64 + 4 ≤
      (entry.virtualBase + if 0 ≤ entry.endBusNumber.toNat then
        (entry.endBusNumber.toNat - 0 + 1) * 2 ^ 20 else _) % 2 ^ 64 ↔ (0 = 0 ∧ _) ∧ _
  rw [if_pos (Nat.zero_le _)]
  have hstep : busStep 0 f.bus = f.bus := if_pos (Nat.zero_le _)
  rw [hstep] at hbounds
  constructor
  · rintro ⟨hlow, hhigh⟩
    refine ⟨⟨rfl, ?_⟩, ?_⟩ <;> omega
  · rintro ⟨⟨-, hroom⟩, hle⟩
    constructor <;> omega

theorem busStep_of_pos {start : Nat} (hpos : 0 < start) (hstart : start < 256) (hbus : bus < 256) :
    busStep start bus < 255 ∨ 3841 ≤ busStep start bus ∧ busStep start bus < 4096 := by
  unfold busStep
  split <;> omega

/-- Of another range, what is mapped is almost everything when the first
function that is looked at is. -/
theorem wraps_of_mapped (hzero : entry.startBusNumber ≠ 0) (ho : offset.toNat + 4 ≤ 4096)
    (h : (pcieInit entry).Mapped ((pcieInit entry).ecamAddress ⟨0, 0, 0⟩ offset)) :
    entry.Wraps := by
  have hfirst : (⟨0, 0, 0⟩ : Function) ∈ functionsOf (List.range 256) :=
    mem_functionsOf.mpr ⟨List.mem_range.mpr (by decide), by decide, by decide⟩
  have hpos : 0 < entry.startBusNumber.toNat :=
    Nat.pos_of_ne_zero fun h => hzero (BitVec.eq_of_toNat_eq h)
  have hstart := entry.startBusNumber.isLt
  have hend := entry.endBusNumber.isLt
  have hbounds := ecamOffset_bounds entry.startBusNumber.toNat hfirst ho
  have hstep : busStep entry.startBusNumber.toNat 0 = 4096 - entry.startBusNumber.toNat := by
    rw [busStep, if_neg (Nat.not_le_of_lt hpos), Nat.add_zero]
  have hvirtual : entry.virtualBase < 2 ^ 64 := (mmioBaseAddress + entry.baseAddress).isLt
  have hbase : (pcieInit entry).ecamBaseAddress.toNat = entry.virtualBase := rfl
  rw [Pcie.Mapped, hbase, mappedEnd_toNat, ecamAddress_toNat hfirst (by omega)] at h
  rw [hstep] at hbounds
  obtain ⟨hlow, hhigh⟩ := h
  unfold McfgEntry.Wraps
  split at hhigh
  · omega
  · constructor <;> omega

theorem mapped_of_wraps (h : entry.Wraps) (hf : f ∈ functionsOf (List.range 256))
    (ho : offset.toNat + 4 ≤ 4096) :
    (pcieInit entry).Mapped ((pcieInit entry).ecamAddress f offset) := by
  obtain ⟨hless, hwraps⟩ := h
  have hstart := entry.startBusNumber.isLt
  have hbounds := ecamOffset_bounds entry.startBusNumber.toNat hf ho
  have hstep := busStep_of_pos (Nat.lt_of_le_of_lt (Nat.zero_le _) hless) hstart
    (List.mem_range.mp (mem_functionsOf.mp hf).1)
  have hbase : (pcieInit entry).ecamBaseAddress.toNat = entry.virtualBase := rfl
  rw [Pcie.Mapped, hbase, mappedEnd_toNat, ecamAddress_toNat hf (by omega),
    if_neg (Nat.not_le_of_lt hless)]
  constructor <;> omega

/-! ## The search -/

section

variable {p : Pcie} {memory : Word → Word32} {wanted : Wanted} {l : List Function}

theorem search_eq : p.search memory wanted l =
    ((looked (p.matches memory wanted) l).flatMap p.roundReads,
      l.find? (p.matches memory wanted)) := by
  induction l with
  | nil => rfl
  | cons f l ih =>
    rw [Pcie.search, looked, List.find?_cons, ih]
    cases p.matches memory wanted f with
    | true => simp
    | false => simp

/-- All reads of a search are mapped when both words of what it looks at are. -/
theorem search_reads_iff {P : Function → Prop}
    (hboth : ∀ f ∈ l, P f ↔ ∀ a ∈ p.roundReads f, p.Mapped a) :
    (∀ a ∈ (p.search memory wanted l).1, p.Mapped a) ↔
      ∀ f ∈ looked (p.matches memory wanted) l, P f := by
  rw [search_eq]
  constructor
  · intro h f hf
    refine (hboth f (looked_subset hf)).mpr fun a ha => h a ?_
    exact List.mem_flatMap.mpr ⟨f, hf, ha⟩
  · intro h a ha
    obtain ⟨f, hf, ha⟩ := List.mem_flatMap.mp ha
    exact (hboth f (looked_subset hf)).mp (h f hf) a ha

end

/-- The buses of a range from bus 0 on, and the ones behind it. -/
theorem range_256_eq (hzero : entry.startBusNumber = 0) : functionsOf (List.range 256) =
    entry.functions ++
      functionsOf ((List.range (255 - entry.endBusNumber.toNat)).map
        (entry.endBusNumber.toNat + 1 + ·)) := by
  have hend := entry.endBusNumber.isLt
  have hrange : List.range 256 = List.range (entry.endBusNumber.toNat + 1) ++
      (List.range (255 - entry.endBusNumber.toNat)).map (entry.endBusNumber.toNat + 1 + ·) := by
    rw [← List.range_add]
    exact congrArg List.range (by omega)
  have hbuses : (List.range 256).filter (fun bus =>
      entry.startBusNumber.toNat ≤ bus ∧ bus ≤ entry.endBusNumber.toNat) =
        List.range (entry.endBusNumber.toNat + 1) := by
    rw [hrange, List.filter_append, List.filter_eq_self.mpr, List.filter_eq_nil_iff.mpr,
      List.append_nil]
    · intro bus hbus
      obtain ⟨k, -, rfl⟩ := List.mem_map.mp hbus
      simp
      omega
    · intro bus hbus
      have hle := List.mem_range.mp hbus
      rw [hzero]
      simp
      omega
  rw [McfgEntry.functions, hbuses, hrange, functionsOf, List.flatMap_append]
  rfl

/-! ## When the search is right -/

/-- The range starts with bus 0; it is that of all buses, or a function in it
passes the test of the loop; and the first function in it that passes the test
or is what is wanted does and is both. (Or else almost all addresses are
mapped for a range of no buses, and nothing at all passes the test.) -/
def Searchable (entry : McfgEntry) (memory : Word → Word32) (wanted : Wanted) : Prop :=
  let passes := (pcieInit entry).matches memory wanted
  let has := (pcieInit entry).Has memory wanted
  entry.FromZero ∧ (entry.endBusNumber = 255 ∨ ∃ f ∈ entry.functions, passes f) ∧
      (∀ f, entry.functions.find? (fun f => passes f || has f) = some f → passes f ∧ has f) ∨
    entry.Wraps ∧ ∀ f ∈ functionsOf (List.range 256), ¬passes f

variable {memory : Word → Word32} {wanted : Wanted}

theorem roundReads_mapped_iff (hzero : entry.startBusNumber = 0)
    (hf : f ∈ functionsOf (List.range 256)) :
    (entry.FromZero ∧ f.bus ≤ entry.endBusNumber.toNat) ↔
      ∀ a ∈ (pcieInit entry).roundReads f, (pcieInit entry).Mapped a := by
  have haddress := mapped_iff_of_zero hzero hf (by decide : pciConfigAddress.toNat + 4 ≤ 4096)
  have hdata := mapped_iff_of_zero hzero hf (by decide : pciConfigData.toNat + 4 ≤ 4096)
  simp only [Pcie.roundReads, List.forall_mem_cons, haddress, hdata]
  simp

/-- The search of a range from bus 0 on stays in what is mapped when it ends
on the buses of the range. -/
theorem reads_iff_of_zero (hzero : entry.startBusNumber = 0) :
    (∀ a ∈ (pcieLocateDevice (pcieInit entry) memory wanted).1, (pcieInit entry).Mapped a) ↔
      entry.FromZero ∧ (entry.endBusNumber = 255 ∨
        ∃ f ∈ entry.functions, (pcieInit entry).matches memory wanted f) := by
  have hend := entry.endBusNumber.isLt
  have hinside (f : Function) (hf : f ∈ entry.functions) : f.bus ≤ entry.endBusNumber.toNat := by
    have hbus := (mem_functionsOf.mp hf).1
    simp at hbus
    exact hbus.2.2
  have hbehind (f : Function) (hf : f ∈ functionsOf
      ((List.range (255 - entry.endBusNumber.toNat)).map (entry.endBusNumber.toNat + 1 + ·))) :
      entry.endBusNumber.toNat < f.bus ∧ f.bus < 256 := by
    obtain ⟨k, hk, heq⟩ := List.mem_map.mp (mem_functionsOf.mp hf).1
    have hlt := List.mem_range.mp hk
    omega
  rw [pcieLocateDevice, search_reads_iff fun f hf => roundReads_mapped_iff hzero hf,
    range_256_eq hzero, looked_append]
  have hfirst : (⟨0, 0, 0⟩ : Function) ∈ entry.functions := by
    rw [McfgEntry.functions, mem_functionsOf, hzero]
    simp
  by_cases hfound : ∃ f ∈ entry.functions, (pcieInit entry).matches memory wanted f
  · rw [if_pos (List.find?_isSome.mpr hfound)]
    constructor
    · intro h
      obtain ⟨f, hf⟩ := List.exists_mem_of_ne_nil _ (looked_ne_nil (List.ne_nil_of_mem hfirst))
      exact ⟨(h f hf).1, .inr hfound⟩
    · exact fun h f hf => ⟨h.1, hinside f (looked_subset hf)⟩
  · rw [if_neg (mt List.find?_isSome.mp hfound)]
    constructor
    · intro h
      refine ⟨(h _ (List.mem_append_left _ hfirst)).1, .inl ?_⟩
      by_contra hnot
      -- there is a next bus, and it is looked at
      have hlt : entry.endBusNumber.toNat < 255 := by
        have hne : entry.endBusNumber.toNat ≠ 255 := fun h => hnot (BitVec.eq_of_toNat_eq h)
        omega
      have hnext : (⟨entry.endBusNumber.toNat + 1, 0, 0⟩ : Function) ∈ functionsOf
          ((List.range (255 - entry.endBusNumber.toNat)).map
            (entry.endBusNumber.toNat + 1 + ·)) :=
        mem_functionsOf.mpr ⟨List.mem_map.mpr ⟨0, List.mem_range.mpr (by omega), rfl⟩,
          Nat.zero_lt_succ _, Nat.zero_lt_succ _⟩
      obtain ⟨f, hf⟩ := List.exists_mem_of_ne_nil _ (looked_ne_nil (List.ne_nil_of_mem hnext))
      have hbehind := hbehind f (looked_subset hf)
      have hbus := (h f (List.mem_append_right _ hf)).2
      omega
    · rintro ⟨hfrom, hall | hex⟩ f hf
      · refine ⟨hfrom, ?_⟩
        rcases List.mem_append.mp hf with hf | hf
        · exact hinside f hf
        · have hbehind := hbehind f (looked_subset hf)
          have h255 : entry.endBusNumber.toNat = 255 := congrArg BitVec.toNat hall
          omega
      · exact absurd hex hfound

/-- The search of a range from bus 0 on, once it is right about what it
reads, finds what a search of the range finds. -/
theorem result_of_zero (hzero : entry.startBusNumber = 0)
    (h : entry.endBusNumber = 255 ∨
      ∃ f ∈ entry.functions, (pcieInit entry).matches memory wanted f) :
    (pcieLocateDevice (pcieInit entry) memory wanted).2 =
      entry.functions.find? ((pcieInit entry).matches memory wanted) := by
  rw [pcieLocateDevice, search_eq, range_256_eq hzero]
  show List.find? _ (_ ++ _) = _
  rw [List.find?_append]
  rcases h with hall | hex
  · rw [hall]
    exact Option.or_none
  · obtain ⟨f, hf⟩ := Option.isSome_iff_exists.mp (List.find?_isSome.mpr hex)
    rw [hf]
    rfl

theorem functionsOf_head : (functionsOf (List.range 256)).head? = some ⟨0, 0, 0⟩ := by
  decide +kernel

/-- The first word that is read. -/
theorem first_mem_reads : (pcieInit entry).ecamAddress ⟨0, 0, 0⟩ pciConfigAddress ∈
    (pcieLocateDevice (pcieInit entry) memory wanted).1 := by
  obtain ⟨rest, hrest⟩ := List.head?_eq_some_iff.mp functionsOf_head
  rw [pcieLocateDevice, search_eq, hrest]
  exact List.mem_flatMap.mpr ⟨_, head_mem_looked, List.mem_cons_self⟩

end

end ZOs.Pci
