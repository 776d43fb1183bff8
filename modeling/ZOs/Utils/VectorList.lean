import ZOs.Utils.ByteVector

/-!
# The vector as a list

As long as `kmalloc` gives blocks, the vector answers as a list does, and no
access leaves its block (`vector_list`).
-/

namespace ZOs.Utils

open Runs

/-! ## Elements -/

section
variable {v v' : ByteVector} {element : List Byte} {i n : Nat}

theorem elements_length (v : ByteVector) : v.elements.length = v.size.toNat := by
  unfold ByteVector.elements
  rw [List.length_map, List.length_range]

theorem elements_getElem? (v : ByteVector) (i : Nat) :
    v.elements[i]? = if i < v.size.toNat then some (v.entry i) else none := by
  unfold ByteVector.elements
  rw [List.getElem?_map]
  split
  · rename_i hi
    rw [List.getElem?_range hi, Option.map_some]
  · rename_i hi
    rw [List.getElem?_eq_none (by rw [List.length_range]; omega), Option.map_none]

/-- An element whose bytes have not changed. -/
theorem entry_congr (hsize : v'.elementSize = v.elementSize)
    (hkept : ∀ k < v.elementSize.toNat, v'.data.bytes (i * v.elementSize.toNat + k) =
      v.data.bytes (i * v.elementSize.toNat + k)) : v'.entry i = v.entry i := by
  unfold ByteVector.entry
  rw [hsize]
  exact List.map_congr_left fun k hk => hkept k (List.mem_range.mp hk)

/-- An element whose bytes have been stored. -/
theorem entry_stored (hsize : v'.elementSize = v.elementSize)
    (hlength : element.length = v.elementSize.toNat)
    (hnew : ∀ k < v.elementSize.toNat, v'.data.bytes (i * v.elementSize.toNat + k) =
      element.getD k 0) : v'.entry i = element := by
  unfold ByteVector.entry
  rw [hsize]
  refine List.ext_getElem (by simp [hlength]) fun k hk hk' => ?_
  rw [List.getElem_map, List.getElem_range, hnew k (hlength ▸ hk'), List.getD_eq_getElem?_getD,
    List.getElem?_eq_getElem hk', Option.getD_some]

/-- Elements in front of a place have all their bytes in front of it. -/
theorem element_before {es k : Nat} (hi : i < n) (hk : k < es) : i * es + k < n * es := by
  have hle : (i + 1) * es ≤ n * es := Nat.mul_le_mul_right _ hi
  rw [Nat.succ_mul] at hle
  omega

theorem Pushed.elements (h : Pushed v element v') (hpos : 0 < v.elementSize.toNat)
    (hlength : element.length = v.elementSize.toNat) : v'.elements = v.elements ++ [element] := by
  have hsize : v'.size.toNat = v.size.toNat + 1 := by
    rw [h.size, BitVec.toNat_add]
    exact Nat.mod_eq_of_lt (h.room hpos)
  unfold ByteVector.elements
  rw [hsize, List.range_succ, List.map_append, List.map_singleton,
    entry_stored h.elementSize hlength h.new]
  refine congrArg (· ++ _) (List.map_congr_left fun i hi => ?_)
  exact entry_congr h.elementSize fun k hk =>
    h.kept _ (element_before (List.mem_range.mp hi) hk)

/-- The last element and the others. -/
theorem elements_concat (hne : v.size ≠ 0) : v.elements =
    (List.range (v.size.toNat - 1)).map v.entry ++ [v.entry (v.size.toNat - 1)] := by
  have hpos : v.size.toNat ≠ 0 := fun hzero => hne (BitVec.eq_of_toNat_eq hzero)
  have hsucc : v.size.toNat = v.size.toNat - 1 + 1 := by omega
  unfold ByteVector.elements
  rw [hsucc, List.range_succ, List.map_append, List.map_singleton, Nat.add_sub_cancel]

theorem Popped.elements (h : Popped v v') (hne : v.size ≠ 0) :
    v'.elements = v.elements.dropLast := by
  rw [elements_concat hne, List.dropLast_concat]
  unfold ByteVector.elements
  rw [h.size, pred_toNat hne]
  refine List.map_congr_left fun i hi => ?_
  exact entry_congr h.elementSize fun k hk =>
    h.kept _ (element_before (List.mem_range.mp hi) hk)

theorem Replaced.elements (h : Replaced v i element v')
    (hlength : element.length = v.elementSize.toNat) : v'.elements = v.elements.set i element := by
  refine List.ext_getElem? fun j => ?_
  rw [List.getElem?_set, elements_getElem?, elements_getElem?, elements_length, h.size]
  by_cases hj : i = j
  · subst hj
    rw [if_pos rfl, entry_stored h.elementSize hlength h.new]
  · rw [if_neg hj]
    have hsame : v'.entry j = v.entry j := by
      refine entry_congr h.elementSize fun k hk => h.kept _ ?_
      rcases Nat.lt_or_gt_of_ne hj with hlt | hgt
      · have hle : (i + 1) * v.elementSize.toNat ≤ j * v.elementSize.toNat :=
          Nat.mul_le_mul_right _ hlt
        rw [Nat.succ_mul] at hle
        exact .inr (by omega)
      · exact .inl (element_before hgt hk)
    rw [hsame]

end

/-! ## Calls that succeed -/

/-- What a caller passes: an element of its size, and memory that `kmalloc`
always has. -/
def VectorCall.Regular (elementSize : Nat) : VectorCall → Prop
  | .push element kmalloc => element.length = elementSize ∧ kmalloc ≠ none
  | .pop kmalloc => kmalloc ≠ none
  | .get _ => True
  | .set _ element => element.length = elementSize

/-- The size of the block that the call asks for does not wrap. -/
def ByteVector.ProductFits (v : ByteVector) : VectorCall → Prop
  | .push _ _ => v.capacity ≤ v.size → 2 * v.capacity.toNat * v.elementSize.toNat < 2 ^ 64
  | _ => True

/-- So for some calls, one after the other. -/
def ByteVector.ProductsFit : ByteVector → List VectorCall → Prop
  | _, [] => True
  | v, call :: calls => v.ProductFits call ∧
      ∀ answer v', v.exec call = .ok (answer, v') → v'.ProductsFit calls

section
variable {v v' : ByteVector} {call : VectorCall} {calls : List VectorCall}

/-- A call answers as the list does, and leaves what the list is then. -/
theorem ByteVector.Inv.exec (h : v.Inv) (hpos : 0 < v.elementSize.toNat)
    (hregular : call.Regular v.elementSize.toNat) (hfits : v.ProductFits call) :
    ∃ v', v.exec call = .ok ((listExec v.elements call).1, v') ∧ v'.Inv ∧
      v'.elementSize = v.elementSize ∧ v'.elements = (listExec v.elements call).2 := by
  cases call with
  | push element kmalloc =>
    obtain ⟨hlength, hsome⟩ := hregular
    obtain ⟨v', hcall, hpushed⟩ := h.push (fun hfull => ⟨hsome, hfits hfull⟩) element
    refine ⟨v', ?_, hpushed.inv, hpushed.elementSize, hpushed.elements hpos hlength⟩
    unfold ByteVector.exec
    dsimp only
    rw [hcall]
    rfl
  | pop kmalloc =>
    by_cases hne : v.size = 0
    · have hnil : v.elements = [] := by
        rw [← List.length_eq_zero_iff, elements_length, hne]
        rfl
      refine ⟨v, ?_, h, rfl, ?_⟩
      · unfold ByteVector.exec ByteVector.vectorPopBack
        dsimp only
        rw [if_pos hne, hnil]
        rfl
      · rw [hnil]
        rfl
    · obtain ⟨v', hcall, hpopped⟩ := h.pop hne fun _ => hregular
      refine ⟨v', ?_, hpopped.inv, hpopped.elementSize, hpopped.elements hne⟩
      unfold ByteVector.exec listExec
      dsimp only
      rw [hcall, elements_concat hne, List.getLast?_concat]
      rfl
  | get index =>
    refine ⟨v, ?_, h, rfl, rfl⟩
    unfold ByteVector.exec ByteVector.vectorGet listExec
    dsimp only
    rw [elements_getElem?]
    by_cases hindex : v.size ≤ index
    · have hnot : ¬index.toNat < v.size.toNat := Nat.not_lt_of_le (BitVec.le_def.mp hindex)
      rw [if_pos hindex, if_neg hnot]
      rfl
    · have hlt : index.toNat < v.size.toNat := BitVec.lt_def.mp (BitVec.not_le.mp hindex)
      rw [if_neg hindex, if_pos hlt]
      dsimp only
      rw [h.elementAt hlt]
      rfl
  | set index element =>
    unfold ByteVector.exec listExec
    dsimp only
    rw [elements_length]
    by_cases hindex : v.size ≤ index
    · have hnot : ¬index.toNat < v.size.toNat := Nat.not_lt_of_le (BitVec.le_def.mp hindex)
      refine ⟨v, ?_, h, rfl, ?_⟩
      · unfold ByteVector.vectorSet
        rw [if_pos hindex, if_neg hnot]
        rfl
      · rw [if_neg hnot]
    · have hlt : index.toNat < v.size.toNat := BitVec.lt_def.mp (BitVec.not_le.mp hindex)
      obtain ⟨v', hcall, hreplaced⟩ := h.set hlt element
      refine ⟨v', ?_, hreplaced.inv, hreplaced.elementSize, ?_⟩
      · rw [hcall, if_pos hlt]
        rfl
      · rw [if_pos hlt]
        exact hreplaced.elements hregular

theorem ByteVector.Inv.execAll (h : v.Inv) (hpos : 0 < v.elementSize.toNat)
    (hregular : ∀ call ∈ calls, call.Regular v.elementSize.toNat) (hfits : v.ProductsFit calls) :
    ∃ v', v.execAll calls = .ok ((listExecAll v.elements calls).1, v') ∧ v'.Inv ∧
      v'.elementSize = v.elementSize ∧ v'.elements = (listExecAll v.elements calls).2 := by
  induction calls generalizing v with
  | nil => exact ⟨v, rfl, h, rfl, rfl⟩
  | cons call calls ih =>
    obtain ⟨hcall, hcalls⟩ := List.forall_mem_cons.mp hregular
    obtain ⟨v₁, hexec, h₁, hsize, helements⟩ := h.exec hpos hcall hfits.1
    obtain ⟨v', hall, h', hsize', helements'⟩ := ih h₁ (hsize ▸ hpos) (hsize ▸ hcalls)
      (hfits.2 _ _ hexec)
    rw [helements] at hall helements'
    refine ⟨v', ?_, h', hsize'.trans hsize, helements'⟩
    unfold ByteVector.execAll
    rw [hexec]
    show (v₁.execAll calls >>= _) = _
    rw [hall]
    rfl

end

/-- A vector answers all calls as a list does, and holds what the list does
then; no call leaves a block, and the block has room for the capacity. -/
theorem vector_list (capacity elementSize : Word) (bytes : Nat → Byte) (v : ByteVector)
    (calls : List VectorCall) (hinit : vectorInit capacity elementSize (some bytes) = some v)
    (hpos : 0 < elementSize.toNat) (hfits : capacity.toNat * elementSize.toNat < 2 ^ 64)
    (hregular : ∀ call ∈ calls, call.Regular elementSize.toNat) (hproducts : v.ProductsFit calls) :
    ∃ v', v.execAll calls = .ok ((listExecAll [] calls).1, v') ∧
      v'.elements = (listExecAll [] calls).2 ∧ 1 ≤ v'.capacity.toNat ∧
      v'.size.toNat ≤ v'.capacity.toNat ∧
      v'.data.size = v'.capacity.toNat * v'.elementSize.toNat := by
  obtain ⟨h, hsize, hempty⟩ := vectorInit_inv hinit hfits
  have hnil : v.elements = [] := by
    rw [← List.length_eq_zero_iff, elements_length, hempty]
    rfl
  obtain ⟨v', hall, h', hsize', helements⟩ := h.execAll (hsize ▸ hpos) (hsize ▸ hregular) hproducts
  rw [hnil] at hall helements
  have hpos' : 0 < v'.elementSize.toNat := by rwa [hsize', hsize]
  refine ⟨v', hall, helements, ?_, Nat.le_of_mul_le_mul_right h'.held hpos', h'.block⟩
  refine Nat.le_of_mul_le_mul_right (le_of_eq_of_le ?_ h'.room) hpos'
  exact Nat.one_mul _

/-- One element of a byte in a vector that starts with room for one. -/
theorem vector_list_one : ∃ v', ((⟨⟨1, fun _ => 0⟩, 0, 1, 1⟩ : ByteVector).execAll
    [.push [7] (some fun _ => 0), .get 0, .pop (some fun _ => 0), .get 0]) =
      .ok ([⟨0, none⟩, ⟨0, some [7]⟩, ⟨0, some [7]⟩, ⟨-1, none⟩], v') := by
  obtain ⟨v', hall, -⟩ := vector_list 1 1 (fun _ => 0) _
    [.push [7] (some fun _ => 0), .get 0, .pop (some fun _ => 0), .get 0] rfl (by decide)
      (by decide)
    (by simp [VectorCall.Regular])
    ⟨fun h => absurd h (by decide), fun _ _ _ => ⟨trivial, fun _ _ _ => ⟨trivial, fun _ _ _ =>
      ⟨trivial, fun _ _ _ => trivial⟩⟩⟩⟩
  exact ⟨v', hall⟩

end ZOs.Utils
