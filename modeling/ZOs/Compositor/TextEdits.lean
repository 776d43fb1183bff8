import ZOs.Compositor.TextInput

/-!
# Editing a text

What a sequence of calls makes of the text: what the editor of a string and
a position makes of it. The buffer grows a character too late: where the text
has one character less than the buffer, the next one is put in without growth,
and its terminator is written behind the buffer.
-/

namespace ZOs.Compositor

open Bytes Runs

/-! ## The editor of a string -/

/-- A string and a position in it. -/
structure Document where
  text : List Byte
  position : Nat

namespace Document

variable (d : Document)

/-- A character before the position. -/
def insert (c : Byte) : Document := ⟨d.text.insertIdx d.position c, d.position + 1⟩

/-- The character before the position goes. -/
def delete : Document :=
  if d.position = 0 then d else ⟨d.text.eraseIdx (d.position - 1), d.position - 1⟩

/-- To another position, if there is one. -/
def move (dx : Int) : Document :=
  let target := d.position + dx
  if 0 ≤ target ∧ target ≤ d.text.length then { d with position := target.toNat } else d

def step : Edit → Document
  | .addChar c _ => d.insert c
  | .removeChar => d.delete
  | .moveCursor dx => d.move dx.toInt

end Document

/-- The text and the cursor. -/
def TextInput.document (s : TextInput) : Document := ⟨s.contents, s.cursorIndex.toNat⟩

/-- What the edits of a history, latest first, make of the empty string. -/
def edited (history : List (TextInput × Edit)) : Document :=
  history.foldr (fun p d => d.step p.2) ⟨[], 0⟩

namespace TextInput

variable {s s' : TextInput} {e : Edit} {c : Byte} {dx : Word32} {history : List (TextInput × Edit)}

theorem length_contents : s.contents.length = s.length.toNat := by simp [contents]

/-- Where the cursor of a text below 2³¹ goes. -/
theorem moveCursor_document (hs : s.Inside) (hlen : s.length.toNat < 2 ^ 31) :
    (textInputMoveCursor s dx).2.document = s.document.move dx.toInt := by
  have hcursor := hs.cursor
  have hsum : (s.cursorIndex + dx).toNat = (s.cursorIndex.toNat + dx.toNat) % 2 ^ 32 :=
    BitVec.toNat_add ..
  have hdx := dx.isLt
  have htarget : 0 ≤ (s.cursorIndex.toNat : Int) + dx.toInt ∧
      (s.cursorIndex.toNat : Int) + dx.toInt ≤ s.length.toNat ↔
        (s.cursorIndex + dx).toNat ≤ s.length.toNat := by
    rw [hsum, BitVec.toInt_eq_toNat_cond]
    split <;> omega
  have hreached (h : (s.cursorIndex + dx).toNat ≤ s.length.toNat) :
      ((s.cursorIndex.toNat : Int) + dx.toInt).toNat = (s.cursorIndex + dx).toNat := by
    rw [hsum] at h ⊢
    rw [BitVec.toInt_eq_toNat_cond]
    split <;> omega
  simp only [Document.move, document, length_contents, htarget]
  unfold textInputMoveCursor
  split
  · rename_i hzero
    have hsame : s.cursorIndex + dx = s.cursorIndex := by
      rw [hzero]
      exact BitVec.add_zero _
    rw [hsame] at hreached ⊢
    rw [if_pos hcursor, hreached hcursor]
  split
  · -- a sum that is negative is far behind the text
    rename_i hneg
    have hfar : ¬(s.cursorIndex + dx).toNat ≤ s.length.toNat := by
      rw [BitVec.toInt_eq_toNat_cond] at hneg
      split at hneg <;> omega
    rw [if_neg hfar]
  split
  · rename_i hbehind
    rw [if_neg (Nat.not_le_of_lt hbehind)]
  · rename_i hwithin
    have hle : (s.cursorIndex + dx).toNat ≤ s.length.toNat := Nat.le_of_not_lt hwithin
    rw [if_pos hle, hreached hle]
    rfl

theorem moveCursor_inside (hs : s.Inside) : (textInputMoveCursor s dx).2.Inside := by
  unfold textInputMoveCursor
  split
  · exact hs
  split
  · exact hs
  split
  · exact hs
  · rename_i hwithin
    exact ⟨Nat.le_of_not_lt hwithin, hs.length⟩

/-- Only the cursor moves. -/
theorem moveCursor_same (s : TextInput) (dx : Word32) :
    (textInputMoveCursor s dx).2.length = s.length ∧
    (textInputMoveCursor s dx).2.text = s.text ∧
    (textInputMoveCursor s dx).2.capacity = s.capacity ∧
    (textInputMoveCursor s dx).2.accesses = s.accesses := by
  unfold textInputMoveCursor
  split
  · exact ⟨rfl, rfl, rfl, rfl⟩
  split
  · exact ⟨rfl, rfl, rfl, rfl⟩
  split
  · exact ⟨rfl, rfl, rfl, rfl⟩
  · exact ⟨rfl, rfl, rfl, rfl⟩

/-- What every call keeps, whether it writes behind the buffer or not. -/
structure Sized (s : TextInput) : Prop where
  inside : s.Inside
  capacity : 0 < s.capacity.toNat

/-- A call on a text below 2³¹ edits the document. -/
theorem exec_document (hs : s.Sized) (he : e.Supplied) (hlen : s.length.toNat < 2 ^ 31) :
    (s.exec e).Sized ∧ (s.exec e).document = s.document.step e := by
  have hcursor := hs.inside.cursor
  have hlength := hs.inside.length
  cases e with
  | addChar c malloc =>
    obtain ⟨fresh, rfl⟩ := Option.isSome_iff_exists.mp he
    obtain ⟨s', heq, hinside, hpos, hcontents, hcur⟩ :=
      addChar_spec c fresh hs.inside hs.capacity hlen
    show ((textInputAddChar s c (some fresh)).2).Sized ∧
      (textInputAddChar s c (some fresh)).2.document = _
    rw [heq]
    refine ⟨⟨hinside, hpos⟩, ?_⟩
    show (⟨s'.contents, s'.cursorIndex.toNat⟩ : Document) = _
    rw [hcontents, hcur]
    rfl
  | removeChar =>
    by_cases hzero : s.cursorIndex = 0
    · have hkeep : (textInputRemoveChar s).2 = s := by rw [textInputRemoveChar, if_pos hzero]
      show ((textInputRemoveChar s).2).Sized ∧ (textInputRemoveChar s).2.document = _
      rw [hkeep]
      refine ⟨hs, ?_⟩
      show _ = s.document.delete
      rw [Document.delete, if_pos (by show s.cursorIndex.toNat = 0; rw [hzero]; rfl)]
    · have h := removeChar_spec hs.inside hzero
      refine ⟨⟨⟨?_, ?_⟩, ?_⟩, ?_⟩
      · show (textInputRemoveChar s).2.cursorIndex.toNat ≤ (textInputRemoveChar s).2.length.toNat
        rw [h.cursor, h.length]
        omega
      · show (textInputRemoveChar s).2.length.toNat ≤ (textInputRemoveChar s).2.capacity.toNat
        rw [h.length, h.capacity]
        omega
      · show 0 < (textInputRemoveChar s).2.capacity.toNat
        rw [h.capacity]
        exact hs.capacity
      · show (⟨(textInputRemoveChar s).2.contents, (textInputRemoveChar s).2.cursorIndex.toNat⟩ :
          Document) = s.document.delete
        have hpos : ¬s.document.position = 0 := fun h => hzero (BitVec.eq_of_toNat_eq h)
        rw [h.contents, h.cursor, Document.delete, if_neg hpos]
        rfl
  | moveCursor dx =>
    refine ⟨⟨moveCursor_inside hs.inside, ?_⟩, moveCursor_document hs.inside hlen⟩
    show 0 < (textInputMoveCursor s dx).2.capacity.toNat
    rw [(moveCursor_same s dx).2.2.1]
    exact hs.capacity

theorem newTextInput_allocated (fresh : Nat → Byte) : Allocated (newTextInput fresh) :=
  ⟨fresh, 0, rfl⟩

theorem edits_exec (he : e.Supplied) : Edits s e (s.exec e) := ⟨he, rfl⟩

/-- After `text_input_alloc`: an empty text in a buffer of 128. -/
theorem allocated_spec (h : Allocated s) : s.length = 0 ∧ s.cursorIndex = 0 ∧ s.capacity = 128 ∧
    s.shiftDown = 0 ∧ s.text 0 = 0 ∧ s.InBounds := by
  obtain ⟨fresh, opened, h⟩ := h
  obtain rfl := Option.some.inj h
  refine ⟨rfl, rfl, rfl, rfl, rfl, fun a ha => ?_⟩
  obtain ⟨i, hi, rfl⟩ := List.mem_map.mp ha
  exact List.mem_range.mp hi

theorem allocated_sized (h : Allocated s) : s.Sized := by
  obtain ⟨hlen, hcur, hcap, -⟩ := allocated_spec h
  exact ⟨⟨by rw [hcur, hlen], by rw [hlen, hcap]; decide⟩, by rw [hcap]; decide⟩

/-- What an added character does is undone by removing it. -/
theorem Document.delete_insert (d : Document) :
    (d.insert c).delete = d := by
  have hpos : ¬(d.insert c).position = 0 := Nat.succ_ne_zero _
  rw [Document.delete, if_neg hpos]
  show (⟨(d.text.insertIdx d.position c).eraseIdx (d.position + 1 - 1), d.position + 1 - 1⟩ :
    Document) = d
  rw [Nat.add_sub_cancel, List.eraseIdx_insertIdx_self]

/-- A run whose texts stay below 2³¹ edits the document. -/
theorem run_document (h : Run Allocated Edits history s)
    (hlen : ∀ p ∈ history, p.1.length.toNat < 2 ^ 31) :
    s.Sized ∧ s.document = edited history := by
  induction h with
  | start hs =>
    obtain ⟨hlen, hcur, -⟩ := allocated_spec hs
    refine ⟨allocated_sized hs, ?_⟩
    show (⟨Sequences.firstValues _ _, _⟩ : Document) = ⟨[], 0⟩
    rw [hlen, hcur]
    rfl
  | next hrun hstep ih =>
    obtain ⟨hlast, hrest⟩ := List.forall_mem_cons.mp hlen
    obtain ⟨hsized, hdoc⟩ := ih hrest
    obtain ⟨hsupplied, rfl⟩ := hstep
    obtain ⟨hsized', hdoc'⟩ := exec_document hsized hsupplied hlast
    refine ⟨hsized', hdoc'.trans ?_⟩
    rw [hdoc]
    rfl

end TextInput

open TextInput

/-- The text input edits as the editor of a string does, growing keeps the
text and the cursor, and a character that is added and removed again leaves no
trace in either. -/
theorem textInput_edits {history : List (TextInput × Edit)} {s : TextInput}
    (h : Run Allocated Edits history s) (hlen : ∀ p ∈ history, p.1.length.toNat < 2 ^ 31) :
    s.document = edited history ∧ (∀ fresh, (s.grow fresh).document = s.document) ∧
      ∀ c fresh, s.length.toNat + 1 < 2 ^ 31 →
        ((s.exec (.addChar c (some fresh))).exec .removeChar).document = s.document := by
  obtain ⟨hsized, hdoc⟩ := run_document h hlen
  refine ⟨hdoc, fun fresh => ?_, fun c fresh hroom => ?_⟩
  · show (⟨(s.grow fresh).contents, s.cursorIndex.toNat⟩ : Document) = _
    rw [contents_grow]
    rfl
  · obtain ⟨hsized', hadd⟩ := exec_document (e := .addChar c (some fresh)) hsized rfl (by omega)
    have hlen' : (s.exec (.addChar c (some fresh))).length.toNat < 2 ^ 31 := by
      have hcount : (s.exec (.addChar c (some fresh))).contents.length =
          (s.contents.insertIdx s.cursorIndex.toNat c).length := congrArg (·.text.length) hadd
      rw [List.length_insertIdx_of_le_length
        (by rw [length_contents]; exact hsized.inside.cursor), length_contents,
        length_contents] at hcount
      omega
    obtain ⟨-, hremove⟩ := exec_document (e := .removeChar) hsized' trivial hlen'
    rw [hremove, hadd]
    exact Document.delete_insert _

/-- Two characters, and the second one is removed. -/
theorem twoChars_edits : let s₀ := newTextInput fun _ => 0
    let add (c : Byte) := Edit.addChar c (some fun _ => 0)
    let s₁ := s₀.exec (add 0x68)
    let s₂ := s₁.exec (add 0x69)
    (s₂.exec .removeChar).document =
      edited [(s₂, .removeChar), (s₁, add 0x69), (s₀, add 0x68)] := by
  intro s₀ add s₁ s₂
  have h : Run Allocated Edits [(s₂, .removeChar), (s₁, add 0x69), (s₀, add 0x68)]
      (s₂.exec .removeChar) :=
    .next (.next (.next (.start (newTextInput_allocated _)) (edits_exec rfl)) (edits_exec rfl))
      (edits_exec trivial)
  exact (textInput_edits h (by decide +kernel)).1

/-! ## Staying inside the buffer -/

/-- The call does not put a character into the last place of a buffer of 128:
before an added character, the text does not have 127. -/
def Edit.Fits (s : TextInput) : Edit → Prop
  | .addChar _ _ => s.length ≠ 127
  | _ => True

namespace TextInput

variable {s s' : TextInput} {e : Edit}

/-- The cursor is in the text, the text is ended in the buffer, and no access
since the first was behind the buffer of its time. -/
structure Safe (s : TextInput) : Prop where
  cursor : s.cursorIndex.toNat ≤ s.length.toNat
  length : s.length.toNat < s.capacity.toNat
  terminated : s.text s.length.toNat = 0
  inBounds : s.InBounds

theorem allocated_safe (h : Allocated s) : s.Safe := by
  obtain ⟨hlen, hcur, hcap, -, htext, hin⟩ := allocated_spec h
  refine ⟨by rw [hcur, hlen], by rw [hlen, hcap]; decide, ?_, hin⟩
  rw [hlen]
  exact htext

/-- As long as the text is in a buffer of 128, a call is safe when it fits;
then the buffer stays as it is. -/
theorem exec_safe (hs : s.Safe) (hcap : s.capacity = 128) (he : e.Supplied) :
    ((s.exec e).Safe ↔ e.Fits s) ∧ (e.Fits s → (s.exec e).capacity = 128) := by
  have hcursor := hs.cursor
  have hlength := hs.length
  have hsize : s.capacity.toNat = 128 := by rw [hcap]; rfl
  have hinside : s.Inside := ⟨hcursor, Nat.le_of_lt hlength⟩
  cases e with
  | addChar c malloc =>
    have hroom : ¬s.capacity < s.length + 1 := by
      rw [BitVec.lt_def, add_one_toNat (by omega)]
      omega
    have hput := insertChar_spec (c := c) hcursor (by omega)
    have hfits : (Edit.addChar c malloc).Fits s ↔ s.length.toNat + 1 < s.capacity.toNat := by
      show s.length ≠ 127 ↔ _
      rw [Ne, ← BitVec.toNat_inj]
      show ¬s.length.toNat = 127 ↔ _
      omega
    have hexec : s.exec (.addChar c malloc) = s.insertChar c := by
      show (textInputAddChar s c malloc).2 = _
      unfold textInputAddChar
      rw [if_neg hroom]
    rw [hexec, hfits]
    refine ⟨⟨fun h => (hput.inBounds.mp h.inBounds).1, fun h => ⟨?_, ?_, hput.terminated, ?_⟩⟩,
      fun _ => by rw [hput.capacity, hcap]⟩
    · rw [hput.cursor, hput.length]
      exact Nat.succ_le_succ hcursor
    · rw [hput.length, hput.capacity]
      exact h
    · exact hput.inBounds.mpr ⟨h, hs.inBounds⟩
  | removeChar =>
    by_cases hzero : s.cursorIndex = 0
    · have hexec : s.exec .removeChar = s := by
        show (textInputRemoveChar s).2 = s
        rw [textInputRemoveChar, if_pos hzero]
      rw [hexec]
      exact ⟨⟨fun _ => trivial, fun _ => hs⟩, fun _ => hcap⟩
    · have h : Removed s (s.exec .removeChar) := removeChar_spec hinside hzero
      refine ⟨⟨fun _ => trivial, fun _ => ⟨?_, ?_, h.terminated, h.inBounds.mpr hs.inBounds⟩⟩,
        fun _ => by rw [h.capacity, hcap]⟩
      · rw [h.cursor, h.length]
        omega
      · rw [h.length, h.capacity]
        omega
  | moveCursor dx =>
    have hmoved : (textInputMoveCursor s dx).2.Inside := moveCursor_inside hinside
    obtain ⟨hlen, htext, hcap', haccess⟩ := moveCursor_same s dx
    refine ⟨⟨fun _ => trivial, fun _ => ⟨hmoved.cursor, ?_, ?_, ?_⟩⟩, fun _ => hcap'.trans hcap⟩
    · show (textInputMoveCursor s dx).2.length.toNat < (textInputMoveCursor s dx).2.capacity.toNat
      rw [hlen, hcap']
      exact hlength
    · show (textInputMoveCursor s dx).2.text (textInputMoveCursor s dx).2.length.toNat = 0
      rw [hlen, htext]
      exact hs.terminated
    · show ∀ a ∈ (textInputMoveCursor s dx).2.accesses, _
      rw [haccess]
      exact hs.inBounds

end TextInput

/-- After every call of a run the text input is safe, exactly when no
character is added to a text of 127. -/
theorem textInput_safe_iff {history : List (TextInput × Edit)} {s : TextInput}
    (h : Run Allocated Edits history s) :
    (∀ p ∈ history, (p.1.exec p.2).Safe) ↔ ∀ p ∈ history, p.2.Fits p.1 := by
  have hstart (s : TextInput) (hs : Allocated s) : s.Safe ∧ s.capacity = 128 :=
    ⟨allocated_safe hs, (allocated_spec hs).2.2.1⟩
  have hstep (s : TextInput) (e : Edit) (s' : TextInput) (hs : s.Safe ∧ s.capacity = 128)
      (hfits : e.Fits s) (hedits : Edits s e s') : s'.Safe ∧ s'.capacity = 128 := by
    obtain ⟨hsupplied, rfl⟩ := hedits
    obtain ⟨hiff, hkeeps⟩ := exec_safe hs.1 hs.2 hsupplied
    exact ⟨hiff.mpr hfits, hkeeps hfits⟩
  have hsafe (s : TextInput) (e : Edit) (s' : TextInput) (hs : s.Safe ∧ s.capacity = 128)
      (hedits : Edits s e s') : (s.exec e).Safe ↔ e.Fits s :=
    (exec_safe hs.1 hs.2 hedits.1).1
  exact h.all_iff hstart hstep hsafe

/-- A character that is added to the empty text fits. -/
theorem oneChar_safe : let s₀ := newTextInput fun _ => 0
    let e := Edit.addChar 0x68 (some fun _ => 0)
    ∀ p ∈ [(s₀, e)], (p.1.exec p.2).Safe := by
  intro s₀ e
  have h : Run Allocated Edits [(s₀, e)] (s₀.exec e) :=
    .next (.start (newTextInput_allocated _)) (edits_exec rfl)
  refine (textInput_safe_iff h).mpr fun p hp => ?_
  obtain rfl := List.mem_singleton.mp hp
  exact (by decide : (0 : Word32) ≠ 127)

/-- A run of the calls, all supplied. -/
def TextInput.tryExec (s : TextInput) (e : Edit) : Option TextInput :=
  match e with
  | .addChar _ none => none
  | e => some (s.exec e)

/-- The terminator of a text of 128 is written behind its buffer. -/
theorem textInput_128_unsafe : ∃ history s, Run Allocated Edits history s ∧ ¬s.Safe := by
  have hstep (s : TextInput) (e : Edit) (s' : TextInput) (h : s.tryExec e = some s') :
      Edits s e s' := by
    unfold TextInput.tryExec at h
    split at h
    · cases h
    · rename_i hsupplied
      obtain rfl := Option.some.inj h
      refine edits_exec ?_
      rcases e with ⟨c, _ | fresh⟩ | _ | dx
      · exact absurd rfl (hsupplied c)
      · rfl
      · trivial
      · trivial
  obtain ⟨history, s, hrun, hbehind⟩ := Run.of_check hstep
    (newTextInput_allocated fun _ => 0)
    (List.replicate 128 (.addChar 0x61 (some fun _ => 0)))
    (fun s => s.accesses.any fun a => a.capacity ≤ a.index) (by decide +kernel)
  refine ⟨history, s, hrun, fun hsafe => ?_⟩
  obtain ⟨a, ha, hle⟩ := List.any_eq_true.mp hbehind
  exact Nat.not_lt_of_le (of_decide_eq_true hle) (hsafe.inBounds a ha)

end ZOs.Compositor
