import Mathlib.Data.List.Basic
import ZOs.Usb.TrbRing

/-!
# The rings deliver everything in order

On a ring of `n` TRBs the driver uses `n - 1` for its own, and the last one
leads back to the first. `TransferInv` ties the driver's counters, the
controller's position and the slots to the two sequences: what has been
enqueued and what has been received. On the event ring the roles change and
there is no Link TRB.
-/

namespace ZOs.Xhci

open Runs PhaseRing

/-! ## The bits of a TRB -/

theorem or_one_and_one (x : BitVec 32) : (x ||| 1) &&& 1 = 1 := by
  ext i hi
  simp
  grind

theorem clear_and_one (x : BitVec 32) : (x &&& ~~~1) &&& 1 = 0 := by
  rw [BitVec.and_assoc, show (~~~1 : BitVec 32) &&& 1 = 0#32 by decide]
  exact BitVec.and_zero

theorem or_one_clear (x : BitVec 32) : (x ||| 1) &&& ~~~1 = x &&& ~~~1 := by
  ext i hi
  simp
  grind

theorem clear_clear (x : BitVec 32) : (x &&& ~~~1) &&& ~~~1 = x &&& ~~~1 := by
  rw [BitVec.and_assoc, BitVec.and_self]

theorem or_one_shift (x : BitVec 32) : (x ||| 1) >>> 10 = x >>> 10 := by
  ext i hi
  simp

theorem clear_shift (x : BitVec 32) :
    ((x &&& ~~~1) >>> 10) &&& (0x3f : BitVec 32) = (x >>> 10) &&& (0x3f : BitVec 32) := by
  rw [BitVec.ushiftRight_and_distrib, BitVec.and_assoc,
    show ((~~~1 : BitVec 32) >>> 10) &&& (0x3f : BitVec 32) = 0x3f by decide]

theorem or_one_two (x : BitVec 32) : (x ||| 1) &&& trbLinkToggleCycleBit =
    x &&& trbLinkToggleCycleBit := by
  unfold trbLinkToggleCycleBit
  ext i hi
  simp
  grind

theorem clear_two (x : BitVec 32) : (x &&& ~~~1) &&& trbLinkToggleCycleBit =
    x &&& trbLinkToggleCycleBit := by
  rw [BitVec.and_assoc,
    show (~~~1 : BitVec 32) &&& trbLinkToggleCycleBit = trbLinkToggleCycleBit by decide]

section
variable {t : Trb} {b : BitVec 8}

/-- The cycle bit of a ring is 0 or 1. -/
theorem cycle_setCycle {lap : Nat} (h : b.toNat = phase lap) :
    (t.setCycle b).cycle = phase lap := by
  unfold Trb.setCycle Trb.cycle trbControlCycleBit
  dsimp only
  by_cases hb : b = 1
  · subst hb
    rw [if_pos rfl, or_one_and_one, ← h]
    rfl
  · rw [if_neg hb, clear_and_one, ← h]
    have hle := phase_le lap
    have hne : b.toNat ≠ 1 := fun h1 => hb (BitVec.eq_of_toNat_eq h1)
    show 0 = b.toNat
    omega

@[simp] theorem payload_setCycle : (t.setCycle b).payload = t.payload := by
  unfold Trb.setCycle Trb.payload trbControlCycleBit
  dsimp only
  congr 1
  split
  · exact or_one_clear _
  · exact clear_clear _

@[simp] theorem isLink_setCycle : (t.setCycle b).isLink = t.isLink := by
  unfold Trb.setCycle Trb.isLink Trb.isType
  dsimp only
  split
  · rw [or_one_shift]
  · rw [clear_shift]

@[simp] theorem toggles_setCycle : (t.setCycle b).toggles = t.toggles := by
  unfold Trb.setCycle Trb.toggles
  dsimp only
  split
  · rw [or_one_two]
  · rw [clear_two]

theorem flip_phase {lap : Nat} (h : b.toNat = phase lap) :
    (flip b).toNat = phase (lap + 1) := by
  rw [phase_succ, ← h]
  unfold flip
  by_cases hb : b = 0
  · subst hb
    rfl
  · have hne : b.toNat ≠ 0 := fun h0 => hb (BitVec.eq_of_toNat_eq h0)
    rw [if_neg hb, if_neg hne]
    rfl

theorem phase_toggle (lap : Nat) : (phase lap + 1) % 2 = phase (lap + 1) := by
  unfold phase
  omega

end

/-! ## The sequence of entries -/

/-- The TRBs of a sequence as they are stored, each with the phase of its
lap. -/
def storedTrb (m : Nat) (l : List Trb) (e : Nat) : Trb :=
  (l.getD e zeroTrb).setCycle (BitVec.ofNat 8 (phase (e / m)))

section
variable {m n e lap : Nat} {l : List Trb} {trb : Trb}

theorem toNat_phase (lap : Nat) : (BitVec.ofNat 8 (phase lap)).toNat = phase lap := by
  have hle := phase_le lap
  rw [BitVec.toNat_ofNat]
  omega

theorem ofNat_phase {b : BitVec 8} (h : b.toNat = phase lap) : BitVec.ofNat 8 (phase lap) = b := by
  apply BitVec.eq_of_toNat_eq
  rw [toNat_phase, h]

theorem storedTrb_new {b : BitVec 8} (h : b.toNat = phase (l.length / m)) :
    storedTrb m (l ++ [trb]) l.length = trb.setCycle b := by
  unfold storedTrb
  rw [ofNat_phase h]
  simp

theorem storedTrb_old (h : e < l.length) : storedTrb m (l ++ [trb]) e = storedTrb m l e := by
  unfold storedTrb
  simp [List.getElem?_append_left h]

theorem payload_storedTrb (h : e < l.length) : (storedTrb m l e).payload = (l[e]).payload := by
  unfold storedTrb
  rw [payload_setCycle, List.getD_eq_getElem?_getD, List.getElem?_eq_getElem h]
  rfl

/-- A write of the next entry with the cycle bit of its lap. -/
theorem window_push (trb : Trb) {slots : Nat → Trb} {b : BitVec 8}
    (h : Window m Trb.cycle slots (storedTrb m l) l.length)
    (hb : b.toNat = phase (l.length / m)) :
    Window m Trb.cycle (Function.update slots (l.length % m) (trb.setCycle b))
      (storedTrb m (l ++ [trb])) (l ++ [trb]).length := by
  rw [List.length_append]
  exact h.push (cycle_setCycle hb) (storedTrb_new hb) fun e he => storedTrb_old he

/-- What is outside the window does not matter. -/
theorem window_congr {α : Type*} {cycle : α → Nat} {slots stored : Nat → α} {E : Nat}
    (h : Window m cycle slots stored E) (slots' : Nat → α) (heq : ∀ j < m, slots' j = slots j) :
    Window m cycle slots' stored E := by
  refine ⟨h.pos, ?_, ?_, h.cycle⟩
  · intro e he hwin
    rw [heq _ (Nat.mod_lt e h.pos)]
    exact h.recent e he hwin
  · intro j hj hjm
    rw [heq j hjm]
    exact h.fresh j hj hjm

/-- What has been received, one entry more. -/
theorem received_succ {received : List Trb} (hr : received.map Trb.payload =
      (l.take received.length).map Trb.payload) (hlt : received.length < l.length)
    (htrb : trb.payload = (l[received.length]).payload) :
    (received ++ [trb]).map Trb.payload =
      (l.take (received ++ [trb]).length).map Trb.payload := by
  rw [List.length_append, List.length_singleton, List.take_add_one, List.map_append,
    List.map_append, hr, List.getElem?_eq_getElem hlt]
  simp [htrb]

end

/-! ## Transfer rings -/

/-- Driver and controller between two laps of the ring. `lap` is the lap of
the driver, `clap` that of the controller. -/
structure TransferInv (n : Nat) (s : Transfers) : Prop where
  size : 2 ≤ n
  ringSize : s.ring.ringSize = n
  linkTrb : s.ring.linkTrb = n - 1
  enqueuePtr : s.ring.enqueuePtr = s.ring.entryCount
  noLink : ∀ t ∈ s.enqueued, t.isLink = false
  behind : s.consumer.received.length ≤ s.enqueued.length
  room : s.enqueued.length ≤ s.consumer.received.length + (n - 1)
  window : Window (n - 1) Trb.cycle s.ring.slots (storedTrb (n - 1) s.enqueued) s.enqueued.length
  link : (s.ring.slots (n - 1)).isLink = true ∧ (s.ring.slots (n - 1)).toggles = true
  producer : ∃ lap, s.enqueued.length = lap * (n - 1) + s.ring.entryCount ∧
    s.ring.entryCount ≤ n - 1 ∧ (s.ring.entryCount = 0 → lap = 0) ∧
    s.ring.cycleBit.toNat = phase lap ∧ (s.ring.slots (n - 1)).cycle = phase (lap - 1)
  consumer : ∃ clap, s.consumer.received.length = clap * (n - 1) + s.consumer.position ∧
    s.consumer.position ≤ n - 1 ∧ s.consumer.expected = phase clap
  received : s.consumer.received.map Trb.payload =
    (s.enqueued.take s.consumer.received.length).map Trb.payload

section
variable {n : Nat} {s s' : Transfers} {trb : Trb} {c : Consumer}

theorem transfersInit_slots (base : AllocatedPage) (n : Nat) :
    (transfersInit base n).ring.slots =
      Function.update (fun _ => zeroTrb) (n - 1) (initialLinkTrb base) := rfl

theorem initialLinkTrb_spec (base : AllocatedPage) : (initialLinkTrb base).isLink = true ∧
    (initialLinkTrb base).toggles = true ∧ (initialLinkTrb base).cycle = 1 := by
  have hcontrol : (initialLinkTrb base).control =
    trbTypeLink ||| trbLinkToggleCycleBit ||| 0x1 := rfl
  unfold Trb.isLink Trb.isType Trb.toggles Trb.cycle
  rw [hcontrol]
  decide

theorem transfersInit_inv {base : AllocatedPage} (hn : 2 ≤ n) :
    TransferInv n (transfersInit base n) := by
  constructor
  · exact hn
  · rfl
  · rfl
  · rfl
  · simp [transfersInit]
  · exact Nat.le_refl 0
  · exact Nat.zero_le _
  · apply Window.empty (by omega)
    intro j hj
    rw [transfersInit_slots, Function.update_of_ne (by omega)]
    rfl
  · rw [transfersInit_slots, Function.update_self]
    exact ⟨(initialLinkTrb_spec base).1, (initialLinkTrb_spec base).2.1⟩
  · refine ⟨0, by simp [transfersInit, transferRingInit], Nat.zero_le _, fun _ => rfl, rfl, ?_⟩
    rw [transfersInit_slots, Function.update_self]
    exact (initialLinkTrb_spec base).2.2
  · exact ⟨0, by simp [transfersInit], Nat.zero_le _, rfl⟩
  · rfl

/-- The TRB at the controller's position is valid exactly when one is
pending, except that the Link TRB of the first lap is valid from the
start. -/
theorem TransferInv.valid_iff (h : TransferInv n s) :
    (s.ring.slots s.consumer.position).cycle = s.consumer.expected ↔
      s.consumer.received.length < s.enqueued.length ∨
        (s.consumer.position = n - 1 ∧ s.consumer.received.length = n - 1) := by
  have hsize := h.size
  have hbehind := h.behind
  have hroom := h.room
  obtain ⟨clap, hr, hpos, hexp⟩ := h.consumer
  obtain ⟨lap, he, hcount, hzero, -, hlink⟩ := h.producer
  generalize hm : n - 1 = m at *
  rw [hexp]
  rcases Nat.lt_or_ge s.consumer.position m with hlt | hge
  · -- in front of a TRB of the driver
    have hmod : s.consumer.received.length % m = s.consumer.position := by
      rw [hr, Nat.mul_add_mod', Nat.mod_eq_of_lt hlt]
    have hdiv : s.consumer.received.length / m = clap := by
      rw [hr, Nat.mul_comm, Nat.mul_add_div (by omega), Nat.div_eq_of_lt hlt, Nat.add_zero]
    have hready := h.window.ready_iff (R := s.consumer.received.length) hbehind (by omega)
    rw [hm, hmod, hdiv] at hready
    rw [hready]
    exact ⟨.inl, fun h => h.resolve_right (by omega)⟩
  · -- in front of the Link TRB
    have heq : s.consumer.position = m := by omega
    rw [heq, hlink]
    have hcounts : 0 < s.ring.entryCount := by
      by_contra hnone
      have hlap := hzero (by omega)
      rw [hlap, Nat.zero_mul] at he
      omega
    have hnext : (clap + 1) * m = clap * m + m := Nat.succ_mul clap m
    -- the driver is in the controller's lap or in the next one
    have hle : lap ≤ clap + 1 := by
      have hlt : lap * m < (clap + 2) * m := by
        rw [Nat.succ_mul (clap + 1) m]
        omega
      have := Nat.lt_of_mul_lt_mul_right hlt
      omega
    rcases Nat.lt_or_ge lap (clap + 1) with hsame | hahead
    · have hlap : lap ≤ clap := by omega
      have hmul := Nat.mul_le_mul_right m hlap
      have hall : s.enqueued.length = s.consumer.received.length := by omega
      have hcl : lap = clap := by
        by_contra hne
        have hmul := Nat.mul_le_mul_right m (show lap + 1 ≤ clap by omega)
        rw [Nat.succ_mul] at hmul
        omega
      rw [hcl]
      constructor
      · intro hphase
        refine .inr ⟨rfl, ?_⟩
        have hfirst : clap = 0 := by
          by_contra hne
          obtain ⟨k, rfl⟩ : ∃ k, clap = k + 1 := ⟨clap - 1, by omega⟩
          exact phase_ne_succ k hphase
        rw [hr, hfirst, heq, Nat.zero_mul, Nat.zero_add]
      · rintro (hlt | ⟨-, hfirst⟩)
        · omega
        · have hzero : clap * m = 0 := by omega
          have hfirst : clap = 0 := (Nat.mul_eq_zero.mp hzero).resolve_right (by omega)
          rw [hfirst]
    · have hlap : lap = clap + 1 := by omega
      rw [hlap, Nat.add_sub_cancel]
      refine iff_of_true rfl (.inl ?_)
      rw [hlap, hnext] at he
      omega

theorem transferRingEnqueue_within {r : TrbRing} (h : r.entryCount < r.ringSize - 1) :
    transferRingEnqueue r trb =
      { r with
        slots := Function.update r.slots r.enqueuePtr (trb.setCycle r.cycleBit)
        enqueuePtr := r.enqueuePtr + 1
        entryCount := r.entryCount + 1 } := by
  unfold transferRingEnqueue
  rw [if_neg (Nat.not_le.mpr h)]

theorem transferRingEnqueue_wrap {r : TrbRing} (h : r.ringSize - 1 ≤ r.entryCount) :
    transferRingEnqueue r trb =
      { r with
        slots := Function.update
          (Function.update r.slots r.linkTrb ((r.slots r.linkTrb).setCycle r.cycleBit))
          0 (trb.setCycle (flip r.cycleBit))
        cycleBit := flip r.cycleBit
        enqueuePtr := 1
        entryCount := 1 } := by
  unfold transferRingEnqueue
  rw [if_pos h]

/-- The driver writes the next TRB, into the same lap or the next one. -/
theorem TransferInv.enqueue (h : TransferInv n s) (htrb : trb.isLink = false)
    (hroom : s.enqueued.length + 1 ≤ s.consumer.received.length + (n - 1)) :
    TransferInv n
      { s with ring := transferRingEnqueue s.ring trb, enqueued := s.enqueued ++ [trb] } := by
  have hsize := h.size
  have hring := h.ringSize
  have hlinkTrb := h.linkTrb
  obtain ⟨lap, he, hcount, hzero, hcycle, hlinkCycle⟩ := h.producer
  have hnoLink : ∀ t ∈ s.enqueued ++ [trb], t.isLink = false := by
    intro t ht
    rcases List.mem_append.mp ht with ht | ht
    · exact h.noLink t ht
    · rw [List.mem_singleton.mp ht]
      exact htrb
  have hbehind : s.consumer.received.length ≤ (s.enqueued ++ [trb]).length := by
    rw [List.length_append]
    exact Nat.le_succ_of_le h.behind
  have hlength : (s.enqueued ++ [trb]).length = s.enqueued.length + 1 := by simp
  have hreceived : s.consumer.received.map Trb.payload =
      ((s.enqueued ++ [trb]).take s.consumer.received.length).map Trb.payload := by
    rw [List.take_append_of_le_length h.behind]
    exact h.received
  rcases Nat.lt_or_ge s.ring.entryCount (n - 1) with hlt | hfull
  · have hmod : s.enqueued.length % (n - 1) = s.ring.enqueuePtr := by
      rw [he, h.enqueuePtr, Nat.mul_add_mod', Nat.mod_eq_of_lt hlt]
    have hdiv : s.enqueued.length / (n - 1) = lap := by
      rw [he, Nat.mul_comm, Nat.mul_add_div (by omega), Nat.div_eq_of_lt hlt, Nat.add_zero]
    have hpush := window_push trb h.window (b := s.ring.cycleBit) (by rw [hdiv, hcycle])
    rw [hmod] at hpush
    have hkeep : Function.update s.ring.slots s.ring.enqueuePtr (trb.setCycle s.ring.cycleBit)
        (n - 1) = s.ring.slots (n - 1) := by
      rw [h.enqueuePtr]
      exact Function.update_of_ne (by omega) ..
    rw [transferRingEnqueue_within (hring ▸ hlt)]
    refine ⟨hsize, hring, hlinkTrb, congrArg (· + 1) h.enqueuePtr, hnoLink, hbehind, ?_, hpush,
      ?_, ⟨lap, ?_, hlt, fun h0 => absurd h0 (Nat.succ_ne_zero _), hcycle, ?_⟩, h.consumer,
      hreceived⟩
    · rw [hlength]
      exact hroom
    · dsimp only
      rw [hkeep]
      exact h.link
    · rw [hlength, he]
      exact Nat.add_assoc ..
    · dsimp only
      rw [hkeep]
      exact hlinkCycle
  · have heq : s.ring.entryCount = n - 1 := by omega
    have hlaps : s.enqueued.length = (lap + 1) * (n - 1) := by
      rw [he, heq, Nat.succ_mul]
    have hmod : s.enqueued.length % (n - 1) = 0 := by rw [hlaps, Nat.mul_mod_left]
    have hdiv : s.enqueued.length / (n - 1) = lap + 1 := by
      rw [hlaps, Nat.mul_div_cancel _ (by omega)]
    have hstamp := window_congr h.window (Function.update s.ring.slots s.ring.linkTrb
      ((s.ring.slots s.ring.linkTrb).setCycle s.ring.cycleBit)) (by
        intro j hj
        rw [hlinkTrb]
        exact Function.update_of_ne (by omega) ..)
    have hpush := window_push trb hstamp (b := flip s.ring.cycleBit)
      (by rw [hdiv, flip_phase hcycle])
    rw [hmod] at hpush
    have hnew : Function.update (Function.update s.ring.slots s.ring.linkTrb
        ((s.ring.slots s.ring.linkTrb).setCycle s.ring.cycleBit)) 0
        (trb.setCycle (flip s.ring.cycleBit)) (n - 1) =
          (s.ring.slots (n - 1)).setCycle s.ring.cycleBit := by
      rw [Function.update_of_ne (by omega), hlinkTrb, Function.update_self]
    rw [transferRingEnqueue_wrap (by omega)]
    refine ⟨hsize, hring, hlinkTrb, rfl, hnoLink, hbehind, ?_, hpush, ?_,
      ⟨lap + 1, ?_, by dsimp only; omega, by simp, flip_phase hcycle, ?_⟩, h.consumer, hreceived⟩
    · rw [hlength]
      exact hroom
    · dsimp only
      rw [hnew, isLink_setCycle, toggles_setCycle]
      exact h.link
    · rw [hlength, hlaps]
    · dsimp only
      rw [hnew, cycle_setCycle hcycle, Nat.add_sub_cancel]

/-- What the controller finds at its position. -/
theorem TransferInv.take_cases (h : TransferInv n s) :
    (s.consumer.received.length = s.enqueued.length ∧
      s.consumer.take? s.ring.slots = none) ∨
    (s.consumer.position = n - 1 ∧ s.consumer.take? s.ring.slots =
      some { s.consumer with position := 0, expected := (s.consumer.expected + 1) % 2 }) ∨
    (s.consumer.position < n - 1 ∧ ∃ hlt : s.consumer.received.length < s.enqueued.length,
      ∃ trb, trb.payload = (s.enqueued[s.consumer.received.length]).payload ∧
        s.consumer.take? s.ring.slots = some { s.consumer with
          position := s.consumer.position + 1
          received := s.consumer.received ++ [trb] }) := by
  have hvalid := h.valid_iff
  have hbehind := h.behind
  have hroom := h.room
  obtain ⟨clap, hr, hpos, hexp⟩ := h.consumer
  by_cases hcycle : (s.ring.slots s.consumer.position).cycle = s.consumer.expected
  · rcases Nat.lt_or_ge s.consumer.position (n - 1) with hlt | hge
    · have hpending : s.consumer.received.length < s.enqueued.length :=
        (hvalid.mp hcycle).resolve_right (by omega)
      have hmod : s.consumer.received.length % (n - 1) = s.consumer.position := by
        rw [hr, Nat.mul_add_mod', Nat.mod_eq_of_lt hlt]
      have hslot := h.window.read hpending (by omega)
      rw [hmod] at hslot
      have hnot : (s.ring.slots s.consumer.position).isLink = false := by
        rw [hslot]
        unfold storedTrb
        rw [isLink_setCycle, List.getD_eq_getElem?_getD, List.getElem?_eq_getElem hpending]
        exact h.noLink _ (List.getElem_mem hpending)
      refine .inr (.inr ⟨hlt, hpending, s.ring.slots s.consumer.position, ?_, ?_⟩)
      · rw [hslot, payload_storedTrb hpending]
      · unfold Consumer.take?
        dsimp only
        rw [if_neg (not_not_intro hcycle), hnot, if_neg Bool.false_ne_true]
    · have heq : s.consumer.position = n - 1 := by omega
      refine .inr (.inl ⟨heq, ?_⟩)
      unfold Consumer.take?
      dsimp only
      rw [if_neg (not_not_intro hcycle), heq, h.link.1, if_pos rfl, h.link.2, if_pos rfl]
  · refine .inl ⟨?_, ?_⟩
    · have hnot : ¬ s.consumer.received.length < s.enqueued.length :=
        fun hlt => hcycle (hvalid.mpr (.inl hlt))
      omega
    · unfold Consumer.take?
      dsimp only
      rw [if_pos hcycle]

/-- The controller takes a TRB, or the Link TRB. -/
theorem TransferInv.consume (h : TransferInv n s)
    (htake : s.consumer.take? s.ring.slots = some c) :
    TransferInv n { s with consumer := c } := by
  have hsize := h.size
  have hroom := h.room
  obtain ⟨clap, hr, hpos, hexp⟩ := h.consumer
  rcases h.take_cases with ⟨-, hnone⟩ | ⟨hlink, hsome⟩ | ⟨hlt, hpending, trb, htrb, hsome⟩
  · rw [hnone] at htake
    cases htake
  · rw [hsome] at htake
    cases htake
    refine ⟨h.size, h.ringSize, h.linkTrb, h.enqueuePtr, h.noLink, h.behind, h.room, h.window,
      h.link, h.producer, ⟨clap + 1, ?_, Nat.zero_le _, ?_⟩, h.received⟩
    · rw [hr, hlink, Nat.succ_mul, Nat.add_zero]
    · dsimp only
      rw [hexp, phase_toggle]
  · rw [hsome] at htake
    cases htake
    have hlength : (s.consumer.received ++ [trb]).length = s.consumer.received.length + 1 := by
      simp
    refine ⟨h.size, h.ringSize, h.linkTrb, h.enqueuePtr, h.noLink, ?_, ?_, h.window, h.link,
      h.producer, ⟨clap, ?_, hlt, hexp⟩, received_succ h.received hpending htrb⟩
    · rw [hlength]
      exact hpending
    · rw [hlength]
      show s.enqueued.length ≤ _
      omega
    · rw [hlength, hr]
      exact Nat.add_assoc ..

/-- After enough steps the controller has everything. -/
theorem TransferInv.drain (h : TransferInv n s) {k : Nat}
    (hk : 2 * (s.enqueued.length - s.consumer.received.length) +
      (if s.consumer.position = n - 1 then 1 else 0) ≤ k) :
    (drain k s).consumer.received.map Trb.payload = s.enqueued.map Trb.payload := by
  have hall : ∀ {s : Transfers}, TransferInv n s →
      s.consumer.received.length = s.enqueued.length →
      s.consumer.received.map Trb.payload = s.enqueued.map Trb.payload := by
    intro s h heq
    rw [h.received, heq, List.take_length]
  -- a TRB that is taken counts two, a Link TRB one
  induction k generalizing s with
  | zero =>
    have hbehind := h.behind
    exact hall (s := s) h (by omega)
  | succ k ih =>
    unfold Xhci.drain
    rcases h.take_cases with ⟨heq, hnone⟩ | ⟨hlink, hsome⟩ | ⟨hlt, hpending, trb, htrb, hsome⟩
    · rw [hnone]
      exact hall h heq
    · have hnext := h.consume hsome
      have hsize := h.size
      rw [hsome]
      refine ih hnext ?_
      rw [if_pos hlink] at hk
      rw [if_neg (by dsimp only; omega)]
      dsimp only
      omega
    · have hnext := h.consume hsome
      rw [hsome]
      refine ih hnext ?_
      rw [if_neg (by omega)] at hk
      dsimp only
      rw [List.length_append, List.length_singleton]
      split <;> omega

theorem TransferInv.step {a : TransferAction} (h : TransferInv n s)
    (hstep : TransferStep n s a s') : TransferInv n s' := by
  cases hstep with
  | enqueue hroom htrb => exact h.enqueue htrb hroom
  | consume htake => exact h.consume htake

end

/-! ## The event ring -/

/-- Controller and driver on the event ring. -/
structure EventInv (mmapVirtualToPhysical : Word → Option Word) (n : Nat) (s : Events) : Prop where
  ringSize : s.ring.ringSize = n
  mapped : ∀ i < n,
    (mmapVirtualToPhysical (s.ring.baseAddress + BitVec.ofNat 64 (16 * i))).isSome
  behind : s.returned.length ≤ s.written.length
  room : s.written.length ≤ s.returned.length + n
  window : Window n Trb.cycle s.ring.slots (storedTrb n s.written) s.written.length
  position : s.position = s.written.length % n
  producerCycle : s.producerCycle.toNat = phase (s.written.length / n)
  dequeuePtr : s.ring.dequeuePtr = s.returned.length % n
  entryCount : s.ring.entryCount = s.returned.length % n
  cycleBit : s.ring.cycleBit.toNat = phase (s.returned.length / n)
  returned : s.returned.map Trb.payload = (s.written.take s.returned.length).map Trb.payload

section
variable {mmapVirtualToPhysical : Word → Option Word} {n : Nat} {s s' : Events} {trb : Trb}

theorem eventsInit_inv {base : AllocatedPage} (hn : 0 < n)
    (hmapped : ∀ i < n,
      (mmapVirtualToPhysical (base.virtualAddress + BitVec.ofNat 64 (16 * i))).isSome) :
    EventInv mmapVirtualToPhysical n (eventsInit base n) where
  ringSize := rfl
  mapped := hmapped
  behind := Nat.le_refl 0
  room := Nat.zero_le _
  window :=
    have hzero : ∀ j < n, ((eventsInit base n).ring.slots j).cycle = 0 := fun _ _ => by
      show zeroTrb.cycle = 0
      decide
    Window.empty hn hzero _
  position := (Nat.zero_mod n).symm
  producerCycle := by
    show (1 : BitVec 8).toNat = phase (0 / n)
    rw [Nat.zero_div]
    rfl
  dequeuePtr := (Nat.zero_mod n).symm
  entryCount := (Nat.zero_mod n).symm
  cycleBit := by
    show (1 : BitVec 8).toNat = phase (0 / n)
    rw [Nat.zero_div]
    rfl
  returned := rfl

theorem EventInv.write (h : EventInv mmapVirtualToPhysical n s)
    (hroom : s.written.length + 1 ≤ s.returned.length + n) :
    EventInv mmapVirtualToPhysical n (s.write n trb) := by
  have hlength : (s.written ++ [trb]).length = s.written.length + 1 := by simp
  obtain ⟨hmod, hdiv⟩ := succ_mod_div h.window.pos s.written.length
  have hposition := h.position
  have hpush := window_push trb h.window h.producerCycle
  rw [← hposition] at hmod hdiv hpush
  refine ⟨h.ringSize, h.mapped, ?_, ?_, hpush, ?_, ?_, h.dequeuePtr, h.entryCount, h.cycleBit, ?_⟩
  · show _ ≤ (s.written ++ [trb]).length
    rw [hlength]
    exact Nat.le_succ_of_le h.behind
  · show (s.written ++ [trb]).length ≤ _
    rw [hlength]
    exact hroom
  · show (if s.position + 1 = n then 0 else s.position + 1) = (s.written ++ [trb]).length % n
    rw [hlength, hmod]
  · show (if s.position + 1 = n then flip s.producerCycle else s.producerCycle).toNat =
      phase ((s.written ++ [trb]).length / n)
    rw [hlength, hdiv]
    split
    · exact flip_phase h.producerCycle
    · exact h.producerCycle
  · show s.returned.map Trb.payload =
      ((s.written ++ [trb]).take s.returned.length).map Trb.payload
    rw [List.take_append_of_le_length h.behind]
    exact h.returned

theorem EventInv.advance (h : EventInv mmapVirtualToPhysical n s) :
    (eventRingAdvance s.ring).dequeuePtr = (s.returned.length + 1) % n ∧
      (eventRingAdvance s.ring).entryCount = (s.returned.length + 1) % n ∧
      (eventRingAdvance s.ring).cycleBit.toNat = phase ((s.returned.length + 1) / n) ∧
      (eventRingAdvance s.ring).ringSize = s.ring.ringSize ∧
      (eventRingAdvance s.ring).slots = s.ring.slots ∧
      (eventRingAdvance s.ring).baseAddress = s.ring.baseAddress := by
  obtain ⟨hmod, hdiv⟩ := succ_mod_div h.window.pos s.returned.length
  have hlt := Nat.mod_lt s.returned.length h.window.pos
  unfold eventRingAdvance
  dsimp only
  rw [hmod, hdiv, h.entryCount, h.ringSize, h.dequeuePtr]
  by_cases hwrap : s.returned.length % n + 1 = n
  · rw [if_pos (by omega), if_pos hwrap, if_pos hwrap]
    exact ⟨rfl, rfl, flip_phase h.cycleBit, rfl, rfl, rfl⟩
  · rw [if_neg (by omega), if_neg hwrap, if_neg hwrap]
    exact ⟨rfl, rfl, h.cycleBit, rfl, rfl, rfl⟩

/-- What `xhci_event_ring_dequeue` does: nothing is pending, or it returns
the next event. -/
theorem EventInv.dequeue_cases (h : EventInv mmapVirtualToPhysical n s) :
    (s.returned.length = s.written.length ∧
      eventRingDequeue mmapVirtualToPhysical s.ring = (-1, none, s.ring)) ∨
    ∃ hlt : s.returned.length < s.written.length, ∃ trb ring,
      trb.payload = (s.written[s.returned.length]).payload ∧
      eventRingDequeue mmapVirtualToPhysical s.ring = (0, some trb, ring) ∧
      EventInv mmapVirtualToPhysical n
        { s with ring, returned := s.returned ++ [trb] } := by
  have hbehind := h.behind
  have hready := h.window.ready_iff h.behind h.room
  rw [← h.dequeuePtr, ← h.cycleBit] at hready
  by_cases hvalid : (s.ring.slots s.ring.dequeuePtr).cycle = s.ring.cycleBit.toNat
  · have hlt := hready.mp hvalid
    refine .inr ⟨hlt, s.ring.slots s.ring.dequeuePtr, ?_⟩
    have hslot := h.window.read hlt h.room
    rw [← h.dequeuePtr] at hslot
    have hpayload : (s.ring.slots s.ring.dequeuePtr).payload =
        (s.written[s.returned.length]).payload := by
      rw [hslot, payload_storedTrb hlt]
    -- the new dequeue pointer is one of the ring, and translates
    obtain ⟨hptr, hcount, hcycle, hrest⟩ := h.advance
    have hin : (eventRingAdvance s.ring).dequeuePtr < n := by
      rw [hptr]
      exact Nat.mod_lt _ h.window.pos
    obtain ⟨physical, hphysical⟩ := Option.isSome_iff_exists.mp (h.mapped _ hin)
    refine ⟨eventRingAdvance s.ring, hpayload, ?_, ?_⟩
    · unfold eventRingDequeue eventRingHasValidTrb
      rw [if_neg (by simpa using hvalid)]
      dsimp only
      rw [hrest.2.2, hphysical]
    · have hlength : (s.returned ++ [s.ring.slots s.ring.dequeuePtr]).length =
          s.returned.length + 1 := by simp
      refine ⟨hrest.1.trans h.ringSize, ?_, ?_, ?_, ?_, h.position, h.producerCycle, ?_, ?_, ?_,
        received_succ h.returned hlt hpayload⟩
      · intro i hi
        show (mmapVirtualToPhysical ((eventRingAdvance s.ring).baseAddress + _)).isSome
        rw [hrest.2.2]
        exact h.mapped i hi
      · rw [hlength]
        exact hlt
      · rw [hlength]
        exact Nat.le_trans h.room (by omega)
      · show Window n Trb.cycle (eventRingAdvance s.ring).slots _ _
        rw [hrest.2.1]
        exact h.window
      · rw [hlength]
        exact hptr
      · rw [hlength]
        exact hcount
      · rw [hlength]
        exact hcycle
  · refine .inl ⟨?_, ?_⟩
    · have hnot := fun hlt => hvalid (hready.mpr hlt)
      omega
    · unfold eventRingDequeue eventRingHasValidTrb
      rw [if_pos (by simpa using hvalid)]

theorem EventInv.step {a : EventAction} (h : EventInv mmapVirtualToPhysical n s)
    (hstep : EventStep mmapVirtualToPhysical n s a s') : EventInv mmapVirtualToPhysical n s' := by
  cases hstep with
  | write hroom => exact h.write hroom
  | dequeue hdequeue =>
    rcases h.dequeue_cases with ⟨-, hnone⟩ | ⟨-, trb, ring, -, hsome, hinv⟩
    · cases hnone.symm.trans hdequeue
      simpa using h
    · cases hsome.symm.trans hdequeue
      exact hinv

end

/-! ## The protocol -/

/-- What holds of a transfer ring in every reachable state: what the
controller has received are the first of the TRBs enqueued, in order and
each once, and when it waits or is left alone it has them all. -/
structure TransferLaws (n : Nat) (s : Transfers) : Prop where
  in_order : s.consumer.received.map Trb.payload <+: s.enqueued.map Trb.payload
  waits : s.consumer.take? s.ring.slots = none →
    s.consumer.received.map Trb.payload = s.enqueued.map Trb.payload
  drains : (drain (2 * n) s).consumer.received.map Trb.payload = s.enqueued.map Trb.payload

/-- What holds of the event ring: the driver has got the first of the
events, and its next call reports that there is none exactly when none is
pending, and returns the next one otherwise. -/
structure EventLaws (mmapVirtualToPhysical : Word → Option Word) (s : Events) : Prop where
  in_order : s.returned.map Trb.payload <+: s.written.map Trb.payload
  none_iff : (eventRingDequeue mmapVirtualToPhysical s.ring).1 = -1 ↔
    s.returned.length = s.written.length
  next : ∀ h : s.returned.length < s.written.length, ∃ trb ring,
    eventRingDequeue mmapVirtualToPhysical s.ring = (0, some trb, ring) ∧
      trb.payload = (s.written[s.returned.length]).payload

theorem TransferInv.laws {n : Nat} {s : Transfers} (h : TransferInv n s) : TransferLaws n s where
  in_order := by
    rw [h.received]
    exact (List.take_prefix _ _).map _
  waits := by
    intro hwait
    rcases h.take_cases with ⟨heq, -⟩ | ⟨-, hsome⟩ | ⟨-, -, trb, -, hsome⟩
    · rw [h.received, heq, List.take_length]
    · cases hsome.symm.trans hwait
    · cases hsome.symm.trans hwait
  drains := by
    apply h.drain
    have hsize := h.size
    have hroom := h.room
    split <;> omega

theorem EventInv.laws {mmapVirtualToPhysical : Word → Option Word} {n : Nat} {s : Events}
    (h : EventInv mmapVirtualToPhysical n s) : EventLaws mmapVirtualToPhysical s where
  in_order := by
    rw [h.returned]
    exact (List.take_prefix _ _).map _
  none_iff := by
    rcases h.dequeue_cases with ⟨heq, hnone⟩ | ⟨hlt, trb, ring, -, hsome, -⟩
    · rw [hnone]
      exact iff_of_true rfl heq
    · rw [hsome]
      exact iff_of_false (by simp) (by omega)
  next := by
    intro hlt
    rcases h.dequeue_cases with ⟨heq, -⟩ | ⟨_, trb, ring, hpayload, hsome, -⟩
    · omega
    · exact ⟨trb, ring, hsome, hpayload⟩

/-- The ring protocol, on both kinds of rings, for every size and every
interleaving. The memory of the event ring is mapped. -/
theorem ring_protocol (mmapVirtualToPhysical : Word → Option Word) (n : Nat) (hn : 2 ≤ n)
    (base : AllocatedPage)
    (hmapped : ∀ i < n,
      (mmapVirtualToPhysical (base.virtualAddress + BitVec.ofNat 64 (16 * i))).isSome) :
    (∀ history s, Run (· = transfersInit base n) (TransferStep n) history s →
      TransferLaws n s) ∧
    (∀ history s, Run (· = eventsInit base n) (EventStep mmapVirtualToPhysical n) history s →
      EventLaws mmapVirtualToPhysical s) := by
  constructor
  · intro history s hrun
    have hinv : TransferInv n s := by
      refine hrun.invariant ?_ fun _ _ _ hinv hstep => hinv.step hstep
      rintro _ rfl
      exact transfersInit_inv hn
    exact hinv.laws
  · intro history s hrun
    have hinv : EventInv mmapVirtualToPhysical n s := by
      refine hrun.invariant ?_ fun _ _ _ hinv hstep => hinv.step hstep
      rintro _ rfl
      exact eventsInit_inv (by omega) hmapped
    exact hinv.laws

/-- A ring of two TRBs at the start of the driver's heap, after one Normal
TRB. -/
theorem small_ring_protocol : ∃ s, s.enqueued.length = 1 ∧ TransferLaws 2 s := by
  let base : AllocatedPage := ⟨0xffffffff80000000, 0x40000000⟩
  let trb : Trb := ⟨0x1000, 0, 8, 0x1 <<< 10⟩
  obtain ⟨htransfer, -⟩ := ring_protocol (fun a => some (a - 0xffffffff40000000)) 2
    (Nat.le_refl 2) base (fun _ _ => rfl)
  have hstep : TransferStep 2 (transfersInit base 2) (.enqueue trb) _ :=
    .enqueue (Nat.le_refl 1) (by decide)
  exact ⟨_, rfl, htransfer _ _ (.next (.start rfl) hstep)⟩

end ZOs.Xhci
