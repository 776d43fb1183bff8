import Mathlib.Logic.Function.Basic
import ZOs.Lib.Run

/-!
# The HID drivers

`usb_hid_keyboard.c` and `usb_hid_mouse.c`. Either driver keeps one device
and one endpoint, and a flag that says whether a transfer is under way. The
flag is set by the probe and by the poll and cleared by the callback; the
input thread polls both drivers whether a device was found or not.

The USB layer below is what it answers: whether a configuration was set, an
endpoint configured, a transfer taken, and which transfers complete while
events are polled. Each of these can come out either way at any time. What
the reports say goes to the input devices.
-/

namespace ZOs.Usb.Hid

open Runs

/-! ## State -/

inductive Kind
  | keyboard
  | mouse
  deriving DecidableEq

/-- A report with the cycle bit that the driver adds. -/
structure Report where
  data : List (BitVec 8)
  cycleBit : Bool

/-- `sizeof(g_latest_report) - 1`: what the device sends. -/
def Kind.reportLength : Kind → Nat
  | .keyboard => 8
  | .mouse => 4

variable {D E : Type}

/-- The globals of a driver, with pointers to devices `D` and endpoints `E`;
`none` is NULL. -/
structure Driver (D E : Type) where
  latestReport : Report
  endpoint : Option E
  device : Option D
  latestReportValid : Bool
  requestInFlight : Bool
  requestCycleBit : Bool

/-- A transfer as it is handed to `xhci_transfer`. -/
structure Transfer (D E : Type) where
  device : Option D
  endpoint : Option E
  transferLength : Nat
  deriving DecidableEq

/-- Both drivers, with the transfers of each whose callback has not been
called, and the endpoints that a successful probe has configured. -/
structure System (D E : Type) where
  driver : Kind → Driver D E
  outstanding : Kind → List (Transfer D E)
  configured : List (Kind × D × E)

/-- The globals before any device is found. -/
def Driver.zero (k : Kind) : Driver D E :=
  ⟨⟨List.replicate k.reportLength 0, false⟩, none, none, false, false, false⟩

def start : System D E := ⟨Driver.zero, fun _ => [], []⟩

def System.setDriver (s : System D E) (k : Kind) (d : Driver D E) : System D E :=
  { s with driver := Function.update s.driver k d }

/-! ## Functions -/

/-- `usb_hid_keyboard_transfer_callback` and its twin, up to the events that
are emitted; no data is a completion that is no success. -/
def transferCallback (k : Kind) (data : Option (List (BitVec 8))) (d : Driver D E) : Driver D E :=
  let d := { d with requestInFlight := false }
  match data with
  | none => d
  | some data =>
    { d with
      latestReport := ⟨data.take k.reportLength, d.requestCycleBit⟩
      latestReportValid := true
      requestCycleBit := !d.requestCycleBit }

/-- The event of one of the transfers of a driver. -/
structure Completion where
  kind : Kind
  index : Nat
  data : Option (List (BitVec 8))

/-- `xhci_poll_events` comes to the event of a transfer. -/
def System.complete (s : System D E) (c : Completion) : Option (System D E) :=
  if c.index < (s.outstanding c.kind).length then
    some { s with
      driver := Function.update s.driver c.kind (transferCallback c.kind c.data (s.driver c.kind))
      outstanding := Function.update s.outstanding c.kind
        ((s.outstanding c.kind).eraseIdx c.index) }
  else none

def System.completeAll : System D E → List Completion → Option (System D E)
  | s, [] => some s
  | s, c :: cs => (s.complete c).bind fun s => s.completeAll cs

/-- A transfer that `xhci_transfer` has taken, and the flag. -/
def System.submit (s : System D E) (k : Kind) : System D E :=
  let transfer := ⟨(s.driver k).device, (s.driver k).endpoint, k.reportLength⟩
  { s.setDriver k { s.driver k with requestInFlight := true } with
    outstanding := Function.update s.outstanding k (s.outstanding k ++ [transfer]) }

/-- What the USB layer answers to a probe: the transfers that complete while
`usb_set_configuration` waits for its own, and whether each call succeeds. -/
structure ProbeAnswers where
  completions : List Completion
  setConfiguration : Bool
  configureEndpoint : Bool
  transfer : Bool

/-- The probe of an interface whose first setting has this many endpoints,
and this one as the first. -/
def probe (k : Kind) (device : D) (numEndpoints : Nat) (endpoint : E) (answers : ProbeAnswers)
    (s : System D E) : Option (Int × System D E) :=
  (s.completeAll answers.completions).map fun s =>
    if !answers.setConfiguration then (-1, s)
    else if numEndpoints ≠ 1 then (-1, s)
    else
      let s := s.setDriver k { s.driver k with device := some device, endpoint := some endpoint }
      if !answers.configureEndpoint then (-1, s)
      else if !answers.transfer then (-1, s)
      else (0, { s.submit k with configured := (k, device, endpoint) :: s.configured })

/-- The poll, where `xhci_transfer` takes the transfer or not. -/
def poll (k : Kind) (transfer : Bool) (s : System D E) : Int × System D E :=
  if (s.driver k).requestInFlight then (0, s)
  else if !transfer then (-1, s)
  else (0, s.submit k)

def usbHidKeyboardProbe (device : D) (numEndpoints : Nat) (endpoint : E) (answers : ProbeAnswers)
    (s : System D E) : Option (Int × System D E) :=
  probe .keyboard device numEndpoints endpoint answers s

def usbHidMouseProbe (device : D) (numEndpoints : Nat) (endpoint : E) (answers : ProbeAnswers)
    (s : System D E) : Option (Int × System D E) :=
  probe .mouse device numEndpoints endpoint answers s

def usbHidKeyboardPoll (transfer : Bool) (s : System D E) : Int × System D E :=
  poll .keyboard transfer s

def usbHidMousePoll (transfer : Bool) (s : System D E) : Int × System D E :=
  poll .mouse transfer s

/-- One round of `input_kernel_thread_entry`. -/
def inputThreadRound (completions : List Completion) (mouse keyboard : Bool) (s : System D E) :
    Option (System D E) :=
  (s.completeAll completions).map fun s =>
    (usbHidKeyboardPoll keyboard (usbHidMousePoll mouse s).2).2

/-! ## Runs -/

inductive Action (D E : Type)
  | probe (k : Kind) (device : D) (numEndpoints : Nat) (endpoint : E) (answers : ProbeAnswers)
  | poll (k : Kind) (transfer : Bool)
  | complete (c : Completion)

def exec (s : System D E) : Action D E → Option (System D E)
  | .probe .keyboard device numEndpoints endpoint answers =>
    (usbHidKeyboardProbe device numEndpoints endpoint answers s).map Prod.snd
  | .probe .mouse device numEndpoints endpoint answers =>
    (usbHidMouseProbe device numEndpoints endpoint answers s).map Prod.snd
  | .poll .keyboard transfer => some (usbHidKeyboardPoll transfer s).2
  | .poll .mouse transfer => some (usbHidMousePoll transfer s).2
  | .complete c => s.complete c

def Step (s : System D E) (a : Action D E) (s' : System D E) : Prop := exec s a = some s'

/-- The transfer goes through an endpoint that a successful probe of the
driver has configured. -/
def Ready (s : System D E) (k : Kind) (transfer : Transfer D E) : Prop :=
  ∃ device endpoint, transfer.device = some device ∧ transfer.endpoint = some endpoint ∧
    (k, device, endpoint) ∈ s.configured

/-- After the action neither driver has more than one transfer under way,
and what a poll has submitted is ready. -/
def Safe (s : System D E) (a : Action D E) : Prop :=
  ∀ s', exec s a = some s' → (∀ k, (s'.outstanding k).length ≤ 1) ∧
    ∀ k accepted transfer, a = .poll k accepted →
      s'.outstanding k = s.outstanding k ++ [transfer] → Ready s k transfer

/-- The answers with which a probe comes to its end. -/
def Succeeds (numEndpoints : Nat) (answers : ProbeAnswers) : Prop :=
  answers.setConfiguration = true ∧ numEndpoints = 1 ∧ answers.configureEndpoint = true ∧
    answers.transfer = true

/-- A probe that succeeds finds its driver idle, or one of the completions it
waits through is the driver's; a poll that submits finds a device and an
endpoint that a successful probe has left. -/
def Orderly (s : System D E) : Action D E → Prop
  | .probe k _ numEndpoints _ answers => Succeeds numEndpoints answers →
      (s.driver k).requestInFlight = false ∨ ∃ c ∈ answers.completions, c.kind = k
  | .poll k transfer => transfer = true → (s.driver k).requestInFlight = false →
      ∃ device endpoint, (s.driver k).device = some device ∧
        (s.driver k).endpoint = some endpoint ∧ (k, device, endpoint) ∈ s.configured
  | .complete _ => True

/-- The flag says whether a transfer is under way. -/
def Inv (s : System D E) : Prop :=
  ∀ k, (s.outstanding k).length = if (s.driver k).requestInFlight = true then 1 else 0

section
variable {s s' : System D E} {k : Kind} {c : Completion} {cs : List Completion} {device : D}
  {endpoint : E} {numEndpoints : Nat} {answers : ProbeAnswers} {transfer : Bool}
  {r : Int × System D E}

/-! ## What the functions do -/

/-- Only the flag of `k` and its transfers count for the invariant. -/
theorem Inv.length_le (hi : Inv s) (k : Kind) : (s.outstanding k).length ≤ 1 := by
  rw [hi k]
  split <;> simp

theorem transferCallback_idle {data : Option (List (BitVec 8))} {d : Driver D E} :
    (transferCallback k data d).requestInFlight = false := by
  cases data <;> rfl

theorem Inv.complete (hi : Inv s) (h : s.complete c = some s') : Inv s' ∧
    ∀ k, (s'.driver k).requestInFlight = true ↔
      (s.driver k).requestInFlight = true ∧ c.kind ≠ k := by
  unfold System.complete at h
  split at h
  · rename_i hlt
    cases h
    have hone := hi c.kind
    have hlen := hi.length_le c.kind
    constructor
    · intro k
      by_cases hk : k = c.kind
      · subst hk
        simp [transferCallback_idle, List.length_eraseIdx, hlt]
        omega
      · simp [Function.update_of_ne hk, hi k]
    · intro k
      by_cases hk : k = c.kind
      · subst hk
        simp [transferCallback_idle]
      · simp [Function.update_of_ne hk, Ne.symm hk]
  · cases h

/-- After some completions, the drivers they were for are idle. -/
theorem Inv.completeAll (hi : Inv s) (h : s.completeAll cs = some s') : Inv s' ∧
    ∀ k, (s'.driver k).requestInFlight = true ↔
      (s.driver k).requestInFlight = true ∧ ∀ c ∈ cs, c.kind ≠ k := by
  induction cs generalizing s with
  | nil =>
    cases h
    exact ⟨hi, fun k => by simp⟩
  | cons c cs ih =>
    obtain ⟨s₁, hc, hrest⟩ := Option.bind_eq_some_iff.mp h
    obtain ⟨hi₁, hflag₁⟩ := hi.complete hc
    obtain ⟨hi', hflag⟩ := ih hi₁ hrest
    refine ⟨hi', fun k => ?_⟩
    rw [hflag, hflag₁, List.forall_mem_cons, and_assoc]

/-- A transfer more for `k`, and the flag. -/
theorem submit_outstanding (j : Kind) : (s.submit k).outstanding j =
    if j = k then s.outstanding k ++ [⟨(s.driver k).device, (s.driver k).endpoint, k.reportLength⟩]
    else s.outstanding j := Function.update_apply ..

theorem submit_inFlight (j : Kind) : ((s.submit k).driver j).requestInFlight =
    if j = k then true else (s.driver j).requestInFlight := by
  show (Function.update s.driver k _ j).requestInFlight = _
  rw [Function.update_apply]
  split <;> rfl

theorem Inv.submit (hi : Inv s) (hidle : (s.driver k).requestInFlight = false) :
    Inv (s.submit k) := by
  intro j
  rw [submit_outstanding, submit_inFlight]
  by_cases hj : j = k
  · subst hj
    simp [hi j, hidle]
  · simp [hj, hi j]

/-- Storing the device and the endpoint leaves the flags alone. -/
theorem Inv.store (hi : Inv s) : Inv (s.setDriver k
    { s.driver k with device := some device, endpoint := some endpoint }) := by
  intro j
  show (s.outstanding j).length = if (Function.update s.driver k _ j).requestInFlight = true
    then 1 else 0
  rw [hi j]
  by_cases hj : j = k
  · rw [hj, Function.update_self]
  · rw [Function.update_of_ne hj]

/-- A probe that fails leaves the transfers and the flags as they are after
the completions. -/
theorem probe_failed (hi : Inv s) (hcs : s.completeAll answers.completions = some s')
    (hfail : ¬ Succeeds numEndpoints answers)
    (hcall : probe k device numEndpoints endpoint answers s = some r) : Inv r.2 := by
  have hi' := (hi.completeAll hcs).1
  unfold probe at hcall
  rw [hcs, Option.map_some, Option.some.injEq] at hcall
  subst hcall
  unfold Succeeds at hfail
  split
  · exact hi'
  split
  · exact hi'
  dsimp only
  split
  · exact hi'.store
  split
  · exact hi'.store
  · simp_all

/-- A probe that succeeds submits a transfer through its own endpoint. -/
theorem probe_succeeded (hcs : s.completeAll answers.completions = some s')
    (hok : Succeeds numEndpoints answers)
    (hcall : probe k device numEndpoints endpoint answers s = some r) :
    r.2 = { (s'.setDriver k { s'.driver k with device := some device, endpoint := some endpoint
      }).submit k with configured := (k, device, endpoint) :: s'.configured } := by
  obtain ⟨hset, rfl, hconfigure, htransfer⟩ := hok
  unfold probe at hcall
  rw [hcs, Option.map_some, Option.some.injEq] at hcall
  subst hcall
  simp [hset, hconfigure, htransfer, System.setDriver, System.submit]

theorem exec_probe : exec s (.probe k device numEndpoints endpoint answers) =
    (probe k device numEndpoints endpoint answers s).map Prod.snd := by
  cases k <;> rfl

theorem exec_poll : exec s (.poll k transfer) = some (poll k transfer s).2 := by
  cases k <;> rfl

/-- A poll that does not submit does nothing. -/
theorem poll_idle (h : ¬ ((s.driver k).requestInFlight = false ∧ transfer = true)) :
    (poll k transfer s).2 = s := by
  unfold poll
  split
  · rfl
  · split
    · rfl
    · simp_all

theorem poll_submits (hidle : (s.driver k).requestInFlight = false) :
    (poll k true s).2 = s.submit k := by
  unfold poll
  simp [hidle]

/-! ## Single actions -/

/-- Where a probe comes from and what it leads to. -/
theorem Step.probe (hstep : Step s (.probe k device numEndpoints endpoint answers) s') :
    ∃ r s₁, probe k device numEndpoints endpoint answers s = some r ∧ r.2 = s' ∧
      s.completeAll answers.completions = some s₁ := by
  unfold Step at hstep
  rw [exec_probe, Option.map_eq_some_iff] at hstep
  obtain ⟨r, hcall, hr⟩ := hstep
  have hcompletions := hcall
  unfold Hid.probe at hcompletions
  obtain ⟨s₁, hcs, _⟩ := Option.map_eq_some_iff.mp hcompletions
  exact ⟨r, s₁, hcall, hr, hcs⟩

/-- An orderly action keeps the flags right. -/
theorem Inv.step (hi : Inv s) {a : Action D E} (horderly : Orderly s a) (hstep : Step s a s') :
    Inv s' := by
  cases a with
  | probe k device numEndpoints endpoint answers =>
    obtain ⟨r, s₁, hcall, rfl, hcs⟩ := hstep.probe
    by_cases hok : Succeeds numEndpoints answers
    · obtain ⟨hi₁, hflag⟩ := hi.completeAll hcs
      rw [probe_succeeded hcs hok hcall]
      have hidle : (s₁.driver k).requestInFlight = false := by
        rw [Bool.eq_false_iff, ne_eq, hflag]
        rintro ⟨hbusy, hnone⟩
        rcases horderly hok with hidle | ⟨c, hc, hk⟩
        · rw [hidle] at hbusy
          cases hbusy
        · exact hnone c hc hk
      apply hi₁.store.submit
      show (Function.update s₁.driver k _ k).requestInFlight = false
      rw [Function.update_self]
      exact hidle
    · exact probe_failed hi hcs hok hcall
  | poll k transfer =>
    unfold Step at hstep
    rw [exec_poll, Option.some.injEq] at hstep
    subst hstep
    by_cases hsubmit : (s.driver k).requestInFlight = false ∧ transfer = true
    · obtain ⟨hidle, rfl⟩ := hsubmit
      rw [poll_submits hidle]
      exact hi.submit hidle
    · rw [poll_idle hsubmit]
      exact hi
  | complete c => exact (hi.complete hstep).1

theorem safe_of_step {a : Action D E} (hstep : Step s a s') : Safe s a ↔
    (∀ k, (s'.outstanding k).length ≤ 1) ∧ ∀ k accepted transfer, a = .poll k accepted →
      s'.outstanding k = s.outstanding k ++ [transfer] → Ready s k transfer := by
  constructor
  · exact fun hsafe => hsafe s' hstep
  · intro hsafe s₁ hs₁
    rw [hstep, Option.some.injEq] at hs₁
    rwa [← hs₁]

/-- An action is safe exactly if it is orderly. -/
theorem safe_iff_orderly (hi : Inv s) {a : Action D E} (hstep : Step s a s') :
    Safe s a ↔ Orderly s a := by
  rw [safe_of_step hstep]
  cases a with
  | probe k device numEndpoints endpoint answers =>
    obtain ⟨r, s₁, hcall, rfl, hcs⟩ := hstep.probe
    obtain ⟨hi₁, hflag⟩ := hi.completeAll hcs
    constructor
    · intro ⟨hone, _⟩ hok
      -- with a transfer under way, the probe makes it two
      by_contra hbusy
      rw [not_or, not_exists, Bool.not_eq_false] at hbusy
      have hbusy₁ := (hflag k).mpr ⟨hbusy.1, fun c hc hk => hbusy.2 c ⟨hc, hk⟩⟩
      have hlen := hone k
      rw [probe_succeeded hcs hok hcall] at hlen
      change ((System.submit _ k).outstanding k).length ≤ 1 at hlen
      rw [submit_outstanding, if_pos rfl, List.length_append] at hlen
      change (s₁.outstanding k).length + 1 ≤ 1 at hlen
      rw [hi₁ k, if_pos hbusy₁] at hlen
      omega
    · intro horderly
      exact ⟨(hi.step horderly hstep).length_le, fun _ _ _ heq => by cases heq⟩
  | poll k transfer =>
    have hs' := hstep
    unfold Step at hs'
    rw [exec_poll, Option.some.injEq] at hs'
    subst hs'
    by_cases hsubmit : (s.driver k).requestInFlight = false ∧ transfer = true
    · obtain ⟨hidle, rfl⟩ := hsubmit
      rw [poll_submits hidle]
      constructor
      · intro ⟨_, hready⟩ _ _
        exact hready k true _ rfl (by rw [submit_outstanding, if_pos rfl])
      · intro horderly
        refine ⟨(hi.submit hidle).length_le, ?_⟩
        intro j accepted t heq hsub
        cases heq
        rw [submit_outstanding, if_pos rfl, List.append_cancel_left_eq, List.cons.injEq] at hsub
        rw [← hsub.1]
        exact horderly rfl hidle
    · rw [poll_idle hsubmit]
      refine iff_of_true ⟨hi.length_le, ?_⟩ fun htransfer hidle => absurd ⟨hidle, htransfer⟩ hsubmit
      intro j accepted t _ hsub
      exact absurd hsub.symm (by simp)
  | complete c =>
    exact iff_of_true ⟨(hi.complete hstep).1.length_le, fun _ _ _ heq => by cases heq⟩ trivial

/-! ## Whole runs -/

theorem Inv.start : Inv (start : System D E) := fun _ => rfl

/-- **The requests of the HID drivers**: over any order of probes,
completions and polls, every action is safe exactly if every action is
orderly. -/
theorem requests_safe_iff (history : List (System D E × Action D E)) (s : System D E)
    (hrun : Run (· = start) Step history s) :
    (∀ p ∈ history, Safe p.1 p.2) ↔ ∀ p ∈ history, Orderly p.1 p.2 := by
  apply hrun.all_iff (fun _ hs => (hs ▸ Inv.start : Inv _))
  · exact fun _ _ _ hi horderly hstep => hi.step horderly hstep
  · exact fun _ _ _ hi hstep => safe_iff_orderly hi hstep

/-- Completions that are handled one after another are actions of a run. -/
theorem completeAll_run {history : List (System D E × Action D E)}
    (hrun : Run (· = start) Step history s) (h : s.completeAll cs = some s') :
    ∃ more, Run (· = start) Step (more ++ history) s' := by
  induction cs generalizing s history with
  | nil =>
    cases h
    exact ⟨[], hrun⟩
  | cons c cs ih =>
    obtain ⟨s₁, hc, hrest⟩ := Option.bind_eq_some_iff.mp h
    have hstep : Step s (.complete c) s₁ := hc
    obtain ⟨more, hmore⟩ := ih (.next hrun hstep) hrest
    exact ⟨more ++ [(s, .complete c)], by rw [List.append_assoc]; exact hmore⟩

/-- So is a round of the input thread. -/
theorem inputThreadRound_run {mouse keyboard : Bool} {history : List (System D E × Action D E)}
    (hrun : Run (· = start) Step history s)
    (h : inputThreadRound cs mouse keyboard s = some s') :
    ∃ more, Run (· = start) Step (more ++ history) s' := by
  obtain ⟨s₁, hcs, rfl⟩ := Option.map_eq_some_iff.mp h
  obtain ⟨more, hmore⟩ := completeAll_run hrun hcs
  have hmouse : Step s₁ (.poll .mouse mouse) (usbHidMousePoll mouse s₁).2 := rfl
  have hkeyboard : Step (usbHidMousePoll mouse s₁).2 (.poll .keyboard keyboard)
      (usbHidKeyboardPoll keyboard (usbHidMousePoll mouse s₁).2).2 := rfl
  exact ⟨_ :: _ :: more, .next (.next hmore hmouse) hkeyboard⟩

end

/-! ## Evaluated runs -/

/-- The first round of the input thread, without a mouse. -/
theorem mousePoll_withoutDevice :
    (∃ s, Run (· = start) Step [((start : System Nat Nat), .poll .mouse true)] s) ∧
      ¬ Safe (start : System Nat Nat) (.poll .mouse true) := by
  refine ⟨⟨_, .next (.start rfl) exec_poll⟩, fun hsafe => ?_⟩
  obtain ⟨_, _, hdevice, _⟩ := (hsafe _ exec_poll).2 .mouse true _ rfl rfl
  cases hdevice

def allTaken : ProbeAnswers := ⟨[], true, true, true⟩

/-- A keyboard is probed, sends a report and is polled. -/
theorem keyboardReport_safe : ∃ s s₁ s₂, Run (· = start) Step
      [(s₂, .poll .keyboard true), (s₁, .complete ⟨.keyboard, 0, none⟩),
        ((start : System Nat Nat), .probe .keyboard 1 1 2 allTaken)] s ∧
    Safe s₂ (.poll .keyboard true) := by
  have hrun : Run (· = start) Step
      [(_, .poll .keyboard true), (_, .complete ⟨.keyboard, 0, none⟩),
        ((start : System Nat Nat), .probe .keyboard 1 1 2 allTaken)] _ :=
    .next (.next (.next (.start rfl) rfl) rfl) exec_poll
  refine ⟨_, _, _, hrun, ?_⟩
  have hall := (requests_safe_iff _ _ hrun).mpr (by
    intro p hp
    simp only [List.mem_cons, List.not_mem_nil, or_false] at hp
    rcases hp with rfl | rfl | rfl
    · exact fun _ _ => ⟨1, 2, rfl, rfl, List.mem_cons_self⟩
    · trivial
    · exact fun _ => .inl rfl)
  exact hall _ List.mem_cons_self

end ZOs.Usb.Hid
