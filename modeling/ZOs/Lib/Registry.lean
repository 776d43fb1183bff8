import Mathlib.Data.List.Basic

/-!
# Objects under handles

A registry issues a handle for an object, may put another object under it, and
may clear it. What is under a handle follows from what happened: the last
event about the handle tells it.
-/

namespace Registries

/-- What happens to a handle. -/
inductive Event (H D : Type)
  | issue (handle : H) (object : D)
  | put (handle : H) (object : D)
  | clear (handle : H)

variable {H D : Type}

namespace Event

def handle : Event H D → H
  | .issue handle _ | .put handle _ | .clear handle => handle

/-- What the event leaves under its handle. -/
def object : Event H D → Option D
  | .issue _ object | .put _ object => some object
  | .clear _ => none

/-- The handle that is new. -/
def issues : Event H D → Option H
  | .issue handle _ => some handle
  | .put .. | .clear _ => none

end Event

/-- The handles that were issued, in their order. -/
def issued (events : List (Event H D)) : List H := events.filterMap Event.issues

theorem issued_concat (events : List (Event H D)) (e : Event H D) :
    issued (events ++ [e]) = issued events ++ e.issues.toList := by
  unfold issued
  rw [List.filterMap_append]
  cases e <;> rfl

/-- Things happen to handles that were issued only. -/
def Known (events : List (Event H D)) : Prop := ∀ e ∈ events, e.handle ∈ issued events

theorem Known.concat {events : List (Event H D)} {e : Event H D} (h : Known events)
    (he : e.handle ∈ issued (events ++ [e])) : Known (events ++ [e]) := by
  intro x hx
  rcases List.mem_append.mp hx with hold | hnew
  · rw [issued_concat]
    exact List.mem_append_left _ (h x hold)
  · rwa [List.mem_singleton.mp hnew]

variable [DecidableEq H]

/-- What is under a handle: what the last event about it left there. -/
def held (events : List (Event H D)) (handle : H) : Option D :=
  (events.reverse.find? (·.handle = handle)).bind Event.object

section
variable {events : List (Event H D)} {e : Event H D} {handle : H}

theorem held_concat (events : List (Event H D)) (e : Event H D) (handle : H) :
    held (events ++ [e]) handle = if e.handle = handle then e.object else held events handle := by
  unfold held
  rw [List.reverse_concat, List.find?_cons]
  by_cases hhandle : e.handle = handle
  · simp [hhandle]
  · simp [hhandle]

/-- An event does not change what is under other handles. -/
theorem held_concat_of_ne (hne : e.handle ≠ handle) :
    held (events ++ [e]) handle = held events handle := by
  rw [held_concat, if_neg hne]

/-- Nothing is under a handle that was never issued. -/
theorem Known.held_of_not_issued (h : Known events) (hnot : handle ∉ issued events) :
    held events handle = none := by
  unfold held
  rw [List.find?_eq_none.mpr fun e he => ?_, Option.bind_none]
  simp only [decide_eq_true_eq]
  rintro rfl
  exact hnot (h e (List.mem_reverse.mp he))

end

end Registries
