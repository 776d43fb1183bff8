import Mathlib.Data.List.Basic

/-!
# Layers of paint

A layer says what becomes of the color of each point. Layers are painted one
over the other; what is seen at a point is what the topmost layer that covers
it makes of it, whatever is below, if that layer is opaque there.
-/

namespace Layers

variable {P C : Type*}

/-- What becomes of the color of a point. -/
abbrev Layer (P C : Type*) := P → C → C

/-- One layer after the other, the lowest first. -/
def paint (layers : List (Layer P C)) : Layer P C :=
  fun p color => layers.foldl (fun color layer => layer p color) color

/-- The colors of the points of a region change. -/
def cover (region : P → Prop) [DecidablePred region] (change : Layer P C) : Layer P C :=
  fun p color => if region p then change p color else color

/-- The points of a region get colors of their own. -/
def fill (region : P → Prop) [DecidablePred region] (colors : P → C) : Layer P C :=
  cover region fun p _ => colors p

/-- The layer leaves the point as it is. -/
def Transparent (layer : Layer P C) (p : P) : Prop := ∀ color, layer p color = color

variable {p : P} {color : C} {layer : Layer P C} {layers below above : List (Layer P C)}

@[simp] theorem paint_nil : paint ([] : List (Layer P C)) p color = color := rfl

@[simp] theorem paint_cons : paint (layer :: layers) p color = paint layers p (layer p color) := rfl

@[simp] theorem paint_append :
    paint (below ++ above) p color = paint above p (paint below p color) :=
  List.foldl_append

theorem paint_transparent (h : ∀ layer ∈ layers, Transparent layer p) :
    paint layers p color = color := by
  induction layers generalizing color with
  | nil => rfl
  | cons layer layers ih =>
    obtain ⟨hfirst, hrest⟩ := List.forall_mem_cons.mp h
    rw [paint_cons, hfirst, ih hrest]

section

variable {region : P → Prop} [DecidablePred region] {colors : P → C} {change : Layer P C}

theorem cover_inside (h : region p) : cover region change p color = change p color := if_pos h

theorem cover_transparent (h : ¬region p) : Transparent (cover region change) p := fun _ => if_neg h

@[simp] theorem fill_inside (h : region p) : fill region colors p color = colors p := if_pos h

theorem fill_transparent (h : ¬region p) : Transparent (fill region colors) p := fun _ => if_neg h

/-- The topmost layer that covers a point shows, whatever is below it. -/
theorem paint_topmost (h : region p) (habove : ∀ layer ∈ above, Transparent layer p) :
    paint (below ++ fill region colors :: above) p color = colors p := by
  rw [paint_append, paint_cons, fill_inside h, paint_transparent habove]

end

end Layers
