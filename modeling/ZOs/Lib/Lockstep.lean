import ZOs.Lib.Attempt

/-!
# Two runs of one computation

`Follows R x s t`: from `t`, the computation ends as it does from `s`, with
the same result, and the states it ends in are related by `R`. The rules
follow the shape of a `do` block.
-/

namespace Attempt

variable {σ α β : Type} {R : σ → σ → Prop} {x y : Attempt σ α} {s t s' : σ}

def Follows (R : σ → σ → Prop) (x : Attempt σ α) (s t : σ) : Prop :=
  (x t).1 = (x s).1 ∧ R (x s).2 (x t).2

theorem follows_pure {a : α} (h : R s t) : Follows R (pure a) s t := ⟨rfl, h⟩

theorem follows_giveUp (h : R s t) : Follows R (giveUp : Attempt σ α) s t := ⟨rfl, h⟩

theorem follows_read {f : σ → α} (h : R s t) (hf : f t = f s) : Follows R (read f) s t :=
  ⟨congrArg some hf, h⟩

theorem follows_modify {f : σ → σ} (h : R (f s) (f t)) : Follows R (modify f) s t := ⟨rfl, h⟩

theorem Follows.ite {c : Prop} [Decidable c] (hx : c → Follows R x s t)
    (hy : ¬c → Follows R y s t) :
    Follows R (if c then x else y) s t := by
  split
  · exact hx ‹_›
  · exact hy ‹_›

/-- How it ends, when this is known of one of the two. -/
theorem Follows.ends {r : Option α} (h : Follows R x s t) (hx : x s = (r, s')) :
    ∃ t', x t = (r, t') ∧ R s' t' := by
  obtain ⟨hresult, hstate⟩ := h
  rw [hx] at hresult hstate
  exact ⟨(x t).2, Prod.ext hresult rfl, hstate⟩

theorem follows_of_ends {r : Option α} {t' : σ} (hx : x s = (r, s')) (hx' : x t = (r, t'))
    (h : R s' t') : Follows R x s t := by
  unfold Follows
  rw [hx, hx']
  exact ⟨rfl, h⟩

/-- The rule for sequencing. -/
theorem Follows.bind {f : α → Attempt σ β} (h : Follows R x s t)
    (hf : ∀ a s' t', x s = (some a, s') → R s' t' → Follows R (f a) s' t') :
    Follows R (x >>= f) s t := by
  rcases hx : x s with ⟨_ | a, s'⟩
  · obtain ⟨t', hx', hstate⟩ := h.ends hx
    exact follows_of_ends (bind_gaveUp hx) (bind_gaveUp hx') hstate
  · obtain ⟨t', hx', hstate⟩ := h.ends hx
    have hrest := hf a s' t' hx hstate
    unfold Follows
    rw [bind_eq hx, bind_eq hx']
    exact hrest

end Attempt
