import Mathlib.Data.List.Nodup

/-!
# Tilings of an interval

Each point `x` of a list stands for the interval of `len x` from `x` on.
`Tiles len a xs e` says that these intervals follow one another, without a
gap or an overlap, from `a` to `e`. Cutting a tile in two and joining two
neighbours keep a tiling.
-/

namespace Tiling

/-- The tiles `xs` follow one another from `a` to `e`. -/
def Tiles (len : Nat → Nat) : Nat → List Nat → Nat → Prop
  | a, [], e => a = e
  | a, x :: xs, e => x = a ∧ Tiles len (a + len x) xs e

variable {len len' : Nat → Nat} {a e x y k : Nat} {xs l r : List Nat}

theorem tiles_append : ∀ {a l}, Tiles len a (l ++ r) e ↔ ∃ m, Tiles len a l m ∧ Tiles len m r e
  | a, [] => by
    constructor
    · intro h
      exact ⟨a, rfl, h⟩
    · intro ⟨m, hm, h⟩
      exact hm ▸ h
  | a, x :: l => by
    rw [List.cons_append]
    show x = a ∧ Tiles len (a + len x) (l ++ r) e ↔ ∃ m, (x = a ∧ Tiles len (a + len x) l m) ∧ _
    rw [tiles_append]
    constructor
    · intro ⟨hx, m, hl, hr⟩
      exact ⟨m, ⟨hx, hl⟩, hr⟩
    · intro ⟨m, ⟨hx, hl⟩, hr⟩
      exact ⟨hx, m, hl, hr⟩

theorem Tiles.congr : ∀ {a xs}, Tiles len a xs e → (∀ x ∈ xs, len' x = len x) →
    Tiles len' a xs e
  | _, [], h, _ => h
  | a, x :: xs, h, hlen => by
    refine ⟨h.1, ?_⟩
    rw [hlen x List.mem_cons_self]
    exact h.2.congr fun y hy => hlen y (List.mem_cons_of_mem _ hy)

theorem Tiles.le : ∀ {a xs}, Tiles len a xs e → a ≤ e
  | _, [], h => Nat.le_of_eq h
  | _, _ :: _, h => Nat.le_trans (Nat.le_add_right _ _) h.2.le

/-- A tile lies within the interval. -/
theorem Tiles.bounds : ∀ {a xs}, Tiles len a xs e → x ∈ xs → a ≤ x ∧ x + len x ≤ e
  | _, [], _, hx => by cases hx
  | a, y :: xs, h, hx => by
    obtain ⟨hy, hrest⟩ := h
    rcases List.mem_cons.mp hx with heq | hx
    · subst heq hy
      exact ⟨Nat.le_refl _, hrest.le⟩
    · obtain ⟨hlo, hhi⟩ := hrest.bounds hx
      exact ⟨Nat.le_trans (Nat.le_add_right _ _) hlo, hhi⟩

/-- Every tile ends before the later ones start. -/
theorem Tiles.pairwise : ∀ {a xs}, Tiles len a xs e → xs.Pairwise fun x y => x + len x ≤ y
  | _, [], _ => .nil
  | a, x :: xs, h => by
    obtain ⟨hx, hrest⟩ := h
    subst hx
    exact .cons (fun y hy => (hrest.bounds hy).1) hrest.pairwise

/-- No tile starts inside of another. -/
theorem Tiles.notMem_inside : ∀ {a xs}, Tiles len a xs e → x ∈ xs → x < y → y < x + len x →
    y ∉ xs
  | _, [], _, hx, _, _ => by cases hx
  | a, z :: xs, h, hx, hlo, hhi => by
    obtain ⟨hz, hrest⟩ := h
    subst hz
    intro hy
    rcases List.mem_cons.mp hx with heq | hx
    · subst heq
      rcases List.mem_cons.mp hy with heq | hy
      · omega
      · have hfar := (hrest.bounds hy).1
        omega
    · rcases List.mem_cons.mp hy with heq | hy
      · have hfar := (hrest.bounds hx).1
        omega
      · exact hrest.notMem_inside hx hlo hhi hy

/-- Two tiles do not overlap. -/
theorem Tiles.disjoint : ∀ {a xs}, Tiles len a xs e → x ∈ xs → y ∈ xs → x ≠ y →
    x + len x ≤ y ∨ y + len y ≤ x
  | _, [], _, hx, _, _ => by cases hx
  | a, z :: xs, h, hx, hy, hne => by
    obtain ⟨hz, hrest⟩ := h
    subst hz
    rcases List.mem_cons.mp hx with heq | hx
    · subst heq
      rcases List.mem_cons.mp hy with heq | hy
      · exact absurd heq.symm hne
      · exact .inl (hrest.bounds hy).1
    · rcases List.mem_cons.mp hy with heq | hy
      · right
        rw [heq]
        exact (hrest.bounds hx).1
      · exact hrest.disjoint hx hy hne

/-- So many tiles of some least length need so much room. -/
theorem Tiles.length : ∀ {a xs}, Tiles len a xs e → (∀ x ∈ xs, k ≤ len x) →
    a + k * xs.length ≤ e
  | _, [], h, _ => by
    rw [List.length_nil, Nat.mul_zero]
    exact Nat.le_of_eq h
  | a, x :: xs, h, hk => by
    have hrest := h.2.length fun y hy => hk y (List.mem_cons_of_mem _ hy)
    have hx := hk x List.mem_cons_self
    rw [List.length_cons, Nat.mul_succ]
    omega

/-- A tile starts where the one before it ends. -/
theorem Tiles.next_eq (h : Tiles len a (l ++ x :: y :: r) e) : y = x + len x := by
  obtain ⟨m, _, hx, hy, _⟩ := tiles_append.mp h
  subst hx
  exact hy

/-- The last tile ends where the tiling ends. -/
theorem Tiles.end_eq (h : Tiles len a (l ++ [x]) e) : e = x + len x := by
  obtain ⟨m, _, hx, he⟩ := tiles_append.mp h
  subst hx
  exact he.symm

/-- Join two neighbours. -/
theorem Tiles.join (h : Tiles len a (l ++ x :: y :: r) e) (hx : len' x = len x + len y)
    (hlen : ∀ z ∈ l ++ r, len' z = len z) : Tiles len' a (l ++ x :: r) e := by
  obtain ⟨m, hl, hxm, _, hr⟩ := tiles_append.mp h
  refine tiles_append.mpr ⟨m, ?_, hxm, ?_⟩
  · exact hl.congr fun z hz => hlen z (List.mem_append_left _ hz)
  · rw [hx, ← Nat.add_assoc]
    exact hr.congr fun z hz => hlen z (List.mem_append_right _ hz)

/-- Cut a tile in two. -/
theorem Tiles.cut (h : Tiles len a (l ++ x :: r) e) (hx : len' x + len' y = len x)
    (hy : y = x + len' x) (hlen : ∀ z ∈ l ++ r, len' z = len z) :
    Tiles len' a (l ++ x :: y :: r) e := by
  obtain ⟨m, hl, hxm, hr⟩ := tiles_append.mp h
  refine tiles_append.mpr ⟨m, ?_, hxm, by rw [hy, hxm], ?_⟩
  · exact hl.congr fun z hz => hlen z (List.mem_append_left _ hz)
  · rw [Nat.add_assoc, hx]
    exact hr.congr fun z hz => hlen z (List.mem_append_right _ hz)

/-- Append a tile. -/
theorem Tiles.append (h : Tiles len a l e) (hlen : ∀ z ∈ l, len' z = len z) :
    Tiles len' a (l ++ [e]) (e + len' e) :=
  tiles_append.mpr ⟨e, h.congr hlen, rfl, rfl⟩

end Tiling
