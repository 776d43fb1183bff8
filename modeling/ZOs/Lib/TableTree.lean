import Mathlib.Data.List.Infix

/-!
# Trees of tables in memory

Tables are found by name and hold one entry for each index; an entry is a
fault, a leaf, or the name of a table one level down. `walk` follows a list
of indices. A tree is `Distinct` when no table is reached along two paths.
Under that condition an edit of one entry is seen by exactly the walks
that pass through it, so entering a leaf or hanging up an empty table
leaves all others as they were.
-/

namespace TableTree

variable {T I E : Type*}

/-- What an entry stands for. -/
inductive Kind (T : Type*) where
  | fault
  | leaf
  | table (t : T)

/-- Where a walk ends: at a fault, in a leaf found at a depth, or, with its
indices used up, in a table. -/
inductive Stop (T E : Type*) where
  | fault
  | leaf (depth : Nat) (e : E)
  | table (t : T)
  deriving DecidableEq

/-- Follow indices down from the table `t` at depth `d`. What an entry is
may depend on its depth. -/
def walk (kind : Nat → E → Kind T) (entry : T → I → E) : Nat → T → List I → Stop T E
  | _, t, [] => .table t
  | d, t, i :: is =>
    match kind d (entry t i) with
    | .fault => .fault
    | .leaf => .leaf d (entry t i)
    | .table t' => walk kind entry (d + 1) t' is

variable {kind : Nat → E → Kind T} {entry entry' : T → I → E} {root t t' new : T} {i : I}
  {p q is : List I} {d : Nat} {e : E}

@[simp] theorem walk_nil : walk kind entry d t [] = .table t := rfl

theorem walk_cons_fault (h : kind d (entry t i) = .fault) :
    walk kind entry d t (i :: is) = .fault := by
  simp only [walk, h]

theorem walk_cons_leaf (h : kind d (entry t i) = .leaf) :
    walk kind entry d t (i :: is) = .leaf d (entry t i) := by
  simp only [walk, h]

theorem walk_cons_table (h : kind d (entry t i) = .table t') :
    walk kind entry d t (i :: is) = walk kind entry (d + 1) t' is := by
  simp only [walk, h]

/-- A walk goes on from the table that its first part ends in. -/
theorem walk_append : ∀ {p : List I} {d : Nat} {t : T}, walk kind entry d t p = .table t' →
    walk kind entry d t (p ++ q) = walk kind entry (d + p.length) t' q
  | [], d, t, h => by
    injection h with h
    rw [h]
    rfl
  | i :: p, d, t, h => by
    cases hk : kind d (entry t i) with
    | fault =>
      rw [walk_cons_fault hk] at h
      cases h
    | leaf =>
      rw [walk_cons_leaf hk] at h
      cases h
    | table t₁ =>
      rw [walk_cons_table hk] at h
      rw [List.cons_append, walk_cons_table hk, walk_append h, List.length_cons, Nat.add_assoc,
        Nat.add_comm 1]

/-- The prefix of a walk that ends in a table ends in a table. -/
theorem walk_prefix : ∀ {p : List I} {d : Nat} {t : T}, walk kind entry d t (p ++ q) = .table t' →
    ∃ t₁, walk kind entry d t p = .table t₁
  | [], d, t, _ => ⟨t, rfl⟩
  | i :: p, d, t, h => by
    rw [List.cons_append] at h
    cases hk : kind d (entry t i) with
    | fault =>
      rw [walk_cons_fault hk] at h
      cases h
    | leaf =>
      rw [walk_cons_leaf hk] at h
      cases h
    | table t₁ =>
      rw [walk_cons_table hk] at h
      rw [walk_cons_table hk]
      exact walk_prefix h

/-- A walk that ends at a fault ends there for all its extensions. -/
theorem walk_fault_append {t : T} {d : Nat} (h : walk kind entry d t p = .fault) (q : List I) :
    walk kind entry d t (p ++ q) = .fault := by
  induction p generalizing d t with
  | nil => cases h
  | cons i p ih =>
    rw [List.cons_append]
    cases hk : kind d (entry t i) with
    | fault => exact walk_cons_fault hk
    | leaf =>
      rw [walk_cons_leaf hk] at h
      cases h
    | table t' =>
      rw [walk_cons_table hk] at h
      rw [walk_cons_table hk]
      exact ih h

/-- A leaf is not found deeper than there are indices. -/
theorem walk_leaf_depth {t : T} {d n : Nat} (h : walk kind entry d t p = .leaf n e) :
    n < d + p.length := by
  induction p generalizing d t with
  | nil => cases h
  | cons i p ih =>
    rw [List.length_cons]
    cases hk : kind d (entry t i) with
    | fault =>
      rw [walk_cons_fault hk] at h
      cases h
    | leaf =>
      rw [walk_cons_leaf hk] at h
      injection h with hd _
      omega
    | table t' =>
      rw [walk_cons_table hk] at h
      have hlt := ih h
      omega

/-- The table is found along the path `p` from the root. -/
def Reached (kind : Nat → E → Kind T) (entry : T → I → E) (root t : T) (p : List I) : Prop :=
  walk kind entry 0 root p = .table t

/-- No table is reached along two paths. -/
def Distinct (kind : Nat → E → Kind T) (entry : T → I → E) (root : T) : Prop :=
  ∀ ⦃t p q⦄, Reached kind entry root t p → Reached kind entry root t q → p = q

theorem reached_root : Reached kind entry root root [] := rfl

theorem Reached.walk (h : Reached kind entry root t p) :
    TableTree.walk kind entry 0 root (p ++ is) = TableTree.walk kind entry p.length t is := by
  rw [walk_append h, Nat.zero_add]

theorem Reached.child (h : Reached kind entry root t p)
    (hk : kind p.length (entry t i) = .table t') : Reached kind entry root t' (p ++ [i]) := by
  unfold Reached
  rw [h.walk, walk_cons_table hk, walk_nil]

/-- A walk depends only on the entries it reads. -/
theorem walk_congr_below : ∀ {is q t}, Reached kind entry root t q →
    (∀ {r u j}, Reached kind entry root u r → (r ++ [j]) <+: (q ++ is) → entry' u j = entry u j) →
    walk kind entry' q.length t is = walk kind entry q.length t is
  | [], _, _, _, _ => rfl
  | j :: is, q, t, hq, hsame => by
    have hread : entry' t j = entry t j :=
      hsame hq ⟨is, by rw [List.append_assoc, List.singleton_append]⟩
    cases hk : kind q.length (entry t j) with
    | fault => rw [walk_cons_fault hk, walk_cons_fault (by rw [hread, hk])]
    | leaf => rw [walk_cons_leaf hk, walk_cons_leaf (by rw [hread, hk]), hread]
    | table t₁ =>
      have hbelow := walk_congr_below (hq.child hk) fun hr (hpre : _ <+: (q ++ [j]) ++ is) =>
        hsame hr (by rwa [List.append_assoc, List.singleton_append] at hpre)
      rw [List.length_append, List.length_singleton] at hbelow
      rw [walk_cons_table hk, walk_cons_table (by rw [hread, hk])]
      exact hbelow

theorem walk_congr
    (hsame : ∀ {r u j}, Reached kind entry root u r → (r ++ [j]) <+: is → entry' u j = entry u j) :
    walk kind entry' 0 root is = walk kind entry 0 root is :=
  walk_congr_below reached_root hsame

/-! ## Editing one entry -/

/-- On the tables that are reached, `entry'` differs from `entry` at most in
the entry `i` of `t`, which is reached along `p`. -/
structure Edit (kind : Nat → E → Kind T) (entry entry' : T → I → E) (root t : T) (p : List I)
    (i : I) : Prop where
  reached : Reached kind entry root t p
  same : ∀ {t' q i'}, Reached kind entry root t' q → ¬ (t' = t ∧ i' = i) →
    entry' t' i' = entry t' i'

/-- A walk that does not pass the edited entry is not affected. -/
theorem Edit.walk_frame (h : Edit kind entry entry' root t p i) (hd : Distinct kind entry root)
    (hnot : ¬ (p ++ [i]) <+: is) : walk kind entry' 0 root is = walk kind entry 0 root is := by
  apply walk_congr
  intro r u j hr hpre
  apply h.same hr
  intro ⟨hu, hj⟩
  subst hu hj
  rw [hd hr h.reached] at hpre
  exact hnot hpre

/-- The edited table stays where it was. -/
theorem Edit.reached' (h : Edit kind entry entry' root t p i) (hd : Distinct kind entry root) :
    Reached kind entry' root t p := by
  unfold Reached
  rw [h.walk_frame hd]
  · exact h.reached
  · intro hpre
    have hlen := hpre.length_le
    rw [List.length_append, List.length_singleton] at hlen
    exact absurd hlen (Nat.not_succ_le_self _)

/-- A walk either passes the edited entry or is not affected. -/
theorem Edit.walk_cases (h : Edit kind entry entry' root t p i) (hd : Distinct kind entry root)
    (is : List I) :
    walk kind entry' 0 root is = walk kind entry 0 root is ∨ ∃ js, is = p ++ i :: js ∧
      walk kind entry 0 root is = walk kind entry p.length t (i :: js) ∧
      walk kind entry' 0 root is = walk kind entry' p.length t (i :: js) := by
  by_cases hpre : (p ++ [i]) <+: is
  · right
    obtain ⟨js, hjs⟩ := hpre
    rw [List.append_assoc, List.singleton_append] at hjs
    refine ⟨js, hjs.symm, ?_, ?_⟩
    · rw [← hjs, h.reached.walk]
    · rw [← hjs, (h.reached' hd).walk]
  · exact .inl (h.walk_frame hd hpre)

/-- Hanging up a table that was not reached and has no valid entry changes
only the walk that ends in it. -/
theorem Edit.walk_newTable (h : Edit kind entry entry' root t p i)
    (hd : Distinct kind entry root) (hold : kind p.length (entry t i) = .fault)
    (hnew : kind p.length (entry' t i) = .table new)
    (hempty : ∀ d j, kind d (entry' new j) = .fault) (his : is ≠ p ++ [i]) :
    walk kind entry' 0 root is = walk kind entry 0 root is := by
  obtain hsame | ⟨js, hjs, hwalk, hwalk'⟩ := h.walk_cases hd is
  · exact hsame
  · rw [hwalk, hwalk', walk_cons_fault hold, walk_cons_table hnew]
    cases js with
    | nil => exact absurd hjs his
    | cons j js => exact walk_cons_fault (hempty _ j)

theorem Edit.reached_newTable (h : Edit kind entry entry' root t p i)
    (hd : Distinct kind entry root) (hold : kind p.length (entry t i) = .fault)
    (hnew : kind p.length (entry' t i) = .table new)
    (hempty : ∀ d j, kind d (entry' new j) = .fault) :
    Reached kind entry' root t' q ↔
      Reached kind entry root t' q ∨ q = p ++ [i] ∧ t' = new := by
  by_cases hq : q = p ++ [i]
  · have hnone : ¬ Reached kind entry root t' q := by
      unfold Reached
      rw [hq, h.reached.walk, walk_cons_fault hold]
      intro hcontra
      cases hcontra
    have hthere := (h.reached' hd).child hnew
    rw [← hq] at hthere
    constructor
    · intro hr
      right
      have heq := hr.symm.trans hthere
      injection heq with heq
      exact ⟨hq, heq⟩
    · intro hr
      obtain hr | ⟨_, heq⟩ := hr
      · exact absurd hr hnone
      · rw [heq]
        exact hthere
  · unfold Reached
    rw [h.walk_newTable hd hold hnew hempty hq, or_iff_left]
    intro hr
    exact hq hr.1

/-- Hanging up a table that was not reached keeps the tree distinct. -/
theorem Edit.distinct_newTable (h : Edit kind entry entry' root t p i)
    (hd : Distinct kind entry root) (hold : kind p.length (entry t i) = .fault)
    (hnew : kind p.length (entry' t i) = .table new)
    (hempty : ∀ d j, kind d (entry' new j) = .fault)
    (hfresh : ∀ q, ¬ Reached kind entry root new q) : Distinct kind entry' root := by
  intro u q q' hq hq'
  rw [h.reached_newTable hd hold hnew hempty] at hq hq'
  obtain hq | ⟨hq, hu⟩ := hq
  · obtain hq' | ⟨_, hu'⟩ := hq'
    · exact hd hq hq'
    · subst hu'
      exact absurd hq (hfresh _)
  · obtain hq' | ⟨hq', _⟩ := hq'
    · subst hu
      exact absurd hq' (hfresh _)
    · rw [hq, hq']

/-- Where an entry was and is no table, the same tables are reached. -/
theorem Edit.reached_leaf (h : Edit kind entry entry' root t p i)
    (hd : Distinct kind entry root) (hold : ∀ t', kind p.length (entry t i) ≠ .table t')
    (hnew : ∀ t', kind p.length (entry' t i) ≠ .table t') :
    Reached kind entry' root t' q ↔ Reached kind entry root t' q := by
  unfold Reached
  obtain hsame | ⟨js, _, hwalk, hwalk'⟩ := h.walk_cases hd q
  · rw [hsame]
  · have hno : ∀ {f : T → I → E}, (∀ t', kind p.length (f t i) ≠ .table t') →
        walk kind f p.length t (i :: js) ≠ .table t' := by
      intro f hf
      cases hk : kind p.length (f t i) with
      | fault =>
        rw [walk_cons_fault hk]
        intro hcontra
        cases hcontra
      | leaf =>
        rw [walk_cons_leaf hk]
        intro hcontra
        cases hcontra
      | table t₁ => exact absurd hk (hf t₁)
    rw [hwalk, hwalk']
    exact iff_of_false (hno hnew) (hno hold)

/-- The walks that pass a new leaf end in it. -/
theorem Edit.walk_leaf (h : Edit kind entry entry' root t p i) (hd : Distinct kind entry root)
    (hnew : kind p.length (entry' t i) = .leaf) :
    walk kind entry' 0 root (p ++ i :: is) = .leaf p.length (entry' t i) := by
  rw [(h.reached' hd).walk, walk_cons_leaf hnew]

/-- A table without a valid entry is a tree of its own. -/
theorem reached_empty (hempty : ∀ d j, kind d (entry root j) = .fault) :
    Reached kind entry root t p ↔ p = [] ∧ t = root := by
  unfold Reached
  cases p with
  | nil =>
    rw [walk_nil, Stop.table.injEq]
    exact ⟨fun h => ⟨rfl, h.symm⟩, fun h => h.2.symm⟩
  | cons j js =>
    rw [walk_cons_fault (hempty 0 j)]
    constructor
    · intro hcontra
      cases hcontra
    · intro hcontra
      cases hcontra.1

theorem distinct_empty (hempty : ∀ d j, kind d (entry root j) = .fault) :
    Distinct kind entry root := by
  intro u q q' hq hq'
  rw [reached_empty hempty] at hq hq'
  rw [hq.1, hq'.1]

end TableTree
