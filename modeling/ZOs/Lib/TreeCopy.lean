import Mathlib.Data.Set.Basic
import ZOs.Lib.TableTree

/-!
# Copies of trees of tables

A copy has a table for each table of the original, and the same leaves. It
is built from below: when all entries of a table have been copied, the table
has (`Copied.node`), and what is written elsewhere afterwards does not
matter to it (`Copied.frame`).
-/

namespace TableTree

variable {T I E : Type*} {kind : Nat → E → Kind T} {R : E → E → Prop}
  {entry entry₂ entry' entry₂' : T → I → E} {t t' u u' : T} {i : I} {p q : List I} {d n : Nat}
  {e e' : E} {own own₂ : Set T}

/-! ## Walks below a table -/

/-- A walk that ends in a leaf ends there for all its extensions. -/
theorem walk_leaf_append (h : walk kind entry d t p = .leaf n e) (q : List I) :
    walk kind entry d t (p ++ q) = .leaf n e := by
  induction p generalizing d t with
  | nil => cases h
  | cons i p ih =>
    rw [List.cons_append]
    cases hk : kind d (entry t i) with
    | fault =>
      rw [walk_cons_fault hk] at h
      cases h
    | leaf =>
      rw [walk_cons_leaf hk] at h ⊢
      exact h
    | table u =>
      rw [walk_cons_table hk] at h ⊢
      exact ih h

/-- Memory that agrees on the tables below `t` gives the same walks. -/
theorem walk_agree (h : ∀ p u, walk kind entry d t p = .table u → ∀ i, entry' u i = entry u i)
    (p : List I) : walk kind entry' d t p = walk kind entry d t p := by
  induction p generalizing d t with
  | nil => rfl
  | cons i p ih =>
    have hread : entry' t i = entry t i := h [] t rfl i
    cases hk : kind d (entry t i) with
    | fault => rw [walk_cons_fault hk, walk_cons_fault (by rw [hread, hk])]
    | leaf => rw [walk_cons_leaf hk, walk_cons_leaf (by rw [hread, hk]), hread]
    | table u =>
      rw [walk_cons_table hk, walk_cons_table (by rw [hread, hk])]
      apply ih
      intro q w hw
      exact h (i :: q) w (by rw [walk_cons_table hk, hw])

/-! ## Copies -/

/-- An entry and its copy at a depth: a leaf is copied as it is, a table entry
up to the table. -/
def EntryCopied (kind : Nat → E → Kind T) (R : E → E → Prop) (d : Nat) (e e' : E) : Prop :=
  match kind d e with
  | .fault => kind d e' = .fault
  | .leaf => e' = e
  | .table _ => (∃ u', kind d e' = .table u') ∧ R e e'

/-- The tree below `t'` in `entry'` is a copy of the one below `t` in
`entry`, and its tables are `own`, each reached once. -/
structure Copied (kind : Nat → E → Kind T) (R : E → E → Prop) (entry entry' : T → I → E) (d : Nat)
    (t t' : T) (own : Set T) : Prop where
  entries : ∀ p u, walk kind entry d t p = .table u → ∃ u', walk kind entry' d t' p = .table u' ∧
    ∀ i, EntryCopied kind R (d + p.length) (entry u i) (entry' u' i)
  within : ∀ p u', walk kind entry' d t' p = .table u' → u' ∈ own
  distinct : ∀ p q u', walk kind entry' d t' p = .table u' → walk kind entry' d t' q = .table u' →
    p = q

/-- Two walks that end in the same way. -/
def SameStop : Stop T E → Stop T E → Prop
  | .fault, s => s = .fault
  | .leaf n e, s => s = .leaf n e
  | .table _, s => ∃ u', s = .table u'

/-- The walks of a copy end as those of the original do. -/
theorem Copied.walk (h : Copied kind R entry entry' d t t' own) (p : List I) :
    SameStop (TableTree.walk kind entry d t p) (TableTree.walk kind entry' d t' p) := by
  induction p using List.reverseRecOn with
  | nil => exact ⟨t', rfl⟩
  | append_singleton p i ih =>
    cases hp : TableTree.walk kind entry d t p with
    | fault =>
      rw [hp] at ih
      rw [walk_fault_append hp, walk_fault_append ih]
      rfl
    | leaf n e =>
      rw [hp] at ih
      rw [walk_leaf_append hp, walk_leaf_append ih]
      rfl
    | table u =>
      obtain ⟨u', hu', hentries⟩ := h.entries p u hp
      have hcopied := hentries i
      unfold EntryCopied at hcopied
      rw [walk_append hp, walk_append hu']
      cases hk : kind (d + p.length) (entry u i) with
      | fault =>
        rw [hk] at hcopied
        rw [walk_cons_fault hk, walk_cons_fault hcopied]
        rfl
      | leaf =>
        rw [hk] at hcopied
        have heq : entry' u' i = entry u i := hcopied
        rw [walk_cons_leaf hk, walk_cons_leaf (by rw [heq, hk]), heq]
        rfl
      | table w =>
        rw [hk] at hcopied
        obtain ⟨⟨w', hw'⟩, _⟩ := hcopied
        rw [walk_cons_table hk, walk_cons_table hw', walk_nil, walk_nil]
        exact ⟨w', rfl⟩

/-- What changes outside of a copy does not matter to it. -/
theorem Copied.frame (h : Copied kind R entry entry' d t t' own)
    (hsame : ∀ u ∈ own, ∀ i, entry₂' u i = entry' u i) :
    Copied kind R entry entry₂' d t t' own := by
  have hwalk : ∀ p, TableTree.walk kind entry₂' d t' p = TableTree.walk kind entry' d t' p :=
    walk_agree fun p u hp => hsame u (h.within p u hp)
  refine ⟨?_, ?_, ?_⟩
  · intro p u hp
    obtain ⟨u', hu', hentries⟩ := h.entries p u hp
    refine ⟨u', by rw [hwalk, hu'], fun i => ?_⟩
    rw [hsame u' (h.within p u' hu')]
    exact hentries i
  · intro p u' hp
    rw [hwalk] at hp
    exact h.within p u' hp
  · intro p q u' hp hq
    rw [hwalk] at hp hq
    exact h.distinct p q u' hp hq

/-- Nor does what changes outside of the original. -/
theorem Copied.source (h : Copied kind R entry entry' d t t' own)
    (hsame : ∀ p u, TableTree.walk kind entry₂ d t p = .table u → ∀ i, entry u i = entry₂ u i) :
    Copied kind R entry₂ entry' d t t' own where
  entries p u hp := by
    have hwalk := walk_agree hsame p
    obtain ⟨u', hu', hentries⟩ := h.entries p u (by rw [hwalk, hp])
    refine ⟨u', hu', fun i => ?_⟩
    rw [← hsame p u hp i]
    exact hentries i
  within := h.within
  distinct := h.distinct

theorem Copied.mono (h : Copied kind R entry entry' d t t' own) (hsub : own ⊆ own₂) :
    Copied kind R entry entry' d t t' own₂ where
  entries := h.entries
  within p u' hp := hsub (h.within p u' hp)
  distinct := h.distinct

/-- An entry has been copied with all that is below it; `below` are the
tables of the copy that this took. -/
structure EntryDone (kind : Nat → E → Kind T) (R : E → E → Prop) (entry entry' : T → I → E)
    (d : Nat) (t t' : T) (i : I) (below : Set T) : Prop where
  copied : EntryCopied kind R d (entry t i) (entry' t' i)
  table : ∀ u, kind d (entry t i) = .table u → ∀ u', kind d (entry' t' i) = .table u' →
    Copied kind R entry entry' (d + 1) u u' below

theorem EntryDone.frame {below : Set T} (h : EntryDone kind R entry entry' d t t' i below)
    (hslot : entry₂' t' i = entry' t' i) (hsame : ∀ u ∈ below, ∀ j, entry₂' u j = entry' u j) :
    EntryDone kind R entry entry₂' d t t' i below where
  copied := by
    rw [hslot]
    exact h.copied
  table u hu u' hu' := by
    rw [hslot] at hu'
    exact (h.table u hu u' hu').frame hsame

theorem EntryDone.source {below : Set T} (h : EntryDone kind R entry entry' d t t' i below)
    (hsame : ∀ p u, TableTree.walk kind entry₂ d t p = .table u → ∀ j, entry u j = entry₂ u j) :
    EntryDone kind R entry₂ entry' d t t' i below where
  copied := by
    rw [← hsame [] t rfl i]
    exact h.copied
  table u hu u' hu' := by
    have hread := hsame [] t rfl i
    apply (h.table u (by rw [hread, hu]) u' hu').source
    intro p w hw
    exact hsame (i :: p) w (by rw [walk_cons_table hu, hw])

/-- When all entries have been copied, to different tables, the table has. -/
theorem Copied.node {below : I → Set T}
    (hdone : ∀ i, EntryDone kind R entry entry' d t t' i (below i))
    (hself : ∀ i, t' ∉ below i) (hapart : ∀ i j u, u ∈ below i → u ∈ below j → i = j) :
    Copied kind R entry entry' d t t' (insert t' {u | ∃ i, u ∈ below i}) := by
  -- a walk in the copy goes through an entry that stands for a table of the original
  have hstep : ∀ i p u', TableTree.walk kind entry' d t' (i :: p) = .table u' →
      ∃ w w', kind d (entry t i) = .table w ∧ kind d (entry' t' i) = .table w' ∧
        Copied kind R entry entry' (d + 1) w w' (below i) ∧
        TableTree.walk kind entry' (d + 1) w' p = .table u' := by
    intro i p u' hp
    have hcopied := (hdone i).copied
    unfold EntryCopied at hcopied
    cases hk : kind d (entry t i) with
    | fault =>
      rw [hk] at hcopied
      rw [walk_cons_fault hcopied] at hp
      cases hp
    | leaf =>
      rw [hk] at hcopied
      have heq : entry' t' i = entry t i := hcopied
      rw [walk_cons_leaf (by rw [heq, hk])] at hp
      cases hp
    | table w =>
      rw [hk] at hcopied
      obtain ⟨⟨w', hw'⟩, _⟩ := hcopied
      rw [walk_cons_table hw'] at hp
      exact ⟨w, w', rfl, hw', (hdone i).table w hk w' hw', hp⟩
  refine ⟨?_, ?_, ?_⟩
  · intro p u hp
    cases p with
    | nil =>
      injection hp with hp
      subst hp
      exact ⟨t', rfl, fun i => (hdone i).copied⟩
    | cons i p =>
      have hcopied := (hdone i).copied
      unfold EntryCopied at hcopied
      cases hk : kind d (entry t i) with
      | fault =>
        rw [walk_cons_fault hk] at hp
        cases hp
      | leaf =>
        rw [walk_cons_leaf hk] at hp
        cases hp
      | table w =>
        rw [hk] at hcopied
        obtain ⟨⟨w', hw'⟩, _⟩ := hcopied
        rw [walk_cons_table hk] at hp
        obtain ⟨u', hu', hentries⟩ := ((hdone i).table w hk w' hw').entries p u hp
        refine ⟨u', by rw [walk_cons_table hw', hu'], fun j => ?_⟩
        rw [List.length_cons, Nat.add_comm p.length, ← Nat.add_assoc]
        exact hentries j
  · intro p u' hp
    cases p with
    | nil =>
      injection hp with hp
      exact .inl hp.symm
    | cons i p =>
      obtain ⟨w, w', _, _, hcopied, hbelow⟩ := hstep i p u' hp
      exact .inr ⟨i, hcopied.within p u' hbelow⟩
  · intro p q u' hp hq
    cases p with
    | nil =>
      injection hp with hp
      cases q with
      | nil => rfl
      | cons j q =>
        obtain ⟨w, w', _, _, hcopied, hbelow⟩ := hstep j q u' hq
        exact absurd (hp ▸ hcopied.within q u' hbelow) (hself j)
    | cons i p =>
      obtain ⟨w, w', _, hw', hcopied, hbelow⟩ := hstep i p u' hp
      cases q with
      | nil =>
        injection hq with hq
        exact absurd (hq ▸ hcopied.within p u' hbelow) (hself i)
      | cons j q =>
        obtain ⟨x, x', _, hx', hcopied', hbelow'⟩ := hstep j q u' hq
        have hij := hapart i j u' (hcopied.within p u' hbelow) (hcopied'.within q u' hbelow')
        subst hij
        rw [hw'] at hx'
        injection hx' with hx'
        subst hx'
        rw [hcopied.distinct p q u' hbelow hbelow']

end TableTree
