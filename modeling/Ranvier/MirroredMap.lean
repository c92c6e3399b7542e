import Mathlib.Data.Finmap

/-!
# A set that mirrors the values of a map

A map is edited; beside it a set is kept that should hold exactly the images of
the map's values under `val`. Every write adds the image of the new value, every
deletion takes the image of the deleted value out. The set does not count, so the
mirror breaks where two keys share an image.

* `MapEdit.Faithful` — what an edit needs of the map before it;
* `mirrors_apply_iff` — an edit keeps the mirror exactly when it is faithful;
* `mirrors_run_iff` — a sequence of edits keeps it at every point exactly when
  each edit is faithful in its turn.
-/

namespace Ranvier

universe u v w

variable {κ : Type u} {ν : Type v} {η : Type w} [DecidableEq κ] [DecidableEq η]

/-- Edits of a map. -/
inductive MapEdit (κ : Type u) (ν : Type v) : Type (max u v) where
  | put (k : κ) (v : ν)
  | del (k : κ)
  | wipe

/-- Some value of the map has the image `h`. -/
def Bears (val : ν → η) (m : Finmap fun _ : κ => ν) (h : η) : Prop :=
  ∃ k v, m.lookup k = some v ∧ val v = h

/-- The set holds the images of the map's values, and nothing else. -/
def Mirrors (val : ν → η) (m : Finmap fun _ : κ => ν) (s : Finset η) : Prop :=
  ∀ h, h ∈ s ↔ Bears val m h

namespace MapEdit

/-- The edit on the map. -/
def apply (m : Finmap fun _ : κ => ν) : MapEdit κ ν → Finmap fun _ : κ => ν
  | put k v => m.insert k v
  | del k => m.erase k
  | wipe => ∅

/-- The edit on the set. -/
def mirror (val : ν → η) (m : Finmap fun _ : κ => ν) (s : Finset η) : MapEdit κ ν → Finset η
  | put _ v => insert (val v) s
  | del k =>
    match m.lookup k with
    | some v => s.erase (val v)
    | none => s
  | wipe => ∅

/-- A write may replace a value of another image only while a further key has the
old image; a deletion may not take an image that a further key has. -/
def Faithful (val : ν → η) (m : Finmap fun _ : κ => ν) : MapEdit κ ν → Prop
  | put k v => ∀ old, m.lookup k = some old →
      val old = val v ∨ ∃ k' v', k' ≠ k ∧ m.lookup k' = some v' ∧ val v' = val old
  | del k => ∀ v, m.lookup k = some v → ∀ k' v', k' ≠ k → m.lookup k' = some v' → val v' ≠ val v
  | wipe => True

end MapEdit

theorem erase_of_lookup_none {m : Finmap fun _ : κ => ν} {k : κ} (h : m.lookup k = none) :
    m.erase k = m := by
  refine Finmap.ext_lookup fun k' => ?_
  by_cases hk : k' = k
  · rw [hk, Finmap.lookup_erase, h]
  · rw [Finmap.lookup_erase_ne hk]

omit [DecidableEq η] in
theorem mirrors_empty (val : ν → η) : Mirrors val (∅ : Finmap fun _ : κ => ν) ∅ := by
  intro h
  constructor
  · intro hmem
    cases hmem
  · rintro ⟨k, v, hv, -⟩
    cases hv

omit [DecidableEq η] in
/-- What the map bears after a write: the new image, and what further keys have. -/
theorem bears_insert {val : ν → η} {m : Finmap fun _ : κ => ν} {k : κ} {v : ν} {h : η} :
    Bears val (m.insert k v) h ↔
      h = val v ∨ ∃ k' v', k' ≠ k ∧ m.lookup k' = some v' ∧ val v' = h := by
  constructor
  · rintro ⟨k', v', hv', rfl⟩
    by_cases hk : k' = k
    · subst hk
      rw [Finmap.lookup_insert] at hv'
      exact .inl (by rw [Option.some.inj hv'])
    · rw [Finmap.lookup_insert_of_ne _ hk] at hv'
      exact .inr ⟨k', v', hk, hv', rfl⟩
  · rintro (rfl | ⟨k', v', hk, hv', rfl⟩)
    · exact ⟨k, v, Finmap.lookup_insert _, rfl⟩
    · exact ⟨k', v', by rw [Finmap.lookup_insert_of_ne _ hk, hv'], rfl⟩

omit [DecidableEq η] in
/-- What the map bears after a deletion: what further keys have. -/
theorem bears_erase {val : ν → η} {m : Finmap fun _ : κ => ν} {k : κ} {h : η} :
    Bears val (m.erase k) h ↔ ∃ k' v', k' ≠ k ∧ m.lookup k' = some v' ∧ val v' = h := by
  constructor
  · rintro ⟨k', v', hv', rfl⟩
    by_cases hk : k' = k
    · subst hk
      rw [Finmap.lookup_erase] at hv'
      cases hv'
    · rw [Finmap.lookup_erase_ne hk] at hv'
      exact ⟨k', v', hk, hv', rfl⟩
  · rintro ⟨k', v', hk, hv', rfl⟩
    exact ⟨k', v', by rw [Finmap.lookup_erase_ne hk, hv'], rfl⟩

/-- **One edit** keeps the mirror exactly when it is faithful. -/
theorem mirrors_apply_iff {val : ν → η} {m : Finmap fun _ : κ => ν} {s : Finset η}
    (hm : Mirrors val m s) (e : MapEdit κ ν) :
    Mirrors val (e.apply m) (e.mirror val m s) ↔ e.Faithful val m := by
  cases e with
  | put k v =>
    constructor
    · intro hnew old hold
      have hmem : val old ∈ insert (val v) s :=
        Finset.mem_insert_of_mem ((hm _).mpr ⟨k, old, hold, rfl⟩)
      exact bears_insert.mp ((hnew _).mp hmem)
    · intro hok h
      rw [MapEdit.apply, MapEdit.mirror, bears_insert, Finset.mem_insert, hm h]
      constructor
      · rintro (hv | ⟨k', v', hv', rfl⟩)
        · exact .inl hv
        · by_cases hk : k' = k
          · subst hk
            exact hok v' hv'
          · exact .inr ⟨k', v', hk, hv', rfl⟩
      · rintro (hv | ⟨k', v', -, hv', rfl⟩)
        · exact .inl hv
        · exact .inr ⟨k', v', hv', rfl⟩
  | del k =>
    rcases hk : m.lookup k with _ | v
    · -- nothing to delete
      simp only [MapEdit.apply, MapEdit.mirror, MapEdit.Faithful, hk, erase_of_lookup_none hk]
      exact ⟨fun _ v hv => (by cases hv), fun _ => hm⟩
    · simp only [MapEdit.apply, MapEdit.mirror, hk]
      constructor
      · intro hnew v₀ hv₀ k' v' hne hv' heq
        rw [hk] at hv₀
        obtain rfl := Option.some.inj hv₀
        exact Finset.notMem_erase _ _ ((hnew (val v)).mpr (bears_erase.mpr ⟨k', v', hne, hv', heq⟩))
      · intro hok h
        rw [bears_erase, Finset.mem_erase, hm h]
        constructor
        · rintro ⟨hne, k', v', hv', rfl⟩
          refine ⟨k', v', ?_, hv', rfl⟩
          rintro rfl
          rw [hk] at hv'
          exact hne (by rw [Option.some.inj hv'])
        · rintro ⟨k', v', hne, hv', rfl⟩
          exact ⟨hok v hk k' v' hne hv', k', v', hv', rfl⟩
  | wipe => exact ⟨fun _ => trivial, fun _ => mirrors_empty val⟩

/-! ## Sequences of edits -/

namespace MapEdit

/-- The map after a sequence of edits. -/
def applyAll (m : Finmap fun _ : κ => ν) (es : List (MapEdit κ ν)) : Finmap fun _ : κ => ν :=
  es.foldl apply m

/-- The set after a sequence of edits. -/
def mirrorAll (val : ν → η) : Finmap (fun _ : κ => ν) → Finset η → List (MapEdit κ ν) → Finset η
  | _, s, [] => s
  | m, s, e :: es => mirrorAll val (e.apply m) (e.mirror val m s) es

/-- Every edit is faithful in its turn. -/
def FaithfulAll (val : ν → η) : Finmap (fun _ : κ => ν) → List (MapEdit κ ν) → Prop
  | _, [] => True
  | m, e :: es => e.Faithful val m ∧ FaithfulAll val (e.apply m) es

theorem applyAll_append (m : Finmap fun _ : κ => ν) (es es' : List (MapEdit κ ν)) :
    applyAll m (es ++ es') = applyAll (applyAll m es) es' := List.foldl_append ..

theorem mirrorAll_append (val : ν → η) (m : Finmap fun _ : κ => ν) (s : Finset η)
    (es es' : List (MapEdit κ ν)) :
    mirrorAll val m s (es ++ es') = mirrorAll val (applyAll m es) (mirrorAll val m s es) es' := by
  induction es generalizing m s with
  | nil => rfl
  | cons e es ih => exact ih (e.apply m) (e.mirror val m s)

end MapEdit

/-- **A run of edits** keeps the mirror at every point exactly when every edit is
faithful in its turn. -/
theorem mirrors_run_iff {val : ν → η} {m : Finmap fun _ : κ => ν} {s : Finset η}
    (hm : Mirrors val m s) (es : List (MapEdit κ ν)) :
    (∀ pre, pre <+: es → Mirrors val (MapEdit.applyAll m pre) (MapEdit.mirrorAll val m s pre)) ↔
      MapEdit.FaithfulAll val m es := by
  induction es generalizing m s with
  | nil =>
    refine ⟨fun _ => trivial, fun _ pre hpre => ?_⟩
    obtain rfl := List.prefix_nil.mp hpre
    exact hm
  | cons e es ih =>
    constructor
    · intro hall
      have hfirst : Mirrors val (e.apply m) (e.mirror val m s) :=
        hall [e] (List.prefix_append [e] es)
      refine ⟨(mirrors_apply_iff hm e).mp hfirst, (ih hfirst).mp fun pre hpre => ?_⟩
      exact hall (e :: pre) ((List.prefix_cons_inj e).mpr hpre)
    · rintro ⟨hok, hrest⟩ pre hpre
      have hfirst := (mirrors_apply_iff hm e).mpr hok
      cases pre with
      | nil => exact hm
      | cons e' pre =>
        obtain ⟨rfl, hrestpre⟩ := List.cons_prefix_cons.mp hpre
        exact (ih hfirst).mpr hrest pre hrestpre

end Ranvier
