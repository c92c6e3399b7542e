import Ranvier.RadixRecency
import Mathlib.Algebra.BigOperators.Group.Multiset.Basic
import Mathlib.Algebra.GroupWithZero.Nat
import Mathlib.Data.Finset.Card

/-!
# The tallies of the radix tree

`route_count_`, the routes per backend and the route tokens per backend against the leaves
of the tree.

* `Tallies ls book` — the two maps count exactly the routes `ls`; adding a route and
  removing one keep that (`Tallies.added`, `Tallies.removed`), and nothing is taken below
  zero on the way (`Tallies.decrements`);
* moves of nodes do not touch the tallies (`Moves.tallyView`); the one write of an insertion
  keeps them exact unless it overwrites a route of the same backend by one with another
  number of tokens, since the tallies follow only a change of the backend
  (`InsertWrite.tracked`, `InsertWrite.keepsTokens`);
* `tallies_exact_iff` — along a run the tallies are exact precisely if that never happens.

In the map the tree stands for it cannot happen, a key has one length
(`RadixTree.runKeepsTokens_of_withinMax`). It does happen to a key that `insert_recursive`
has attached at the wrong node.
-/

namespace Ranvier

/-! ## Tallies of a multiset of routes -/

/-- The routes of one backend. -/
def heldFor (b : BackendId) (ls : Multiset Node.Leaf) : Multiset Node.Leaf :=
  ls.filter fun l => l.backend = b

/-- The entry of a tally: a backend without routes has none. -/
def tallyEntry (f : Multiset Node.Leaf → ℕ) (b : BackendId) (ls : Multiset Node.Leaf) :
    Option ℕ :=
  if heldFor b ls = 0 then none else some (f (heldFor b ls))

/-- The sum of the key lengths. -/
def tokensOf (ls : Multiset Node.Leaf) : ℕ := (ls.map Node.Leaf.keyTokens).sum

/-- The maps of the book count exactly the given routes. -/
structure Tallies (ls : Multiset Node.Leaf) (book : TreeBook) : Prop where
  /-- the number of routes per backend -/
  routes : ∀ b, book.routesByBackend.lookup b = tallyEntry Multiset.card b ls
  /-- the sum of their key lengths -/
  tokens : ∀ b, book.routeTokensByBackend.lookup b = tallyEntry tokensOf b ls

section Tallies

variable {ls : Multiset Node.Leaf} {book : TreeBook} {l : Node.Leaf} {b : BackendId}

@[simp] theorem heldFor_cons_self : heldFor l.backend (l ::ₘ ls) = l ::ₘ heldFor l.backend ls :=
  Multiset.filter_cons_of_pos _ rfl

theorem heldFor_cons_of_ne (h : l.backend ≠ b) : heldFor b (l ::ₘ ls) = heldFor b ls :=
  Multiset.filter_cons_of_neg _ h

@[simp] theorem tokensOf_cons : tokensOf (l ::ₘ ls) = l.keyTokens + tokensOf ls := by
  rw [tokensOf, Multiset.map_cons, Multiset.sum_cons, tokensOf]

theorem tallyEntry_cons_self (f : Multiset Node.Leaf → ℕ) :
    tallyEntry f l.backend (l ::ₘ ls) = some (f (l ::ₘ heldFor l.backend ls)) := by
  rw [tallyEntry, heldFor_cons_self, if_neg (Multiset.cons_ne_zero)]

theorem tallyEntry_cons_of_ne (f : Multiset Node.Leaf → ℕ) (h : l.backend ≠ b) :
    tallyEntry f b (l ::ₘ ls) = tallyEntry f b ls := by
  rw [tallyEntry, tallyEntry, heldFor_cons_of_ne h]

theorem heldFor_of_tallyEntry_none {f : Multiset Node.Leaf → ℕ} (h : none = tallyEntry f b ls) :
    heldFor b ls = 0 := by
  by_contra hne
  rw [tallyEntry, if_neg hne] at h
  cases h

/-- A new route, unless the map of backends is full. -/
theorem Tallies.added (h : Tallies ls book)
    (hroom : book.routesByBackend.lookup l.backend = none →
      book.routesByBackend.keys.length < kMaxTrackedBackends) :
    Tallies (l ::ₘ ls) (book.noteRouteAdded l.backend l.keyTokens) := by
  have hroutes := h.routes l.backend
  have htokens := h.tokens l.backend
  unfold TreeBook.noteRouteAdded
  split
  · rename_i count hcount
    rw [hcount] at hroutes
    have hnonempty : heldFor l.backend ls ≠ 0 := by
      intro hzero
      rw [tallyEntry, if_pos hzero] at hroutes
      cases hroutes
    rw [tallyEntry, if_neg hnonempty] at hroutes htokens
    refine ⟨fun b => ?_, fun b => ?_⟩
    · by_cases hb : l.backend = b
      · subst hb
        rw [AList.lookup_insert, tallyEntry_cons_self, Multiset.card_cons, Option.some.inj hroutes]
      · rw [AList.lookup_insert_ne (Ne.symm hb), tallyEntry_cons_of_ne _ hb, h.routes b]
    · by_cases hb : l.backend = b
      · subst hb
        rw [AList.lookup_insert, tallyEntry_cons_self, tokensOf_cons, htokens, Option.getD_some,
          Nat.add_comm]
      · rw [AList.lookup_insert_ne (Ne.symm hb), tallyEntry_cons_of_ne _ hb, h.tokens b]
  · rename_i hnone
    rw [if_pos (hroom hnone)]
    rw [hnone] at hroutes
    have hempty := heldFor_of_tallyEntry_none hroutes
    refine ⟨fun b => ?_, fun b => ?_⟩
    · by_cases hb : l.backend = b
      · subst hb
        rw [AList.lookup_insert, tallyEntry_cons_self, hempty]
        rfl
      · rw [AList.lookup_insert_ne (Ne.symm hb), tallyEntry_cons_of_ne _ hb, h.routes b]
    · by_cases hb : l.backend = b
      · subst hb
        rw [AList.lookup_insert, tallyEntry_cons_self, hempty, tokensOf_cons]
        rfl
      · rw [AList.lookup_insert_ne (Ne.symm hb), tallyEntry_cons_of_ne _ hb, h.tokens b]

/-- The entries a removal finds: neither decrement is clipped. -/
theorem Tallies.found (h : Tallies (l ::ₘ ls) book) :
    book.routesByBackend.lookup l.backend = some (Multiset.card (heldFor l.backend ls) + 1) ∧
      book.routeTokensByBackend.lookup l.backend =
        some (l.keyTokens + tokensOf (heldFor l.backend ls)) := by
  rw [h.routes, h.tokens, tallyEntry_cons_self, tallyEntry_cons_self, Multiset.card_cons,
    tokensOf_cons]
  exact ⟨rfl, rfl⟩

theorem Tallies.removed (h : Tallies (l ::ₘ ls) book) :
    Tallies ls (book.noteRouteRemoved (some l.backend) l.keyTokens) := by
  obtain ⟨hroutes, htokens⟩ := h.found
  have hother : ∀ (f : Multiset Node.Leaf → ℕ) {b}, l.backend ≠ b →
      tallyEntry f b (l ::ₘ ls) = tallyEntry f b ls := fun f _ hb => tallyEntry_cons_of_ne f hb
  simp only [TreeBook.noteRouteRemoved, hroutes, htokens, Nat.add_sub_cancel,
    Nat.add_sub_cancel_left, Multiset.card_eq_zero]
  split
  · -- the last route of the backend: both entries go
    rename_i hempty
    refine ⟨fun b => ?_, fun b => ?_⟩
    · by_cases hb : l.backend = b
      · subst hb
        rw [AList.lookup_erase, tallyEntry, if_pos hempty]
      · rw [AList.lookup_erase_ne (Ne.symm hb), h.routes, hother _ hb]
    · by_cases hb : l.backend = b
      · subst hb
        rw [AList.lookup_erase, tallyEntry, if_pos hempty]
      · rw [AList.lookup_erase_ne (Ne.symm hb), AList.lookup_insert_ne (Ne.symm hb), h.tokens,
          hother _ hb]
  · rename_i hne
    refine ⟨fun b => ?_, fun b => ?_⟩
    · by_cases hb : l.backend = b
      · subst hb
        rw [AList.lookup_insert, tallyEntry, if_neg hne]
      · rw [AList.lookup_insert_ne (Ne.symm hb), h.routes, hother _ hb]
    · by_cases hb : l.backend = b
      · subst hb
        rw [AList.lookup_insert, tallyEntry, if_neg hne]
      · rw [AList.lookup_insert_ne (Ne.symm hb), h.tokens, hother _ hb]

/-- The tallies see of a route its backend and its tokens. -/
theorem Tallies.relabel {l' : Node.Leaf} (h : Tallies (l ::ₘ ls) book)
    (hbackend : l'.backend = l.backend) (htokens : l'.keyTokens = l.keyTokens) :
    Tallies (l' ::ₘ ls) book := by
  refine ⟨fun b => ?_, fun b => ?_⟩
  · rw [h.routes]
    by_cases hb : l.backend = b
    · subst hb
      rw [tallyEntry_cons_self, Multiset.card_cons, ← hbackend, tallyEntry_cons_self,
        Multiset.card_cons]
    · rw [tallyEntry_cons_of_ne _ hb, tallyEntry_cons_of_ne _ (hbackend ▸ hb)]
  · rw [h.tokens]
    by_cases hb : l.backend = b
    · subst hb
      rw [tallyEntry_cons_self, tokensOf_cons, ← hbackend, tallyEntry_cons_self, tokensOf_cons,
        htokens]
    · rw [tallyEntry_cons_of_ne _ hb, tallyEntry_cons_of_ne _ (hbackend ▸ hb)]

/-- There is room for a backend among the known ones. -/
theorem Tallies.room (h : Tallies ls book) {known : Finset BackendId}
    (hknown : ∀ l ∈ ls, l.backend ∈ known) (hcard : known.card ≤ kMaxTrackedBackends)
    (hb : b ∈ known) (hnone : book.routesByBackend.lookup b = none) :
    book.routesByBackend.keys.length < kMaxTrackedBackends := by
  have hsub : book.routesByBackend.keys.toFinset ⊆ known.erase b := by
    intro b' hb'
    have hmem : (book.routesByBackend.lookup b').isSome :=
      AList.lookup_isSome.mpr (AList.mem_keys.mpr (List.mem_toFinset.mp hb'))
    have hne : b' ≠ b := by
      rintro rfl
      rw [hnone] at hmem
      cases hmem
    refine Finset.mem_erase.mpr ⟨hne, ?_⟩
    rw [h.routes, tallyEntry] at hmem
    split at hmem
    · cases hmem
    · rename_i hheld
      obtain ⟨l, hl⟩ := Multiset.exists_mem_of_ne_zero hheld
      obtain ⟨hmem, hlb⟩ := Multiset.mem_filter.mp hl
      exact hlb ▸ hknown l hmem
  have hlen := List.toFinset_card_of_nodup book.routesByBackend.keys_nodup
  have hle := Finset.card_le_card hsub
  have herase := Finset.card_erase_lt_of_mem hb
  omega

/-- Taking the given routes out of the tallies one after the other, no decrement reaches below
zero. -/
def DecrementsHold : List Node.Leaf → ℕ → TreeBook → Prop
  | [], _, _ => True
  | l :: ls, count, book =>
    1 ≤ count ∧
      (∃ routes, book.routesByBackend.lookup l.backend = some routes ∧ 1 ≤ routes) ∧
      (∃ tokens, book.routeTokensByBackend.lookup l.backend = some tokens ∧
        l.keyTokens ≤ tokens) ∧
      DecrementsHold ls (count - 1) (book.noteRouteRemoved (some l.backend) l.keyTokens)

/-- From exact tallies any of the routes can be taken out, in any order. -/
theorem Tallies.decrements (h : Tallies ls book) {out : List Node.Leaf}
    (hout : (out : Multiset Node.Leaf) ≤ ls) : DecrementsHold out (Multiset.card ls) book := by
  induction out generalizing ls book with
  | nil => trivial
  | cons l out ih =>
    obtain ⟨rest, rfl⟩ := Multiset.exists_cons_of_mem
      (Multiset.mem_of_le hout (Multiset.mem_coe.mpr List.mem_cons_self))
    obtain ⟨hroutes, htokens⟩ := h.found
    have hrest : (out : Multiset Node.Leaf) ≤ rest := by
      rw [← Multiset.cons_coe] at hout
      exact (Multiset.cons_le_cons_iff l).mp hout
    refine ⟨?_, ⟨_, hroutes, Nat.le_add_left 1 _⟩, ⟨_, htokens, Nat.le_add_right _ _⟩, ?_⟩
    · rw [Multiset.card_cons]
      exact Nat.le_add_left 1 _
    · rw [Multiset.card_cons, Nat.add_sub_cancel]
      exact ih h.removed hrest

end Tallies

/-! ## Tallies of the cells -/

/-- The routes of the cells. -/
def leavesOf (cells : Multiset Cell) : Multiset Node.Leaf := cells.filterMap Prod.snd

@[simp] theorem leavesOf_cons_none (i : ℕ) (c : Multiset Cell) :
    leavesOf ((i, none) ::ₘ c) = leavesOf c :=
  Multiset.filterMap_cons_none _ _ rfl

@[simp] theorem leavesOf_cons_some (i : ℕ) (l : Node.Leaf) (c : Multiset Cell) :
    leavesOf ((i, some l) ::ₘ c) = l ::ₘ leavesOf c :=
  Multiset.filterMap_cons_some _ _ _ rfl

/-- What is claimed of count and tallies: a backend without an entry counts as zero. -/
structure Counted (s : CellState) : Prop where
  /-- `route_count_` is the number of routes -/
  count : s.count = Multiset.card (leavesOf s.cells)
  /-- the number of routes per backend -/
  routes : ∀ b, (s.book.routesByBackend.lookup b).getD 0 =
    Multiset.card (heldFor b (leavesOf s.cells))
  /-- the sum of their key lengths -/
  tokens : ∀ b, (s.book.routeTokensByBackend.lookup b).getD 0 =
    tokensOf (heldFor b (leavesOf s.cells))

/-- What is kept: the maps have no entry to spare, and the backends are among the known. -/
structure Tracked (known : Finset BackendId) (s : CellState) : Prop where
  /-- `route_count_` is the number of routes -/
  count : s.count = Multiset.card (leavesOf s.cells)
  /-- the tallies are those of the routes -/
  tallies : Tallies (leavesOf s.cells) s.book
  /-- the routes lead to known backends -/
  backends : ∀ l ∈ leavesOf s.cells, l.backend ∈ known

section Tracked

variable {s s' : CellState} {known : Finset BackendId}

theorem getD_tallyEntry {f : Multiset Node.Leaf → ℕ} (hf : f 0 = 0) (b : BackendId)
    (ls : Multiset Node.Leaf) : (tallyEntry f b ls).getD 0 = f (heldFor b ls) := by
  rw [tallyEntry]
  split
  · rename_i hempty
    rw [hempty, hf, Option.getD_none]
  · rw [Option.getD_some]

theorem Tracked.counted (h : Tracked known s) : Counted s where
  count := h.count
  routes b := by rw [h.tallies.routes, getD_tallyEntry Multiset.card_zero]
  tokens b := by rw [h.tallies.tokens, getD_tallyEntry rfl]

/-- **Moves do not touch the tallies.** -/
theorem Moves.tallyView (h : Moves s s') :
    leavesOf s'.cells = leavesOf s.cells ∧ s'.count = s.count ∧
      s'.book.routesByBackend = s.book.routesByBackend ∧
      s'.book.routeTokensByBackend = s.book.routeTokensByBackend := by
  induction h with
  | refl => exact ⟨rfl, rfl, rfl, rfl⟩
  | tail _ hlast ih =>
    cases hlast with
    | alloc c book k =>
      rw [leavesOf_cons_none]
      exact ih
    | free i c book k =>
      rw [leavesOf_cons_none] at ih
      exact ih
    | handOver i j l c book k =>
      rw [leavesOf_cons_some, leavesOf_cons_none] at ih
      rw [leavesOf_cons_none, leavesOf_cons_some]
      exact ih

theorem Moves.tracked (h : Moves s s') (hs : Tracked known s) : Tracked known s' := by
  obtain ⟨hleaves, hcount, hroutes, htokens⟩ := h.tallyView
  obtain ⟨hc, ⟨hr, ht⟩, hknown⟩ := hs
  rw [← hleaves, ← hcount] at hc
  rw [← hleaves, ← hroutes] at hr
  rw [← hleaves, ← htokens] at ht
  rw [← hleaves] at hknown
  exact ⟨hc, ⟨hr, ht⟩, hknown⟩

theorem Moves.counted (h : Moves s s') (hs : Counted s') : Counted s := by
  obtain ⟨hleaves, hcount, hroutes, htokens⟩ := h.tallyView
  obtain ⟨hc, hr, ht⟩ := hs
  rw [hleaves, hcount] at hc
  rw [hleaves, hroutes] at hr
  rw [hleaves, htokens] at ht
  exact ⟨hc, hr, ht⟩

/-- A step that writes no route. -/
theorem CellStep.tracked (h : CellStep (fun _ _ => False) s s') (hs : Tracked known s) :
    Tracked known s' := by
  cases h with
  | move h => exact Moves.tracked (Relation.ReflTransGen.single h) hs
  | put i l c book k hR => exact hR.elim
  | replace i held l c book k hR => exact hR.elim
  | touch i l c book k =>
    obtain ⟨hcount, htallies, hknown⟩ := hs
    dsimp only at hcount htallies hknown
    rw [leavesOf_cons_some] at hcount htallies hknown
    have hsame : Tallies ({ l with lastAccessed := book.now } ::ₘ leavesOf c) book :=
      htallies.relabel rfl rfl
    refine ⟨?_, ?_, ?_⟩
    · rw [leavesOf_cons_some, Multiset.card_cons]
      rw [Multiset.card_cons] at hcount
      exact hcount
    · rw [leavesOf_cons_some]
      exact ⟨hsame.routes, hsame.tokens⟩
    · rw [leavesOf_cons_some, Multiset.forall_mem_cons]
      exact Multiset.forall_mem_cons.mp hknown
  | drop i l c book k =>
    obtain ⟨hcount, htallies, hknown⟩ := hs
    dsimp only at hcount htallies hknown
    rw [leavesOf_cons_some] at hcount htallies hknown
    have hsame : Tallies (l ::ₘ leavesOf c) { book with lru := book.lru.remove l.origin i } :=
      ⟨htallies.routes, htallies.tokens⟩
    refine ⟨?_, ?_, ?_⟩
    · rw [leavesOf_cons_none]
      dsimp only
      rw [hcount, Multiset.card_cons, Nat.add_sub_cancel]
    · rw [leavesOf_cons_none]
      exact hsame.removed
    · rw [leavesOf_cons_none]
      exact (Multiset.forall_mem_cons.mp hknown).2

theorem CellSteps.tracked (h : CellSteps (fun _ _ => False) s s') (hs : Tracked known s) :
    Tracked known s' := by
  induction h with
  | refl => exact hs
  | tail _ hlast ih => exact hlast.tracked ih

/-- `route_count_` is right whatever is written. -/
theorem CellStep.count_eq {R : Option Node.Leaf → Node.Leaf → Prop} (h : CellStep R s s')
    (hs : s.count = Multiset.card (leavesOf s.cells)) :
    s'.count = Multiset.card (leavesOf s'.cells) := by
  cases h with
  | move h =>
    obtain ⟨hleaves, hcount, -⟩ := Moves.tallyView (Relation.ReflTransGen.single h)
    rw [hleaves, hcount, hs]
  | put i l c book k hR =>
    dsimp only at hs
    rw [leavesOf_cons_none] at hs
    rw [leavesOf_cons_some, Multiset.card_cons]
    dsimp only
    rw [hs]
  | replace i held l c book k hR =>
    dsimp only at hs
    rw [leavesOf_cons_some, Multiset.card_cons] at hs
    rw [leavesOf_cons_some, Multiset.card_cons]
    exact hs
  | touch i l c book k =>
    dsimp only at hs
    rw [leavesOf_cons_some, Multiset.card_cons] at hs
    rw [leavesOf_cons_some, Multiset.card_cons]
    exact hs
  | drop i l c book k =>
    dsimp only at hs
    rw [leavesOf_cons_some, Multiset.card_cons] at hs
    rw [leavesOf_cons_none]
    dsimp only
    rw [hs, Nat.add_sub_cancel]

theorem CellSteps.count_eq {R : Option Node.Leaf → Node.Leaf → Prop} (h : CellSteps R s s')
    (hs : s.count = Multiset.card (leavesOf s.cells)) :
    s'.count = Multiset.card (leavesOf s'.cells) := by
  induction h with
  | refl => exact hs
  | tail _ hlast ih => exact hlast.count_eq ih

/-- A route that replaces another of its backend has as many tokens. -/
def KeepsTokens (held : Option Node.Leaf) (l : Node.Leaf) : Prop :=
  ∀ h, held = some h → h.backend = l.backend → h.keyTokens = l.keyTokens

section Replaced

variable {ls : Multiset Node.Leaf} {book : TreeBook} {i : ℕ} {held l : Node.Leaf}

/-- Where the backend stays the same the maps are left as they are. -/
theorem routeReplaced_of_same (book : TreeBook) (i : ℕ) (hsame : held.backend = l.backend) :
    (book.routeReplaced i held l).routesByBackend = book.routesByBackend ∧
      (book.routeReplaced i held l).routeTokensByBackend = book.routeTokensByBackend := by
  simp only [TreeBook.routeReplaced, hsame, ne_eq, not_true_eq_false, if_false]
  exact ⟨trivial, trivial⟩

theorem Tallies.replaced (h : Tallies (held ::ₘ ls) book)
    (hknown : ∀ l ∈ ls, l.backend ∈ known) (hcard : known.card ≤ kMaxTrackedBackends)
    (hl : l.backend ∈ known) (hkeep : KeepsTokens (some held) l) :
    Tallies (l ::ₘ ls) (book.routeReplaced i held l) := by
  by_cases hsame : held.backend = l.backend
  · obtain ⟨hroutes, htokens⟩ := routeReplaced_of_same book i hsame
    have hrelabel := h.relabel hsame.symm (hkeep held rfl hsame).symm
    refine ⟨fun b => ?_, fun b => ?_⟩
    · rw [hroutes]
      exact hrelabel.routes b
    · rw [htokens]
      exact hrelabel.tokens b
  · have hne : some held.backend ≠ some l.backend := fun heq => hsame (Option.some.inj heq)
    have hadded := h.removed.added (l := l) fun hnone => h.removed.room hknown hcard hl hnone
    simp only [TreeBook.routeReplaced, if_pos hne]
    exact ⟨hadded.routes, hadded.tokens⟩

/-- Conversely the tokens of the backend are right only if the two routes have as many. -/
theorem Tallies.keepsTokens (h : Tallies (held ::ₘ ls) book)
    (hnew : ((book.routeReplaced i held l).routeTokensByBackend.lookup l.backend).getD 0 =
      tokensOf (heldFor l.backend (l ::ₘ ls))) : KeepsTokens (some held) l := by
  intro held' hheld hsame
  obtain rfl := Option.some.inj hheld
  have hfound := h.found.2
  rw [hsame] at hfound
  rw [(routeReplaced_of_same _ _ hsame).2, hfound, heldFor_cons_self, tokensOf_cons,
    Option.getD_some] at hnew
  omega

end Replaced

section Insert

variable {req : InsertRequest} {held : Option Node.Leaf}

/-- **The one write of an insertion** keeps the tallies unless it overwrites a route of its
backend that has another number of tokens. -/
theorem InsertWrite.tracked (h : InsertWrite req held s s') (hs : Tracked known s)
    (hcard : known.card ≤ kMaxTrackedBackends) (hb : req.backend ∈ known)
    (hkeep : (∀ l, held = some l → req.overwrites l = true) →
      KeepsTokens held (req.leafAt s.book.now)) : Tracked known s' := by
  cases h with
  | put i c book k =>
    obtain ⟨hcount, htallies, hknown⟩ := hs
    dsimp only at hcount htallies hknown
    rw [leavesOf_cons_none] at hcount htallies hknown
    have hadded := htallies.added (l := req.leafAt book.now)
      fun hnone => htallies.room hknown hcard hb hnone
    refine ⟨?_, ?_, ?_⟩
    · rw [leavesOf_cons_some, Multiset.card_cons]
      dsimp only
      rw [hcount]
    · rw [leavesOf_cons_some]
      exact ⟨hadded.routes, hadded.tokens⟩
    · rw [leavesOf_cons_some, Multiset.forall_mem_cons]
      exact ⟨hb, hknown⟩
  | replace i held c book k hover =>
    obtain ⟨hcount, htallies, hknown⟩ := hs
    dsimp only at hcount htallies hknown
    rw [leavesOf_cons_some] at hcount htallies hknown
    have hrest := (Multiset.forall_mem_cons.mp hknown).2
    refine ⟨?_, ?_, ?_⟩
    · rw [leavesOf_cons_some, Multiset.card_cons]
      rw [Multiset.card_cons] at hcount
      exact hcount
    · rw [leavesOf_cons_some]
      refine htallies.replaced hrest hcard hb (hkeep fun l hl => ?_)
      rw [← Option.some.inj hl]
      exact hover
    · rw [leavesOf_cons_some, Multiset.forall_mem_cons]
      exact ⟨hb, hrest⟩
  | touch i held c book k hover => exact CellStep.tracked (CellStep.touch i held c book k) hs
  | refuse held s hover => exact hs

/-- If it does, the tallies are wrong after it. -/
theorem InsertWrite.keepsTokens (h : InsertWrite req held s s') (hs : Tracked known s)
    (hs' : Counted s') (hall : ∀ l, held = some l → req.overwrites l = true) :
    KeepsTokens held (req.leafAt s.book.now) := by
  cases h with
  | put i c book k => exact fun h hh => by cases hh
  | replace i held c book k hover =>
    have htallies := hs.tallies
    have htokens := hs'.tokens req.backend
    dsimp only at htallies htokens
    rw [leavesOf_cons_some] at htallies htokens
    exact htallies.keepsTokens htokens
  | touch i held c book k hover =>
    rw [hall held rfl] at hover
    cases hover
  | refuse held s hover =>
    rw [hall held rfl] at hover
    cases hover

/-- **An insertion**, with the moves around its write. -/
theorem InsertSteps.tracked_iff (h : InsertSteps req held s s') (hs : Tracked known s)
    (hcard : known.card ≤ kMaxTrackedBackends) (hb : req.backend ∈ known) :
    (((∀ l, held = some l → req.overwrites l = true) →
        KeepsTokens held (req.leafAt s.book.now)) → Tracked known s') ∧
      (Counted s' → (∀ l, held = some l → req.overwrites l = true) →
        KeepsTokens held (req.leafAt s.book.now)) := by
  obtain ⟨s₁, s₂, hbefore, hwrite, hafter⟩ := h
  have hnow : s₁.book.now = s.book.now :=
    CellSteps.now_eq (R := fun _ _ => True) hbefore.cellSteps
  rw [← hnow]
  have hs₁ := hbefore.tracked hs
  exact ⟨fun hkeep => hafter.tracked (hwrite.tracked hs₁ hcard hb hkeep),
    fun hs' => hwrite.keepsTokens hs₁ (hafter.counted hs')⟩

end Insert

end Tracked

/-! ## Tallies of the tree -/

/-- The backend an operation inserts a route for. -/
def TreeOp.insertsFor : TreeOp → Option BackendId
  | .insert _ backend _ => some backend
  | .insertIfTrusted _ backend _ _ => some backend
  | _ => none

/-- The backends that a run inserts routes for. -/
def insertedBackends (ops : List (ℕ × TreeOp)) : Finset BackendId :=
  (ops.filterMap fun p => p.2.insertsFor).toFinset

namespace RadixTree

/-- The leaves of the tree. -/
def leaves (t : RadixTree) : List Node.Leaf := t.root.nodes.filterMap Node.leaf

/-- The leaves of a backend. -/
def leavesFor (t : RadixTree) (b : BackendId) : List Node.Leaf :=
  t.leaves.filter fun l => l.backend = b

/-- Count and tallies agree with the leaves, and taking leaves out, whichever and in whichever
order, never decrements below zero. -/
structure TalliesExact (t : RadixTree) : Prop where
  /-- `route_count_` is the number of leaves -/
  count : t.routeCount = t.leaves.length
  /-- `routes_by_backend_` has the number of leaves of each backend -/
  routes : ∀ b, (t.book.routesByBackend.lookup b).getD 0 = (t.leavesFor b).length
  /-- `route_tokens_by_backend_` has the sum of their key tokens -/
  tokens : ∀ b, (t.book.routeTokensByBackend.lookup b).getD 0 =
    ((t.leavesFor b).map Node.Leaf.keyTokens).sum
  /-- there is as much in them as the leaves take out -/
  decrements : ∀ out, List.Subperm out t.leaves → DecrementsHold out t.routeCount t.book

/-- Every write of a run, in the state it meets, keeps the tokens. -/
def runKeepsTokens (t : RadixTree) : List (ℕ × TreeOp) → Prop
  | [] => True
  | (now, op) :: ops => t.Writes KeepsTokens now op ∧ (t.step now op).runKeepsTokens ops

variable {t : RadixTree} {lists : RecencyLists} {known : Finset BackendId}

theorem leavesOf_cells (t : RadixTree) : leavesOf t.root.cells = ↑t.leaves := by
  rw [leavesOf, Node.cells, Multiset.filterMap_coe, List.filterMap_map]
  rfl

theorem heldFor_leaves (t : RadixTree) (b : BackendId) :
    heldFor b (leavesOf t.root.cells) = ↑(t.leavesFor b) := by
  rw [leavesOf_cells, heldFor, Multiset.filter_coe]
  rfl

theorem TalliesExact.counted (h : t.TalliesExact) : Counted t.cellState := by
  refine ⟨?_, fun b => ?_, fun b => ?_⟩
  · rw [cellState, leavesOf_cells, Multiset.coe_card]
    exact h.count
  · rw [cellState, heldFor_leaves, Multiset.coe_card]
    exact h.routes b
  · rw [cellState, heldFor_leaves, tokensOf, Multiset.map_coe, Multiset.sum_coe]
    exact h.tokens b

theorem talliesExact_of_tracked (h : Tracked known t.cellState) : t.TalliesExact := by
  obtain ⟨hcount, hroutes, htokens⟩ := h.counted
  refine ⟨?_, fun b => ?_, fun b => ?_, fun out hout => ?_⟩
  · rw [cellState, leavesOf_cells, Multiset.coe_card] at hcount
    exact hcount
  · have hb := hroutes b
    rw [cellState, heldFor_leaves, Multiset.coe_card] at hb
    exact hb
  · have hb := htokens b
    rw [cellState, heldFor_leaves, tokensOf, Multiset.map_coe, Multiset.sum_coe] at hb
    exact hb
  · have hle : (out : Multiset Node.Leaf) ≤ leavesOf t.root.cells := by
      rw [leavesOf_cells]
      exact Multiset.coe_le.mpr hout
    have hdown := h.tallies.decrements hle
    rw [← h.count] at hdown
    exact hdown

theorem create_tracked (blockAlignment : ℕ+) (now : ℕ) (known : Finset BackendId) :
    Tracked known (create blockAlignment now).cellState :=
  ⟨rfl, ⟨fun _ => rfl, fun _ => rfl⟩, fun l hl => absurd hl (Multiset.notMem_zero l)⟩

/-- The clock plays no part. -/
theorem tracked_now (h : Tracked known t.cellState) (now : ℕ) :
    Tracked known ⟨t.root.cells, { t.book with now := now }, t.routeCount⟩ :=
  ⟨h.count, ⟨h.tallies.routes, h.tallies.tokens⟩, h.backends⟩

theorem insertWith_tracked_iff (hwf : t.root.WF) (h : Tracked known t.cellState)
    (hcard : known.card ≤ kMaxTrackedBackends) (now : ℕ) (tokens : List TokenId)
    {backend : BackendId} (hb : backend ∈ known) (origin : RouteOrigin) (trust : Option Bool) :
    (t.InsertWrites KeepsTokens now tokens backend origin trust →
        Tracked known (t.insertWith now tokens backend origin trust).1.cellState) ∧
      (Counted (t.insertWith now tokens backend origin trust).1.cellState →
        t.InsertWrites KeepsTokens now tokens backend origin trust) := by
  by_cases hlen : alignedLen t.blockAlignment tokens = 0
  · refine ⟨fun _ => ?_, fun _ hne => absurd hlen hne⟩
    unfold insertWith
    simp only [if_pos hlen]
    exact h
  · have hsteps := (insertWith_writes hwf now backend origin trust hlen).2
    obtain ⟨hkeep, hcounted⟩ := hsteps.tracked_iff (tracked_now h now) hcard hb
    exact ⟨fun hwrites => hkeep (hwrites hlen), fun hs _ => hcounted hs⟩

/-- An operation that writes no route. -/
theorem CellRun.tracked {now : ℕ} {t' : RadixTree} (h : CellRun (fun _ _ => False) t now t')
    (hs : Tracked known t.cellState) : Tracked known t'.cellState := by
  obtain ⟨book, hbook, hsteps⟩ := h.steps
  refine hsteps.tracked ?_
  rcases hbook with rfl | rfl
  · exact hs
  · exact tracked_now hs now

/-- **One operation** keeps the tallies exact precisely if it keeps the tokens. -/
theorem step_tracked_iff (hwf : t.root.WF) (hlists : t.cellState.Lists lists)
    (h : Tracked known t.cellState) (hcard : known.card ≤ kMaxTrackedBackends) (now : ℕ)
    (op : TreeOp) (hop : ∀ b, op.insertsFor = some b → b ∈ known) :
    (t.Writes KeepsTokens now op → Tracked known (t.step now op).cellState) ∧
      (Counted (t.step now op).cellState → t.Writes KeepsTokens now op) := by
  have hother : t.Writes (fun _ _ => False) now op →
      Tracked known (t.step now op).cellState := fun hno =>
    (step_cells (pointed_of_lists hwf hlists) now op hno).tracked h
  cases op with
  | insert tokens backend origin =>
    exact insertWith_tracked_iff hwf h hcard now tokens (hop backend rfl) origin none
  | insertIfTrusted tokens backend origin converge =>
    exact insertWith_tracked_iff hwf h hcard now tokens (hop backend rfl) origin (some converge)
  | _ => exact ⟨fun _ => hother trivial, fun _ => trivial⟩

theorem run_talliesExact_iff (hwf : t.root.WF) (hlists : t.cellState.Lists lists)
    (h : Tracked known t.cellState) (hcard : known.card ≤ kMaxTrackedBackends)
    (ops : List (ℕ × TreeOp)) (hops : insertedBackends ops ⊆ known) :
    (∀ ops', ops' <+: ops → (t.run ops').TalliesExact) ↔ t.runKeepsTokens ops := by
  induction ops generalizing t lists with
  | nil =>
    refine iff_of_true (fun ops' hpre => ?_) trivial
    rw [List.prefix_nil.mp hpre]
    exact talliesExact_of_tracked h
  | cons p ops ih =>
    obtain ⟨now, op⟩ := p
    have hop : ∀ b, op.insertsFor = some b → b ∈ known := fun b hb =>
      hops (List.mem_toFinset.mpr (List.mem_filterMap.mpr ⟨(now, op), List.mem_cons_self, hb⟩))
    have hrest : insertedBackends ops ⊆ known := by
      intro b hb
      obtain ⟨p, hp, hpb⟩ := List.mem_filterMap.mp (List.mem_toFinset.mp hb)
      exact hops (List.mem_toFinset.mpr
        (List.mem_filterMap.mpr ⟨p, List.mem_cons_of_mem _ hp, hpb⟩))
    obtain ⟨hwf', lists', hlists', -⟩ := step_lists hwf hlists now op
    obtain ⟨hkeep, hcounted⟩ := step_tracked_iff hwf hlists h hcard now op hop
    constructor
    · intro hall
      have hone : (t.step now op).TalliesExact :=
        hall [(now, op)] (List.cons_prefix_cons.mpr ⟨rfl, List.nil_prefix⟩)
      have hwrites := hcounted hone.counted
      refine ⟨hwrites, (ih hwf' hlists' (hkeep hwrites) hrest).mp fun ops' hpre => ?_⟩
      exact hall ((now, op) :: ops') (List.cons_prefix_cons.mpr ⟨rfl, hpre⟩)
    · rintro ⟨hwrites, hruns⟩ ops' hpre
      rcases ops' with _ | ⟨p', ops'⟩
      · exact talliesExact_of_tracked h
      · obtain ⟨rfl, hpre'⟩ := List.cons_prefix_cons.mp hpre
        exact (ih hwf' hlists' (hkeep hwrites) hrest).mpr hruns ops' hpre'

theorem run_count (hwf : t.root.WF) (hlists : t.cellState.Lists lists)
    (hcount : t.routeCount = t.leaves.length) (ops : List (ℕ × TreeOp)) :
    (t.run ops).routeCount = (t.run ops).leaves.length := by
  induction ops generalizing t lists with
  | nil => exact hcount
  | cons p ops ih =>
    obtain ⟨now, op⟩ := p
    obtain ⟨hwf', lists', hlists', -⟩ := step_lists hwf hlists now op
    refine ih hwf' hlists' ?_
    obtain ⟨-, book, -, hsteps⟩ :=
      step_cells (pointed_of_lists hwf hlists) now op (t.writes_any now op)
    have hstart : t.routeCount = Multiset.card (leavesOf t.root.cells) := by
      rw [leavesOf_cells, Multiset.coe_card, hcount]
    have hend := hsteps.count_eq hstart
    rw [cellState, leavesOf_cells, Multiset.coe_card] at hend
    exact hend

theorem Reached.count (h : t.Reached) : t.routeCount = t.leaves.length := by
  obtain ⟨blockAlignment, now₀, ops, rfl⟩ := h
  exact run_count (create_inv blockAlignment now₀).wf (create_lists blockAlignment now₀) rfl ops

/-! ## Keys at their place -/

end RadixTree

/-- The route held where an insertion ends is the one stored for its key, unless the descent
splits a path past `MAX_PREFIX_LENGTH`. -/
theorem Node.heldAt_eq_stored {n : Node} (hwf : n.WF) {key : List UInt8}
    (hmax : n.splitsWithinMax key = true) (book : TreeBook) :
    n.heldAt key book = n.stored key := by
  fun_induction Node.heldAt n key book with
  | case1 n key book len s hrem =>
    obtain ⟨-, hstored, hkey, -⟩ := split_ready hwf hmax book (s := s) rfl
    exact (leaf_of_split hstored hkey hrem).2
  | case2 n key book len s b rest hrem child hfind ih =>
    obtain ⟨hwf', hstored, hkey, -, hdesc⟩ := split_ready hwf hmax book (s := s) rfl
    change key = s.1.pre ++ key.drop len at hkey
    rw [Node.findChild_eq_lookup hwf'.shape] at hfind
    rw [ih (hwf'.kids b child hfind) (hdesc b rest child hrem hfind), ← hstored, hkey, hrem,
      Node.stored_append, Node.storedBelow, hfind]
    rfl
  | case3 n key book len s b rest hrem hfind =>
    obtain ⟨hwf', hstored, hkey, -⟩ := split_ready hwf hmax book (s := s) rfl
    change key = s.1.pre ++ key.drop len at hkey
    rw [Node.findChild_eq_lookup hwf'.shape] at hfind
    rw [← hstored, hkey, hrem, Node.stored_append, Node.storedBelow, hfind]
    rfl

theorem settle_keyTokens {req : InsertRequest} {now : ℕ} {held : Option Node.Leaf}
    {l : Node.Leaf} (h : settle req now held = some l) :
    l.keyTokens = req.keyTokens ∨ ∃ l₀, held = some l₀ ∧ l.keyTokens = l₀.keyTokens := by
  unfold settle at h
  split at h
  · rename_i converge l₀ _
    split at h
    · split at h
      · exact Or.inl (by rw [← Option.some.inj h])
      · exact Or.inr ⟨l₀, rfl, by rw [← Option.some.inj h]⟩
    · split at h
      · refine Or.inr ⟨l₀, rfl, ?_⟩
        split at h <;> rw [← Option.some.inj h]
      · exact Or.inl (by rw [← Option.some.inj h])
  · exact Or.inl (by rw [← Option.some.inj h])

namespace RadixTree

variable {t : RadixTree}

/-- A stored route has the tokens of its key. -/
def KeyTokensKept (t : RadixTree) : Prop :=
  ∀ key l, t.root.stored key = some l → l.keyTokens = key.length / 4 % 2 ^ 32

/-- What is stored at a key was stored there before, with as many tokens. -/
def TokensFrom (l l' : Option Node.Leaf) : Prop :=
  ∀ r', l' = some r' → ∃ r, l = some r ∧ r'.keyTokens = r.keyTokens

theorem KeyTokensKept.from {t' : RadixTree} (h : t.KeyTokensKept)
    (hfrom : ∀ key, TokensFrom (t.root.stored key) (t'.root.stored key)) : t'.KeyTokensKept := by
  intro key l' hl'
  obtain ⟨l, hl, htokens⟩ := hfrom key l' hl'
  rw [htokens]
  exact h key l hl

theorem create_keyTokensKept (blockAlignment : ℕ+) (now : ℕ) :
    (create blockAlignment now).KeyTokensKept := by
  intro key l hl
  have hnone : (create blockAlignment now).root.stored key = none := stored_emptyRoot _ key
  rw [hnone] at hl
  cases hl

theorem insertWith_keyTokensKept (hinv : t.Inv) (h : t.KeyTokensKept) (now : ℕ)
    (tokens : List TokenId) (backend : BackendId) (origin : RouteOrigin) (trust : Option Bool)
    (hmax : t.insertWithinMax tokens = true) :
    (t.insertWith now tokens backend origin trust).1.KeyTokensKept := by
  unfold insertWith
  by_cases hlen : alignedLen t.blockAlignment tokens = 0
  · simp only [if_pos hlen]
    exact h
  simp only [if_neg hlen]
  have hstored := (insertRecursive_spec (t.request tokens backend origin trust) t.root
    (encodeTokensBe (alignedTokens t.blockAlignment tokens)) { t.book with now := now }
    hinv.wf hmax).2
  intro key l hl
  replace hl := (hstored key).symm.trans hl
  split at hl
  · rename_i hkey
    subst hkey
    rcases settle_keyTokens hl with hnew | ⟨l₀, hl₀, hold⟩
    · rw [hnew, length_encodeTokensBe, length_alignedTokens, Nat.mul_div_cancel_left _ (by decide)]
      rfl
    · rw [hold]
      exact h _ l₀ hl₀
  · exact h key l hl

theorem insertWith_keepsTokens (hinv : t.Inv) (h : t.KeyTokensKept) (now : ℕ)
    (tokens : List TokenId) (backend : BackendId) (origin : RouteOrigin) (trust : Option Bool)
    (hmax : t.insertWithinMax tokens = true) :
    t.InsertWrites KeepsTokens now tokens backend origin trust := by
  intro _ _ held hheld _
  rw [heldBy, Node.heldAt_eq_stored hinv.wf hmax] at hheld
  rw [h _ held hheld, length_encodeTokensBe, length_alignedTokens,
    Nat.mul_div_cancel_left _ (by decide)]
  rfl

theorem evictLeaf_keyTokensKept (h : t.KeyTokensKept) (victim : Node) :
    (t.evictLeaf victim).KeyTokensKept := by
  have hedit := Node.writeAt_edited (R := TokensFrom) victim.id
    (fun n => { n with leafValue := none })
    (fun m => ⟨rfl, rfl, rfl, rfl, fun r' hr' => by cases hr'⟩) (fun _ r' hr' => ⟨r', hr', rfl⟩)
    t.root
  exact h.from fun key => hedit.stored (fun r' hr' => by cases hr') key

theorem lookup_keyTokensKept (h : t.KeyTokensKept) (now : ℕ) (tokens : List TokenId) :
    (t.lookup now tokens).2.KeyTokensKept := by
  unfold lookup
  split
  · exact h
  · rename_i best hbest
    have htouch : ∀ m : Node, TokensFrom m.leaf { m with lastAccessed := now }.leaf := by
      intro m r' hr'
      obtain ⟨b, hb, rfl⟩ := Option.map_eq_some_iff.mp hr'
      exact ⟨⟨b, m.origin, m.keyTokens, m.lastAccessed⟩,
        Option.map_eq_some_iff.mpr ⟨b, hb, rfl⟩, rfl⟩
    have hedit := Node.writeAt_edited (R := TokensFrom) best.id
      (fun n => { n with lastAccessed := now })
      (fun m => ⟨rfl, rfl, rfl, rfl, htouch m⟩) (fun _ r' hr' => ⟨r', hr', rfl⟩) t.root
    exact h.from fun key => hedit.stored (fun r' hr' => by cases hr') key

theorem removeWhere_keyTokensKept (hinv : t.Inv) (h : t.KeyTokensKept) (p : Node.Leaf → Bool) :
    (t.removeWhere p).1.KeyTokensKept := by
  refine h.from fun key r' hr' => ?_
  rw [(removeWhere_step hinv p).2.2 key] at hr'
  exact ⟨r', (Option.filter_eq_some_iff.mp hr').1, rfl⟩

theorem compact_keyTokensKept (hinv : t.Inv) (h : t.KeyTokensKept) : t.compact.1.KeyTokensKept := by
  obtain ⟨hwf, hstored⟩ := Node.compactChildren_spec t.root hinv.wf ⟨0, 0, 0⟩ t.book
  have hshrink := (Node.shrinkIfNeeded_spec hwf.shape
    (t.root.compactChildren ⟨0, 0, 0⟩ t.book).2.1
    (t.root.compactChildren ⟨0, 0, 0⟩ t.book).2.2).stored
  intro key l hl
  exact h key l (((hshrink key).trans (hstored key)).symm.trans hl)

theorem step_keyTokensKept (hinv : t.Inv) (h : t.KeyTokensKept) (now : ℕ) (op : TreeOp)
    (hmax : t.stepWithinMax op = true) :
    (t.step now op).KeyTokensKept ∧ t.Writes KeepsTokens now op := by
  have holdest : t.evictOldest.1.KeyTokensKept := by
    rw [evictOldest]
    split
    · exact h
    · exact evictLeaf_keyTokensKept h _
  cases op with
  | insert tokens backend origin =>
    exact ⟨insertWith_keyTokensKept hinv h now tokens backend origin none hmax,
      insertWith_keepsTokens hinv h now tokens backend origin none hmax⟩
  | insertIfTrusted tokens backend origin converge =>
    exact ⟨insertWith_keyTokensKept hinv h now tokens backend origin (some converge) hmax,
      insertWith_keepsTokens hinv h now tokens backend origin (some converge) hmax⟩
  | lookup tokens => exact ⟨lookup_keyTokensKept h now tokens, trivial⟩
  | evictOldest => exact ⟨holdest, trivial⟩
  | evictLowestTrust =>
    refine ⟨?_, trivial⟩
    rw [step, evictLowestTrust]
    split
    · exact evictLeaf_keyTokensKept h _
    · split
      · exact evictLeaf_keyTokensKept h _
      · exact holdest
  | removeExpired cutoff => exact ⟨removeWhere_keyTokensKept hinv h _, trivial⟩
  | removeExpiredPerBackend cutoffFn => exact ⟨removeWhere_keyTokensKept hinv h _, trivial⟩
  | removeRoutesByBackend backend origin => exact ⟨removeWhere_keyTokensKept hinv h _, trivial⟩
  | compact => exact ⟨compact_keyTokensKept hinv h, trivial⟩

/-- A run that splits no path past `MAX_PREFIX_LENGTH` keeps the tokens. -/
theorem runKeepsTokens_of_withinMax (hinv : t.Inv) (h : t.KeyTokensKept)
    (ops : List (ℕ × TreeOp)) (hmax : t.runWithinMax ops = true) : t.runKeepsTokens ops := by
  induction ops generalizing t with
  | nil => trivial
  | cons p ops ih =>
    obtain ⟨now, op⟩ := p
    rw [runWithinMax, Bool.and_eq_true] at hmax
    obtain ⟨hkept, hwrites⟩ := step_keyTokensKept hinv h now op hmax.1
    exact ⟨hwrites, ih (step_spec hinv now op hmax.1).1 hkept hmax.2⟩

end RadixTree

/-- **The tallies along a run** with no more backends than are tracked. In the trees it passes
through `route_count_` is the number of leaves, the tallies of each backend are the number and
the key tokens of its leaves and no decrement goes below zero, exactly when no insertion
overwrites a route of its own backend that has another number of tokens. None does in a run
that splits no path past `MAX_PREFIX_LENGTH`. -/
theorem tallies_exact_iff (blockAlignment : ℕ+) (now₀ : ℕ) (ops : List (ℕ × TreeOp))
    (hbackends : (insertedBackends ops).card ≤ kMaxTrackedBackends) :
    ((∀ ops', ops' <+: ops →
        ((RadixTree.create blockAlignment now₀).run ops').TalliesExact) ↔
      (RadixTree.create blockAlignment now₀).runKeepsTokens ops) ∧
    ((RadixTree.create blockAlignment now₀).runWithinMax ops = true →
      (RadixTree.create blockAlignment now₀).runKeepsTokens ops) := by
  have hinv := RadixTree.create_inv blockAlignment now₀
  constructor
  · exact RadixTree.run_talliesExact_iff hinv.wf (RadixTree.create_lists blockAlignment now₀)
      (RadixTree.create_tracked blockAlignment now₀ (insertedBackends ops)) hbackends ops
      (Finset.Subset.refl _)
  · exact RadixTree.runKeepsTokens_of_withinMax hinv
      (RadixTree.create_keyTokensKept blockAlignment now₀) ops

theorem tallies_exact_threeOrigins :
    (insertedBackends threeOrigins).card ≤ kMaxTrackedBackends ∧
      (∀ ops', ops' <+: threeOrigins → ((RadixTree.create 1 0).run ops').TalliesExact) ∧
      (RadixTree.create 1 0).runKeepsTokens threeOrigins := by
  have hcard : (insertedBackends threeOrigins).card ≤ kMaxTrackedBackends := by decide
  obtain ⟨hiff, hmax⟩ := tallies_exact_iff 1 0 threeOrigins hcard
  have hkeeps := hmax (by decide +kernel)
  exact ⟨hcard, hiff.mpr hkeeps, hkeeps⟩

/-- Two keys of one backend that end up at one node: the first leaves the long path of
`longKey` past the bound and is attached four bytes too early, where the second belongs. -/
def overlaidKeys : List (ℕ × TreeOp) :=
  [(0, .insert longKey 1 .LOCAL), (1, .insert (List.replicate 513 0 ++ [0x100]) 2 .LOCAL),
    (2, .insert (List.replicate 512 0 ++ [0x100]) 2 .LOCAL)]

/-- **The slip.** Two backends, three insertions: the leaf of backend 2 has 513 tokens, and its
tally the 514 of the route that was overwritten. -/
theorem overlaidKeys_tokens_stale :
    (insertedBackends overlaidKeys).card = 2 ∧
      ¬ ((RadixTree.create 1 0).run overlaidKeys).TalliesExact := by
  refine ⟨by decide, fun h => ?_⟩
  have htally : ((((RadixTree.create 1 0).run overlaidKeys).book.routeTokensByBackend.lookup
      2).getD 0 = 514) ∧ (((RadixTree.create 1 0).run overlaidKeys).leavesFor 2).map
        Node.Leaf.keyTokens = [513] := by
    decide +kernel
  have htokens := h.tokens 2
  rw [htally.1, htally.2] at htokens
  cases htokens

end Ranvier
