import Ranvier.RadixLists
import Ranvier.RadixPointers

/-!
# Recency and eviction

Every leaf of the tree is linked in the recency list of its origin, newest first, and the
evictions take the tails.

* `Listed` — the threaded lists hold exactly the routes of the tree; every step on the
  cells keeps that (`CellStep.listed`), and under a clock that does not run back it keeps
  the order by last access (`Aged`);
* `recency_contract` — so it is in every tree reached, and the evictions remove an oldest
  route, and an oldest one of the least trusted origin.
-/

namespace Ranvier

/-! ## The routes in the lists -/

/-- The routes of the recency lists with the nodes that hold them, one list per origin. -/
abbrev RecencyLists : Type := RouteOrigin → List (ℕ × Node.Leaf)

/-- The lists hold exactly the routes of the cells, each in the list of its origin. -/
def Holds (cells : Multiset Cell) (lists : RecencyLists) : Prop :=
  ∀ origin i l, (i, l) ∈ lists origin ↔ (i, some l) ∈ cells ∧ l.origin = origin

/-- The lists are newest first and nothing in them is newer than `now`. -/
structure Aged (now : ℕ) (lists : RecencyLists) : Prop where
  /-- newest first -/
  ordered : ∀ origin, ((lists origin).map Prod.snd).Pairwise
    fun a b => b.lastAccessed ≤ a.lastAccessed
  /-- nothing from the future -/
  past : ∀ origin, ∀ l ∈ (lists origin).map Prod.snd, l.lastAccessed ≤ now

/-- Cells, pointers and lists agree. -/
structure Listed (cells : Multiset Cell) (lru : LruLists) (nextId : ℕ) (lists : RecencyLists) :
    Prop where
  /-- no two cells have one identity -/
  unique : (cells.map Prod.fst).Nodup
  /-- identities were handed out by the allocator -/
  handedOut : ∀ x ∈ cells, x.1 < nextId
  /-- the pointers thread the lists -/
  chains : Chains lru (List.map Prod.fst ∘ lists)
  /-- the lists hold the routes -/
  holds : Holds cells lists

section Lists

variable {cells c : Multiset Cell} {lists : RecencyLists} {origin : RouteOrigin} {now i j : ℕ}
  {l : Node.Leaf} {xs ys : List (ℕ × Node.Leaf)}

theorem Aged.update (h : Aged now lists) {new : List (ℕ × Node.Leaf)}
    (hordered : (new.map Prod.snd).Pairwise fun a b => b.lastAccessed ≤ a.lastAccessed)
    (hpast : ∀ l ∈ new.map Prod.snd, l.lastAccessed ≤ now) (origin : RouteOrigin) :
    Aged now (Function.update lists origin new) := by
  refine ⟨fun o => ?_, fun o => ?_⟩
  · rw [Function.update_apply]
    split
    · exact hordered
    · exact h.ordered o
  · rw [Function.update_apply]
    split
    · exact hpast
    · exact h.past o

theorem Aged.remove (h : Aged now lists) (hlist : lists origin = xs ++ (i, l) :: ys) :
    Aged now (Function.update lists origin (xs ++ ys)) := by
  have hsub : ((xs ++ ys).map Prod.snd).Sublist ((lists origin).map Prod.snd) := by
    rw [hlist]
    exact ((List.sublist_cons_self (i, l) ys).append_left xs).map Prod.snd
  exact h.update ((h.ordered origin).sublist hsub) (fun l hl => h.past origin l (hsub.subset hl))
    origin

/-- A route used just now goes to the front. -/
theorem Aged.push (h : Aged now lists) (hnow : l.lastAccessed = now) {o : RouteOrigin} :
    Aged now (Function.update lists o ((i, l) :: lists o)) := by
  refine h.update ?_ ?_ o
  · rw [List.map_cons, List.pairwise_cons]
    refine ⟨fun l' hl' => ?_, h.ordered o⟩
    rw [hnow]
    exact h.past o l' hl'
  · intro l' hl'
    rw [List.map_cons] at hl'
    rcases List.mem_cons.mp hl' with rfl | hl'
    · exact hnow.le
    · exact h.past o l' hl'

/-- Handing a route over to another node does not change its age. -/
theorem Aged.rename (h : Aged now lists) (hlist : lists origin = xs ++ (i, l) :: ys) :
    Aged now (Function.update lists origin (xs ++ (j, l) :: ys)) := by
  have hsame : (xs ++ (j, l) :: ys).map Prod.snd = (lists origin).map Prod.snd := by
    rw [hlist, List.map_append, List.map_append]
    rfl
  refine h.update ?_ ?_ origin
  · rw [hsame]
    exact h.ordered origin
  · rw [hsame]
    exact h.past origin

/-- Nothing depends on the order of a list. -/
theorem Holds.perm {new new' : List (ℕ × Node.Leaf)}
    (h : Holds cells (Function.update lists origin new)) (hperm : new.Perm new') :
    Holds cells (Function.update lists origin new') := by
  intro o i l
  rw [← h o i l, Function.update_apply, Function.update_apply]
  split
  · exact hperm.mem_iff.symm
  · rfl

@[simp] theorem mem_cons_none {i' : ℕ} {l' : Node.Leaf} :
    ((i', some l') : Cell) ∈ (i, none) ::ₘ c ↔ (i', some l') ∈ c := by
  simp

@[simp] theorem mem_cons_some {i' : ℕ} {l' : Node.Leaf} :
    ((i', some l') : Cell) ∈ (i, some l) ::ₘ c ↔ (i', l') = (i, l) ∨ (i', some l') ∈ c := by
  simp

theorem not_mem_of_unique {x : Cell} (hunique : ((x ::ₘ c).map Prod.fst).Nodup)
    (o : Option Node.Leaf) : (x.1, o) ∉ c := by
  rw [Multiset.map_cons, Multiset.nodup_cons] at hunique
  exact fun hmem => hunique.1 (Multiset.mem_map.mpr ⟨(x.1, o), hmem, rfl⟩)

theorem Holds.remove (h : Holds ((i, some l) ::ₘ c) lists)
    (hunique : (((i, some l) ::ₘ c).map Prod.fst).Nodup)
    (hlist : lists l.origin = xs ++ (i, l) :: ys) (hi : (i, l) ∉ xs ++ ys) :
    Holds ((i, none) ::ₘ c) (Function.update lists l.origin (xs ++ ys)) := by
  intro o i' l'
  have hold := h o i' l'
  rw [mem_cons_some] at hold
  rw [mem_cons_none, Function.update_apply]
  have hout : ((i, some l) : Cell) ∉ c := not_mem_of_unique hunique (some l)
  split
  · rename_i ho
    have hmem : (i', l') ∈ lists o ↔ (i', l') = (i, l) ∨ (i', l') ∈ xs ++ ys := by
      rw [ho, hlist, List.perm_middle.mem_iff, List.mem_cons]
    rw [hmem] at hold
    constructor
    · intro hin
      obtain ⟨heq | hc, horigin⟩ := hold.mp (Or.inr hin)
      · exact absurd (heq ▸ hin) hi
      · exact ⟨hc, horigin⟩
    · rintro ⟨hc, horigin⟩
      rcases hold.mpr ⟨Or.inr hc, horigin⟩ with heq | hin
      · obtain ⟨rfl, rfl⟩ := Prod.mk.inj heq
        exact absurd hc hout
      · exact hin
  · rename_i ho
    rw [hold]
    constructor
    · rintro ⟨heq | hc, horigin⟩
      · rw [(Prod.mk.inj heq).2] at horigin
        exact absurd horigin.symm ho
      · exact ⟨hc, horigin⟩
    · rintro ⟨hc, horigin⟩
      exact ⟨Or.inr hc, horigin⟩

theorem Holds.put (h : Holds ((i, none) ::ₘ c) lists) (l : Node.Leaf) :
    Holds ((i, some l) ::ₘ c) (Function.update lists l.origin ((i, l) :: lists l.origin)) := by
  intro o i' l'
  have hold := h o i' l'
  rw [mem_cons_none] at hold
  rw [mem_cons_some, Function.update_apply]
  split
  · rename_i ho
    rw [← ho, List.mem_cons, hold]
    constructor
    · rintro (heq | ⟨hc, horigin⟩)
      · exact ⟨Or.inl heq, by rw [(Prod.mk.inj heq).2, ho]⟩
      · exact ⟨Or.inr hc, horigin⟩
    · rintro ⟨heq | hc, horigin⟩
      · exact Or.inl heq
      · exact Or.inr ⟨hc, horigin⟩
  · rename_i ho
    rw [hold]
    constructor
    · rintro ⟨hc, horigin⟩
      exact ⟨Or.inr hc, horigin⟩
    · rintro ⟨heq | hc, horigin⟩
      · rw [(Prod.mk.inj heq).2] at horigin
        exact absurd horigin.symm ho
      · exact ⟨hc, horigin⟩

end Lists

/-! ## Every step keeps the lists -/

section Steps

variable {c : Multiset Cell} {lru : LruLists} {nextId i j : ℕ} {lists : RecencyLists}
  {held l : Node.Leaf} {xs ys : List (ℕ × Node.Leaf)}

/-- A route is somewhere in the list of its origin, and nowhere else in it. -/
theorem Listed.split (h : Listed ((i, some l) ::ₘ c) lru nextId lists) :
    ∃ xs ys, lists l.origin = xs ++ (i, l) :: ys ∧ (i, l) ∉ xs ++ ys := by
  have hmem : (i, l) ∈ lists l.origin := (h.holds l.origin i l).mpr ⟨by simp, rfl⟩
  obtain ⟨xs, ys, hlist⟩ := List.append_of_mem hmem
  refine ⟨xs, ys, hlist, ?_⟩
  have hnodup : (lists l.origin).Nodup := (h.chains.nodup l.origin).of_map
  rw [hlist, List.nodup_middle, List.nodup_cons] at hnodup
  exact hnodup.1

/-- A node without a route is in no list. -/
theorem Listed.not_linked (h : Listed ((i, none) ::ₘ c) lru nextId lists) (o : RouteOrigin) :
    i ∉ (List.map Prod.fst ∘ lists) o := by
  intro hmem
  obtain ⟨⟨i', l⟩, hl, rfl⟩ := List.mem_map.mp hmem
  have hcell := ((h.holds o i' l).mp hl).1
  rw [mem_cons_none] at hcell
  exact not_mem_of_unique h.unique (some l) hcell

/-- What is known of the identities depends on no route. -/
theorem Listed.of_ids {c d : Multiset Cell} (h : Listed c lru nextId lists)
    (hids : d.map Prod.fst = c.map Prod.fst) :
    (d.map Prod.fst).Nodup ∧ ∀ x ∈ d, x.1 < nextId := by
  refine ⟨hids ▸ h.unique, fun x hx => ?_⟩
  have hmem : x.1 ∈ c.map Prod.fst := hids ▸ Multiset.mem_map_of_mem Prod.fst hx
  obtain ⟨y, hy, hxy⟩ := Multiset.mem_map.mp hmem
  rw [← hxy]
  exact h.handedOut y hy

theorem Listed.alloc (h : Listed c lru nextId lists) :
    Listed ((nextId, none) ::ₘ c) lru (nextId + 1) lists := by
  refine ⟨?_, fun x hx => ?_, h.chains, fun o i l => ?_⟩
  · rw [Multiset.map_cons, Multiset.nodup_cons]
    refine ⟨fun hmem => ?_, h.unique⟩
    obtain ⟨x, hx, hid⟩ := Multiset.mem_map.mp hmem
    have hlt := h.handedOut x hx
    dsimp only at hid hlt
    omega
  · rcases Multiset.mem_cons.mp hx with rfl | hx
    · exact Nat.lt_succ_self _
    · exact Nat.lt_succ_of_lt (h.handedOut x hx)
  · rw [mem_cons_none]
    exact h.holds o i l

theorem Listed.free (h : Listed ((i, none) ::ₘ c) lru nextId lists) :
    Listed c lru nextId lists := by
  refine ⟨?_, fun x hx => h.handedOut x (Multiset.mem_cons_of_mem hx), h.chains, fun o i' l => ?_⟩
  · have hunique := h.unique
    rw [Multiset.map_cons, Multiset.nodup_cons] at hunique
    exact hunique.2
  · rw [h.holds o i' l, mem_cons_none]

theorem Listed.remove (h : Listed ((i, some l) ::ₘ c) lru nextId lists)
    (hlist : lists l.origin = xs ++ (i, l) :: ys) (hi : (i, l) ∉ xs ++ ys) :
    Listed ((i, none) ::ₘ c) (lru.remove l.origin i) nextId
      (Function.update lists l.origin (xs ++ ys)) := by
  obtain ⟨hunique, hout⟩ := h.of_ids (d := (i, none) ::ₘ c) (by simp)
  refine ⟨hunique, hout, ?_, h.holds.remove h.unique hlist hi⟩
  rw [Function.comp_update, List.map_append]
  refine h.chains.remove ?_
  rw [Function.comp_apply, hlist, List.map_append, List.map_cons]

theorem Listed.put (h : Listed ((i, none) ::ₘ c) lru nextId lists) (l : Node.Leaf) :
    Listed ((i, some l) ::ₘ c) (lru.pushFront l.origin i) nextId
      (Function.update lists l.origin ((i, l) :: lists l.origin)) := by
  obtain ⟨hunique, hout⟩ := h.of_ids (d := (i, some l) ::ₘ c) (by simp)
  refine ⟨hunique, hout, ?_, h.holds.put l⟩
  rw [Function.comp_update, List.map_cons]
  exact h.chains.pushFront h.not_linked l.origin

theorem Listed.handOver (h : Listed ((i, some l) ::ₘ (j, none) ::ₘ c) lru nextId lists)
    (hlist : lists l.origin = xs ++ (i, l) :: ys) (hi : (i, l) ∉ xs ++ ys) :
    Listed ((i, none) ::ₘ (j, some l) ::ₘ c) (lru.splice l.origin i j) nextId
      (Function.update lists l.origin (xs ++ (j, l) :: ys)) := by
  obtain ⟨hunique, hout⟩ := h.of_ids (d := (i, none) ::ₘ (j, some l) ::ₘ c) (by simp)
  have hswap := h
  rw [Multiset.cons_swap] at hswap
  have hremoved := h.holds.remove h.unique hlist hi
  rw [Multiset.cons_swap] at hremoved
  have hput := hremoved.put l
  rw [Function.update_self, Function.update_idem, Multiset.cons_swap] at hput
  refine ⟨hunique, hout, ?_, hput.perm List.perm_middle.symm⟩
  rw [Function.comp_update, List.map_append, List.map_cons]
  refine h.chains.splice ?_ hswap.not_linked
  rw [Function.comp_apply, hlist, List.map_append, List.map_cons]

theorem Listed.touch (h : Listed ((i, some l) ::ₘ c) lru nextId lists) (now : ℕ)
    (hlist : lists l.origin = xs ++ (i, l) :: ys) (hi : (i, l) ∉ xs ++ ys) :
    Listed ((i, some { l with lastAccessed := now }) ::ₘ c) (lru.touch l.origin i) nextId
      (Function.update lists l.origin ((i, { l with lastAccessed := now }) :: (xs ++ ys))) := by
  obtain ⟨hunique, hout⟩ := h.of_ids (d := (i, some { l with lastAccessed := now }) ::ₘ c)
    (by simp)
  have hput := (h.holds.remove h.unique hlist hi).put { l with lastAccessed := now }
  rw [Function.update_self, Function.update_idem] at hput
  refine ⟨hunique, hout, ?_, hput⟩
  rw [Function.comp_update, List.map_cons, List.map_append]
  refine h.chains.touch ?_
  rw [Function.comp_apply, hlist, List.map_append, List.map_cons]

/-! ### The tallies leave the lists alone -/

@[simp] theorem TreeBook.noteRouteAdded_lru (book : TreeBook) (b : BackendId) (k : ℕ) :
    (book.noteRouteAdded b k).lru = book.lru := by
  unfold TreeBook.noteRouteAdded
  split
  · rfl
  · split <;> rfl

@[simp] theorem TreeBook.noteRouteRemoved_lru (book : TreeBook) (b : Option BackendId) (k : ℕ) :
    (book.noteRouteRemoved b k).lru = book.lru := by
  unfold TreeBook.noteRouteRemoved
  split
  · rfl
  · split
    · rfl
    · dsimp only
      split <;> rfl

theorem TreeBook.routePut_lists (book : TreeBook) (i : ℕ) (l : Node.Leaf) :
    (book.routePut i l).lru = book.lru.pushFront l.origin i ∧
      (book.routePut i l).nextId = book.nextId := by
  simp only [TreeBook.routePut, TreeBook.noteRouteAdded_lru, Node.noteRouteAdded_nextId]
  exact ⟨trivial, trivial⟩

theorem TreeBook.routeReplaced_lists (book : TreeBook) (i : ℕ) (held l : Node.Leaf) :
    (book.routeReplaced i held l).lru =
        (book.lru.remove held.origin i).pushFront l.origin i ∧
      (book.routeReplaced i held l).nextId = book.nextId := by
  simp only [TreeBook.routeReplaced]
  split
  · simp only [TreeBook.noteRouteAdded_lru, TreeBook.noteRouteRemoved_lru,
      Node.noteRouteAdded_nextId, Node.noteRouteRemoved_nextId]
    exact ⟨trivial, trivial⟩
  · exact ⟨rfl, rfl⟩

theorem TreeBook.routeDropped_lists (book : TreeBook) (i : ℕ) (l : Node.Leaf) :
    (book.routeDropped i l).lru = book.lru.remove l.origin i ∧
      (book.routeDropped i l).nextId = book.nextId := by
  simp only [TreeBook.routeDropped, TreeBook.noteRouteRemoved_lru, Node.noteRouteRemoved_nextId]
  exact ⟨trivial, trivial⟩

/-- The lists of a state. -/
def CellState.Lists (s : CellState) (lists : RecencyLists) : Prop :=
  Listed s.cells s.book.lru s.book.nextId lists

/-- Moves keep the lists and their order. -/
theorem MoveStep.listed {s s' : CellState} (hstep : MoveStep s s') (h : s.Lists lists) :
    ∃ lists', s'.Lists lists' ∧ (Aged s.book.now lists → Aged s.book.now lists') := by
  cases hstep with
  | alloc c book k => exact ⟨lists, Listed.alloc h, id⟩
  | free i c book k => exact ⟨lists, Listed.free h, id⟩
  | handOver i j l c book k =>
    obtain ⟨xs, ys, hlist, hi⟩ := Listed.split h
    exact ⟨_, Listed.handOver h hlist hi, fun haged => haged.rename hlist⟩

/-- **One step** keeps the lists, and their order if it reads no earlier clock. -/
theorem CellStep.listed {R : Option Node.Leaf → Node.Leaf → Prop} {s s' : CellState}
    (hstep : CellStep R s s') (h : s.Lists lists) :
    ∃ lists', s'.Lists lists' ∧ (Aged s.book.now lists → Aged s.book.now lists') := by
  cases hstep with
  | move hmove => exact hmove.listed h
  | put i l c book k hR hnow =>
    obtain ⟨hlru, hnext⟩ := book.routePut_lists i l
    refine ⟨_, ?_, fun haged => haged.push (o := l.origin) (i := i) hnow⟩
    rw [CellState.Lists, hlru, hnext]
    exact Listed.put h l
  | replace i held l c book k hR hnow =>
    obtain ⟨hlru, hnext⟩ := book.routeReplaced_lists i held l
    obtain ⟨xs, ys, hlist, hi⟩ := Listed.split h
    refine ⟨_, ?_, fun haged => (haged.remove hlist).push (o := l.origin) (i := i) hnow⟩
    rw [CellState.Lists, hlru, hnext]
    exact Listed.put (Listed.remove h hlist hi) l
  | touch i l c book k =>
    obtain ⟨xs, ys, hlist, hi⟩ := Listed.split h
    refine ⟨_, Listed.touch h book.now hlist hi, fun haged => ?_⟩
    have hpush := (haged.remove hlist).push (o := l.origin) (i := i)
      (l := { l with lastAccessed := book.now }) rfl
    rwa [Function.update_self, Function.update_idem] at hpush
  | drop i l c book k =>
    obtain ⟨hlru, hnext⟩ := book.routeDropped_lists i l
    obtain ⟨xs, ys, hlist, hi⟩ := Listed.split h
    refine ⟨_, ?_, fun haged => haged.remove hlist⟩
    rw [CellState.Lists, hlru, hnext]
    exact Listed.remove h hlist hi

theorem CellSteps.listed {R : Option Node.Leaf → Node.Leaf → Prop} {s s' : CellState}
    (hsteps : CellSteps R s s') (h : s.Lists lists) :
    ∃ lists', s'.Lists lists' ∧ (Aged s.book.now lists → Aged s.book.now lists') := by
  induction hsteps with
  | refl => exact ⟨lists, h, id⟩
  | tail hsteps hlast ih =>
    obtain ⟨mid, hmid, haged⟩ := ih
    obtain ⟨lists', hlists', haged'⟩ := hlast.listed hmid
    rw [CellSteps.now_eq hsteps] at haged'
    exact ⟨lists', hlists', fun h => haged' (haged h)⟩

end Steps

/-! ## Every tree reached -/

namespace RadixTree

theorem create_lists (blockAlignment : ℕ+) (now : ℕ) :
    (create blockAlignment now).cellState.Lists fun _ => [] := by
  refine ⟨Multiset.nodup_singleton _, fun x hx => ?_, ?_, fun o i l => ?_⟩
  · rw [Multiset.mem_singleton.mp hx]
    exact Nat.zero_lt_one
  · exact ⟨fun _ => rfl, fun _ => rfl, fun _ => trivial, fun _ => List.nodup_nil,
      fun _ _ _ hi => absurd hi List.not_mem_nil⟩
  · constructor
    · intro hmem
      cases hmem
    · rintro ⟨hmem, -⟩
      cases (Prod.mk.inj (Multiset.mem_singleton.mp hmem)).2

variable {t : RadixTree} {lists : RecencyLists}

/-- The tails of threaded lists point at leaves. -/
theorem pointed_of_lists (hwf : t.root.WF) (h : t.cellState.Lists lists) : t.Pointed where
  wf := hwf
  unique := h.unique
  tails origin i htail := by
    rw [show t.book.lru.tail origin = _ from h.chains.tail origin] at htail
    obtain ⟨⟨i', l⟩, hl, rfl⟩ := List.mem_map.mp (List.mem_of_getLast? htail)
    exact ⟨l, (h.holds origin i' l).mp hl⟩

theorem writes_any (t : RadixTree) (now : ℕ) (op : TreeOp) :
    t.Writes (fun _ _ => True) now op := by
  cases op with
  | insert tokens backend origin => exact fun _ _ => trivial
  | insertIfTrusted tokens backend origin converge => exact fun _ _ => trivial
  | _ => trivial

/-- **One operation** keeps the lists, and their order if its clock reading is not earlier
than the last one. -/
theorem step_lists (hwf : t.root.WF) (h : t.cellState.Lists lists) (now : ℕ) (op : TreeOp) :
    (t.step now op).root.WF ∧ ∃ lists', (t.step now op).cellState.Lists lists' ∧
      (t.book.now ≤ now → Aged t.book.now lists →
        Aged (t.step now op).book.now lists' ∧ (t.step now op).book.now ≤ now) := by
  obtain ⟨hwf', book, hbook, hsteps⟩ :=
    step_cells (pointed_of_lists hwf h) now op (t.writes_any now op)
  have hstart : CellState.Lists ⟨t.root.cells, book, t.routeCount⟩ lists := by
    rcases hbook with rfl | rfl
    · exact h
    · exact ⟨h.unique, h.handedOut, h.chains, h.holds⟩
  obtain ⟨lists', hlists', haged⟩ := hsteps.listed hstart
  refine ⟨hwf', lists', hlists', fun hle hold => ?_⟩
  have hnow : (t.step now op).book.now = book.now := hsteps.now_eq
  rw [hnow]
  rcases hbook with rfl | rfl
  · exact ⟨haged hold, hle⟩
  · exact ⟨haged ⟨hold.ordered, fun o l hl => (hold.past o l hl).trans hle⟩, le_rfl⟩

theorem run_lists (hwf : t.root.WF) (h : t.cellState.Lists lists) (ops : List (ℕ × TreeOp)) :
    (t.run ops).root.WF ∧ ∃ lists', (t.run ops).cellState.Lists lists' ∧
      ((t.book.now :: ops.map Prod.fst).Pairwise (· ≤ ·) → Aged t.book.now lists →
        Aged (t.run ops).book.now lists') := by
  induction ops generalizing t lists with
  | nil => exact ⟨hwf, lists, h, fun _ haged => haged⟩
  | cons p ops ih =>
    obtain ⟨now, op⟩ := p
    obtain ⟨hwf', lists', hlists', hstep⟩ := step_lists hwf h now op
    obtain ⟨hwf'', lists'', hlists'', hrun⟩ := ih hwf' hlists'
    refine ⟨hwf'', lists'', hlists'', fun hclock haged => ?_⟩
    rw [List.map_cons, List.pairwise_cons, List.pairwise_cons] at hclock
    obtain ⟨hfirst, hnow, hrest⟩ := hclock
    obtain ⟨haged', hle⟩ := hstep (hfirst now List.mem_cons_self) haged
    refine hrun (List.pairwise_cons.mpr ⟨fun later hlater => ?_, hrest⟩) haged'
    exact hle.trans (hnow later hlater)

theorem run_append (t : RadixTree) (ops ops' : List (ℕ × TreeOp)) :
    t.run (ops ++ ops') = (t.run ops).run ops' := by
  induction ops generalizing t with
  | nil => rfl
  | cons p ops ih => exact ih _

/-- A tree that some run of operations leads to. -/
def Reached (t : RadixTree) : Prop :=
  ∃ blockAlignment now₀ ops, t = (create blockAlignment now₀).run ops

theorem Reached.run (h : t.Reached) (ops : List (ℕ × TreeOp)) : (t.run ops).Reached := by
  obtain ⟨blockAlignment, now₀, ops₀, rfl⟩ := h
  exact ⟨blockAlignment, now₀, ops₀ ++ ops, (run_append _ _ _).symm⟩

theorem Reached.step (h : t.Reached) (now : ℕ) (op : TreeOp) : (t.step now op).Reached :=
  h.run [(now, op)]

theorem Reached.kept (h : t.Reached) : t.root.WF ∧ ∃ lists, t.cellState.Lists lists := by
  obtain ⟨blockAlignment, now₀, ops, rfl⟩ := h
  obtain ⟨hwf, lists, hlists, -⟩ :=
    run_lists (create_inv blockAlignment now₀).wf (create_lists blockAlignment now₀) ops
  exact ⟨hwf, lists, hlists⟩

end RadixTree

/-! ## Evictions -/

namespace Node

theorem leafPathsKids_append (l r : List (UInt8 × Node)) :
    leafPathsKids (l ++ r) = leafPathsKids l ++ leafPathsKids r := by
  induction l with
  | nil => rfl
  | cons p l ih =>
    obtain ⟨k, c⟩ := p
    rw [List.cons_append, leafPathsKids, ih, leafPathsKids, List.append_assoc]

/-- The listed routes are those held at the nodes. -/
theorem exists_leafPath_iff (n : Node) (l : Leaf) :
    (∃ key, (key, l) ∈ n.leafPaths) ↔ ∃ m ∈ n.nodes, m.leaf = some l := by
  induction n using induct with
  | h n ih =>
    rw [leafPaths_eq, nodes_eq]
    constructor
    · rintro ⟨key, hkey⟩
      obtain ⟨⟨r, l'⟩, hmem, heq⟩ := List.mem_map.mp hkey
      obtain ⟨-, rfl⟩ := Prod.mk.inj heq
      rcases List.mem_append.mp hmem with hself | hkids
      · rw [Option.mem_toList, Option.map_eq_some_iff] at hself
        obtain ⟨l, hl, heq⟩ := hself
        rw [(Prod.mk.inj heq).2] at hl
        exact ⟨n, List.mem_cons_self, hl⟩
      · obtain ⟨k, c, r', hc, -, hr'⟩ := mem_leafPathsKids.mp hkids
        obtain ⟨m, hm, hl⟩ := (ih (k, c) hc).mp ⟨r', hr'⟩
        exact ⟨m, List.mem_cons_of_mem _ (mem_nodesKids.mpr ⟨k, c, hc, hm⟩), hl⟩
    · rintro ⟨m, hm, hl⟩
      rcases List.mem_cons.mp hm with rfl | hm
      · refine ⟨m.pre ++ [], List.mem_map.mpr ⟨([], l), List.mem_append_left _ ?_, rfl⟩⟩
        rw [hl]
        exact List.mem_singleton_self _
      · obtain ⟨k, c, hc, hmc⟩ := mem_nodesKids.mp hm
        obtain ⟨key, hkey⟩ := (ih (k, c) hc).mpr ⟨m, hmc, hl⟩
        refine ⟨n.pre ++ k :: key, List.mem_map.mpr ⟨(k :: key, l), ?_, rfl⟩⟩
        exact List.mem_append_right _ (mem_leafPathsKids.mpr ⟨k, c, key, hc, rfl, hkey⟩)

/-- Tombstoning the route of a node takes one entry out of the listing. -/
theorem leafPaths_tombstone {n m : Node} (hm : m ∈ n.nodes) (hone : n.idCount m.id ≤ 1) {l : Leaf}
    (hl : m.leaf = some l) :
    ∃ key, n.leafPaths.Perm
      ((key, l) :: (writeAt m.id (fun x => { x with leafValue := none }) n).leafPaths) := by
  induction n using induct with
  | h n ih =>
    rw [nodes_eq, List.mem_cons] at hm
    rw [idCount_eq] at hone
    rw [writeAt_eq, leafPaths_eq]
    rcases hm with rfl | hm
    · rw [if_pos rfl] at hone ⊢
      rw [writeAtKids_of_weightOf_zero (by omega), mk_eta, leafPaths_eq, hl]
      exact ⟨m.pre ++ [], List.Perm.refl _⟩
    · obtain ⟨b, c, hmem, hmc⟩ := mem_nodesKids.mp hm
      have hpos := idCount_pos hmc
      obtain ⟨before, after, hkids⟩ := List.append_of_mem hmem
      rw [hkids, weightOf_append, weightOf] at hone
      have hid : n.id ≠ m.id := by
        intro he
        rw [if_pos he] at hone
        omega
      obtain ⟨key, hperm⟩ := ih (b, c) hmem hmc (by dsimp only; omega)
      rw [if_neg hid, hkids, writeAtKids_append, writeAtKids,
        writeAtKids_of_weightOf_zero (by omega), writeAtKids_of_weightOf_zero (by omega),
        leafPaths_eq]
      refine ⟨n.pre ++ b :: key, ?_⟩
      have hchild := hperm.map fun e : List UInt8 × Leaf => (b :: e.1, e.2)
      rw [List.map_cons] at hchild
      rw [leafPathsKids_append, leafPathsKids_append, leafPathsKids, leafPathsKids]
      -- the entry moves to the front past what is listed before it
      have hfront := ((((hchild.append_right (leafPathsKids after)).append_left
        (leafPathsKids before)).trans List.perm_middle).append_left
          (n.leaf.map fun l => (([] : List UInt8), l)).toList).trans List.perm_middle
      exact hfront.map fun e : List UInt8 × Leaf => (n.pre ++ e.1, e.2)

end Node

namespace RadixTree

/-- Every stored route is in the recency list of its origin and in no other; the links are
consistent in both directions, the lists are ordered by last access and hold nothing else. -/
structure RecencyKept (t : RadixTree) (lists : RecencyLists) : Prop where
  /-- the list starts at the head -/
  head : ∀ origin, t.book.lru.head origin = ((lists origin).map Prod.fst).head?
  /-- the list ends at the tail -/
  tail : ∀ origin, t.book.lru.tail origin = ((lists origin).map Prod.fst).getLast?
  /-- `lru_prev` and `lru_next` thread it in both directions -/
  linked : ∀ origin, Linked t.book.lru.prev t.book.lru.next none ((lists origin).map Prod.fst) none
  /-- no node is linked twice -/
  once : ∀ origin, ((lists origin).map Prod.fst).Nodup
  /-- the lists hold the routes of the nodes, each under its origin -/
  routes : ∀ origin i l, (i, l) ∈ lists origin ↔
    l.origin = origin ∧ ∃ m ∈ t.root.nodes, m.id = i ∧ m.leaf = some l
  /-- a pointer means one node -/
  distinct : ∀ m ∈ t.root.nodes, ∀ m' ∈ t.root.nodes, m.id = m'.id → m = m'
  /-- newest first -/
  ordered : ∀ origin, (lists origin).Pairwise fun a b => b.2.lastAccessed ≤ a.2.lastAccessed

/-- `evict_oldest` removes a route with the smallest last access, if there is a route. -/
structure EvictsOldest (t : RadixTree) : Prop where
  /-- nothing to evict -/
  empty : t.forEachLeaf = [] → t.evictOldest = (t, false)
  /-- a victim -/
  evicts : t.forEachLeaf ≠ [] → t.evictOldest.2 = true ∧ ∃ e,
    t.forEachLeaf.Perm (e :: t.evictOldest.1.forEachLeaf) ∧
      ∀ e' ∈ t.forEachLeaf, e.lastAccessed ≤ e'.lastAccessed

/-- `evict_lowest_trust` removes an oldest route of the least trusted origin that has one. -/
structure EvictsLowestTrust (t : RadixTree) : Prop where
  /-- nothing to evict -/
  empty : t.forEachLeaf = [] → t.evictLowestTrust = (t, false)
  /-- a victim -/
  evicts : t.forEachLeaf ≠ [] → t.evictLowestTrust.2 = true ∧ ∃ e,
    t.forEachLeaf.Perm (e :: t.evictLowestTrust.1.forEachLeaf) ∧
      (∀ e' ∈ t.forEachLeaf, e'.origin.index ≤ e.origin.index) ∧
      ∀ e' ∈ t.forEachLeaf, e'.origin = e.origin → e.lastAccessed ≤ e'.lastAccessed

variable {t : RadixTree} {lists : RecencyLists}

/-- An entry of the traversal is the route of a node. -/
theorem exists_node_of_entry {e : RouteEntry} (he : e ∈ t.forEachLeaf) :
    ∃ m ∈ t.root.nodes, ∃ l, m.leaf = some l ∧ e.origin = l.origin ∧
      e.lastAccessed = l.lastAccessed := by
  rw [forEachLeaf, Node.forEachLeafRecursive_eq] at he
  obtain ⟨⟨key, l⟩, hkey, rfl⟩ := List.mem_map.mp he
  obtain ⟨m, hm, hl⟩ := (t.root.exists_leafPath_iff l).mp ⟨key, hkey⟩
  exact ⟨m, hm, l, hl, rfl, rfl⟩

theorem forEachLeaf_ne_nil {m : Node} (hm : m ∈ t.root.nodes) {l : Node.Leaf}
    (hl : m.leaf = some l) : t.forEachLeaf ≠ [] := by
  obtain ⟨key, hkey⟩ := (t.root.exists_leafPath_iff l).mpr ⟨m, hm, hl⟩
  rw [forEachLeaf, Node.forEachLeafRecursive_eq]
  exact List.ne_nil_of_mem (List.mem_map_of_mem hkey)

theorem leaf_lastAccessed {m : Node} {l : Node.Leaf} (hl : m.leaf = some l) :
    m.lastAccessed = l.lastAccessed := by
  obtain ⟨b, -, rfl⟩ := Option.map_eq_some_iff.mp hl
  rfl

/-- The last of a list that is newest first is its oldest. -/
theorem Aged.last_le {now : ℕ} (h : Aged now lists) {origin : RouteOrigin}
    {xs : List (ℕ × Node.Leaf)} {z : ℕ × Node.Leaf} (hlist : lists origin = xs ++ [z])
    {a : ℕ × Node.Leaf} (ha : a ∈ lists origin) : z.2.lastAccessed ≤ a.2.lastAccessed := by
  have hordered := h.ordered origin
  rw [hlist, List.map_append, List.pairwise_append] at hordered
  rw [hlist, List.mem_append, List.mem_singleton] at ha
  rcases ha with ha | rfl
  · exact hordered.2.2 a.2 (List.mem_map_of_mem ha) z.2 (List.mem_singleton_self _)
  · exact le_rfl

section Evictions

variable (hwf : t.root.WF) (h : t.cellState.Lists lists)

include h

/-- The tail of a list is its last. -/
theorem lruTail_of_last {origin : RouteOrigin} {xs : List (ℕ × Node.Leaf)} {i : ℕ}
    {old : Node.Leaf} (hlist : lists origin = xs ++ [(i, old)]) :
    ∃ m, t.lruTail origin = some m ∧ m.leaf = some old := by
  have htail : t.book.lru.tail origin = some i := by
    rw [show t.book.lru.tail origin = _ from h.chains.tail origin, Function.comp_apply, hlist,
      List.map_append, List.map_singleton, List.getLast?_concat]
  have hold : (i, old) ∈ lists origin := by
    rw [hlist]
    exact List.mem_append_right _ (List.mem_singleton_self _)
  obtain ⟨victim, hvictim, hvcell⟩ :=
    Node.exists_node_of_mem_cells ((h.holds origin i old).mp hold).1
  obtain ⟨rfl, hvleaf⟩ := Prod.mk.inj hvcell
  refine ⟨victim, ?_, hvleaf⟩
  rw [lruTail, htail, Option.bind_some, Node.findNode_of_mem h.unique hvictim]

/-- A stored route is in the list of its origin, which therefore has a last. -/
theorem listed_of_entry {e : RouteEntry} (he : e ∈ t.forEachLeaf) :
    ∃ xs i old j l, lists e.origin = xs ++ [(i, old)] ∧ (j, l) ∈ lists e.origin ∧
      e.lastAccessed = l.lastAccessed := by
  obtain ⟨m, hm, l, hl, horigin, haccess⟩ := exists_node_of_entry he
  have hcell : (m.id, some l) ∈ t.root.cells := hl ▸ Node.mem_cells hm
  have hmem : (m.id, l) ∈ lists e.origin := (h.holds e.origin m.id l).mpr ⟨hcell, horigin.symm⟩
  obtain ⟨xs, ⟨i, old⟩, hlist⟩ := (lists e.origin).eq_nil_or_concat.resolve_left
    (List.ne_nil_of_mem hmem)
  rw [List.concat_eq_append] at hlist
  exact ⟨xs, i, old, m.id, l, hlist, hmem, haccess⟩

/-- Where a route is listed, the tail of its origin is at least as old. -/
theorem lruTail_of_entry {now : ℕ} (haged : Aged now lists) {e : RouteEntry}
    (he : e ∈ t.forEachLeaf) :
    ∃ m, t.lruTail e.origin = some m ∧ m.lastAccessed ≤ e.lastAccessed := by
  obtain ⟨xs, i, old, j, l, hlist, hmem, haccess⟩ := listed_of_entry h he
  obtain ⟨m, hm, hleaf⟩ := lruTail_of_last h hlist
  refine ⟨m, hm, ?_⟩
  rw [leaf_lastAccessed hleaf, haccess]
  exact Aged.last_le haged hlist hmem

/-- Evicting the node of a tail removes its entry. -/
theorem evictLeaf_entries {m : Node} (hm : m ∈ t.root.nodes)
    {l : Node.Leaf} (hl : m.leaf = some l) :
    ∃ e, t.forEachLeaf.Perm (e :: (t.evictLeaf m).forEachLeaf) ∧ e.origin = l.origin ∧
      e.lastAccessed = l.lastAccessed := by
  obtain ⟨key, hperm⟩ := Node.leafPaths_tombstone hm (Node.idCount_le_one h.unique m.id) hl
  refine ⟨Node.entryAt [] (key, l), ?_, rfl, rfl⟩
  rw [forEachLeaf, forEachLeaf, Node.forEachLeafRecursive_eq, Node.forEachLeafRecursive_eq]
  exact hperm.map (Node.entryAt [])

include hwf

/-- Evicting a tail removes an oldest route of its origin. -/
theorem evict_tail {now : ℕ} (haged : Aged now lists) {origin : RouteOrigin} {victim : Node}
    (hvictim : t.lruTail origin = some victim) :
    ∃ e, t.forEachLeaf.Perm (e :: (t.evictLeaf victim).forEachLeaf) ∧ e.origin = origin ∧
      e.lastAccessed = victim.lastAccessed ∧
      ∀ e' ∈ t.forEachLeaf, e'.origin = origin → e.lastAccessed ≤ e'.lastAccessed := by
  obtain ⟨hmem, l, hl, horigin⟩ := (pointed_of_lists hwf h).of_lruTail hvictim
  obtain ⟨e, hperm, heorigin, heaccess⟩ := evictLeaf_entries h hmem hl
  refine ⟨e, hperm, heorigin.trans horigin, heaccess.trans (leaf_lastAccessed hl).symm,
    fun e' he' ho => ?_⟩
  obtain ⟨m, hm, hle⟩ := lruTail_of_entry h haged he'
  rw [ho, hvictim] at hm
  rw [heaccess, ← leaf_lastAccessed hl, Option.some.inj hm]
  exact hle

theorem evictsOldest {now : ℕ} (haged : Aged now lists) : t.EvictsOldest := by
  have hpointed := pointed_of_lists hwf h
  have hfold := foldl_olderOf ([RouteOrigin.REMOTE, .PUSH, .LOCAL].map t.lruTail) none
  have hlisted : ∀ origin, t.lruTail origin ∈
      [RouteOrigin.REMOTE, .PUSH, .LOCAL].map t.lruTail := by
    intro origin
    cases origin <;> simp
  rcases hfold with ⟨hnone, -, hno⟩ | ⟨m, hm, hfrom, -, hmin⟩
  · have hevict : t.evictOldest = (t, false) := by rw [evictOldest, ← List.foldl_map, hnone]
    refine ⟨fun _ => hevict, fun hne => ?_⟩
    obtain ⟨e, he⟩ := List.exists_mem_of_ne_nil _ hne
    obtain ⟨m, hm, -⟩ := lruTail_of_entry h haged he
    exact absurd (hm ▸ hlisted e.origin) (hno m)
  · have hevict : t.evictOldest = (t.evictLeaf m, true) := by
      rw [evictOldest, ← List.foldl_map, hm]
    obtain ⟨origin, -, horigin⟩ := List.mem_map.mp (hfrom.resolve_left (by simp))
    refine ⟨fun hempty => ?_, fun _ => ⟨by rw [hevict], ?_⟩⟩
    · obtain ⟨hmem, l, hl, -⟩ := hpointed.of_lruTail horigin
      exact absurd hempty (forEachLeaf_ne_nil hmem hl)
    · obtain ⟨e, hperm, -, haccess, -⟩ := evict_tail hwf h haged horigin
      refine ⟨e, by rw [hevict]; exact hperm, fun e' he' => ?_⟩
      obtain ⟨m', hm', hle⟩ := lruTail_of_entry h haged he'
      rw [haccess]
      exact (hmin m' (hm' ▸ hlisted e'.origin)).trans hle

theorem evictsLowestTrust {now : ℕ} (haged : Aged now lists) : t.EvictsLowestTrust := by
  have hpointed := pointed_of_lists hwf h
  have hsome : ∀ origin victim, t.lruTail origin = some victim → t.forEachLeaf ≠ [] := by
    intro origin victim hvictim
    obtain ⟨hmem, l, hl, -⟩ := hpointed.of_lruTail hvictim
    exact forEachLeaf_ne_nil hmem hl
  have hnone : ∀ origin, t.lruTail origin = none → ∀ e ∈ t.forEachLeaf, e.origin ≠ origin := by
    intro origin htail e he ho
    obtain ⟨m, hm, -⟩ := lruTail_of_entry h haged he
    rw [ho, htail] at hm
    cases hm
  rcases hremote : t.lruTail .REMOTE with _ | victim
  · rcases hpush : t.lruTail .PUSH with _ | victim
    · -- only local routes are left: the globally oldest is the oldest of them
      have hlocal : ∀ e ∈ t.forEachLeaf, e.origin = .LOCAL := by
        intro e he
        have hr := hnone .REMOTE hremote e he
        have hp := hnone .PUSH hpush e he
        revert hr hp
        cases e.origin <;> simp
      have hevict : t.evictLowestTrust = t.evictOldest := by
        simp only [evictLowestTrust, hremote, hpush]
      obtain ⟨hempty, hevicts⟩ := evictsOldest hwf h haged
      refine ⟨fun he => hevict.trans (hempty he), fun hne => ?_⟩
      rw [hevict]
      obtain ⟨htrue, e, hperm, hmin⟩ := hevicts hne
      refine ⟨htrue, e, hperm, fun e' he' => ?_, fun e' he' _ => hmin e' he'⟩
      rw [hlocal e' he']
      exact Nat.zero_le _
    · have hevict : t.evictLowestTrust = (t.evictLeaf victim, true) := by
        simp only [evictLowestTrust, hremote, hpush]
      obtain ⟨e, hperm, horigin, -, hmin⟩ := evict_tail hwf h haged hpush
      refine ⟨fun he => absurd he (hsome _ _ hpush), fun _ => ?_⟩
      rw [hevict]
      refine ⟨rfl, e, hperm, fun e' he' => ?_, fun e' he' ho => hmin e' he' (ho.trans horigin)⟩
      have hr := hnone .REMOTE hremote e' he'
      rw [horigin]
      revert hr
      cases e'.origin <;> simp [RouteOrigin.index]
  · have hevict : t.evictLowestTrust = (t.evictLeaf victim, true) := by
      simp only [evictLowestTrust, hremote]
    obtain ⟨e, hperm, horigin, -, hmin⟩ := evict_tail hwf h haged hremote
    refine ⟨fun he => absurd he (hsome _ _ hremote), fun _ => ?_⟩
    rw [hevict]
    refine ⟨rfl, e, hperm, fun e' he' => ?_, fun e' he' ho => hmin e' he' (ho.trans horigin)⟩
    rw [horigin]
    cases e'.origin <;> simp [RouteOrigin.index]

omit hwf in
theorem recencyKept {now : ℕ} (haged : Aged now lists) : t.RecencyKept lists where
  head := h.chains.head
  tail := h.chains.tail
  linked := h.chains.linked
  once := h.chains.nodup
  routes origin i l := by
    rw [h.holds origin i l, and_comm]
    refine and_congr_right fun _ => ?_
    constructor
    · intro hcell
      obtain ⟨m, hm, heq⟩ := Node.exists_node_of_mem_cells hcell
      exact ⟨m, hm, Prod.mk.inj heq⟩
    · rintro ⟨m, hm, rfl, hl⟩
      exact hl ▸ Node.mem_cells hm
  distinct m hm m' hm' hid := Node.node_unique h.unique hm hm' hid
  ordered origin := List.pairwise_map.mp (haged.ordered origin)

end Evictions

end RadixTree

/-- **Recency.** In every tree reached under a clock that does not run back, every route is
linked in the recency list of its origin and in no other, the lists are consistent in both
directions, ordered by last access and hold nothing but the stored routes; so
`evict_oldest` removes a route with the smallest last access of all and
`evict_lowest_trust` an oldest route of the least trusted origin that has one. -/
theorem recency_contract (blockAlignment : ℕ+) (now₀ : ℕ) (ops : List (ℕ × TreeOp))
    (hclock : (now₀ :: ops.map Prod.fst).Pairwise (· ≤ ·)) :
    (∃ lists, ((RadixTree.create blockAlignment now₀).run ops).RecencyKept lists) ∧
      ((RadixTree.create blockAlignment now₀).run ops).EvictsOldest ∧
      ((RadixTree.create blockAlignment now₀).run ops).EvictsLowestTrust := by
  obtain ⟨hwf, lists, hlists, haged⟩ := RadixTree.run_lists
    (RadixTree.create_inv blockAlignment now₀).wf (RadixTree.create_lists blockAlignment now₀) ops
  have hkept := haged hclock ⟨fun _ => List.Pairwise.nil, fun _ l hl => absurd hl List.not_mem_nil⟩
  exact ⟨⟨lists, RadixTree.recencyKept hlists hkept⟩, RadixTree.evictsOldest hwf hlists hkept,
    RadixTree.evictsLowestTrust hwf hlists hkept⟩

/-- Routes of all three origins, one of them used again. -/
def threeOrigins : List (ℕ × TreeOp) :=
  [(1, .insert [7] 1 .LOCAL), (2, .insert [7, 8] 2 .REMOTE),
    (2, .insertIfTrusted [9] 3 .PUSH false), (3, .lookup [7]), (5, .compact)]

theorem recency_contract_threeOrigins :
    (0 :: threeOrigins.map Prod.fst).Pairwise (· ≤ ·) ∧
      (∃ lists, ((RadixTree.create 1 0).run threeOrigins).RecencyKept lists) ∧
      ((RadixTree.create 1 0).run threeOrigins).EvictsOldest ∧
      ((RadixTree.create 1 0).run threeOrigins).EvictsLowestTrust :=
  ⟨by decide, recency_contract 1 0 threeOrigins (by decide)⟩

end Ranvier
