import Ranvier.LinkedLists
import Ranvier.RadixBook

/-!
# The recency lists as lists

The pointers of `LruLists` written out: `remove`, `pushFront` and `splice` are sequences
of single pointer writes, whose effect is said field by field. `Chains l ids` says that
the pointers thread the lists `ids`, one per origin, and each operation does to the lists
what its name says: `Chains.remove`, `Chains.pushFront`, `Chains.splice`, `Chains.touch`.
-/

namespace Ranvier

/-! ## What the list operations write -/

namespace LruLists

variable (l : LruLists) (origin : RouteOrigin) (node src dest : ℕ)

/-- Write the `next` pointer of a neighbour, if there is one. -/
def pointNext (p v : Option ℕ) : LruLists :=
  match p with
  | some p => { l with next := Function.update l.next p v }
  | none => l

/-- Write the `prev` pointer of a neighbour, if there is one. -/
def pointPrev (q v : Option ℕ) : LruLists :=
  match q with
  | some q => { l with prev := Function.update l.prev q v }
  | none => l

/-- Move the head of a list on from a node. -/
def moveHead (v : Option ℕ) : LruLists :=
  if l.head origin = some node then { l with head := Function.update l.head origin v } else l

/-- Move the tail of a list on from a node. -/
def moveTail (v : Option ℕ) : LruLists :=
  if l.tail origin = some node then { l with tail := Function.update l.tail origin v } else l

/-- Clear the pointers of a node. -/
def clear : LruLists :=
  { l with
    prev := Function.update l.prev node none
    next := Function.update l.next node none }

section Fields

variable (p v : Option ℕ)

@[simp] theorem pointNext_head : (l.pointNext p v).head = l.head := by cases p <;> rfl

@[simp] theorem pointNext_tail : (l.pointNext p v).tail = l.tail := by cases p <;> rfl

@[simp] theorem pointNext_prev : (l.pointNext p v).prev = l.prev := by cases p <;> rfl

@[simp] theorem pointNext_next (j : ℕ) :
    (l.pointNext p v).next j = if p = some j then v else l.next j := by
  cases p with
  | none => rfl
  | some p =>
    by_cases hj : p = j
    · simp [pointNext, hj]
    · simp [pointNext, hj, Function.update_of_ne (Ne.symm hj)]

@[simp] theorem pointPrev_head : (l.pointPrev p v).head = l.head := by cases p <;> rfl

@[simp] theorem pointPrev_tail : (l.pointPrev p v).tail = l.tail := by cases p <;> rfl

@[simp] theorem pointPrev_next : (l.pointPrev p v).next = l.next := by cases p <;> rfl

@[simp] theorem pointPrev_prev (j : ℕ) :
    (l.pointPrev p v).prev j = if p = some j then v else l.prev j := by
  cases p with
  | none => rfl
  | some p =>
    by_cases hj : p = j
    · simp [pointPrev, hj]
    · simp [pointPrev, hj, Function.update_of_ne (Ne.symm hj)]

@[simp] theorem moveHead_tail : (l.moveHead origin node v).tail = l.tail := by
  unfold moveHead
  split <;> rfl

@[simp] theorem moveHead_prev : (l.moveHead origin node v).prev = l.prev := by
  unfold moveHead
  split <;> rfl

@[simp] theorem moveHead_next : (l.moveHead origin node v).next = l.next := by
  unfold moveHead
  split <;> rfl

@[simp] theorem moveHead_head :
    (l.moveHead origin node v).head =
      if l.head origin = some node then Function.update l.head origin v else l.head := by
  unfold moveHead
  split <;> rfl

@[simp] theorem moveTail_head : (l.moveTail origin node v).head = l.head := by
  unfold moveTail
  split <;> rfl

@[simp] theorem moveTail_prev : (l.moveTail origin node v).prev = l.prev := by
  unfold moveTail
  split <;> rfl

@[simp] theorem moveTail_next : (l.moveTail origin node v).next = l.next := by
  unfold moveTail
  split <;> rfl

@[simp] theorem moveTail_tail :
    (l.moveTail origin node v).tail =
      if l.tail origin = some node then Function.update l.tail origin v else l.tail := by
  unfold moveTail
  split <;> rfl

@[simp] theorem clear_head : (l.clear node).head = l.head := rfl

@[simp] theorem clear_tail : (l.clear node).tail = l.tail := rfl

@[simp] theorem clear_prev (j : ℕ) :
    (l.clear node).prev j = if j = node then none else l.prev j :=
  Function.update_apply _ _ _ _

@[simp] theorem clear_next (j : ℕ) :
    (l.clear node).next j = if j = node then none else l.next j :=
  Function.update_apply _ _ _ _

end Fields

/-- The first half of `lru_remove`: what is before the node goes on after it. -/
def bypassNext : LruLists :=
  match l.prev node with
  | some p => l.pointNext (some p) (l.next node)
  | none => l.moveHead origin node (l.next node)

/-- The second half of `lru_remove`. -/
def bypassPrev : LruLists :=
  match l.next node with
  | some q => l.pointPrev (some q) (l.prev node)
  | none => l.moveTail origin node (l.prev node)

theorem remove_eq :
    l.remove origin node = ((l.bypassNext origin node).bypassPrev origin node).clear node := rfl

section Remove

@[simp] theorem bypassNext_tail : (l.bypassNext origin node).tail = l.tail := by
  unfold bypassNext
  split <;> simp

@[simp] theorem bypassNext_prev : (l.bypassNext origin node).prev = l.prev := by
  unfold bypassNext
  split <;> simp

theorem bypassNext_next (j : ℕ) :
    (l.bypassNext origin node).next j = if l.prev node = some j then l.next node else l.next j := by
  unfold bypassNext
  split
  · rename_i p hp
    rw [pointNext_next, hp]
  · rename_i hp
    rw [moveHead_next, hp]
    rfl

theorem bypassNext_head :
    (l.bypassNext origin node).head =
      if l.prev node = none ∧ l.head origin = some node then
        Function.update l.head origin (l.next node)
      else l.head := by
  unfold bypassNext
  split
  · rename_i p hp
    rw [pointNext_head, hp, if_neg (by simp)]
  · rename_i hp
    rw [moveHead_head]
    simp [hp]

@[simp] theorem bypassPrev_head : (l.bypassPrev origin node).head = l.head := by
  unfold bypassPrev
  split <;> simp

@[simp] theorem bypassPrev_next : (l.bypassPrev origin node).next = l.next := by
  unfold bypassPrev
  split <;> simp

theorem bypassPrev_prev (j : ℕ) :
    (l.bypassPrev origin node).prev j = if l.next node = some j then l.prev node else l.prev j := by
  unfold bypassPrev
  split
  · rename_i q hq
    rw [pointPrev_prev, hq]
  · rename_i hq
    rw [moveTail_prev, hq]
    rfl

theorem bypassPrev_tail :
    (l.bypassPrev origin node).tail =
      if l.next node = none ∧ l.tail origin = some node then
        Function.update l.tail origin (l.prev node)
      else l.tail := by
  unfold bypassPrev
  split
  · rename_i q hq
    rw [pointPrev_tail, hq, if_neg (by simp)]
  · rename_i hq
    rw [moveTail_tail]
    simp [hq]

theorem remove_head :
    (l.remove origin node).head =
      if l.prev node = none ∧ l.head origin = some node then
        Function.update l.head origin (l.next node)
      else l.head := by
  rw [remove_eq, clear_head, bypassPrev_head, bypassNext_head]

variable (hself : l.prev node ≠ some node)

include hself

theorem bypassNext_next_self : (l.bypassNext origin node).next node = l.next node := by
  rw [bypassNext_next, if_neg hself]

theorem remove_tail :
    (l.remove origin node).tail =
      if l.next node = none ∧ l.tail origin = some node then
        Function.update l.tail origin (l.prev node)
      else l.tail := by
  rw [remove_eq, clear_tail, bypassPrev_tail, l.bypassNext_next_self origin node hself,
    bypassNext_tail, bypassNext_prev]

theorem remove_prev (j : ℕ) :
    (l.remove origin node).prev j =
      if j = node then none else if l.next node = some j then l.prev node else l.prev j := by
  rw [remove_eq, clear_prev, bypassPrev_prev, l.bypassNext_next_self origin node hself,
    bypassNext_prev]

omit hself in
theorem remove_next (j : ℕ) :
    (l.remove origin node).next j =
      if j = node then none else if l.prev node = some j then l.next node else l.next j := by
  rw [remove_eq, clear_next, bypassPrev_next, bypassNext_next]

end Remove

section PushFront

/-- The node with the pointers of a first in line. -/
def linkFront : LruLists :=
  { l with
    prev := Function.update l.prev node none
    next := Function.update l.next node (l.head origin) }

/-- The node as the head of the list. -/
def setHead : LruLists := { l with head := Function.update l.head origin (some node) }

/-- A list without a tail ends at the node. -/
def tailIfNone : LruLists :=
  match l.tail origin with
  | some _ => l
  | none => { l with tail := Function.update l.tail origin (some node) }

theorem pushFront_eq :
    l.pushFront origin node =
      (((l.linkFront origin node).pointPrev (l.head origin) (some node)).setHead origin
        node).tailIfNone origin node := rfl

@[simp] theorem tailIfNone_head : (l.tailIfNone origin node).head = l.head := by
  unfold tailIfNone
  split <;> rfl

@[simp] theorem tailIfNone_prev : (l.tailIfNone origin node).prev = l.prev := by
  unfold tailIfNone
  split <;> rfl

@[simp] theorem tailIfNone_next : (l.tailIfNone origin node).next = l.next := by
  unfold tailIfNone
  split <;> rfl

theorem tailIfNone_tail :
    (l.tailIfNone origin node).tail =
      if l.tail origin = none then Function.update l.tail origin (some node) else l.tail := by
  unfold tailIfNone
  split
  · rename_i t ht
    rw [if_neg (by rw [ht]; simp)]
  · rename_i ht
    rw [if_pos ht]

theorem pushFront_head :
    (l.pushFront origin node).head = Function.update l.head origin (some node) := by
  rw [pushFront_eq, tailIfNone_head, setHead, pointPrev_head]
  rfl

theorem pushFront_tail :
    (l.pushFront origin node).tail =
      if l.tail origin = none then Function.update l.tail origin (some node) else l.tail := by
  rw [pushFront_eq, tailIfNone_tail, setHead, pointPrev_tail]
  rfl

theorem pushFront_prev (j : ℕ) :
    (l.pushFront origin node).prev j =
      if l.head origin = some j then some node else if j = node then none else l.prev j := by
  rw [pushFront_eq, tailIfNone_prev, setHead, pointPrev_prev]
  exact if_congr Iff.rfl rfl (Function.update_apply _ _ _ _)

theorem pushFront_next (j : ℕ) :
    (l.pushFront origin node).next j = if j = node then l.head origin else l.next j := by
  rw [pushFront_eq, tailIfNone_next, setHead, pointPrev_next]
  exact Function.update_apply _ _ _ _

end PushFront

section Splice

/-- The replacement `dest` with the pointers of `src`. -/
def copyPointers : LruLists :=
  { l with
    prev := Function.update l.prev dest (l.prev src)
    next := Function.update l.next dest (l.next src) }

variable (hne : src ≠ dest) (hself : l.prev src ≠ some src)

include hne hself

/-- The splice makes the neighbours point at the replacement and clears the node. -/
theorem splice_eq :
    l.splice origin src dest =
      (((((l.copyPointers src dest).pointNext (l.prev src) (some dest)).pointPrev (l.next src)
        (some dest)).moveHead origin src (some dest)).moveTail origin src (some dest)).clear
          src := by
  have hprev : (l.copyPointers src dest).prev src = l.prev src := Function.update_of_ne hne _ _
  have hnext : ((l.copyPointers src dest).pointNext (l.prev src) (some dest)).next src =
      l.next src := by
    rw [pointNext_next, if_neg hself]
    exact Function.update_of_ne hne _ _
  have hdef : l.splice origin src dest =
      (((((l.copyPointers src dest).pointNext ((l.copyPointers src dest).prev src)
        (some dest)).pointPrev (((l.copyPointers src dest).pointNext
          ((l.copyPointers src dest).prev src) (some dest)).next src)
        (some dest)).moveHead origin src (some dest)).moveTail origin src (some dest)).clear
          src := rfl
  rw [hdef, hprev, hnext]

theorem splice_head :
    (l.splice origin src dest).head =
      if l.head origin = some src then Function.update l.head origin (some dest) else l.head := by
  rw [l.splice_eq origin src dest hne hself, clear_head, moveTail_head, moveHead_head,
    pointPrev_head, pointNext_head]
  rfl

theorem splice_tail :
    (l.splice origin src dest).tail =
      if l.tail origin = some src then Function.update l.tail origin (some dest) else l.tail := by
  rw [l.splice_eq origin src dest hne hself, clear_tail, moveTail_tail, moveHead_tail,
    pointPrev_tail, pointNext_tail]
  rfl

theorem splice_prev (j : ℕ) :
    (l.splice origin src dest).prev j =
      if j = src then none
      else if l.next src = some j then some dest
      else if j = dest then l.prev src else l.prev j := by
  rw [l.splice_eq origin src dest hne hself, clear_prev, moveTail_prev, moveHead_prev,
    pointPrev_prev, pointNext_prev]
  rw [show (l.copyPointers src dest).prev j = if j = dest then l.prev src else l.prev j from
    Function.update_apply _ _ _ _]

theorem splice_next (j : ℕ) :
    (l.splice origin src dest).next j =
      if j = src then none
      else if l.prev src = some j then some dest
      else if j = dest then l.next src else l.next j := by
  rw [l.splice_eq origin src dest hne hself, clear_next, moveTail_next, moveHead_next,
    pointPrev_next, pointNext_next]
  rw [show (l.copyPointers src dest).next j = if j = dest then l.next src else l.next j from
    Function.update_apply _ _ _ _]

end Splice

end LruLists

/-! ## The lists the pointers thread -/

/-- The pointers thread the given lists, one per origin. -/
structure Chains (l : LruLists) (ids : RouteOrigin → List ℕ) : Prop where
  /-- the head is the first in line -/
  head : ∀ origin, l.head origin = (ids origin).head?
  /-- the tail is the last in line -/
  tail : ∀ origin, l.tail origin = (ids origin).getLast?
  /-- the links are consistent in both directions -/
  linked : ∀ origin, Linked l.prev l.next none (ids origin) none
  /-- no node is linked twice in a list … -/
  nodup : ∀ origin, (ids origin).Nodup
  /-- … or in two lists -/
  disjoint : ∀ origin origin' i, i ∈ ids origin → i ∈ ids origin' → origin = origin'

namespace Chains

variable {l l' : LruLists} {ids : RouteOrigin → List ℕ} {origin : RouteOrigin} {xs ys : List ℕ}
  {i j : ℕ}

/-- Changing one list. -/
theorem update (h : Chains l ids) {new : List ℕ}
    (hhead : l'.head = Function.update l.head origin new.head?)
    (htail : l'.tail = Function.update l.tail origin new.getLast?)
    (hlinked : Linked l'.prev l'.next none new none) (hnodup : new.Nodup)
    (hnew : ∀ i ∈ new, ∀ o, o ≠ origin → i ∉ ids o)
    (hother : ∀ o, o ≠ origin → ∀ i ∈ ids o, l'.prev i = l.prev i ∧ l'.next i = l.next i) :
    Chains l' (Function.update ids origin new) := by
  refine ⟨fun o => ?_, fun o => ?_, fun o => ?_, fun o => ?_, fun o o' i hi hi' => ?_⟩
  · rw [hhead, Function.update_apply, Function.update_apply, h.head]
    split <;> rfl
  · rw [htail, Function.update_apply, Function.update_apply, h.tail]
    split <;> rfl
  · rw [Function.update_apply]
    split
    · exact hlinked
    · rename_i ho
      exact (h.linked o).congr (hother o ho)
  · rw [Function.update_apply]
    split
    · exact hnodup
    · exact h.nodup o
  · rw [Function.update_apply] at hi hi'
    split at hi <;> split at hi'
    · rename_i ho ho'
      rw [ho, ho']
    · rename_i ho ho'
      exact absurd hi' (hnew i hi o' ho')
    · rename_i ho ho'
      exact absurd hi (hnew i hi' o ho)
    · exact h.disjoint o o' i hi hi'

/-- The pointers of a linked node. -/
theorem pointers (h : Chains l ids) (hids : ids origin = xs ++ i :: ys) :
    l.prev i = xs.getLast? ∧ l.next i = ys.head? := by
  have hlinked := h.linked origin
  rw [hids, linked_middle, Option.or_none, Option.or_none] at hlinked
  exact ⟨hlinked.2.1, hlinked.2.2.1⟩

theorem nodup_middle (h : Chains l ids) (hids : ids origin = xs ++ i :: ys) :
    (xs ++ i :: ys).Nodup := by
  rw [← hids]
  exact h.nodup origin

theorem prev_ne_self (h : Chains l ids) (hids : ids origin = xs ++ i :: ys) :
    l.prev i ≠ some i := by
  rw [(h.pointers hids).1]
  intro hlast
  have hmem := List.mem_of_getLast? hlast
  exact (List.nodup_append.mp (h.nodup_middle hids)).2.2 i hmem i List.mem_cons_self rfl

/-- The neighbours of a node are in its own list only. -/
theorem not_neighbour (h : Chains l ids) (hids : ids origin = xs ++ i :: ys) {o : RouteOrigin}
    (ho : o ≠ origin) (hj : j ∈ ids o) : j ≠ i ∧ xs.getLast? ≠ some j ∧ ys.head? ≠ some j := by
  have hout : ∀ a ∈ xs ++ i :: ys, j ≠ a := by
    rintro a ha rfl
    rw [← hids] at ha
    exact ho (h.disjoint o origin j hj ha)
  refine ⟨hout i (by simp), fun hlast => ?_, fun hfirst => ?_⟩
  · exact hout j (List.mem_append_left _ (List.mem_of_getLast? hlast)) rfl
  · refine hout j ?_ rfl
    exact List.mem_append_right _ (List.mem_cons_of_mem _ (List.mem_of_mem_head? hfirst))

theorem mem_middle (hj : j ∈ xs ++ ys) : j ∈ xs ++ i :: ys :=
  ((List.sublist_cons_self i ys).append_left xs).subset hj

/-- **`lru_remove`** takes the node out of its list. -/
theorem remove (h : Chains l ids) (hids : ids origin = xs ++ i :: ys) :
    Chains (l.remove origin i) (Function.update ids origin (xs ++ ys)) := by
  obtain ⟨hprev, hnext⟩ := h.pointers hids
  have hself := h.prev_ne_self hids
  have hnodup := h.nodup_middle hids
  have hhead := h.head origin
  have htail := h.tail origin
  rw [hids] at hhead htail
  have hi : i ∉ xs ++ ys := (List.nodup_cons.mp (List.nodup_middle.mp hnodup)).1
  refine h.update ?_ ?_ ?_ (List.nodup_cons.mp (List.nodup_middle.mp hnodup)).2 ?_ ?_
  · rw [LruLists.remove_head, hprev, hnext]
    cases xs with
    | nil => exact if_pos ⟨rfl, hhead⟩
    | cons x xs =>
      rw [if_neg (by simp), List.cons_append, List.head?_cons]
      exact (Function.update_eq_self_iff.mpr hhead.symm).symm
  · rw [l.remove_tail origin i hself, hprev, hnext]
    cases ys with
    | nil =>
      rw [List.getLast?_append_cons, List.getLast?_singleton] at htail
      rw [if_pos ⟨rfl, htail⟩, List.append_nil]
    | cons y ys =>
      rw [if_neg (by simp), List.getLast?_append_cons]
      rw [List.getLast?_append_cons, List.getLast?_cons_cons] at htail
      exact (Function.update_eq_self_iff.mpr htail.symm).symm
  · have hlinked := h.linked origin
    rw [hids] at hlinked
    refine hlinked.unlink hnodup (fun j hj => ?_) (fun j hj => ?_)
    · have hne : j ≠ i := fun heq => hi (heq ▸ hj)
      rw [l.remove_prev origin i hself, if_neg hne, hprev, hnext]
    · have hne : j ≠ i := fun heq => hi (heq ▸ hj)
      rw [LruLists.remove_next, if_neg hne, hprev, hnext]
  · intro j hj o ho hjo
    refine ho (h.disjoint o origin j hjo ?_)
    rw [hids]
    exact mem_middle hj
  · intro o ho j hj
    obtain ⟨hne, hlast, hfirst⟩ := h.not_neighbour hids ho hj
    rw [l.remove_prev origin i hself, LruLists.remove_next, if_neg hne, if_neg hne, hprev, hnext,
      if_neg hlast, if_neg hfirst]
    exact ⟨rfl, rfl⟩

/-- **`lru_push_front`** puts an unlinked node first. -/
theorem pushFront (h : Chains l ids) (hi : ∀ o, i ∉ ids o) (origin : RouteOrigin) :
    Chains (l.pushFront origin i) (Function.update ids origin (i :: ids origin)) := by
  have hhead := h.head origin
  refine h.update ?_ ?_ ?_ ?_ ?_ ?_
  · rw [LruLists.pushFront_head, List.head?_cons]
  · rw [LruLists.pushFront_tail, h.tail origin, List.getLast?_cons]
    rcases hlast : (ids origin).getLast? with _ | t
    · rw [if_pos rfl]
      rfl
    · rw [if_neg (by simp)]
      refine (Function.update_eq_self_iff.mpr ?_).symm
      rw [h.tail origin, hlast]
      rfl
  · refine (h.linked origin).push (h.nodup origin) ?_ ?_ (fun j hj => ?_) (fun j hj => ?_)
    · rw [LruLists.pushFront_prev, hhead, if_neg, if_pos rfl]
      exact fun hfirst => hi origin (List.mem_of_mem_head? hfirst)
    · rw [LruLists.pushFront_next, if_pos rfl, hhead]
    · have hne : j ≠ i := fun heq => hi origin (heq ▸ hj)
      rw [LruLists.pushFront_prev, hhead, if_neg hne]
    · have hne : j ≠ i := fun heq => hi origin (heq ▸ hj)
      rw [LruLists.pushFront_next, if_neg hne]
  · exact List.nodup_cons.mpr ⟨hi origin, h.nodup origin⟩
  · intro j hj o ho hjo
    rcases List.mem_cons.mp hj with rfl | hj
    · exact hi o hjo
    · exact ho (h.disjoint o origin j hjo hj)
  · intro o ho j hj
    have hne : j ≠ i := fun heq => hi o (heq ▸ hj)
    have hfirst : l.head origin ≠ some j := by
      rw [hhead]
      exact fun hfirst => ho (h.disjoint o origin j hj (List.mem_of_mem_head? hfirst))
    rw [LruLists.pushFront_prev, LruLists.pushFront_next, if_neg hne, if_neg hne, if_neg hfirst]
    exact ⟨rfl, rfl⟩

/-- **The splice** puts an unlinked node in the place of a linked one. -/
theorem splice (h : Chains l ids) (hids : ids origin = xs ++ i :: ys) (hj : ∀ o, j ∉ ids o) :
    Chains (l.splice origin i j) (Function.update ids origin (xs ++ j :: ys)) := by
  obtain ⟨hprev, hnext⟩ := h.pointers hids
  have hself := h.prev_ne_self hids
  have hnodup := h.nodup_middle hids
  have hhead := h.head origin
  have htail := h.tail origin
  have hjids := hj origin
  rw [hids] at hhead htail hjids
  have hne : i ≠ j := by
    rintro rfl
    exact hjids (by simp)
  have hi := (List.nodup_cons.mp (List.nodup_middle.mp hnodup)).1
  have hjnot : j ∉ xs ++ ys := fun hmem => hjids (mem_middle hmem)
  have hlast : xs.getLast? ≠ some j := fun heq =>
    hjnot (List.mem_append_left _ (List.mem_of_getLast? heq))
  have hfirst : ys.head? ≠ some j := fun heq =>
    hjnot (List.mem_append_right _ (List.mem_of_mem_head? heq))
  refine h.update ?_ ?_ ?_ ?_ ?_ ?_
  · rw [l.splice_head origin i j hne hself]
    cases xs with
    | nil => exact if_pos hhead
    | cons x xs =>
      have hx : l.head origin ≠ some i := by
        rw [hhead, List.cons_append, List.head?_cons]
        intro heq
        exact hi (Option.some.inj heq ▸ List.mem_cons_self)
      rw [if_neg hx]
      exact (Function.update_eq_self_iff.mpr hhead.symm).symm
  · rw [l.splice_tail origin i j hne hself]
    rw [List.getLast?_append_cons] at htail ⊢
    cases ys with
    | nil => exact if_pos htail
    | cons y ys =>
      rw [List.getLast?_cons_cons] at htail ⊢
      have hy : l.tail origin ≠ some i := by
        rw [htail]
        exact fun heq => hi (List.mem_append_right _ (List.mem_of_getLast? heq))
      rw [if_neg hy]
      exact (Function.update_eq_self_iff.mpr htail.symm).symm
  · have hlinked := h.linked origin
    rw [hids] at hlinked
    refine hlinked.replace hnodup ?_ ?_ (fun a ha => ?_) (fun a ha => ?_)
    · rw [l.splice_prev origin i j hne hself, if_neg hne.symm, hprev, hnext, if_neg hfirst,
        if_pos rfl]
    · rw [l.splice_next origin i j hne hself, if_neg hne.symm, hprev, hnext, if_neg hlast,
        if_pos rfl]
    · have hai : a ≠ i := fun heq => hi (heq ▸ ha)
      have haj : a ≠ j := fun heq => hjnot (heq ▸ ha)
      rw [l.splice_prev origin i j hne hself, if_neg hai, if_neg haj, hnext]
    · have hai : a ≠ i := fun heq => hi (heq ▸ ha)
      have haj : a ≠ j := fun heq => hjnot (heq ▸ ha)
      rw [l.splice_next origin i j hne hself, if_neg hai, if_neg haj, hprev]
  · refine List.nodup_middle.mpr (List.nodup_cons.mpr ⟨hjnot, ?_⟩)
    exact (List.nodup_cons.mp (List.nodup_middle.mp hnodup)).2
  · intro a ha o ho hao
    rcases List.mem_cons.mp (List.perm_middle.subset ha) with rfl | ha
    · exact hj o hao
    · refine ho (h.disjoint o origin a hao ?_)
      rw [hids]
      exact mem_middle ha
  · intro o ho a ha
    obtain ⟨hai, halast, hafirst⟩ := h.not_neighbour hids ho ha
    have haj : a ≠ j := fun heq => hj o (heq ▸ ha)
    rw [l.splice_prev origin i j hne hself, l.splice_next origin i j hne hself, if_neg hai,
      if_neg hai, if_neg haj, if_neg haj, hprev, hnext, if_neg halast, if_neg hafirst]
    exact ⟨rfl, rfl⟩

/-- **`lru_touch`** moves a linked node to the front. -/
theorem touch (h : Chains l ids) (hids : ids origin = xs ++ i :: ys) :
    Chains (l.touch origin i) (Function.update ids origin (i :: (xs ++ ys))) := by
  have hnodup := h.nodup_middle hids
  unfold LruLists.touch
  split
  · -- the node is first already
    rename_i hfront
    rw [h.head, hids] at hfront
    have hxs : xs = [] := by
      cases xs with
      | nil => rfl
      | cons x xs =>
        rw [List.cons_append, List.head?_cons] at hfront
        rw [Option.some.inj hfront, List.cons_append, List.nodup_cons] at hnodup
        exact absurd (by simp) hnodup.1
    rw [hxs, List.nil_append] at hids ⊢
    rwa [← hids, Function.update_eq_self]
  · have hremoved := h.remove hids
    have hout : ∀ o, i ∉ Function.update ids origin (xs ++ ys) o := by
      intro o hmem
      rw [Function.update_apply] at hmem
      split at hmem
      · exact (List.nodup_cons.mp (List.nodup_middle.mp hnodup)).1 hmem
      · rename_i ho
        exact (h.not_neighbour hids ho hmem).1 rfl
    have hpushed := hremoved.pushFront hout origin
    rwa [Function.update_self, Function.update_idem] at hpushed

end Chains

end Ranvier
