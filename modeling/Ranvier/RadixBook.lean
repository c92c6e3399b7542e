import Ranvier.Types
import Mathlib.Data.List.AList

/-!
# The bookkeeping of the radix tree

What the tree keeps beside its nodes:

* `LruLists` — one intrusive doubly-linked recency list per `RouteOrigin`. A
  node is named by the identity it was allocated under, a number, so the C++
  pointers `lru_prev`, `lru_next`, `lru_head_` and `lru_tail_` become maps from
  and to identities;
* the live-route and route-token tallies per backend;
* the allocator's next identity and the clock reading of the running operation.
-/

namespace Ranvier

/-! ## Recency lists -/

/-- The per-origin intrusive LRU lists. -/
structure LruLists : Type where
  /-- `lru_head_`: the most recently accessed leaf -/
  head : RouteOrigin → Option ℕ
  /-- `lru_tail_`: the oldest leaf -/
  tail : RouteOrigin → Option ℕ
  /-- `lru_prev`, towards the head -/
  prev : ℕ → Option ℕ
  /-- `lru_next`, towards the tail -/
  next : ℕ → Option ℕ

namespace LruLists

/-- No list holds a node. -/
def empty : LruLists := ⟨fun _ => none, fun _ => none, fun _ => none, fun _ => none⟩

/-- `lru_remove`: unlink a node from the list of the origin it carries. -/
def remove (l : LruLists) (origin : RouteOrigin) (node : ℕ) : LruLists :=
  let l :=
    match l.prev node with
    | some p => { l with next := Function.update l.next p (l.next node) }
    | none =>
      if l.head origin = some node then
        { l with head := Function.update l.head origin (l.next node) }
      else l
  let l :=
    match l.next node with
    | some q => { l with prev := Function.update l.prev q (l.prev node) }
    | none =>
      if l.tail origin = some node then
        { l with tail := Function.update l.tail origin (l.prev node) }
      else l
  { l with
    prev := Function.update l.prev node none
    next := Function.update l.next node none }

/-- `lru_push_front`: link a node at the head of its origin's list. -/
def pushFront (l : LruLists) (origin : RouteOrigin) (node : ℕ) : LruLists :=
  let l :=
    { l with
      prev := Function.update l.prev node none
      next := Function.update l.next node (l.head origin) }
  let l :=
    match l.head origin with
    | some h => { l with prev := Function.update l.prev h (some node) }
    | none => l
  let l := { l with head := Function.update l.head origin (some node) }
  match l.tail origin with
  | some _ => l
  | none => { l with tail := Function.update l.tail origin (some node) }

/-- `lru_touch`: move a linked node to the head of its list. -/
def touch (l : LruLists) (origin : RouteOrigin) (node : ℕ) : LruLists :=
  if l.head origin = some node then l
  else (l.remove origin node).pushFront origin node

/-- Put `dest` in the place of `src`, as a node's replacement (after a growth, a
shrink or a split) inherits its list position. -/
def splice (l : LruLists) (origin : RouteOrigin) (src dest : ℕ) : LruLists :=
  let l :=
    { l with
      prev := Function.update l.prev dest (l.prev src)
      next := Function.update l.next dest (l.next src) }
  let l :=
    match l.prev src with
    | some p => { l with next := Function.update l.next p (some dest) }
    | none => l
  let l :=
    match l.next src with
    | some q => { l with prev := Function.update l.prev q (some dest) }
    | none => l
  let l :=
    if l.head origin = some src then
      { l with head := Function.update l.head origin (some dest) }
    else l
  let l :=
    if l.tail origin = some src then
      { l with tail := Function.update l.tail origin (some dest) }
    else l
  { l with
    prev := Function.update l.prev src none
    next := Function.update l.next src none }

end LruLists

/-! ## Tallies -/

/-- `kMaxTrackedBackends`. -/
def kMaxTrackedBackends : ℕ := 10000

/-- Everything the tree keeps beside its nodes. -/
structure TreeBook : Type where
  /-- the reading of `steady_clock::now()` during the current operation -/
  now : ℕ
  /-- the identity of the next node to be allocated -/
  nextId : ℕ
  /-- the recency lists -/
  lru : LruLists
  /-- `routes_by_backend_` -/
  routesByBackend : AList (fun _ : BackendId => ℕ)
  /-- `route_tokens_by_backend_` -/
  routeTokensByBackend : AList (fun _ : BackendId => ℕ)

namespace TreeBook

/-- The book of a tree under construction. -/
def empty : TreeBook := ⟨0, 0, LruLists.empty, ∅, ∅⟩

/-- `note_route_added`. -/
def noteRouteAdded (book : TreeBook) (backend : BackendId) (keyTokens : ℕ) : TreeBook :=
  match book.routesByBackend.lookup backend with
  | some count =>
    { book with
      routesByBackend := book.routesByBackend.insert backend (count + 1)
      routeTokensByBackend := book.routeTokensByBackend.insert backend
        ((book.routeTokensByBackend.lookup backend).getD 0 + keyTokens) }
  | none =>
    if book.routesByBackend.keys.length < kMaxTrackedBackends then
      { book with
        routesByBackend := book.routesByBackend.insert backend 1
        routeTokensByBackend := book.routeTokensByBackend.insert backend keyTokens }
    else book

/-- `note_route_removed`. The token tally is a `uint64_t` that is never let below
zero; the count is decremented only where an entry exists. -/
def noteRouteRemoved (book : TreeBook) (backend : Option BackendId) (keyTokens : ℕ) :
    TreeBook :=
  match backend with
  | none => book
  | some b =>
    match book.routesByBackend.lookup b with
    | none => book
    | some count =>
      let tokens :=
        match book.routeTokensByBackend.lookup b with
        | some tok => book.routeTokensByBackend.insert b (tok - keyTokens)
        | none => book.routeTokensByBackend
      if count - 1 = 0 then
        { book with
          routesByBackend := book.routesByBackend.erase b
          routeTokensByBackend := tokens.erase b }
      else
        { book with
          routesByBackend := book.routesByBackend.insert b (count - 1)
          routeTokensByBackend := tokens }

end TreeBook

end Ranvier
