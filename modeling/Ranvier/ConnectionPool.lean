import Ranvier.KeyedMap
import Ranvier.SwapQueue

/-!
# The connection pool

Idle connections, one queue per backend with the most recently used at the back. `get`
takes from the back and closes what it finds dead on the way, `put` makes room at the front
of the backend's queue or of the queue with the oldest front, and a reaper closes what has
expired. A connection that leaves the pool is returned by `get` or given to the close
policy.

* `PoolClock` — the readings of a clock, which may stand still and may go back; `Steady` — one
  that does not go back;
* `Gives` — an operation gives some connections away, closes all else that it removes from
  the queues, and the idle count follows;
* `Shrinks` — and it tracks no new backend;
* `get_spec`, `put_spec`, … — what the operations do, in these terms.
-/

namespace Ranvier

/-! ## Clock and connections -/

/-- A clock: its last reading and the next ones, after which it stands still. -/
structure PoolClock : Type where
  reading : ℕ
  readings : List ℕ := []
  deriving DecidableEq, Repr

namespace PoolClock

/-- `Clock::now()`. -/
def next (c : PoolClock) : PoolClock :=
  match c.readings with
  | [] => c
  | t :: ts => ⟨t, ts⟩

/-- The clock never goes back. -/
def Steady (c : PoolClock) : Prop := (c.reading :: c.readings).Pairwise (· ≤ ·)

/-- From `c` to `c'` a steady clock has gone on. -/
def Before (c c' : PoolClock) : Prop := c.Steady → c'.Steady ∧ c.reading ≤ c'.reading

variable {c c' c'' : PoolClock}

theorem Before.refl (c : PoolClock) : c.Before c := fun h => ⟨h, le_refl _⟩

theorem Before.trans (h : c.Before c') (h' : c'.Before c'') : c.Before c'' := by
  intro hsteady
  obtain ⟨hsteady', hle⟩ := h hsteady
  obtain ⟨hsteady'', hle'⟩ := h' hsteady'
  exact ⟨hsteady'', hle.trans hle'⟩

theorem before_next (c : PoolClock) : c.Before c.next := by
  intro hsteady
  rw [next]
  split
  · exact ⟨hsteady, le_refl _⟩
  · next t ts hreadings =>
    rw [Steady, hreadings, List.pairwise_cons] at hsteady
    exact ⟨hsteady.2, hsteady.1 t List.mem_cons_self⟩

end PoolClock

/-- A connection that was given to `put`. -/
structure ConnectionBundle (Addr : Type) : Type where
  /-- which call of `put` it was given to -/
  ticket : ℕ
  addr : Addr
  isValid : Bool := true
  createdAt : ℕ
  lastUsed : ℕ
  deriving DecidableEq, Repr

/-- The order in which a hash map is iterated, whatever it holds. -/
structure IterationOrder (γ : Type) : Type where
  sort : List γ → List γ
  perm : ∀ l, (sort l).Perm l

/-- What the liveness checks find. -/
inductive Liveness : Type where
  | expired
  | tooOld
  | halfOpen
  | live
  deriving DecidableEq, Repr

/-- Durations are in units of the clock. The configuration is refused if `max_connections_per_host`
is zero. -/
structure ConnectionPoolConfig : Type where
  maxConnectionsPerHost : ℕ := 10
  idleTimeout : ℕ := 60000000000
  maxTotalConnections : ℕ := 100
  maxConnectionAge : ℕ := 300000000000
  maxBackends : ℕ := 1000
  perHost_pos : 0 < maxConnectionsPerHost := by decide

structure ConnectionPool (Addr : Type) : Type where
  config : ConnectionPoolConfig
  clock : PoolClock
  pools : KeyedMap Addr (List (ConnectionBundle Addr)) := {}
  totalIdleConnections : ℕ := 0
  deadConnectionsReaped : ℕ := 0
  connectionsReapedMaxAge : ℕ := 0
  backendsRejected : ℕ := 0
  connectionsCreated : ℕ := 0
  connectionsReused : ℕ := 0
  globalEvictions : ℕ := 0
  /-- `_timer_gate` -/
  timerGateClosed : Bool := false
  /-- what the close policy was given so far -/
  closed : List (ConnectionBundle Addr) := []

namespace ConnectionPool

variable {Addr : Type}

/-! ## The operations -/

section Operations

variable (p : ConnectionPool Addr) (halfOpen : ConnectionBundle Addr → Bool)

/-- Reads the clock. -/
def tick : ConnectionPool Addr := { p with clock := p.clock.next }

/-- `close_bundle_async`. -/
def close (b : ConnectionBundle Addr) : ConnectionPool Addr := { p with closed := p.closed ++ [b] }

/-- `is_expired`, `is_too_old` and `is_half_open` in turn; the first two read the clock. -/
def check (b : ConnectionBundle Addr) : Liveness × ConnectionPool Addr :=
  let p := p.tick
  if p.config.idleTimeout < p.clock.reading - b.lastUsed then (.expired, p)
  else
    let p := p.tick
    if p.config.maxConnectionAge < p.clock.reading - b.createdAt then (.tooOld, p)
    else if halfOpen b then (.halfOpen, p)
    else (.live, p)

/-- The counters of a dead connection. -/
def countDead (found : Liveness) : ConnectionPool Addr :=
  { p with
    deadConnectionsReaped := p.deadConnectionsReaped + 1
    connectionsReapedMaxAge :=
      if found = .tooOld then p.connectionsReapedMaxAge + 1 else p.connectionsReapedMaxAge }

variable [DecidableEq Addr]

/-- The queue of a backend. -/
def queue (addr : Addr) : List (ConnectionBundle Addr) := (p.pools.find addr).getD []

/-- `_pools[addr]` and `_pools.try_emplace(addr)`: an empty queue for a new backend. -/
def track (addr : Addr) : ConnectionPool Addr :=
  if addr ∈ p.pools.keys then p else { p with pools := p.pools.set addr [] }

/-- One connection less in a queue. -/
def shorten (addr : Addr) (q : List (ConnectionBundle Addr)) : ConnectionPool Addr :=
  { p with
    pools := p.pools.set addr q
    totalIdleConnections := p.totalIdleConnections - 1 }

/-- The loop of `get`, over the queue from its back. -/
def getLoop (addr : Addr) :
    List (ConnectionBundle Addr) → ConnectionPool Addr →
      Option (ConnectionBundle Addr) × ConnectionPool Addr
  | [], p => (none, { p with connectionsCreated := p.connectionsCreated + 1 })
  | b :: back, p =>
    match (p.shorten addr back.reverse).check halfOpen b with
    | (.live, p) =>
      let p := p.tick
      (some { b with lastUsed := p.clock.reading },
        { p with connectionsReused := p.connectionsReused + 1 })
    | (dead, p) => getLoop addr back ((p.countDead dead).close b)

/-- `get`: a connection of the pool, or `none` if a new one is created. -/
def get (addr : Addr) : Option (ConnectionBundle Addr) × ConnectionPool Addr :=
  getLoop halfOpen addr (p.queue addr).reverse (p.track addr)

/-- `get_fresh`. -/
def getFresh : ConnectionPool Addr := { p with connectionsCreated := p.connectionsCreated + 1 }

/-- Closes the front of a queue. -/
def evictFront (addr : Addr) : ConnectionPool Addr :=
  match p.queue addr with
  | [] => p
  | oldest :: q => (p.shorten addr q).close oldest

/-- The front of an entry decides on its age. -/
def frontTime (e : Addr × List (ConnectionBundle Addr)) : ℕ :=
  match e.2 with
  | [] => 0
  | front :: _ => front.lastUsed

/-- The start of `evict_oldest_global`. -/
def countEviction : ConnectionPool Addr :=
  { p.tick with globalEvictions := p.globalEvictions + 1 }

/-- `evict_oldest_global`. The scan starts from the present instant. -/
def evictOldestGlobal (order : IterationOrder (Addr × List (ConnectionBundle Addr))) :
    ConnectionPool Addr :=
  let p := p.countEviction
  let entries := order.sort p.pools.entries
  match scan (fun e => e.2.isEmpty) frontTime 0 none p.clock.reading entries with
  | none => p
  | some i =>
    match entries[i]? with
    | none => p
    | some e => p.evictFront e.1

/-- The limit of a backend is checked before a connection is added. -/
def makeHostRoom (addr : Addr) : ConnectionPool Addr :=
  if p.config.maxConnectionsPerHost ≤ (p.queue addr).length then p.evictFront addr else p

/-- And then that of the pool. -/
def makeTotalRoom (order : IterationOrder (Addr × List (ConnectionBundle Addr))) :
    ConnectionPool Addr :=
  if p.config.maxTotalConnections ≤ p.totalIdleConnections then p.evictOldestGlobal order else p

/-- `pool.push_back`. -/
def push (b : ConnectionBundle Addr) : ConnectionPool Addr :=
  { p with
    pools := p.pools.set b.addr (p.queue b.addr ++ [b])
    totalIdleConnections := p.totalIdleConnections + 1 }

def put (order : IterationOrder (Addr × List (ConnectionBundle Addr)))
    (b : ConnectionBundle Addr) : ConnectionPool Addr :=
  if !b.isValid then p.close b
  else if halfOpen b then (p.countDead .halfOpen).close b
  else
    let p := p.tick
    let b := { b with lastUsed := p.clock.reading }
    let tracked := p.track b.addr
    if b.addr ∉ p.pools.keys ∧ p.config.maxBackends < tracked.pools.size then
      { tracked with
        pools := tracked.pools.erase b.addr
        backendsRejected := p.backendsRejected + 1 }.close b
    else ((tracked.makeHostRoom b.addr).makeTotalRoom order).push b

def clearPool (addr : Addr) : ConnectionPool Addr :=
  match p.pools.find addr with
  | none => p
  | some q =>
    { p with
      closed := p.closed ++ q
      totalIdleConnections := p.totalIdleConnections - q.length
      pools := p.pools.erase addr }

/-- The loop over a queue: `kept` has been passed. -/
def reapQueue (addr : Addr) :
    List (ConnectionBundle Addr) → List (ConnectionBundle Addr) → ConnectionPool Addr →
      ConnectionPool Addr
  | _, [], p => p
  | kept, b :: q, p =>
    match p.check halfOpen b with
    | (.live, p) => reapQueue addr (kept ++ [b]) q p
    | (dead, p) =>
      reapQueue addr kept q (((p.close b).shorten addr (kept ++ q)).countDead dead)

/-- The loop over the map, which collects the backends with nothing left. -/
def reapPools : List Addr → ConnectionPool Addr → List Addr × ConnectionPool Addr
  | [], p => ([], p)
  | addr :: addrs, p =>
    let p := reapQueue halfOpen addr [] (p.queue addr) p
    let rest := reapPools addrs p
    (if (p.queue addr).isEmpty then addr :: rest.1 else rest.1, rest.2)

/-- Erases the collected entries. -/
def eraseAll : List Addr → ConnectionPool Addr → ConnectionPool Addr
  | [], p => p
  | addr :: addrs, p => eraseAll addrs { p with pools := p.pools.erase addr }

def cleanupExpired (order : IterationOrder Addr) : ConnectionPool Addr :=
  let r := reapPools halfOpen (order.sort p.pools.keys) p
  eraseAll r.1 r.2

/-- `reap_dead_connections`: nothing once the gate is closed. -/
def reapDeadConnections (order : IterationOrder Addr) : ConnectionPool Addr :=
  if p.timerGateClosed then p else p.cleanupExpired halfOpen order

/-- `stop`. -/
def stop : ConnectionPool Addr := { p with timerGateClosed := true }

end Operations

/-! ## What the operations give away -/

/-- How many of the connections were given to a certain call of `put`. -/
def countTicket (i : ℕ) (q : List (ConnectionBundle Addr)) : ℕ := q.countP fun b => b.ticket == i

/-- How many connections of a call the pool has kept or closed. -/
def owned (p : ConnectionPool Addr) (i : ℕ) : ℕ :=
  p.pools.total (countTicket i) + countTicket i p.closed

/-- The idle count is the number of the connections in the queues. -/
def Counted (p : ConnectionPool Addr) : Prop := p.totalIdleConnections = p.pools.total List.length

variable [DecidableEq Addr]

/-- From `p` to `p'` some connections are given away, and all else that leaves a queue is
closed. -/
structure Gives (p : ConnectionPool Addr) (taken : List (ConnectionBundle Addr))
    (p' : ConnectionPool Addr) : Prop where
  config : p'.config = p.config
  clock : p.clock.Before p'.clock
  queues : ∀ addr, (p'.queue addr).Sublist (p.queue addr)
  counted : p.Counted → p'.Counted
  total : p'.totalIdleConnections ≤ p.totalIdleConnections
  owned : ∀ i, p'.owned i + countTicket i taken = p.owned i

/-- And no backend is tracked that was not. -/
structure Shrinks (p : ConnectionPool Addr) (taken : List (ConnectionBundle Addr))
    (p' : ConnectionPool Addr) : Prop extends Gives p taken p' where
  size : p'.pools.size ≤ p.pools.size

variable {p p' p'' : ConnectionPool Addr} {taken taken' : List (ConnectionBundle Addr)}

omit [DecidableEq Addr] in
theorem countTicket_append (i : ℕ) (q q' : List (ConnectionBundle Addr)) :
    countTicket i (q ++ q') = countTicket i q + countTicket i q' :=
  List.countP_append

omit [DecidableEq Addr] in
theorem countTicket_touch (i : ℕ) (b : ConnectionBundle Addr) (t : ℕ) :
    countTicket i [{ b with lastUsed := t }] = countTicket i [b] :=
  rfl

/-- Where nothing is given away, everything is kept or closed. -/
theorem Gives.owned_eq (h : Gives p [] p') (i : ℕ) : p'.owned i = p.owned i := h.owned i

theorem Gives.trans (h : Gives p taken p') (h' : Gives p' taken' p'') :
    Gives p (taken ++ taken') p'' where
  config := h'.config.trans h.config
  clock := h.clock.trans h'.clock
  queues addr := (h'.queues addr).trans (h.queues addr)
  counted hp := h'.counted (h.counted hp)
  total := h'.total.trans h.total
  owned i := by
    have hfirst := h.owned i
    have hsecond := h'.owned i
    rw [countTicket_append]
    omega

theorem Shrinks.trans (h : Shrinks p taken p') (h' : Shrinks p' taken' p'') :
    Shrinks p (taken ++ taken') p'' :=
  ⟨h.toGives.trans h'.toGives, h'.size.trans h.size⟩

omit [DecidableEq Addr] in
theorem owned_close (p : ConnectionPool Addr) (b : ConnectionBundle Addr) (i : ℕ) :
    (p.close b).owned i = p.owned i + countTicket i [b] := by
  rw [owned, owned, Nat.add_assoc, ← countTicket_append]
  rfl

/-- What was given away is closed. -/
theorem Gives.close {b : ConnectionBundle Addr} (h : Gives p [b] p') : Gives p [] (p'.close b) where
  config := h.config
  clock := h.clock
  queues := h.queues
  counted := h.counted
  total := h.total
  owned i := by
    rw [owned_close]
    exact h.owned i

theorem Shrinks.close {b : ConnectionBundle Addr} (h : Shrinks p [b] p') :
    Shrinks p [] (p'.close b) :=
  ⟨h.toGives.close, h.size⟩

/-- A connection may be touched on its way out. -/
theorem Shrinks.touch {b : ConnectionBundle Addr} (h : Shrinks p [b] p') (t : ℕ) :
    Shrinks p [{ b with lastUsed := t }] p' :=
  ⟨⟨h.config, h.clock, h.queues, h.counted, h.total, h.owned⟩, h.size⟩

/-- Queues, idle count and what was closed stay as they are. -/
theorem shrinks_of_eq (hconfig : p'.config = p.config) (hclock : p.clock.Before p'.clock)
    (hpools : p'.pools = p.pools) (htotal : p'.totalIdleConnections = p.totalIdleConnections)
    (hclosed : p'.closed = p.closed) : Shrinks p [] p' where
  config := hconfig
  clock := hclock
  queues addr := by rw [queue, queue, hpools]
  counted hp := by
    rw [Counted, htotal, hpools]
    exact hp
  total := htotal.le
  owned i := by
    rw [ConnectionPool.owned, ConnectionPool.owned, hpools, hclosed]
    rfl
  size := by rw [hpools]

theorem shrinks_refl (p : ConnectionPool Addr) : Shrinks p [] p :=
  shrinks_of_eq rfl (.refl _) rfl rfl rfl

theorem shrinks_tick (p : ConnectionPool Addr) : Shrinks p [] p.tick :=
  shrinks_of_eq rfl p.clock.before_next rfl rfl rfl

theorem shrinks_getFresh (p : ConnectionPool Addr) : Shrinks p [] p.getFresh :=
  shrinks_of_eq rfl (.refl _) rfl rfl rfl

theorem shrinks_stop (p : ConnectionPool Addr) : Shrinks p [] p.stop :=
  shrinks_of_eq rfl (.refl _) rfl rfl rfl

theorem shrinks_countDead (p : ConnectionPool Addr) (found : Liveness) :
    Shrinks p [] (p.countDead found) :=
  shrinks_of_eq rfl (.refl _) rfl rfl rfl

theorem find_of_queue {addr : Addr} {b : ConnectionBundle Addr} {q : List (ConnectionBundle Addr)}
    (h : p.queue addr = b :: q) : p.pools.find addr = some (b :: q) := by
  rw [queue] at h
  cases hfind : p.pools.find addr with
  | none =>
    rw [hfind] at h
    cases h
  | some q' =>
    rw [hfind, Option.getD_some] at h
    rw [h]

theorem queue_of_find {addr : Addr} {q : List (ConnectionBundle Addr)}
    (h : p.pools.find addr = some q) : p.queue addr = q := by
  rw [queue, h, Option.getD_some]

/-- **Taking a connection out of a queue.** -/
theorem shrinks_shorten {addr : Addr} {b : ConnectionBundle Addr}
    {q q' : List (ConnectionBundle Addr)} (hfind : p.pools.find addr = some q)
    (hsub : q'.Sublist q) (hperm : q.Perm (b :: q')) : Shrinks p [b] (p.shorten addr q') where
  config := rfl
  clock := .refl _
  queues a := by
    rw [queue, shorten, KeyedMap.find_set]
    split
    · next heq =>
      rw [heq, queue_of_find hfind]
      exact hsub
    · exact List.Sublist.refl _
  counted hp := by
    have hsum := KeyedMap.total_set (w := List.length) hfind q'
    have hlength := hperm.length_eq
    rw [List.length_cons] at hlength
    rw [Counted] at hp
    rw [Counted, shorten]
    dsimp only
    omega
  total := Nat.sub_le _ _
  owned i := by
    have hsum := KeyedMap.total_set (w := countTicket i) hfind q'
    have hcount : countTicket i q = countTicket i [b] + countTicket i q' := by
      rw [← countTicket_append]
      exact hperm.countP_eq _
    rw [ConnectionPool.owned, ConnectionPool.owned, shorten]
    dsimp only
    omega
  size := by
    rw [shorten, KeyedMap.size_set, if_pos (KeyedMap.mem_keys_of_find hfind)]

theorem gives_track (p : ConnectionPool Addr) (addr : Addr) : Gives p [] (p.track addr) := by
  rw [track]
  split
  · exact (shrinks_refl p).toGives
  · next hnew =>
    refine
      { config := rfl
        clock := .refl _
        queues := ?_
        counted := ?_
        total := le_refl _
        owned := ?_ }
    · intro a
      rw [queue, queue, KeyedMap.find_set]
      split
      · exact List.nil_sublist _
      · exact List.Sublist.refl _
    · intro hp
      rw [Counted, KeyedMap.total_set_new hnew]
      exact hp
    · intro i
      rw [owned, owned, KeyedMap.total_set_new hnew]
      rfl

/-- Only the map changes. -/
theorem frame_track (p : ConnectionPool Addr) (addr : Addr) :
    (p.track addr).config = p.config ∧ (p.track addr).clock = p.clock ∧
      (p.track addr).totalIdleConnections = p.totalIdleConnections ∧
      (p.track addr).closed = p.closed := by
  rw [track]
  split
  · exact ⟨rfl, rfl, rfl, rfl⟩
  · exact ⟨rfl, rfl, rfl, rfl⟩

theorem size_track (p : ConnectionPool Addr) (addr : Addr) :
    (p.track addr).pools.size = if addr ∈ p.pools.keys then p.pools.size else p.pools.size + 1 := by
  rw [track]
  split
  · rfl
  · next hnew => exact (KeyedMap.size_set ..).trans (if_neg hnew)

theorem queue_track (p : ConnectionPool Addr) (addr a : Addr) :
    (p.track addr).queue a = p.queue a := by
  rw [track]
  split
  · rfl
  · next hnew =>
    rw [queue, queue, KeyedMap.find_set]
    split
    · next heq => rw [heq, KeyedMap.find_eq_none_iff.mpr hnew, Option.getD_some, Option.getD_none]
    · rfl

theorem find_track (p : ConnectionPool Addr) (addr : Addr) :
    (p.track addr).pools.find addr = some ((p.track addr).queue addr) := by
  rw [queue, track]
  split
  · next htracked =>
    obtain ⟨q, hfind⟩ := Option.isSome_iff_exists.mp (KeyedMap.find_isSome_iff.mpr htracked)
    rw [hfind, Option.getD_some]
  · rw [KeyedMap.find_set, if_pos rfl, Option.getD_some]

/-- An entry without connections may be erased. -/
theorem shrinks_erase {addr : Addr} (h : p.queue addr = []) :
    Shrinks p [] { p with pools := p.pools.erase addr } := by
  cases hfind : p.pools.find addr with
  | none =>
    have hsame : p.pools.erase addr = p.pools :=
      KeyedMap.erase_of_new (KeyedMap.find_eq_none_iff.mp hfind)
    rw [hsame]
    exact shrinks_refl p
  | some q =>
    obtain rfl : q = [] := (queue_of_find hfind).symm.trans h
    refine ⟨?_, KeyedMap.size_erase_le addr⟩
    refine
      { config := rfl
        clock := .refl _
        queues := ?_
        counted := ?_
        total := le_refl _
        owned := ?_ }
    · intro a
      rw [queue, queue, KeyedMap.find_erase]
      split
      · exact List.nil_sublist _
      · exact List.Sublist.refl _
    · intro hp
      have hsum := KeyedMap.total_erase (w := List.length) hfind
      rw [Counted] at hp
      rw [Counted, hp]
      exact hsum.symm
    · intro i
      have hsum := KeyedMap.total_erase (w := countTicket i) hfind
      rw [owned, owned, ← hsum]
      rfl

section Loops

variable {halfOpen : ConnectionBundle Addr → Bool}

variable (halfOpen) in
omit [DecidableEq Addr] in
/-- The checks do no more than read the clock. -/
theorem check_cases (p : ConnectionPool Addr) (b : ConnectionBundle Addr) :
    (p.check halfOpen b).2 = p.tick ∨ (p.check halfOpen b).2 = p.tick.tick := by
  simp only [check]
  split
  · exact .inl rfl
  · right
    split
    · rfl
    · split
      · rfl
      · rfl

theorem shrinks_of_check {b : ConnectionBundle Addr} {found : Liveness}
    (h : p.check halfOpen b = (found, p')) : Shrinks p [] p' := by
  have hticks := check_cases halfOpen p b
  rw [h] at hticks
  rcases hticks with rfl | rfl
  · exact shrinks_tick p
  · exact (shrinks_tick p).trans (shrinks_tick p.tick)

omit [DecidableEq Addr] in
theorem pools_of_check {b : ConnectionBundle Addr} {found : Liveness}
    (h : p.check halfOpen b = (found, p')) : p'.pools = p.pools := by
  have hticks := check_cases halfOpen p b
  rw [h] at hticks
  rcases hticks with rfl | rfl
  · rfl
  · rfl

variable (halfOpen) in
/-- **The loop of `get`** gives away the connection it returns. -/
theorem getLoop_spec {addr : Addr} {back : List (ConnectionBundle Addr)}
    (hfind : p.pools.find addr = some back.reverse) :
    Shrinks p (getLoop halfOpen addr back p).1.toList (getLoop halfOpen addr back p).2 := by
  induction back generalizing p with
  | nil => exact shrinks_of_eq rfl (.refl _) rfl rfl rfl
  | cons b back ih =>
    rw [List.reverse_cons] at hfind
    have htake : Shrinks p [b] (p.shorten addr back.reverse) :=
      shrinks_shorten hfind (List.sublist_append_left _ _) (List.perm_append_singleton b _)
    cases hcheck : (p.shorten addr back.reverse).check halfOpen b with
    | mk found p₁ =>
      have hchecked : Shrinks p [b] p₁ := htake.trans (shrinks_of_check hcheck)
      have hdead : Shrinks p (getLoop halfOpen addr back ((p₁.countDead found).close b)).1.toList
          (getLoop halfOpen addr back ((p₁.countDead found).close b)).2 := by
        have hclosed : Shrinks p [] ((p₁.countDead found).close b) :=
          (hchecked.trans (shrinks_countDead p₁ found)).close
        refine hclosed.trans (ih ?_)
        have hpools : ((p₁.countDead found).close b).pools = p.pools.set addr back.reverse :=
          pools_of_check hcheck
        rw [hpools, KeyedMap.find_set, if_pos rfl]
      rw [getLoop, hcheck]
      cases found with
      | live =>
        have htouched : Shrinks p₁ []
            { p₁.tick with connectionsReused := p₁.connectionsReused + 1 } :=
          shrinks_of_eq rfl p₁.clock.before_next rfl rfl rfl
        exact (hchecked.trans htouched).touch _
      | expired => exact hdead
      | tooOld => exact hdead
      | halfOpen => exact hdead

variable (halfOpen) in
/-- **`get`** gives away what it returns, and tracks the backend. -/
theorem get_spec (p : ConnectionPool Addr) (addr : Addr) :
    Gives p (p.get halfOpen addr).1.toList (p.get halfOpen addr).2 ∧
      Shrinks (p.track addr) (p.get halfOpen addr).1.toList (p.get halfOpen addr).2 := by
  have hfind : (p.track addr).pools.find addr = some (p.queue addr).reverse.reverse := by
    rw [List.reverse_reverse, ← queue_track p addr addr]
    exact find_track p addr
  have hloop := getLoop_spec halfOpen hfind
  exact ⟨(gives_track p addr).trans hloop.toGives, hloop⟩

theorem shrinks_reapQueue {addr : Addr} {kept q : List (ConnectionBundle Addr)}
    (hfind : p.pools.find addr = some (kept ++ q)) :
    Shrinks p [] (reapQueue halfOpen addr kept q p) := by
  induction q generalizing p kept with
  | nil => exact shrinks_refl p
  | cons b q ih =>
    cases hcheck : p.check halfOpen b with
    | mk found p₁ =>
      have hchecked : Shrinks p [] p₁ := shrinks_of_check hcheck
      have hfind₁ : p₁.pools.find addr = some (kept ++ b :: q) := by
        rw [pools_of_check hcheck]
        exact hfind
      have hdead : Shrinks p []
          (reapQueue halfOpen addr kept q
            (((p₁.close b).shorten addr (kept ++ q)).countDead found)) := by
        have hsub : (kept ++ q).Sublist (kept ++ b :: q) :=
          (List.Sublist.refl kept).append (List.sublist_cons_self b q)
        have hclosed : Shrinks p₁ [] ((p₁.close b).shorten addr (kept ++ q)) :=
          (shrinks_shorten hfind₁ hsub List.perm_middle).close
        refine (hchecked.trans (hclosed.trans (shrinks_countDead _ found))).trans (ih ?_)
        exact (KeyedMap.find_set ..).trans (if_pos rfl)
      rw [reapQueue, hcheck]
      cases found with
      | live =>
        refine hchecked.trans (ih ?_)
        rw [List.append_assoc]
        exact hfind₁
      | expired => exact hdead
      | tooOld => exact hdead
      | halfOpen => exact hdead

variable (halfOpen) in
/-- The loop over the map, and what it collects. -/
theorem shrinks_reapPools (addrs : List Addr) (p : ConnectionPool Addr) :
    Shrinks p [] (reapPools halfOpen addrs p).2 ∧
      ∀ addr ∈ (reapPools halfOpen addrs p).1, (reapPools halfOpen addrs p).2.queue addr = [] := by
  induction addrs generalizing p with
  | nil => exact ⟨shrinks_refl p, by simp [reapPools]⟩
  | cons addr addrs ih =>
    have hreaped : Shrinks p [] (reapQueue halfOpen addr [] (p.queue addr) p) := by
      cases hfind : p.pools.find addr with
      | none =>
        have hqueue : p.queue addr = [] := by rw [queue, hfind, Option.getD_none]
        rw [hqueue]
        exact shrinks_refl p
      | some q =>
        refine shrinks_reapQueue ?_
        rw [hfind, queue_of_find hfind, List.nil_append]
    obtain ⟨hrest, hempty⟩ := ih (reapQueue halfOpen addr [] (p.queue addr) p)
    refine ⟨hreaped.trans hrest, ?_⟩
    intro a ha
    simp only [reapPools] at ha
    split at ha
    · next hnil =>
      rcases List.mem_cons.mp ha with rfl | ha
      · have hsub := hrest.queues a
        rw [List.isEmpty_iff.mp hnil] at hsub
        exact List.sublist_nil.mp hsub
      · exact hempty a ha
    · exact hempty a ha

end Loops

theorem shrinks_eraseAll (addrs : List Addr) (h : ∀ addr ∈ addrs, p.queue addr = []) :
    Shrinks p [] (eraseAll addrs p) := by
  induction addrs generalizing p with
  | nil => exact shrinks_refl p
  | cons addr addrs ih =>
    have herased := shrinks_erase (h addr List.mem_cons_self)
    refine herased.trans (ih ?_)
    intro a ha
    have hsub := herased.queues a
    rw [h a (List.mem_cons_of_mem addr ha)] at hsub
    exact List.sublist_nil.mp hsub

theorem shrinks_cleanupExpired (p : ConnectionPool Addr)
    (halfOpen : ConnectionBundle Addr → Bool) (order : IterationOrder Addr) :
    Shrinks p [] (p.cleanupExpired halfOpen order) := by
  obtain ⟨hreaped, hempty⟩ := shrinks_reapPools halfOpen (order.sort p.pools.keys) p
  exact hreaped.trans (shrinks_eraseAll _ hempty)

/-- **The reaper** closes connections and forgets backends. -/
theorem shrinks_reapDeadConnections (p : ConnectionPool Addr)
    (halfOpen : ConnectionBundle Addr → Bool) (order : IterationOrder Addr) :
    Shrinks p [] (p.reapDeadConnections halfOpen order) := by
  rw [reapDeadConnections]
  split
  · exact shrinks_refl p
  · exact shrinks_cleanupExpired p halfOpen order

/-- **`clear_pool`** closes a whole queue. -/
theorem shrinks_clearPool (p : ConnectionPool Addr) (addr : Addr) :
    Shrinks p [] (p.clearPool addr) := by
  rw [clearPool]
  split
  · exact shrinks_refl p
  · next q hfind =>
    refine ⟨?_, KeyedMap.size_erase_le addr⟩
    refine
      { config := rfl
        clock := .refl _
        queues := ?_
        counted := ?_
        total := Nat.sub_le _ _
        owned := ?_ }
    · intro a
      rw [queue, queue, KeyedMap.find_erase]
      split
      · exact List.nil_sublist _
      · exact List.Sublist.refl _
    · intro hp
      have hsum := KeyedMap.total_erase (w := List.length) hfind
      rw [Counted] at hp
      rw [Counted, hp]
      dsimp only
      omega
    · intro i
      have hsum := KeyedMap.total_erase (w := countTicket i) hfind
      have hnone : countTicket i ([] : List (ConnectionBundle Addr)) = 0 := rfl
      rw [owned, owned, countTicket_append, hnone]
      dsimp only
      omega

/-! ## Making room -/

theorem shrinks_evictFront (p : ConnectionPool Addr) (addr : Addr) :
    Shrinks p [] (p.evictFront addr) := by
  rw [evictFront]
  split
  · exact shrinks_refl p
  · next hqueue =>
    exact (shrinks_shorten (find_of_queue hqueue) (List.sublist_cons_self _ _)
      (List.Perm.refl _)).close

theorem keys_evictFront (p : ConnectionPool Addr) (addr : Addr) :
    (p.evictFront addr).pools.keys = p.pools.keys := by
  rw [evictFront]
  split
  · rfl
  · next hqueue =>
    exact (KeyedMap.keys_set ..).trans (if_pos (KeyedMap.mem_keys_of_find (find_of_queue hqueue)))

/-- The front of a queue that is not empty makes room for one. -/
theorem evictFront_total {addr : Addr} (hcounted : p.Counted) (h : p.queue addr ≠ []) :
    (p.evictFront addr).totalIdleConnections + 1 = p.totalIdleConnections := by
  rw [evictFront]
  split
  · next hempty => exact absurd hempty h
  · next hqueue =>
    have hle := KeyedMap.le_total (w := List.length) (find_of_queue hqueue)
    rw [List.length_cons] at hle
    rw [Counted] at hcounted
    rw [close, shorten]
    dsimp only
    omega

theorem queue_evictFront (p : ConnectionPool Addr) (addr : Addr) :
    (p.evictFront addr).queue addr = (p.queue addr).tail := by
  rw [evictFront]
  split
  · next hempty =>
    rw [hempty]
    rfl
  · next hqueue =>
    rw [hqueue, List.tail_cons]
    exact queue_of_find ((KeyedMap.find_set ..).trans (if_pos rfl))

/-- **`evict_oldest_global`** closes the front of some queue, or no front is older than the
present instant. -/
theorem evictOldestGlobal_cases (p : ConnectionPool Addr)
    (order : IterationOrder (Addr × List (ConnectionBundle Addr))) :
    (∃ addr, p.queue addr ≠ [] ∧
        p.evictOldestGlobal order = p.countEviction.evictFront addr) ∨
      p.evictOldestGlobal order = p.countEviction ∧ ∀ addr front rest,
        p.queue addr = front :: rest → p.clock.next.reading ≤ front.lastUsed := by
  simp only [evictOldestGlobal]
  obtain ⟨hkept, hall⟩ | ⟨pre, e, post, hsplit, hdue, -, hfound⟩ :=
    scan_cases (fun e => e.2.isEmpty) frontTime 0 none p.countEviction.clock.reading
      (order.sort p.countEviction.pools.entries)
  · right
    rw [hkept]
    refine ⟨rfl, ?_⟩
    intro addr front rest hqueue
    have hmem : (addr, front :: rest) ∈ order.sort p.countEviction.pools.entries :=
      (order.perm _).mem_iff.mpr (KeyedMap.mem_of_find (find_of_queue hqueue))
    exact hall (addr, front :: rest) hmem rfl
  · left
    rw [hfound, Nat.zero_add, hsplit]
    refine ⟨e.1, ?_, by simp⟩
    have hmem : e ∈ p.pools.entries := by
      refine (order.perm _).mem_iff.mp ?_
      exact hsplit ▸ List.mem_append_right pre List.mem_cons_self
    have hqueue : p.queue e.1 = e.2 := queue_of_find (KeyedMap.find_of_mem hmem)
    rw [hqueue]
    simpa using hdue.unskipped

theorem shrinks_countEviction (p : ConnectionPool Addr) : Shrinks p [] p.countEviction :=
  shrinks_of_eq rfl p.clock.before_next rfl rfl rfl

theorem shrinks_evictOldestGlobal (p : ConnectionPool Addr)
    (order : IterationOrder (Addr × List (ConnectionBundle Addr))) :
    Shrinks p [] (p.evictOldestGlobal order) := by
  obtain ⟨addr, -, heq⟩ | ⟨heq, -⟩ := p.evictOldestGlobal_cases order
  · rw [heq]
    exact (shrinks_countEviction p).trans (shrinks_evictFront _ addr)
  · rw [heq]
    exact shrinks_countEviction p

theorem keys_evictOldestGlobal (p : ConnectionPool Addr)
    (order : IterationOrder (Addr × List (ConnectionBundle Addr))) :
    (p.evictOldestGlobal order).pools.keys = p.pools.keys := by
  obtain ⟨addr, -, heq⟩ | ⟨heq, -⟩ := p.evictOldestGlobal_cases order
  · rw [heq]
    exact keys_evictFront p.countEviction addr
  · rw [heq]
    rfl

/-- A front that is older than the present instant makes room for one. -/
theorem evictOldestGlobal_total {addr : Addr} {front : ConnectionBundle Addr}
    {rest : List (ConnectionBundle Addr)}
    (order : IterationOrder (Addr × List (ConnectionBundle Addr))) (hcounted : p.Counted)
    (hqueue : p.queue addr = front :: rest) (hold : front.lastUsed < p.clock.next.reading) :
    (p.evictOldestGlobal order).totalIdleConnections + 1 = p.totalIdleConnections := by
  obtain ⟨a, hne, heq⟩ | ⟨-, hyoung⟩ := p.evictOldestGlobal_cases order
  · rw [heq]
    have hroom : (p.countEviction.evictFront a).totalIdleConnections + 1 =
        p.countEviction.totalIdleConnections :=
      evictFront_total hcounted hne
    exact hroom
  · exact absurd hold (not_lt.mpr (hyoung addr front rest hqueue))

theorem shrinks_makeHostRoom (p : ConnectionPool Addr) (addr : Addr) :
    Shrinks p [] (p.makeHostRoom addr) := by
  rw [makeHostRoom]
  split
  · exact shrinks_evictFront p addr
  · exact shrinks_refl p

theorem keys_makeHostRoom (p : ConnectionPool Addr) (addr : Addr) :
    (p.makeHostRoom addr).pools.keys = p.pools.keys := by
  rw [makeHostRoom]
  split
  · exact keys_evictFront p addr
  · rfl

theorem length_makeHostRoom {addr : Addr}
    (h : (p.queue addr).length ≤ p.config.maxConnectionsPerHost) :
    ((p.makeHostRoom addr).queue addr).length < p.config.maxConnectionsPerHost := by
  have hpos := p.config.perHost_pos
  rw [makeHostRoom]
  split
  · rw [queue_evictFront, List.length_tail]
    omega
  · omega

theorem shrinks_makeTotalRoom (p : ConnectionPool Addr)
    (order : IterationOrder (Addr × List (ConnectionBundle Addr))) :
    Shrinks p [] (p.makeTotalRoom order) := by
  rw [makeTotalRoom]
  split
  · exact shrinks_evictOldestGlobal p order
  · exact shrinks_refl p

theorem keys_makeTotalRoom (p : ConnectionPool Addr)
    (order : IterationOrder (Addr × List (ConnectionBundle Addr))) :
    (p.makeTotalRoom order).pools.keys = p.pools.keys := by
  rw [makeTotalRoom]
  split
  · exact keys_evictOldestGlobal p order
  · rfl

/-! ## The invariant -/

/-- The count is right, and every queue within its limit. -/
structure Sound (p : ConnectionPool Addr) : Prop where
  counted : p.Counted
  perHost : ∀ addr, (p.queue addr).length ≤ p.config.maxConnectionsPerHost

/-- On a steady clock every queue is ordered by last use, and that was in the past. -/
structure Dated (p : ConnectionPool Addr) : Prop where
  steady : p.clock.Steady
  sorted : ∀ addr, (p.queue addr).Pairwise fun b b' => b.lastUsed ≤ b'.lastUsed
  past : ∀ addr, ∀ b ∈ p.queue addr, b.lastUsed ≤ p.clock.reading

theorem Gives.sound (h : Gives p taken p') (hp : p.Sound) : p'.Sound where
  counted := h.counted hp.counted
  perHost addr := by
    rw [h.config]
    exact (h.queues addr).length_le.trans (hp.perHost addr)

theorem Gives.dated (h : Gives p taken p') (hp : p.Dated) : p'.Dated := by
  obtain ⟨hsteady, hle⟩ := h.clock hp.steady
  refine ⟨hsteady, ?_, ?_⟩
  · intro addr
    exact (hp.sorted addr).sublist (h.queues addr)
  · intro addr b hb
    exact (hp.past addr b ((h.queues addr).subset hb)).trans hle

@[simp] theorem config_push (p : ConnectionPool Addr) (b : ConnectionBundle Addr) :
    (p.push b).config = p.config := rfl

@[simp] theorem totalIdleConnections_push (p : ConnectionPool Addr) (b : ConnectionBundle Addr) :
    (p.push b).totalIdleConnections = p.totalIdleConnections + 1 := rfl

theorem queue_push (p : ConnectionPool Addr) (b : ConnectionBundle Addr) (addr : Addr) :
    (p.push b).queue addr = if addr = b.addr then p.queue b.addr ++ [b] else p.queue addr := by
  rw [queue, push, KeyedMap.find_set]
  split
  · rfl
  · rfl

/-- What a connection adds to a sum over the queues. -/
theorem total_push (w : List (ConnectionBundle Addr) → ℕ) (hnil : w [] = 0)
    (p : ConnectionPool Addr) (b : ConnectionBundle Addr) :
    (p.push b).pools.total w + w (p.queue b.addr) =
      p.pools.total w + w (p.queue b.addr ++ [b]) := by
  rw [push]
  cases hfind : p.pools.find b.addr with
  | none =>
    have hqueue : p.queue b.addr = [] := by rw [queue, hfind, Option.getD_none]
    rw [KeyedMap.total_set_new (KeyedMap.find_eq_none_iff.mp hfind), hqueue, hnil]
    rfl
  | some q =>
    rw [queue_of_find hfind]
    exact KeyedMap.total_set hfind _

theorem owned_push (p : ConnectionPool Addr) (b : ConnectionBundle Addr) (i : ℕ) :
    (p.push b).owned i = p.owned i + countTicket i [b] := by
  have hsum := total_push (countTicket i) rfl p b
  have hclosed : (p.push b).closed = p.closed := rfl
  rw [countTicket_append] at hsum
  rw [owned, owned, hclosed]
  omega

theorem Sound.push {b : ConnectionBundle Addr} (h : p.Sound)
    (hroom : (p.queue b.addr).length < p.config.maxConnectionsPerHost) : (p.push b).Sound := by
  refine ⟨?_, ?_⟩
  · have hsum := total_push List.length rfl p b
    have hcounted := h.counted
    rw [Counted] at hcounted
    rw [List.length_append, List.length_singleton] at hsum
    rw [Counted, totalIdleConnections_push]
    omega
  · intro addr
    rw [queue_push]
    split
    · rw [List.length_append, List.length_singleton]
      exact hroom
    · exact h.perHost addr

theorem Dated.push {b : ConnectionBundle Addr} (h : p.Dated) (hnow : b.lastUsed ≤ p.clock.reading)
    (hlast : ∀ b' ∈ p.queue b.addr, b'.lastUsed ≤ b.lastUsed) : (p.push b).Dated := by
  refine ⟨h.steady, ?_, ?_⟩
  · intro addr
    rw [queue_push]
    split
    · rw [List.pairwise_append]
      refine ⟨h.sorted b.addr, List.pairwise_singleton _ _, ?_⟩
      intro b' hb' c hc
      obtain rfl := List.mem_singleton.mp hc
      exact hlast b' hb'
    · exact h.sorted addr
  · intro addr b' hb'
    rw [queue_push] at hb'
    split at hb'
    · rcases List.mem_append.mp hb' with hb' | hb'
      · exact h.past b.addr b' hb'
      · obtain rfl := List.mem_singleton.mp hb'
        exact hnow
    · exact h.past addr b' hb'

section Put

variable (p : ConnectionPool Addr) (halfOpen : ConnectionBundle Addr → Bool)
  (order : IterationOrder (Addr × List (ConnectionBundle Addr))) (b : ConnectionBundle Addr)

/-- Where `put` has made room. -/
def roomFor : ConnectionPool Addr :=
  ((p.tick.track b.addr).makeHostRoom b.addr).makeTotalRoom order

theorem gives_roomFor : Gives p.tick [] (p.roomFor order b) :=
  (gives_track p.tick b.addr).trans
    ((shrinks_makeHostRoom _ b.addr).trans (shrinks_makeTotalRoom _ order)).toGives

/-- **`put`** closes the connection at once, or pools it where it has made room. -/
theorem put_cases :
    (∃ p₁ t, Shrinks p [] p₁ ∧ p.put halfOpen order b = p₁.close { b with lastUsed := t }) ∨
      b.isValid = true ∧ halfOpen b = false ∧
        (b.addr ∈ p.pools.keys ∨ p.pools.size < p.config.maxBackends) ∧
        p.put halfOpen order b =
          (p.roomFor order b).push { b with lastUsed := p.clock.next.reading } := by
  simp only [put]
  split
  · exact .inl ⟨p, b.lastUsed, shrinks_refl p, rfl⟩
  · next hvalid =>
    split
    · exact .inl ⟨_, b.lastUsed, shrinks_countDead p .halfOpen, rfl⟩
    · next hopen =>
      split
      · next hfull =>
        obtain ⟨hnew, -⟩ := hfull
        have hpools : (p.tick.track b.addr).pools.erase b.addr = p.pools := by
          rw [track, if_neg hnew]
          exact KeyedMap.erase_set_of_new hnew []
        obtain ⟨hconfig, hclock, htotal, hclosed⟩ := frame_track p.tick b.addr
        refine .inl ⟨_, p.tick.clock.reading, ?_, rfl⟩
        refine shrinks_of_eq hconfig ?_ hpools htotal hclosed
        exact hclock.symm ▸ p.clock.before_next
      · next hroom =>
        refine .inr ⟨by simpa using hvalid, by simpa using hopen, ?_, rfl⟩
        by_contra hnone
        rw [not_or] at hnone
        obtain ⟨hnew, hsize⟩ := hnone
        refine hroom ⟨hnew, ?_⟩
        have hgrown : (p.tick.track b.addr).pools.size = p.pools.size + 1 :=
          (size_track p.tick b.addr).trans (if_neg hnew)
        have hconfig : p.tick.config = p.config := rfl
        rw [hgrown, hconfig]
        omega

theorem config_put : (p.put halfOpen order b).config = p.config := by
  obtain ⟨p₁, t, hshrinks, heq⟩ | ⟨-, -, -, heq⟩ := p.put_cases halfOpen order b
  · rw [heq]
    exact hshrinks.config
  · rw [heq, config_push]
    exact (p.gives_roomFor order b).config

/-- The pool has one connection more, in a queue or closed. -/
theorem owned_put (i : ℕ) : (p.put halfOpen order b).owned i = p.owned i + countTicket i [b] := by
  obtain ⟨p₁, t, hshrinks, heq⟩ | ⟨-, -, -, heq⟩ := p.put_cases halfOpen order b
  · rw [heq, owned_close, countTicket_touch, hshrinks.owned_eq]
  · have htick : p.tick.owned i = p.owned i := rfl
    rw [heq, owned_push, countTicket_touch, (p.gives_roomFor order b).owned_eq, htick]

theorem Sound.put (h : p.Sound) : (p.put halfOpen order b).Sound := by
  obtain ⟨p₁, t, hshrinks, heq⟩ | ⟨-, -, -, heq⟩ := p.put_cases halfOpen order b
  · rw [heq]
    have hsound := hshrinks.sound h
    exact ⟨hsound.counted, hsound.perHost⟩
  · have hroom := p.gives_roomFor order b
    have htick : p.tick.Sound := (shrinks_tick p).sound h
    have htracked := (gives_track p.tick b.addr).sound htick
    have hhost := length_makeHostRoom (htracked.perHost b.addr)
    have htotal :=
      (shrinks_makeTotalRoom ((p.tick.track b.addr).makeHostRoom b.addr) order).queues b.addr
    rw [heq]
    refine (hroom.sound htick).push ?_
    rw [(gives_track p.tick b.addr).config] at hhost
    rw [hroom.config]
    exact htotal.length_le.trans_lt hhost

/-- The connection was used last of all. -/
theorem Dated.put (h : p.Dated) : (p.put halfOpen order b).Dated := by
  obtain ⟨p₁, t, hshrinks, heq⟩ | ⟨-, -, -, heq⟩ := p.put_cases halfOpen order b
  · rw [heq]
    have hdated := hshrinks.dated h
    exact ⟨hdated.steady, hdated.sorted, hdated.past⟩
  · have hroom := p.gives_roomFor order b
    have htick : p.tick.Dated := (shrinks_tick p).dated h
    obtain ⟨-, hle⟩ := hroom.clock htick.steady
    rw [heq]
    refine (hroom.dated htick).push hle ?_
    intro b' hb'
    exact htick.past b.addr b' ((hroom.queues b.addr).subset hb')

end Put

end ConnectionPool

end Ranvier
