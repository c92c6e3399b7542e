import Ranvier.ConnectionPool
import Ranvier.Run

/-!
# Runs of the connection pool

Calls of the pool in any order, on any clock. Whether a backend has closed its end of a
connection, and in which order the hash map is iterated, is decided anew in every call. A
connection that is returned and given back counts as a new one, under the number of the
`put`.

* `Kept` — the invariant of the pool, and **each connection in one place**;
* `pool_contract` — what it says of every run;
* `withinCaps_of_roomToMake` — the total and the backend cap are kept in the runs that
  never put into a full pool at the instant of its oldest use, nor ask for an untracked
  backend at the cap.
-/

namespace Ranvier

/-- The pool, and what went in and out. -/
structure PoolRun (Addr : Type) : Type where
  pool : ConnectionPool Addr
  /-- calls of `put` so far -/
  puts : ℕ := 0
  /-- what `get` has returned from the pool -/
  returned : List (ConnectionBundle Addr) := []

inductive PoolCall (Addr : Type) : Type where
  | get (addr : Addr) (halfOpen : ConnectionBundle Addr → Bool)
  | getFresh
  | put (bundle : ConnectionBundle Addr) (halfOpen : ConnectionBundle Addr → Bool)
      (order : IterationOrder (Addr × List (ConnectionBundle Addr)))
  | clearPool (addr : Addr)
  | cleanupExpired (halfOpen : ConnectionBundle Addr → Bool) (order : IterationOrder Addr)
  | reapDeadConnections (halfOpen : ConnectionBundle Addr → Bool) (order : IterationOrder Addr)
  | stop

/-- All that is pooled. -/
def ConnectionPool.pooled {Addr : Type} (p : ConnectionPool Addr) : List (ConnectionBundle Addr) :=
  p.pools.entries.flatMap Prod.snd

namespace PoolRun

variable {Addr : Type}

def start (config : ConnectionPoolConfig) (clock : PoolClock) : PoolRun Addr where
  pool := { config, clock }

variable [DecidableEq Addr]

def step (s : PoolRun Addr) : PoolCall Addr → Option (PoolRun Addr)
  | .get addr halfOpen =>
    let r := s.pool.get halfOpen addr
    some { s with pool := r.2, returned := s.returned ++ r.1.toList }
  | .getFresh => some { s with pool := s.pool.getFresh }
  | .put bundle halfOpen order =>
    some
      { s with
        pool := s.pool.put halfOpen order { bundle with ticket := s.puts }
        puts := s.puts + 1 }
  | .clearPool addr => some { s with pool := s.pool.clearPool addr }
  | .cleanupExpired halfOpen order =>
    some { s with pool := s.pool.cleanupExpired halfOpen order }
  | .reapDeadConnections halfOpen order =>
    some { s with pool := s.pool.reapDeadConnections halfOpen order }
  | .stop => some { s with pool := s.pool.stop }

/-- What a call can do. -/
inductive StepSpec (s : PoolRun Addr) (call : PoolCall Addr) : PoolRun Addr → Prop where
  /-- a backend is tracked and one of its connections returned, if there is a live one -/
  | got {addr : Addr} {halfOpen : ConnectionBundle Addr → Bool} {p : ConnectionPool Addr}
      {taken : List (ConnectionBundle Addr)} (hcall : call = .get addr halfOpen)
      (hgives : s.pool.Gives taken p) (hshrinks : (s.pool.track addr).Shrinks taken p) :
      StepSpec s call { s with pool := p, returned := s.returned ++ taken }
  | given {bundle : ConnectionBundle Addr} {halfOpen : ConnectionBundle Addr → Bool}
      {order : IterationOrder (Addr × List (ConnectionBundle Addr))}
      (hcall : call = .put bundle halfOpen order) :
      StepSpec s call
        { s with
          pool := s.pool.put halfOpen order { bundle with ticket := s.puts }
          puts := s.puts + 1 }
  /-- connections are closed and backends forgotten -/
  | shrank {p : ConnectionPool Addr} (hshrinks : s.pool.Shrinks [] p) :
      StepSpec s call { s with pool := p }

theorem step_spec {s s' : PoolRun Addr} {call : PoolCall Addr} (h : s.step call = some s') :
    s.StepSpec call s' := by
  cases call with
  | get addr halfOpen =>
    obtain rfl := Option.some.inj h
    obtain ⟨hgives, hshrinks⟩ := ConnectionPool.get_spec halfOpen s.pool addr
    exact .got rfl hgives hshrinks
  | getFresh =>
    obtain rfl := Option.some.inj h
    exact .shrank s.pool.shrinks_getFresh
  | put bundle halfOpen order =>
    obtain rfl := Option.some.inj h
    exact .given rfl
  | clearPool addr =>
    obtain rfl := Option.some.inj h
    exact .shrank (s.pool.shrinks_clearPool addr)
  | cleanupExpired halfOpen order =>
    obtain rfl := Option.some.inj h
    exact .shrank (s.pool.shrinks_cleanupExpired halfOpen order)
  | reapDeadConnections halfOpen order =>
    obtain rfl := Option.some.inj h
    exact .shrank (s.pool.shrinks_reapDeadConnections halfOpen order)
  | stop =>
    obtain rfl := Option.some.inj h
    exact .shrank s.pool.shrinks_stop

/-! ## Each connection in one place -/

/-- The pool is sound, and a connection is where its `put` has brought it: returned, pooled or
closed, once. -/
structure Kept (config : ConnectionPoolConfig) (s : PoolRun Addr) : Prop where
  config : s.pool.config = config
  sound : s.pool.Sound
  once : ∀ i, ConnectionPool.countTicket i s.returned + s.pool.owned i =
    if i < s.puts then 1 else 0

theorem kept_start (config : ConnectionPoolConfig) (clock : PoolClock) :
    Kept config (start config clock : PoolRun Addr) where
  config := rfl
  sound := ⟨rfl, fun _ => Nat.zero_le _⟩
  once _ := rfl

variable {config : ConnectionPoolConfig} {s s' : PoolRun Addr} {call : PoolCall Addr}

/-- A call that gives to nobody but the one who asked for it. -/
theorem Kept.give {p : ConnectionPool Addr} {taken : List (ConnectionBundle Addr)}
    (h : Kept config s) (hgives : s.pool.Gives taken p) :
    Kept config { s with pool := p, returned := s.returned ++ taken } where
  config := hgives.config.trans h.config
  sound := hgives.sound h.sound
  once i := by
    have howned := hgives.owned i
    have honce := h.once i
    rw [ConnectionPool.countTicket_append]
    dsimp only
    omega

theorem Kept.close {p : ConnectionPool Addr} (h : Kept config s) (hgives : s.pool.Gives [] p) :
    Kept config { s with pool := p } := by
  have hgiven := h.give hgives
  rwa [List.append_nil] at hgiven

/-- A new connection. -/
theorem Kept.put (h : Kept config s) (bundle : ConnectionBundle Addr)
    (halfOpen : ConnectionBundle Addr → Bool)
    (order : IterationOrder (Addr × List (ConnectionBundle Addr))) :
    Kept config
      { s with
        pool := s.pool.put halfOpen order { bundle with ticket := s.puts }
        puts := s.puts + 1 } := by
  refine ⟨(ConnectionPool.config_put ..).trans h.config, h.sound.put .., ?_⟩
  intro i
  have honce := h.once i
  have hcount : ConnectionPool.countTicket i [{ bundle with ticket := s.puts }] =
      if s.puts = i then 1 else 0 := by
    simp [ConnectionPool.countTicket, List.countP_cons]
  have hnumber : (if i < s.puts then 1 else 0) + (if s.puts = i then 1 else 0) =
      if i < s.puts + 1 then 1 else 0 := by
    split <;> split <;> split <;> omega
  rw [ConnectionPool.owned_put, hcount, ← Nat.add_assoc, honce]
  exact hnumber

theorem Kept.step (h : Kept config s) (hstep : s.step call = some s') : Kept config s' := by
  cases step_spec hstep with
  | got _ hgives _ => exact h.give hgives
  | given => exact h.put ..
  | shrank hshrinks => exact h.close hshrinks.toGives

theorem dated_step (h : s.pool.Dated) (hstep : s.step call = some s') : s'.pool.Dated := by
  cases step_spec hstep with
  | got _ hgives _ => exact hgives.dated h
  | given => exact h.put ..
  | shrank hshrinks => exact hshrinks.dated h

theorem kept_of_exec {clock : PoolClock} {calls : List (PoolCall Addr)}
    (h : exec PoolRun.step (start config clock) calls = some s) : Kept config s := by
  refine exec_induction (I := fun _ s => Kept config s) ?_ (h := []) h (kept_start config clock)
  intro h s a s' hstep hinv
  exact hinv.step hstep

theorem dated_of_exec {clock : PoolClock} (hsteady : clock.Steady) {calls : List (PoolCall Addr)}
    (h : exec PoolRun.step (start config clock) calls = some s) : s.pool.Dated := by
  refine exec_induction (I := fun _ s => s.pool.Dated) ?_ (h := []) h
    ⟨hsteady, fun _ => List.Pairwise.nil, fun _ _ hb => absurd hb List.not_mem_nil⟩
  intro h s a s' hstep hinv
  exact dated_step hinv hstep

omit [DecidableEq Addr] in
theorem countTicket_pooled (p : ConnectionPool Addr) (i : ℕ) :
    ConnectionPool.countTicket i p.pooled = p.pools.total (ConnectionPool.countTicket i) := by
  rw [ConnectionPool.pooled, KeyedMap.total]
  induction p.pools.entries with
  | nil => rfl
  | cons e entries ih =>
    obtain ⟨addr, q⟩ := e
    rw [List.flatMap_cons, ConnectionPool.countTicket_append, ih, weightOf]

/-- **The contract.** In every run the idle count is the sum over the queues, no queue holds
more than its backend may have and each is ordered by last use; and of the connections given
to `put` each is in one place: returned by one `get`, pooled, or closed once. The clock is
steady, as the one the pool is built with. -/
theorem pool_contract (config : ConnectionPoolConfig) {clock : PoolClock}
    (hsteady : clock.Steady) {calls : List (PoolCall Addr)} {s : PoolRun Addr}
    (h : exec PoolRun.step (start config clock) calls = some s) :
    s.pool.totalIdleConnections = s.pool.pools.total List.length ∧
      (∀ addr q, s.pool.pools.find addr = some q → q.length ≤ config.maxConnectionsPerHost) ∧
      ((s.returned ++ s.pool.pooled ++ s.pool.closed).map ConnectionBundle.ticket).Perm
        (List.range s.puts) ∧
      ∀ addr q, s.pool.pools.find addr = some q →
        q.Pairwise fun b b' => b.lastUsed ≤ b'.lastUsed := by
  have hinv := kept_of_exec h
  refine ⟨hinv.sound.counted, ?_, ?_, ?_⟩
  · intro addr q hfind
    have hhost := hinv.sound.perHost addr
    rwa [ConnectionPool.queue_of_find hfind, hinv.config] at hhost
  · rw [List.perm_iff_count]
    intro i
    have hcount : ∀ q : List (ConnectionBundle Addr),
        (q.map ConnectionBundle.ticket).count i = ConnectionPool.countTicket i q := by
      intro q
      rw [List.count, List.countP_map]
      rfl
    have honce := hinv.once i
    rw [ConnectionPool.owned, ← countTicket_pooled, ← Nat.add_assoc] at honce
    rw [hcount, ConnectionPool.countTicket_append, ConnectionPool.countTicket_append, honce,
      List.nodup_range.count]
    simp
  · intro addr q hfind
    have hsorted := (dated_of_exec hsteady h).sorted addr
    rwa [ConnectionPool.queue_of_find hfind] at hsorted

/-- The entries in the order in which they are stored. -/
def asStored (γ : Type) : IterationOrder γ := ⟨id, List.Perm.refl⟩

/-- Room for one connection. -/
def oneConnection : ConnectionPoolConfig where
  maxTotalConnections := 1

/-- Two backends, and a connection to the second is asked for. -/
def twoBackends : List (PoolCall ℕ) :=
  [.put ⟨0, 1, true, 0, 0⟩ (fun _ => false) (asStored _),
    .put ⟨0, 2, true, 0, 0⟩ (fun _ => false) (asStored _),
    .get 2 fun _ => false]

theorem pool_contract_twoBackends :
    ∃ s, exec PoolRun.step (start oneConnection ⟨0, [1, 2, 3, 4, 5, 6]⟩) twoBackends = some s ∧
      s.pool.closed.map ConnectionBundle.ticket = [0] ∧
      ((s.returned ++ s.pool.pooled ++ s.pool.closed).map ConnectionBundle.ticket).Perm
        (List.range 2) := by
  have hrun :
      exec PoolRun.step (start oneConnection ⟨0, [1, 2, 3, 4, 5, 6]⟩) twoBackends = some _ :=
    exec_eq_some_getD (by decide)
  have hsteady : (⟨0, [1, 2, 3, 4, 5, 6]⟩ : PoolClock).Steady := by simp [PoolClock.Steady]
  exact ⟨_, hrun, by decide, (pool_contract _ hsteady hrun).2.2.1⟩

/-! ## The caps -/

/-- What a call needs for the caps. `get` tracks the backend without looking at the cap; `put`
into a full pool needs a connection whose last use lies before the instant of the eviction. -/
def RoomToMake (s : PoolRun Addr) : PoolCall Addr → Prop
  | .get addr _ => addr ∈ s.pool.pools.keys ∨ s.pool.pools.size < s.pool.config.maxBackends
  | .put b halfOpen _ =>
    b.isValid = true → halfOpen { b with ticket := s.puts } = false →
      (b.addr ∈ s.pool.pools.keys ∨ s.pool.pools.size < s.pool.config.maxBackends) →
      (s.pool.queue b.addr).length < s.pool.config.maxConnectionsPerHost →
      s.pool.config.maxTotalConnections ≤ s.pool.totalIdleConnections →
      ∃ addr front rest, s.pool.queue addr = front :: rest ∧
        front.lastUsed < s.pool.clock.next.next.reading
  | _ => True

end PoolRun

namespace ConnectionPool

variable {Addr : Type} [DecidableEq Addr] {p p' : ConnectionPool Addr}
  {taken : List (ConnectionBundle Addr)}

/-- The caps, with the idle count for the connections. -/
def Capped (p : ConnectionPool Addr) : Prop :=
  p.totalIdleConnections ≤ p.config.maxTotalConnections ∧ p.pools.size ≤ p.config.maxBackends

theorem Shrinks.capped (h : Shrinks p taken p') (hp : p.Capped) : p'.Capped := by
  rw [Capped, h.config]
  exact ⟨h.total.trans hp.1, h.size.trans hp.2⟩

theorem track_capped {addr : Addr} (h : p.Capped)
    (hroom : addr ∈ p.pools.keys ∨ p.pools.size < p.config.maxBackends) :
    (p.track addr).Capped := by
  have htracked := gives_track p addr
  rw [Capped, htracked.config, size_track]
  refine ⟨htracked.total.trans h.1, ?_⟩
  split
  · exact h.2
  · next hnew => exact hroom.resolve_left hnew

/-- Room for one more connection of a tracked backend. -/
theorem makeTotalRoom_lt (addr : Addr)
    (order : IterationOrder (Addr × List (ConnectionBundle Addr))) (hp : p.Capped)
    (hsound : p.Sound)
    (hroom : (p.queue addr).length < p.config.maxConnectionsPerHost →
      p.config.maxTotalConnections ≤ p.totalIdleConnections →
      ∃ addr front rest, p.queue addr = front :: rest ∧ front.lastUsed < p.clock.next.reading) :
    ((p.makeHostRoom addr).makeTotalRoom order).totalIdleConnections <
      p.config.maxTotalConnections := by
  have hle := hp.1
  by_cases hfull : p.config.maxConnectionsPerHost ≤ (p.queue addr).length
  · have hne : p.queue addr ≠ [] := by
      intro hempty
      rw [hempty, List.length_nil] at hfull
      exact absurd p.config.perHost_pos (not_lt.mpr hfull)
    have hevicted := evictFront_total hsound.counted hne
    have hless := (shrinks_makeTotalRoom (p.makeHostRoom addr) order).total
    rw [makeHostRoom, if_pos hfull] at hless ⊢
    omega
  · rw [makeHostRoom, if_neg hfull, makeTotalRoom]
    split
    · next htotal =>
      obtain ⟨a, front, rest, hqueue, hold⟩ := hroom (not_le.mp hfull) htotal
      have hevicted := evictOldestGlobal_total order hsound.counted hqueue hold
      omega
    · omega

/-- Room for one more connection of a backend that is tracked or may be. -/
theorem roomFor_lt {b : ConnectionBundle Addr}
    (order : IterationOrder (Addr × List (ConnectionBundle Addr))) (hp : p.Capped)
    (hsound : p.Sound) (hbackend : b.addr ∈ p.pools.keys ∨ p.pools.size < p.config.maxBackends)
    (hroom : (p.queue b.addr).length < p.config.maxConnectionsPerHost →
      p.config.maxTotalConnections ≤ p.totalIdleConnections →
      ∃ addr front rest, p.queue addr = front :: rest ∧
        front.lastUsed < p.clock.next.next.reading) :
    (p.roomFor order b).Capped ∧
      (p.roomFor order b).totalIdleConnections < p.config.maxTotalConnections := by
  have hcapped : (p.tick.track b.addr).Capped := track_capped ((shrinks_tick p).capped hp) hbackend
  have hsoundTracked : (p.tick.track b.addr).Sound :=
    (gives_track p.tick b.addr).sound ((shrinks_tick p).sound hsound)
  obtain ⟨hconfig, hclock, htotal, -⟩ := frame_track p.tick b.addr
  have hshrinks := (shrinks_makeHostRoom (p.tick.track b.addr) b.addr).trans
    (shrinks_makeTotalRoom _ order)
  have hkept : p.config = (p.tick.track b.addr).config := hconfig.symm
  refine ⟨hshrinks.capped hcapped, ?_⟩
  rw [roomFor, hkept]
  refine makeTotalRoom_lt b.addr order hcapped hsoundTracked ?_
  rw [queue_track, hconfig, hclock, htotal]
  intro hhost hfull
  obtain ⟨addr, front, rest, hqueue, hold⟩ := hroom hhost hfull
  exact ⟨addr, front, rest, (queue_track p.tick b.addr addr).trans hqueue, hold⟩

theorem mem_keys_roomFor (order : IterationOrder (Addr × List (ConnectionBundle Addr)))
    (b : ConnectionBundle Addr) : b.addr ∈ (p.roomFor order b).pools.keys := by
  rw [roomFor, keys_makeTotalRoom, keys_makeHostRoom]
  exact KeyedMap.mem_keys_of_find (find_track p.tick b.addr)

theorem size_push {b : ConnectionBundle Addr} (h : b.addr ∈ p.pools.keys) :
    (p.push b).pools.size = p.pools.size :=
  (KeyedMap.size_set ..).trans (if_pos h)

theorem Capped.put {halfOpen : ConnectionBundle Addr → Bool} {b : ConnectionBundle Addr}
    (order : IterationOrder (Addr × List (ConnectionBundle Addr))) (hp : p.Capped)
    (hsound : p.Sound)
    (hroom : b.isValid = true → halfOpen b = false →
      (b.addr ∈ p.pools.keys ∨ p.pools.size < p.config.maxBackends) →
      (p.queue b.addr).length < p.config.maxConnectionsPerHost →
      p.config.maxTotalConnections ≤ p.totalIdleConnections →
      ∃ addr front rest, p.queue addr = front :: rest ∧
        front.lastUsed < p.clock.next.next.reading) :
    (p.put halfOpen order b).Capped := by
  obtain ⟨p₁, t, hshrinks, heq⟩ | ⟨hvalid, hopen, hbackend, heq⟩ := p.put_cases halfOpen order b
  · rw [heq]
    exact hshrinks.capped hp
  · obtain ⟨hcapped, hlt⟩ := roomFor_lt order hp hsound hbackend (hroom hvalid hopen hbackend)
    have hconfig : (p.roomFor order b).config = p.config := (p.gives_roomFor order b).config
    rw [heq, Capped, config_push, totalIdleConnections_push, size_push]
    · refine ⟨?_, hcapped.2⟩
      rw [hconfig]
      exact hlt
    · exact mem_keys_roomFor order b

end ConnectionPool

namespace PoolRun

variable {Addr : Type} [DecidableEq Addr] {config : ConnectionPoolConfig} {s s' : PoolRun Addr}
  {call : PoolCall Addr}

theorem capped_step (hinv : Kept config s) (h : s.pool.Capped) (hok : s.RoomToMake call)
    (hstep : s.step call = some s') : s'.pool.Capped := by
  cases step_spec hstep with
  | got hcall _ hshrinks =>
    subst hcall
    exact hshrinks.capped (ConnectionPool.track_capped h hok)
  | given hcall =>
    subst hcall
    exact h.put _ hinv.sound hok
  | shrank hshrinks => exact hshrinks.capped h

/-- **The caps** are kept in every run in which each call finds room to make. -/
theorem withinCaps_of_roomToMake (config : ConnectionPoolConfig) (clock : PoolClock)
    {calls : List (PoolCall Addr)} {s : PoolRun Addr}
    (hmeets : Meets PoolRun.step RoomToMake (start config clock) calls)
    (h : exec PoolRun.step (start config clock) calls = some s) :
    s.pool.pools.total List.length ≤ config.maxTotalConnections ∧
      s.pool.pools.size ≤ config.maxBackends := by
  have hinv : Kept config s ∧ s.pool.Capped := by
    refine exec_invariant (I := fun _ s => Kept config s ∧ s.pool.Capped) ?_ (h := []) hmeets h
      ⟨kept_start config clock, Nat.zero_le _, Nat.zero_le _⟩
    intro h s call s' hok hstep hinv
    obtain ⟨hkept, hcapped⟩ := hinv
    exact ⟨hkept.step hstep, capped_step hkept hcapped hok hstep⟩
  obtain ⟨hkept, htotal, hsize⟩ := hinv
  have hcounted : s.pool.totalIdleConnections = s.pool.pools.total List.length :=
    hkept.sound.counted
  rw [hkept.config] at htotal hsize
  exact ⟨hcounted ▸ htotal, hsize⟩

theorem withinCaps_of_roomToMake_twoBackends :
    ∃ s, Meets PoolRun.step RoomToMake (start oneConnection ⟨0, [1, 2, 3]⟩) twoBackends ∧
      exec PoolRun.step (start oneConnection ⟨0, [1, 2, 3]⟩) twoBackends = some s ∧
      s.pool.pools.total List.length ≤ 1 := by
  have hmeets : Meets PoolRun.step RoomToMake (start oneConnection ⟨0, [1, 2, 3]⟩) twoBackends := by
    refine ⟨?_, ?_, ?_, trivial⟩
    · intro _ _ _ _ hfull
      exact absurd hfull (by decide)
    · intro _ _ _ _ _
      exact ⟨1, _, [], rfl, by decide⟩
    · exact .inl (by decide)
  have hrun : exec PoolRun.step (start oneConnection ⟨0, [1, 2, 3]⟩) twoBackends = some _ :=
    exec_eq_some_getD (by decide)
  exact ⟨_, hmeets, hrun, (withinCaps_of_roomToMake _ _ hmeets hrun).1⟩

/-- One backend. -/
def oneBackend : ConnectionPoolConfig where
  maxBackends := 1

/-- On a clock that stands still the second connection finds none that is older; and `get`
tracks a second backend. -/
theorem caps_exceeded :
    (¬ ∀ s, exec PoolRun.step (start oneConnection ⟨0, []⟩) (twoBackends.take 2) = some s →
      s.pool.pools.total List.length ≤ 1) ∧
    ¬ ∀ s : PoolRun ℕ,
      exec PoolRun.step (start oneBackend ⟨0, []⟩)
        [.get 1 (fun _ => false), .get 2 fun _ => false] = some s → s.pool.pools.size ≤ 1 := by
  constructor
  · intro h
    have hcap := h _ (exec_eq_some_getD (by decide))
    revert hcap
    decide
  · intro h
    have hcap := h _ (exec_eq_some_getD (by decide))
    revert hcap
    decide

end PoolRun

end Ranvier
