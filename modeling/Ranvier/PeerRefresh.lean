import Ranvier.Consensus
import Ranvier.Run

/-!
# The peer table while discovery replaces it

`update_peer_list` copies the entries that stay into a new table, then prunes the peers
that go, and suspends after every `kYieldInterval` of them. In between datagrams and the
liveness timer go on working on the old table, and the new one replaces it at the end.

* `pruneLoop_cases` — the loop suspends with the table as it was, or replaces it;
* `Agrees` — what was copied is still what the table has, for the peers that stay;
* `find_step` — a step gives an entry that stays what its call does to it.
-/

namespace Ranvier

namespace GossipConsensus

variable (c : GossipConsensus)

/-- The pruning of one removed peer. -/
def prunePeer (peer : SocketAddress) : GossipConsensus :=
  { c with prunes := c.prunes ++ c.prunesOf (c.peerTable.find peer).toList }

@[simp] theorem prunePeer_config (peer : SocketAddress) : (c.prunePeer peer).config = c.config :=
  rfl

@[simp] theorem prunePeer_peerTable (peer : SocketAddress) :
    (c.prunePeer peer).peerTable = c.peerTable := rfl

variable {c}

/-- Only the timeout decides who is marked dead. -/
theorem markDead_of_config {d : GossipConsensus} (h : c.config = d.config) :
    c.markDead = d.markDead := by
  funext now state
  rw [markDead, markDead, timedOut, timedOut, h]

end GossipConsensus

/-- `update_peer_list` while it is suspended. -/
structure PeerListUpdate : Type where
  newPeerTable : PeerTable
  newlyAdded : List SocketAddress
  /-- the peers of `_peer_table` that the loop has yet to visit -/
  rest : List SocketAddress
  pruned : ℕ

/-- The consensus module and the update under way, if any. -/
structure PeerRefresh : Type where
  consensus : GossipConsensus
  update : Option PeerListUpdate := none
  /-- what the finished updates returned -/
  returned : List (List SocketAddress) := []

/-- What runs on the peer table. The order of a `start` is the one in which the loop meets
the entries of the table. -/
inductive RefreshAction : Type where
  | seen (peer : SocketAddress) (now : ℕ)
  | associate (peer : SocketAddress) (id : BackendId)
  | liveness (now : ℕ)
  | start (now : ℕ) (newPeers order : List SocketAddress)
  | resume

namespace RefreshAction

/-- The action begins an update. -/
def isStart : RefreshAction → Bool
  | .start _ _ _ => true
  | _ => false

/-- The action is a call, not a part of an update. -/
def isCall : RefreshAction → Bool
  | .seen _ _ | .associate _ _ | .liveness _ => true
  | .start _ _ _ | .resume => false

/-- What a call does to the entry of a peer; an update should do nothing to it. -/
def effect (c : GossipConsensus) (peer : SocketAddress) : RefreshAction → PeerState → PeerState
  | .seen p now, state =>
    if peer = p then { state with lastSeen := now, isAlive := true } else state
  | .associate p id, state =>
    if peer = p then { state with associatedBackend := some id } else state
  | .liveness now, state => c.markDead now state
  | .start _ _ _, state | .resume, state => state

/-- The calls of a run, one after the other. -/
def effects (c : GossipConsensus) (peer : SocketAddress) (as : List RefreshAction)
    (state : PeerState) : PeerState :=
  as.foldl (fun state a => a.effect c peer state) state

theorem effect_of_config {c d : GossipConsensus} (h : c.config = d.config) (peer : SocketAddress)
    (a : RefreshAction) : a.effect c peer = a.effect d peer := by
  funext state
  cases a with
  | liveness now => rw [effect, effect, GossipConsensus.markDead_of_config h]
  | seen p now => rfl
  | associate p id => rfl
  | start now newPeers order => rfl
  | resume => rfl

end RefreshAction

namespace PeerRefresh

open GossipConsensus RefreshAction

/-- The loop over the removed peers, up to the next suspension or through the replacement
of the table. -/
def pruneLoop (table : PeerTable) (added : List SocketAddress) :
    GossipConsensus → ℕ → List SocketAddress → GossipConsensus × Option PeerListUpdate
  | c, _, [] => (c.replacePeerTable table, none)
  | c, pruned, peer :: rest =>
    if peer ∈ table.keys then pruneLoop table added c pruned rest
    else if (pruned + 1) % yieldInterval = 0 then
      (c.prunePeer peer,
        some { newPeerTable := table, newlyAdded := added, rest, pruned := pruned + 1 })
    else pruneLoop table added (c.prunePeer peer) (pruned + 1) rest

variable (s : PeerRefresh)

/-- The state behind a part of the loop. -/
def continueWith (added : List SocketAddress) (out : GossipConsensus × Option PeerListUpdate) :
    PeerRefresh where
  consensus := out.1
  update := out.2
  returned := if out.2.isNone then s.returned ++ [added] else s.returned

/-- One call, or one part of `update_peer_list`. -/
def step : RefreshAction → Option PeerRefresh
  | .seen peer now => some { s with consensus := s.consensus.updatePeerSeen peer now }
  | .associate peer id => some { s with consensus := s.consensus.associateBackend peer id }
  | .liveness now => some { s with consensus := s.consensus.checkLiveness now }
  | .start now newPeers order =>
    match s.update with
    | none =>
      if order.isPerm s.consensus.peerTable.keys then
        let built := (admitPeers s.consensus.peerTable now ({}, []) newPeers).1
        some (s.continueWith built.2
          (pruneLoop built.1 built.2 (s.consensus.countOverflow now newPeers) 0 order))
      else none
    | some _ => none
  | .resume =>
    match s.update with
    | some u =>
      some (s.continueWith u.newlyAdded
        (pruneLoop u.newPeerTable u.newlyAdded s.consensus u.pruned u.rest))
    | none => none

/-- The entry of a peer. -/
def entry (peer : SocketAddress) : Option PeerState := s.consensus.peerTable.find peer

variable {s}

/-! ## The parts of an update -/

/-- The loop suspends with the table as it was, or replaces it. -/
theorem pruneLoop_cases (table : PeerTable) (added : List SocketAddress) (c : GossipConsensus)
    (pruned : ℕ) (rest : List SocketAddress) :
    (pruneLoop table added c pruned rest).1.config = c.config ∧
      ((∃ u, (pruneLoop table added c pruned rest).2 = some u ∧ u.newPeerTable = table ∧
          (pruneLoop table added c pruned rest).1.peerTable = c.peerTable) ∨
        (pruneLoop table added c pruned rest).2 = none ∧
          (pruneLoop table added c pruned rest).1.peerTable = table) := by
  induction rest generalizing c pruned with
  | nil => exact ⟨rfl, .inr ⟨rfl, rfl⟩⟩
  | cons peer rest ih =>
    rw [pruneLoop]
    split
    · exact ih c pruned
    · split
      · exact ⟨rfl, .inl ⟨_, rfl, rfl, rfl⟩⟩
      · exact ih (c.prunePeer peer) (pruned + 1)

/-- Each suspension leaves fewer peers to visit. -/
theorem length_rest_lt {table : PeerTable} {added : List SocketAddress} {c : GossipConsensus}
    {pruned : ℕ} {rest : List SocketAddress} {u : PeerListUpdate}
    (h : (pruneLoop table added c pruned rest).2 = some u) : u.rest.length < rest.length := by
  induction rest generalizing c pruned with
  | nil => cases h
  | cons peer rest ih =>
    rw [pruneLoop] at h
    rw [List.length_cons]
    split at h
    · exact (ih h).trans (Nat.lt_succ_self _)
    · split at h
      · obtain rfl := Option.some.inj h
        exact Nat.lt_succ_self _
      · exact (ih h).trans (Nat.lt_succ_self _)

/-- What an update copied is what the table has, for the peers that stay. -/
def Agrees (table table' : PeerTable) : Prop :=
  ∀ peer state, table.find peer = some state → peer ∈ table'.keys →
    table'.find peer = some state

/-- The update under way has copied what the table still has. -/
def Fresh (s : PeerRefresh) : Prop :=
  ∀ u ∈ s.update, Agrees s.consensus.peerTable u.newPeerTable

/-- While an update is suspended the call changes no entry that stays: the datagram is from
a peer that is alive and was seen at that very time, the backend is the one it already has,
and no peer that stays has timed out. -/
def Quiet (s : PeerRefresh) (a : RefreshAction) : Prop :=
  ∀ u ∈ s.update,
    match a with
    | .seen peer now =>
      peer ∈ u.newPeerTable.keys → ∀ state ∈ s.entry peer, state.lastSeen = now ∧ state.isAlive
    | .associate peer id =>
      peer ∈ u.newPeerTable.keys → ∀ state ∈ s.entry peer, state.associatedBackend = some id
    | .liveness now =>
      ∀ peer ∈ u.newPeerTable.keys, ∀ state ∈ s.entry peer,
        s.consensus.timedOut now state = false
    | .start _ _ _ | .resume => True

instance (s : PeerRefresh) (a : RefreshAction) : Decidable (s.Quiet a) :=
  match a with
  | .seen peer now =>
    inferInstanceAs (Decidable (∀ u ∈ s.update, peer ∈ u.newPeerTable.keys →
      ∀ state ∈ s.entry peer, state.lastSeen = now ∧ state.isAlive))
  | .associate peer id =>
    inferInstanceAs (Decidable (∀ u ∈ s.update, peer ∈ u.newPeerTable.keys →
      ∀ state ∈ s.entry peer, state.associatedBackend = some id))
  | .liveness now =>
    inferInstanceAs (Decidable (∀ u ∈ s.update, ∀ peer ∈ u.newPeerTable.keys,
      ∀ state ∈ s.entry peer, s.consensus.timedOut now state = false))
  | .start _ _ _ => .isTrue fun _ _ => trivial
  | .resume => .isTrue fun _ _ => trivial

theorem agrees_refl (table : PeerTable) : Agrees table table := fun _ _ h _ => h

theorem agrees_newPeerTable (c : GossipConsensus) (now : ℕ) (newPeers : List SocketAddress) :
    Agrees c.peerTable (c.newPeerTable now newPeers) := by
  intro peer state hfind hmem
  obtain ⟨state', hstate'⟩ := Option.isSome_iff_exists.mp (KeyedMap.find_isSome_iff.mpr hmem)
  rw [hstate', c.find_newPeerTable_some hstate', hfind, Option.getD_some]

/-- A part of the loop leaves the entries that stay as they are, when the copy agrees with
the table. -/
theorem agrees_pruneLoop {table : PeerTable} {added : List SocketAddress} {c : GossipConsensus}
    {pruned : ℕ} {rest : List SocketAddress} (h : Agrees c.peerTable table) :
    Agrees c.peerTable (pruneLoop table added c pruned rest).1.peerTable := by
  obtain ⟨-, ⟨u, -, -, htable⟩ | ⟨-, htable⟩⟩ :=
    pruneLoop_cases table added c pruned rest
  · rw [htable]
    exact agrees_refl _
  · rw [htable]
    exact h

theorem fresh_pruneLoop {table : PeerTable} {added added' : List SocketAddress}
    {c : GossipConsensus} {pruned : ℕ} {rest : List SocketAddress} (h : Agrees c.peerTable table) :
    (s.continueWith added' (pruneLoop table added c pruned rest)).Fresh := by
  intro u hu
  obtain ⟨-, ⟨v, hv, hnew, htable⟩ | ⟨hnone, -⟩⟩ :=
    pruneLoop_cases table added c pruned rest
  · obtain rfl : v = u := Option.some.inj (hv.symm.trans hu)
    rw [hnew]
    show Agrees (pruneLoop table added c pruned rest).1.peerTable table
    rw [htable]
    exact h
  · rw [show (s.continueWith added' (pruneLoop table added c pruned rest)).update = none from
      hnone] at hu
    cases hu

/-- A suspended update has not touched the peers of the table. -/
theorem mem_keys_of_suspended {table : PeerTable} {added added' : List SocketAddress}
    {c : GossipConsensus} {pruned : ℕ} {rest : List SocketAddress} {peer : SocketAddress}
    (h : (s.continueWith added' (pruneLoop table added c pruned rest)).update.isSome)
    (hmem : peer ∈ c.peerTable.keys) :
    peer ∈ (s.continueWith added' (pruneLoop table added c pruned rest)).consensus.peerTable.keys := by
  show peer ∈ (pruneLoop table added c pruned rest).1.peerTable.keys
  obtain ⟨-, ⟨u, -, -, htable⟩ | ⟨hnone, -⟩⟩ :=
    pruneLoop_cases table added c pruned rest
  · rw [htable]
    exact hmem
  · rw [show (s.continueWith added' (pruneLoop table added c pruned rest)).update = none from
      hnone] at h
    cases h

/-! ## One step -/

/-- The step that begins an update. -/
theorem step_start {now : ℕ} {newPeers order : List SocketAddress} {s' : PeerRefresh}
    (h : s.step (.start now newPeers order) = some s') :
    s.update = none ∧ ∃ added, s' = s.continueWith added
      (pruneLoop (s.consensus.newPeerTable now newPeers) added
        (s.consensus.countOverflow now newPeers) 0 order) := by
  rw [step] at h
  split at h
  · next hnone =>
    split at h
    · exact ⟨hnone, _, (Option.some.inj h).symm⟩
    · cases h
  · cases h

/-- The step that goes on with one. -/
theorem step_resume {s' : PeerRefresh} (h : s.step .resume = some s') :
    ∃ u, s.update = some u ∧ s' = s.continueWith u.newlyAdded
      (pruneLoop u.newPeerTable u.newlyAdded s.consensus u.pruned u.rest) := by
  rw [step] at h
  split at h
  · next u hu => exact ⟨u, hu, (Option.some.inj h).symm⟩
  · cases h

theorem step_config {a : RefreshAction} {s' : PeerRefresh} (h : s.step a = some s') :
    s'.consensus.config = s.consensus.config := by
  cases a with
  | seen peer now =>
    obtain rfl := Option.some.inj h
    rfl
  | associate peer id =>
    obtain rfl := Option.some.inj h
    rfl
  | liveness now =>
    obtain rfl := Option.some.inj h
    exact checkLiveness_config now
  | start now newPeers order =>
    obtain ⟨-, added, rfl⟩ := step_start h
    exact (pruneLoop_cases ..).1.trans (countOverflow_config now newPeers)
  | resume =>
    obtain ⟨u, -, rfl⟩ := step_resume h
    exact (pruneLoop_cases ..).1

/-- A call keeps the peers of the table and the update under way. -/
theorem step_call {a : RefreshAction} {s' : PeerRefresh} (hcall : a.isCall)
    (h : s.step a = some s') :
    s'.update = s.update ∧ s'.consensus.peerTable.keys = s.consensus.peerTable.keys := by
  cases a with
  | seen peer now =>
    obtain rfl := Option.some.inj h
    exact ⟨rfl, KeyedMap.keys_modify peer _⟩
  | associate peer id =>
    obtain rfl := Option.some.inj h
    exact ⟨rfl, KeyedMap.keys_modify peer _⟩
  | liveness now =>
    obtain rfl := Option.some.inj h
    refine ⟨rfl, ?_⟩
    rw [checkLiveness_peerTable, KeyedMap.keys_map]
  | start now newPeers order => cases hcall
  | resume => cases hcall

/-- **A step gives an entry what its call does to it**, and leaves it alone if it is part of
an update: the copy is what the table has. -/
theorem find_step {a : RefreshAction} {s' : PeerRefresh} {peer : SocketAddress}
    {state : PeerState} (hfresh : s.Fresh) (h : s.step a = some s')
    (hfind : s.entry peer = some state) (hstays : peer ∈ s'.consensus.peerTable.keys) :
    s'.entry peer = some (a.effect s.consensus peer state) := by
  rw [entry] at hfind
  cases a with
  | seen p now =>
    obtain rfl := Option.some.inj h
    rw [entry, updatePeerSeen, KeyedMap.find_modify, hfind, effect]
    split
    · rfl
    · rfl
  | associate p id =>
    obtain rfl := Option.some.inj h
    rw [entry, associateBackend, KeyedMap.find_modify, hfind, effect]
    split
    · rfl
    · rfl
  | liveness now =>
    obtain rfl := Option.some.inj h
    rw [entry, checkLiveness_peerTable, KeyedMap.find_map, hfind]
    rfl
  | start now newPeers order =>
    obtain ⟨-, added, rfl⟩ := step_start h
    have hagrees : Agrees (s.consensus.countOverflow now newPeers).peerTable
        (s.consensus.newPeerTable now newPeers) := by
      rw [countOverflow_peerTable]
      exact agrees_newPeerTable _ now newPeers
    refine agrees_pruneLoop hagrees peer state ?_ hstays
    rw [countOverflow_peerTable]
    exact hfind
  | resume =>
    obtain ⟨u, hu, rfl⟩ := step_resume h
    exact agrees_pruneLoop (hfresh u hu) peer state hfind hstays

/-- A quiet call leaves an entry that stays as it is. -/
theorem Quiet.effect_eq {a : RefreshAction} {u : PeerListUpdate} {peer : SocketAddress}
    {state : PeerState} (h : s.Quiet a) (hu : s.update = some u)
    (hstays : peer ∈ u.newPeerTable.keys) (hfind : s.entry peer = some state) :
    a.effect s.consensus peer state = state := by
  have hquiet := h u hu
  cases a with
  | seen p now =>
    rw [effect]
    split
    · next hp =>
      subst hp
      obtain ⟨hseen, halive⟩ := hquiet hstays state hfind
      cases state
      simp_all
    · rfl
  | associate p id =>
    rw [effect]
    split
    · next hp =>
      subst hp
      have hid := hquiet hstays state hfind
      cases state
      simp_all
    · rfl
  | liveness now =>
    rw [effect, markDead, hquiet peer hstays state hfind]
    rfl
  | start now newPeers order => rfl
  | resume => rfl

/-- A quiet call keeps the copy up to date. -/
theorem Fresh.call {a : RefreshAction} {s' : PeerRefresh} (h : s.Fresh) (hcall : a.isCall)
    (hquiet : s.Quiet a) (hstep : s.step a = some s') : s'.Fresh := by
  obtain ⟨hupdate, hkeys⟩ := step_call hcall hstep
  intro u hu peer state hfind hstays
  rw [hupdate] at hu
  have hmem : peer ∈ s'.consensus.peerTable.keys := KeyedMap.mem_keys_of_find hfind
  obtain ⟨old, hold⟩ := Option.isSome_iff_exists.mp (KeyedMap.find_isSome_iff.mpr (hkeys ▸ hmem))
  have hnew : s'.entry peer = some old := by
    rw [find_step h hstep hold hmem, hquiet.effect_eq hu hstays hold]
  obtain rfl : old = state := Option.some.inj (hnew.symm.trans hfind)
  exact h u hu peer old hold hstays

theorem Fresh.step {a : RefreshAction} {s' : PeerRefresh} (h : s.Fresh) (hquiet : s.Quiet a)
    (hstep : s.step a = some s') : s'.Fresh := by
  cases a with
  | seen peer now => exact h.call rfl hquiet hstep
  | associate peer id => exact h.call rfl hquiet hstep
  | liveness now => exact h.call rfl hquiet hstep
  | start now newPeers order =>
    obtain ⟨-, added, rfl⟩ := step_start hstep
    refine fresh_pruneLoop ?_
    rw [countOverflow_peerTable]
    exact agrees_newPeerTable _ now newPeers
  | resume =>
    obtain ⟨u, hu, rfl⟩ := step_resume hstep
    exact fresh_pruneLoop (h u hu)

/-! ## A whole update -/

/-- The peer has had the effects of the calls so far, if it still has an entry; it has one
while the update is under way. -/
structure Tracks (c : GossipConsensus) (peer : SocketAddress) (state : PeerState)
    (h : List RefreshAction) (s : PeerRefresh) : Prop where
  fresh : s.Fresh
  config : s.consensus.config = c.config
  waits : s.update.isSome → peer ∈ s.consensus.peerTable.keys
  found : peer ∈ s.consensus.peerTable.keys → s.entry peer = some (effects c peer h state)

theorem Tracks.step {c : GossipConsensus} {peer : SocketAddress} {state : PeerState}
    {h : List RefreshAction} {a : RefreshAction} {s' : PeerRefresh} (ht : Tracks c peer state h s)
    (ha : a.isStart = false) (hquiet : s.Quiet a) (hstep : s.step a = some s') :
    Tracks c peer state (h ++ [a]) s' := by
  have hfound : peer ∈ s.consensus.peerTable.keys → peer ∈ s'.consensus.peerTable.keys →
      s'.entry peer = some (effects c peer (h ++ [a]) state) := by
    intro hmem hmem'
    rw [find_step ht.fresh hstep (ht.found hmem) hmem', effect_of_config ht.config, effects,
      effects, List.foldl_append]
    rfl
  cases hcall : a.isCall with
  | true =>
    obtain ⟨hupdate, hkeys⟩ := step_call hcall hstep
    refine ⟨ht.fresh.step hquiet hstep, (step_config hstep).trans ht.config, ?_, ?_⟩
    · rw [hupdate, hkeys]
      exact ht.waits
    · intro hmem'
      exact hfound (hkeys ▸ hmem') hmem'
  | false =>
    -- the action goes on with the update, so the peer had an entry
    obtain rfl : a = .resume := by
      cases a with
      | resume => rfl
      | start now newPeers order => cases ha
      | seen p now => cases hcall
      | associate p id => cases hcall
      | liveness now => cases hcall
    obtain ⟨u, hu, hs'⟩ := step_resume hstep
    have hmem : peer ∈ s.consensus.peerTable.keys := ht.waits (by rw [hu]; rfl)
    refine ⟨ht.fresh.step hquiet hstep, (step_config hstep).trans ht.config, ?_, hfound hmem⟩
    intro hsome
    subst hs'
    exact mem_keys_of_suspended hsome hmem

/-- **The calls beside an update take effect.** An update begins in any state without one.
In every run of calls behind it, while it is suspended and when it has finished, a peer of
the old table that still has an entry has had the effects of all the calls so far, if none
of those that ran while the update was suspended changed an entry that stays. -/
theorem update_keeps_effects {s₀ s₁ t : PeerRefresh} {now : ℕ}
    {newPeers order : List SocketAddress} {during : List RefreshAction} {peer : SocketAddress}
    {state : PeerState} (hstart : s₀.step (.start now newPeers order) = some s₁)
    (hduring : exec step s₁ during = some t) (hcalls : ∀ a ∈ during, a.isStart = false)
    (hquiet : Meets step Quiet s₁ during) (hfind : s₀.entry peer = some state)
    (hstays : peer ∈ t.consensus.peerTable.keys) :
    t.entry peer = some (effects s₀.consensus peer during state) := by
  have hidle : s₀.Fresh := by
    intro u hu
    rw [(step_start hstart).1] at hu
    cases hu
  have hbegun : Tracks s₀.consensus peer state [] s₁ := by
    refine ⟨hidle.step (fun u hu => trivial) hstart, step_config hstart, ?_,
      find_step hidle hstart hfind⟩
    obtain ⟨-, added, rfl⟩ := step_start hstart
    intro hsome
    refine mem_keys_of_suspended hsome ?_
    rw [countOverflow_peerTable]
    exact KeyedMap.mem_keys_of_find hfind
  have hend : Tracks s₀.consensus peer state during t := by
    refine exec_invariant (I := Tracks s₀.consensus peer state) ?_ (h := [])
      ((meets_of_forall_mem hcalls).and hquiet) hduring hbegun
    intro h s a s' hok hstep htracks
    exact htracks.step hok.1 hok.2 hstep
  exact hend.found hstays

/-- A node with 129 peers, all last seen at time 0. -/
def crowded : PeerRefresh where
  consensus :=
    { config := {}
      peerTable :=
        { entries := (List.range 129).map fun peer => (peer, freshPeer 0)
          nodup := by
            rw [keysOf, List.map_map]
            exact (List.map_id (List.range 129)).symm ▸ List.nodup_range } }

/-- Discovery finds only peer 0 again and suspends when it has pruned the other 128. -/
def suspended : PeerRefresh := (crowded.step (.start 0 [0] (List.range 129))).getD crowded

/-- Meanwhile peer 1 is seen, and peer 0 at the time that is already in the table. -/
theorem update_keeps_effects_crowded :
    suspended.update.isSome ∧
      ∃ t, exec step suspended [.seen 1 1000, .seen 0 0, .resume] = some t ∧
        t.entry 0 = some (effects crowded.consensus 0 [.seen 1 1000, .seen 0 0, .resume]
          (freshPeer 0)) := by
  have hstart : crowded.step (.start 0 [0] (List.range 129)) = some suspended := rfl
  have hends : (exec step suspended [.seen 1 1000, .seen 0 0, .resume]).isSome := by decide
  have hduring := exec_eq_some_getD hends
  refine ⟨by decide, _, hduring, ?_⟩
  exact update_keeps_effects hstart hduring (by decide) (by decide) (by decide) (by decide)

/-- The datagram of the one peer that stays comes while the update is suspended: when it has
finished, the peer was last seen at time 0, not at time 1000. -/
theorem seen_while_suspended_lost :
    (exec step crowded [.start 0 [0] (List.range 129), .seen 0 1000, .resume]).any
        (fun t => t.update.isNone && decide (t.entry 0 = some (freshPeer 0))) ∧
      effects crowded.consensus 0 [.seen 0 1000, .resume] (freshPeer 0) ≠ freshPeer 0 := by
  refine ⟨?_, by decide⟩
  decide

end PeerRefresh

end Ranvier
