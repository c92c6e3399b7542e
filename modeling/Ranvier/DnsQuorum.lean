import Ranvier.Quorum

/-!
# Quorum under DNS discovery

Each node asks a headless service for its peers. The answer has the addresses of all the
members, the node's own among them, and `refresh_peers` takes it as it is. So with `N`
members the table has `N` peers, the node counts `N + 1`, and it sees itself twice.

For an odd number of members, or groups of different sizes, this makes no difference. Two
equal groups of `n` both have a quorum of `2 n + 1` unless the threshold is large enough.
Beyond `ClusterConfig::MAX_PEERS` the table has only some of the members, others at each
refresh, and who comes back counts as just seen: then any two groups can have a quorum.

* `Refreshed.step`, `Populated.step` — after a refresh the table has exactly the members;
* `exec_refresh` — every refresh comes to an end;
* `dns_split_one_healthy_iff` — when two groups cannot both be `HEALTHY`.
-/

namespace Ranvier

open GossipConsensus PeerRefresh

variable {members group : Finset SocketAddress}

/-- What a node of the group does between refreshes: it hears from its group, and discovery
always answers with all the members. -/
def FromGroup (members group : Finset SocketAddress) (staticPeers : List SocketAddress) :
    RefreshAction → Prop
  | .seen peer _ => peer ∈ group
  | .start _ newPeers _ =>
    ∃ answer, Lists members answer ∧ newPeers = discoveredPeers staticPeers answer
  | .associate _ _ | .liveness _ | .resume => True

/-- A node of the group under DNS discovery: a refresh from the time on at which the cluster
is split, whatever happens then, and a check of the quorum when the check window is over. -/
structure DnsRun (members group : Finset SocketAddress) : Type where
  node : SocketAddress
  node_mem : node ∈ group
  staticPeers : List SocketAddress
  staticPeers_mem : ∀ peer ∈ staticPeers, peer ∈ members
  before : PeerRefresh
  refreshedAt : ℕ
  before_le : ∀ peer state, before.entry peer = some state → state.lastSeen ≤ refreshedAt
  answer : List SocketAddress
  lists : Lists members answer
  order : List SocketAddress
  begun : PeerRefresh
  begins : before.step (.start refreshedAt (discoveredPeers staticPeers answer) order) = some begun
  refresh : List RefreshAction
  refreshed : PeerRefresh
  refreshes : exec step begun refresh = some refreshed
  finished : refreshed.update = none
  after : List RefreshAction
  final : PeerRefresh
  ends : exec step refreshed after = some final
  fromGroup : ∀ a ∈ refresh ++ after, FromGroup members group staticPeers a
  now : ℕ
  waited : Stale before.consensus.config.quorumCheckWindow now refreshedAt

namespace DnsRun

variable (r : DnsRun members group)

/-- The threshold of the node. -/
def threshold : ℚ := r.before.consensus.config.quorumThreshold

/-- The state of the quorum after `check_quorum`. -/
def quorumState : QuorumState := (r.final.consensus.checkQuorum r.now).quorumState

end DnsRun

/-! ## The table after a refresh -/

section Table

variable {staticPeers : List SocketAddress} {old : ℕ → Prop} {s s' : PeerRefresh}
  {a : RefreshAction}

theorem has_newPeerTable {c : GossipConsensus} {now : ℕ} {newPeers : List SocketAddress}
    (hlength : newPeers.length ≤ maxPeers) (hmem : ∀ peer, peer ∈ newPeers ↔ peer ∈ members) :
    Has members (c.newPeerTable now newPeers) := by
  intro peer
  rw [c.mem_keys_newPeerTable hlength]
  exact hmem peer

theorem length_discoveredPeers_le_maxPeers {answer : List SocketAddress} :
    (discoveredPeers staticPeers answer).length ≤ maxPeers :=
  length_discoveredPeers_le.trans (by decide)

/-- The tables that updates under way are to put in place have the members. -/
def Pending (members : Finset SocketAddress) (s : PeerRefresh) : Prop :=
  ∀ u ∈ s.update, Has members u.newPeerTable

/-- A part of the loop puts the table in place or leaves the old one there. -/
theorem pending_pruneLoop {table : PeerTable} (h : Has members table)
    (added : List SocketAddress) (c : GossipConsensus) (pruned : ℕ) (rest : List SocketAddress) :
    let next := s.continueWith added (pruneLoop table added c pruned rest)
    Pending members next ∧
      (Has members next.consensus.peerTable ∨
        next.consensus.peerTable = c.peerTable ∧ next.update ≠ none) := by
  intro next
  obtain ⟨-, ⟨u, hu, hnew, hkept⟩ | ⟨hnone, hreplaced⟩⟩ :=
    pruneLoop_cases table added c pruned rest
  · refine ⟨?_, .inr ⟨hkept, ?_⟩⟩
    · intro v hv
      obtain rfl : u = v := Option.some.inj (hu.symm.trans hv)
      rw [hnew]
      exact h
    · intro hnone
      exact Option.some_ne_none u (hu.symm.trans hnone)
  · refine ⟨?_, .inl ?_⟩
    · intro v hv
      exact absurd (hnone.symm.trans hv) (Option.some_ne_none v).symm
    · show Has members (pruneLoop table added c pruned rest).1.peerTable
      rw [hreplaced]
      exact h

/-- After a step the table has the members, or the peers it had before; in that case a call
was made or an update is under way. -/
theorem pending_step (hcard : members.card ≤ maxClusterPeers)
    (hstatic : ∀ peer ∈ staticPeers, peer ∈ members) (h : Pending members s)
    (ha : FromGroup members group staticPeers a) (hstep : s.step a = some s') :
    Pending members s' ∧
      (Has members s'.consensus.peerTable ∨
        s'.consensus.peerTable.keys = s.consensus.peerTable.keys ∧
          (s'.update = none → s.update = none ∧ a.isCall)) := by
  cases hcall : a.isCall with
  | true =>
    obtain ⟨hupdate, hkeys⟩ := step_call hcall hstep
    refine ⟨?_, .inr ⟨hkeys, fun hnone => ⟨hupdate.symm.trans hnone, rfl⟩⟩⟩
    intro u hu
    rw [hupdate] at hu
    exact h u hu
  | false =>
    cases a with
    | start now newPeers order =>
      obtain ⟨-, added, rfl⟩ := step_start hstep
      obtain ⟨answer, hanswer, rfl⟩ := ha
      have hnew : Has members (s.consensus.newPeerTable now (discoveredPeers staticPeers answer)) :=
        has_newPeerTable length_discoveredPeers_le_maxPeers
          (mem_discoveredPeers hcard hstatic hanswer)
      obtain ⟨hpending, hhas | ⟨htable, hbusy⟩⟩ := pending_pruneLoop (s := s) hnew added
        (s.consensus.countOverflow now (discoveredPeers staticPeers answer)) 0 order
      · exact ⟨hpending, .inl hhas⟩
      · refine ⟨hpending, .inr ⟨?_, fun hnone => absurd hnone hbusy⟩⟩
        rw [htable, countOverflow_peerTable]
    | resume =>
      obtain ⟨u, hu, rfl⟩ := step_resume hstep
      obtain ⟨hpending, hhas | ⟨htable, hbusy⟩⟩ := pending_pruneLoop (s := s) (h u hu)
        u.newlyAdded s.consensus u.pruned u.rest
      · exact ⟨hpending, .inl hhas⟩
      · refine ⟨hpending, .inr ⟨?_, fun hnone => absurd hnone hbusy⟩⟩
        rw [htable]
    | seen peer now => cases hcall
    | associate peer id => cases hcall
    | liveness now => cases hcall

/-- From a refresh on: once it has finished the table has the members. -/
structure Refreshed (members group : Finset SocketAddress) (old : ℕ → Prop) (s : PeerRefresh) :
    Prop where
  hears : s.Hears group old
  pending : Pending members s
  done : s.update = none → Has members s.consensus.peerTable

/-- A refresh finds only peers that are in the table already. -/
theorem Refreshed.isLocal (h : Refreshed members group old s)
    (hcard : members.card ≤ maxClusterPeers)
    (hstatic : ∀ peer ∈ staticPeers, peer ∈ members)
    (ha : FromGroup members group staticPeers a) (hstep : s.step a = some s') :
    s.Local group old a := by
  cases a with
  | seen peer now => exact .inl ha
  | start now newPeers order =>
    obtain ⟨hidle, -⟩ := step_start hstep
    obtain ⟨answer, hanswer, rfl⟩ := ha
    intro peer hpeer
    refine .inr (.inr ((h.done hidle peer).mpr ?_))
    exact (mem_discoveredPeers hcard hstatic hanswer peer).mp hpeer
  | associate peer id => trivial
  | liveness now => trivial
  | resume => trivial

theorem Refreshed.step (h : Refreshed members group old s) (hcard : members.card ≤ maxClusterPeers)
    (hstatic : ∀ peer ∈ staticPeers, peer ∈ members)
    (ha : FromGroup members group staticPeers a) (hstep : s.step a = some s') :
    Refreshed members group old s' := by
  obtain ⟨hpending, hnext⟩ := pending_step hcard hstatic h.pending ha hstep
  refine ⟨h.hears.step (h.isLocal hcard hstatic ha hstep) hstep, hpending, ?_⟩
  intro hidle
  rcases hnext with hhas | ⟨hkeys, hback⟩
  · exact hhas
  · intro peer
    rw [hkeys]
    exact h.done (hback hidle).1 peer

/-- From the end of the first refresh on the table has the members. -/
structure Populated (members group : Finset SocketAddress) (old : ℕ → Prop) (s : PeerRefresh) :
    Prop extends Refreshed members group old s where
  has : Has members s.consensus.peerTable

theorem Populated.step (h : Populated members group old s) (hcard : members.card ≤ maxClusterPeers)
    (hstatic : ∀ peer ∈ staticPeers, peer ∈ members)
    (ha : FromGroup members group staticPeers a) (hstep : s.step a = some s') :
    Populated members group old s' := by
  obtain ⟨-, hnext⟩ := pending_step hcard hstatic h.pending ha hstep
  refine ⟨h.toRefreshed.step hcard hstatic ha hstep, ?_⟩
  rcases hnext with hhas | ⟨hkeys, -⟩
  · exact hhas
  · intro peer
    rw [hkeys]
    exact h.has peer

end Table

namespace DnsRun

variable (r : DnsRun members group)

/-- What was last seen from outside the group is too old to count when the quorum is checked. -/
theorem populated (hcard : members.card ≤ maxClusterPeers) :
    Populated members group (Stale r.before.consensus.config.quorumCheckWindow r.now) r.final := by
  have hstale : ∀ peer state, r.before.entry peer = some state →
      Stale r.before.consensus.config.quorumCheckWindow r.now state.lastSeen :=
    fun peer state hfind => r.waited.of_le (r.before_le peer state hfind)
  have hidle := (step_start r.begins).1
  have hnone : ∀ u, u ∉ r.before.update := fun u hu =>
    absurd (hidle.symm.trans hu) (Option.some_ne_none u).symm
  have hbefore : r.before.Hears group (Stale r.before.consensus.config.quorumCheckWindow r.now) :=
    ⟨fun peer state hfind => .inr (hstale peer state hfind), fun u hu => absurd hu (hnone u)⟩
  have hbegun : Refreshed members group
      (Stale r.before.consensus.config.quorumCheckWindow r.now) r.begun := by
    have hfrom : FromGroup members group r.staticPeers
        (.start r.refreshedAt (discoveredPeers r.staticPeers r.answer) r.order) :=
      ⟨r.answer, r.lists, rfl⟩
    have hlocal : r.before.Local group (Stale r.before.consensus.config.quorumCheckWindow r.now)
        (.start r.refreshedAt (discoveredPeers r.staticPeers r.answer) r.order) :=
      fun peer _ => .inr (.inl r.waited)
    obtain ⟨hpending, hnext⟩ := pending_step hcard r.staticPeers_mem
      (fun u hu => absurd hu (hnone u)) hfrom r.begins
    refine ⟨hbefore.step hlocal r.begins, hpending, ?_⟩
    intro hdone
    rcases hnext with hhas | ⟨-, hback⟩
    · exact hhas
    · cases (hback hdone).2
  have hrefreshed : Refreshed members group
      (Stale r.before.consensus.config.quorumCheckWindow r.now) r.refreshed := by
    refine exec_invariant (I := fun _ s => Refreshed members group
      (Stale r.before.consensus.config.quorumCheckWindow r.now) s) ?_ (h := [])
      (meets_of_forall_mem fun a ha => r.fromGroup a (List.mem_append_left _ ha)) r.refreshes hbegun
    intro h s a s' hok hstep hs
    exact hs.step hcard r.staticPeers_mem hok hstep
  refine exec_invariant (I := fun _ s => Populated members group
    (Stale r.before.consensus.config.quorumCheckWindow r.now) s) ?_ (h := [])
    (meets_of_forall_mem fun a ha => r.fromGroup a (List.mem_append_right _ ha)) r.ends
    ⟨hrefreshed, hrefreshed.done r.finished⟩
  intro h s a s' hok hstep hs
  exact hs.step hcard r.staticPeers_mem hok hstep

theorem final_config : r.final.consensus.config = r.before.consensus.config := by
  have hkeeps : ∀ {s t : PeerRefresh} {as : List RefreshAction}, exec step s as = some t →
      t.consensus.config = s.consensus.config := fun {s t as} hexec =>
    exec_induction (I := fun _ t => t.consensus.config = s.consensus.config)
      (fun hstep h => (step_config hstep).trans h) (h := []) hexec rfl
  exact (hkeeps r.ends).trans ((hkeeps r.refreshes).trans (step_config r.begins))

/-- **A `HEALTHY` node has a large group.** -/
theorem healthy_le (hcard : members.card ≤ maxClusterPeers) (hgroup : group ⊆ members)
    (hhealthy : r.quorumState = .HEALTHY) :
    min ⌊((members.card + 1 : ℕ) : ℚ) * r.threshold⌋₊ members.card ≤ group.card := by
  have hpopulated := r.populated hcard
  have hheard := hpopulated.hears.table
  rw [← r.final_config] at hheard
  have hle := healthy_le_card hpopulated.has hheard hhealthy
  rwa [Finset.inter_eq_left.mpr hgroup, r.final_config] at hle

end DnsRun

/-! ## Runs that end `HEALTHY` -/

section Exists

variable {s : PeerRefresh}

/-- **An update comes to an end**, however often it is suspended. -/
theorem exec_resume {u : PeerListUpdate} (hu : s.update = some u) :
    ∃ n s', exec step s (List.replicate n .resume) = some s' ∧ s'.update = none ∧
      s'.consensus.peerTable = u.newPeerTable ∧ s'.consensus.config = s.consensus.config := by
  induction hrest : u.rest.length using Nat.strong_induction_on generalizing s u with
  | _ k ih =>
    have hstep : s.step .resume = some (s.continueWith u.newlyAdded
        (pruneLoop u.newPeerTable u.newlyAdded s.consensus u.pruned u.rest)) := by
      rw [PeerRefresh.step, hu]
    obtain ⟨hconfig, ⟨v, hv, hnew, -⟩ | ⟨hnone, htable⟩⟩ :=
      pruneLoop_cases u.newPeerTable u.newlyAdded s.consensus u.pruned u.rest
    · obtain ⟨n, s', hexec, hidle, htable', hconfig'⟩ :=
        ih v.rest.length (hrest ▸ length_rest_lt hv)
          (s := s.continueWith u.newlyAdded
            (pruneLoop u.newPeerTable u.newlyAdded s.consensus u.pruned u.rest)) (u := v) hv rfl
      refine ⟨n + 1, s', ?_, hidle, htable'.trans hnew, hconfig'.trans hconfig⟩
      rw [List.replicate_succ, exec, hstep]
      exact hexec
    · refine ⟨1, s.continueWith u.newlyAdded
        (pruneLoop u.newPeerTable u.newlyAdded s.consensus u.pruned u.rest), ?_, hnone, htable,
        hconfig⟩
      rw [List.replicate_one, exec, hstep]
      rfl

/-- **A refresh puts its table in place.** -/
theorem exec_refresh (hidle : s.update = none) (now : ℕ) (newPeers : List SocketAddress) :
    ∃ s₁ n s', s.step (.start now newPeers s.consensus.peerTable.keys) = some s₁ ∧
      exec step s₁ (List.replicate n .resume) = some s' ∧ s'.update = none ∧
      s'.consensus.peerTable = s.consensus.newPeerTable now newPeers ∧
      s'.consensus.config = s.consensus.config := by
  have hstarts : (s.step (.start now newPeers s.consensus.peerTable.keys)).isSome := by
    rw [PeerRefresh.step, hidle]
    simp [List.isPerm_iff]
  obtain ⟨s₁, hs₁⟩ := Option.isSome_iff_exists.mp hstarts
  have hconfig := step_config hs₁
  obtain ⟨-, added, rfl⟩ := step_start hs₁
  obtain ⟨-, ⟨u, hu, hnew, -⟩ | ⟨hnone, htable⟩⟩ :=
    pruneLoop_cases (s.consensus.newPeerTable now newPeers) added
      (s.consensus.countOverflow now newPeers) 0 s.consensus.peerTable.keys
  · obtain ⟨n, s', hexec, hdone, htable, hconfig'⟩ := exec_resume (s := s.continueWith added _) hu
    exact ⟨_, n, s', hs₁, hexec, hdone, htable.trans hnew, hconfig'.trans hconfig⟩
  · exact ⟨_, 0, _, hs₁, rfl, hnone, htable, hconfig⟩

/-- The peer was last seen at that time. -/
def SeenAt (time : ℕ) (s : PeerRefresh) (peer : SocketAddress) : Prop :=
  ∃ state, s.entry peer = some state ∧ state.lastSeen = time

/-- Datagrams from all the peers of a list. -/
theorem exec_seen (time : ℕ) (peers : List SocketAddress) (s : PeerRefresh) :
    ∃ s', exec step s (peers.map fun peer => .seen peer time) = some s' ∧
      s'.consensus.config = s.consensus.config ∧
      s'.consensus.peerTable.keys = s.consensus.peerTable.keys ∧
      ∀ peer ∈ s.consensus.peerTable.keys, peer ∈ peers ∨ SeenAt time s peer →
        SeenAt time s' peer := by
  induction peers generalizing s with
  | nil => exact ⟨s, rfl, rfl, rfl, fun peer _ h => h.resolve_left (by simp)⟩
  | cons p peers ih =>
    obtain ⟨s', hexec, hconfig, hkeys, hseen⟩ :=
      ih { s with consensus := s.consensus.updatePeerSeen p time }
    have hkeys' : (s.consensus.updatePeerSeen p time).peerTable.keys = s.consensus.peerTable.keys :=
      KeyedMap.keys_modify p _
    refine ⟨s', hexec, hconfig, hkeys.trans hkeys', ?_⟩
    intro peer hpeer hor
    refine hseen peer (by rw [hkeys']; exact hpeer) ?_
    by_cases hp : peer = p
    · obtain ⟨state, hstate⟩ := Option.isSome_iff_exists.mp (KeyedMap.find_isSome_iff.mpr hpeer)
      refine .inr ⟨{ state with lastSeen := time, isAlive := true }, ?_, rfl⟩
      rw [entry, updatePeerSeen, KeyedMap.find_modify, if_pos hp, hstate]
      rfl
    · rcases hor with hmem | ⟨state, hstate, htime⟩
      · exact .inl ((List.mem_cons.mp hmem).resolve_left hp)
      · refine .inr ⟨state, ?_, htime⟩
        rw [entry, updatePeerSeen, KeyedMap.find_modify, if_neg hp]
        exact hstate

theorem healthy_of_seenAt {now : ℕ} (group : Finset SocketAddress)
    (hseen : ∀ peer ∈ group, SeenAt now s peer)
    (hrequired : s.consensus.quorumRequired ≤ group.card + 1) :
    (s.consensus.checkQuorum now).quorumState = .HEALTHY := by
  refine quorumState_checkQuorum_iff.mpr (hrequired.trans (Nat.add_le_add_right ?_ 1))
  refine KeyedMap.card_le_count fun peer hpeer => ?_
  obtain ⟨state, hstate, htime⟩ := hseen peer hpeer
  refine ⟨state, hstate, ?_⟩
  rw [recentlySeen, htime, Nat.sub_self, Nat.zero_div]
  simp

/-- A node before its first refresh. -/
def blank (τ : ℚ) : PeerRefresh := { consensus := { config := { quorumThreshold := τ } } }

/-- A node refreshes its peers at time 0 and may then do anything until its check. -/
theorem exists_refreshed (members : Finset SocketAddress) (τ : ℚ) {node : SocketAddress}
    (hnode : node ∈ group) :
    ∃ s : PeerRefresh, s.update = none ∧ s.consensus.config.quorumThreshold = τ ∧
      s.consensus.peerTable =
        (blank τ).consensus.newPeerTable 0 (discoveredPeers [] members.toList) ∧
      ∀ after s', exec step s after = some s' → (∀ a ∈ after, FromGroup members group [] a) →
        (s'.consensus.checkQuorum 31000).quorumState = .HEALTHY →
        ∃ r : DnsRun members group, r.threshold = τ ∧ r.quorumState = .HEALTHY := by
  obtain ⟨s₁, n, s, hstart, hresume, hidle, htable, hconfig⟩ :=
    exec_refresh (s := blank τ) rfl 0 (discoveredPeers [] members.toList)
  refine ⟨s, hidle, by rw [hconfig]; rfl, htable, ?_⟩
  intro after s' hexec hafter hhealthy
  refine ⟨
    { node
      node_mem := hnode
      staticPeers := []
      staticPeers_mem := by simp
      before := blank τ
      refreshedAt := 0
      before_le := fun peer state h => by cases h
      answer := members.toList
      lists := fun peer => Finset.mem_toList
      order := []
      begun := s₁
      begins := hstart
      refresh := List.replicate n .resume
      refreshed := s
      refreshes := hresume
      finished := hidle
      after
      final := s'
      ends := hexec
      fromGroup := ?_
      now := 31000
      waited := ?_ }, rfl, hhealthy⟩
  · intro a ha
    rcases List.mem_append.mp ha with ha | ha
    · obtain rfl := List.eq_of_mem_replicate ha
      trivial
    · exact hafter a ha
  · show 30 < (31000 - 0) / 1000
    decide

/-- A node whose group is large enough for a quorum hears from all of it. -/
theorem exists_healthy {τ : ℚ} (hcard : members.card ≤ maxClusterPeers) (hgroup : group ⊆ members)
    (hnonempty : group.Nonempty)
    (hlarge : min ⌊((members.card + 1 : ℕ) : ℚ) * τ⌋₊ members.card ≤ group.card) :
    ∃ r : DnsRun members group, r.threshold = τ ∧ r.quorumState = .HEALTHY := by
  obtain ⟨node, hnode⟩ := hnonempty
  obtain ⟨s, -, hτ, htable, hrun⟩ := exists_refreshed members τ hnode
  obtain ⟨s', hexec, hconfig, hkeys, hseen⟩ := exec_seen 31000 group.toList s
  have hhas : Has members s.consensus.peerTable := by
    rw [htable]
    exact has_newPeerTable length_discoveredPeers_le_maxPeers
      (mem_discoveredPeers hcard (by simp) fun peer => Finset.mem_toList)
  have hhas' : Has members s'.consensus.peerTable := by
    intro peer
    rw [hkeys]
    exact hhas peer
  refine hrun _ s' hexec ?_ (healthy_of_seenAt group (fun peer hpeer => ?_) ?_)
  · intro a ha
    obtain ⟨peer, hpeer, rfl⟩ := List.mem_map.mp ha
    exact Finset.mem_toList.mp hpeer
  · exact hseen peer ((hhas peer).mpr (hgroup hpeer)) (.inl (Finset.mem_toList.mpr hpeer))
  · rw [quorumRequired_eq hhas', hconfig, hτ]
    omega

/-! ## Beyond the cap -/

/-- The table has the first peers of the answer, and the last `k` of them were seen at that
time. -/
structure Rotated (time k : ℕ) (answer : List SocketAddress) (s : PeerRefresh) : Prop where
  idle : s.update = none
  keys : ∀ peer, peer ∈ s.consensus.peerTable.keys ↔ peer ∈ answer.take maxClusterPeers
  seen : ∀ peer ∈ (answer.take maxClusterPeers).drop (maxClusterPeers - k), SeenAt time s peer

/-- The next answer has the first address at its end. One peer leaves the table, and the one
that comes in counts as seen. -/
theorem Rotated.next {time k : ℕ} {peer : SocketAddress} {answer : List SocketAddress}
    (h : Rotated time k (peer :: answer) s) (hnodup : (peer :: answer).Nodup)
    (hlong : maxClusterPeers ≤ answer.length) (hk : k < maxClusterPeers) :
    ∃ n s', exec step s (.start time (discoveredPeers [] (answer ++ [peer]))
        s.consensus.peerTable.keys :: List.replicate n .resume) = some s' ∧
      Rotated time (k + 1) (answer ++ [peer]) s' := by
  have hnodup' : (answer ++ [peer]).Nodup := List.nodup_append_comm.mp hnodup
  have htake : (answer ++ [peer]).take maxClusterPeers = answer.take maxClusterPeers :=
    List.take_append_of_le_length hlong
  obtain ⟨s₁, n, s', hstart, hresume, hidle, htable, -⟩ :=
    exec_refresh h.idle time (discoveredPeers [] (answer ++ [peer]))
  have hfind : ∀ p, s'.entry p =
      if p ∈ answer.take maxClusterPeers then some ((s.entry p).getD (freshPeer time))
      else none := by
    intro p
    rw [entry, htable, find_newPeerTable _ length_discoveredPeers_le_maxPeers,
      discoveredPeers_of_nodup hnodup', htake]
    rfl
  refine ⟨n, s', ?_, hidle, ?_, ?_⟩
  · rw [exec, hstart]
    exact hresume
  · intro p
    rw [htable, mem_keys_newPeerTable _ length_discoveredPeers_le_maxPeers,
      discoveredPeers_of_nodup hnodup']
  · intro p hp
    rw [htake] at hp
    have hmem : p ∈ answer.take maxClusterPeers := List.mem_of_mem_drop hp
    by_cases hold : p ∈ (peer :: answer).take maxClusterPeers
    · -- it was in the table already, so it is not the last one of the new table
      have hseen : SeenAt time s p := by
        refine h.seen p ?_
        rw [List.drop_take, show maxClusterPeers - (maxClusterPeers - (k + 1)) = k + 1 by omega,
          List.take_add_one, List.mem_append] at hp
        rw [List.drop_take, show maxClusterPeers - (maxClusterPeers - k) = k by omega,
          show maxClusterPeers - k = maxClusterPeers - (k + 1) + 1 by omega, List.drop_succ_cons]
        refine hp.resolve_right fun hlast => ?_
        rw [Option.mem_toList, List.getElem?_drop] at hlast
        have hlast' : (peer :: answer)[maxClusterPeers]? = some p := by
          rw [show maxClusterPeers = maxClusterPeers - (k + 1) + k + 1 by omega,
            List.getElem?_cons_succ]
          exact hlast
        obtain ⟨i, hi, hget⟩ := List.mem_take_iff_getElem.mp hold
        have hsame : (peer :: answer)[i]? = (peer :: answer)[maxClusterPeers]? := by
          rw [hlast', ← hget, List.getElem?_eq_getElem]
        have hi' : i = maxClusterPeers :=
          (List.getElem?_inj (Nat.lt_of_lt_of_le hi (Nat.min_le_right _ _)) hnodup).mp hsame
        omega
      obtain ⟨state, hstate, htime⟩ := hseen
      refine ⟨state, ?_, htime⟩
      rw [hfind p, if_pos hmem, hstate, Option.getD_some]
    · have hnone : s.entry p = none := KeyedMap.find_eq_none_iff.mpr (mt (h.keys p).mp hold)
      refine ⟨freshPeer time, ?_, rfl⟩
      rw [hfind p, if_pos hmem, hnone, Option.getD_none]

/-- Beyond the cap a node that rotates through the members has seen all the peers in its
table, whatever its group. -/
theorem Rotated.all (group : Finset SocketAddress) {time : ℕ} {answer : List SocketAddress}
    (h : Rotated time 0 answer s) (hlists : Lists members answer) (hnodup : answer.Nodup)
    (hlong : maxClusterPeers < answer.length) (k : ℕ) (hk : k ≤ maxClusterPeers) :
    ∃ as s' answer', exec step s as = some s' ∧ (∀ a ∈ as, FromGroup members group [] a) ∧
      Lists members answer' ∧ answer'.Nodup ∧ answer'.length = answer.length ∧
      Rotated time k answer' s' := by
  induction k with
  | zero =>
    exact ⟨[], s, answer, rfl, fun a ha => (by cases ha), hlists, hnodup, rfl, h⟩
  | succ k ih =>
    obtain ⟨as, s₁, answer₁, hexec, hfrom, hlists₁, hnodup₁, hlength, hrotated⟩ := ih (by omega)
    obtain ⟨peer, rest, rfl⟩ : ∃ peer rest, answer₁ = peer :: rest :=
      List.exists_cons_of_length_pos (by omega)
    rw [List.length_cons] at hlength
    obtain ⟨n, s', hexec', hrotated'⟩ := hrotated.next hnodup₁ (by omega) (by omega)
    have hlists' : Lists members (rest ++ [peer]) := by
      intro p
      rw [← hlists₁ p, List.mem_append, List.mem_singleton, List.mem_cons, or_comm]
    refine ⟨_, s', rest ++ [peer], (exec_append hexec).trans hexec', ?_, hlists',
      List.nodup_append_comm.mp hnodup₁, ?_, hrotated'⟩
    · intro a ha
      rcases List.mem_append.mp ha with ha | ha
      · exact hfrom a ha
      · rcases List.mem_cons.mp ha with rfl | ha
        · exact ⟨rest ++ [peer], hlists', rfl⟩
        · obtain rfl := List.eq_of_mem_replicate ha
          trivial
    · rw [List.length_append, List.length_singleton, hlength]

theorem exists_healthy_of_lt (τ : ℚ) (hcard : maxClusterPeers < members.card)
    (hnonempty : group.Nonempty) :
    ∃ r : DnsRun members group, r.threshold = τ ∧ r.quorumState = .HEALTHY := by
  obtain ⟨node, hnode⟩ := hnonempty
  obtain ⟨s, hidle, -, htable, hrun⟩ := exists_refreshed members τ hnode
  have hstart : Rotated 31000 0 members.toList s := by
    refine ⟨hidle, ?_, ?_⟩
    · intro peer
      rw [htable, mem_keys_newPeerTable _ length_discoveredPeers_le_maxPeers,
        discoveredPeers_of_nodup members.nodup_toList]
    · intro peer hpeer
      rw [Nat.sub_zero, List.drop_take] at hpeer
      simp at hpeer
  obtain ⟨as, s', answer, hexec, hfrom, -, hnodup, hlength, hrotated⟩ := hstart.all
    group (fun peer => Finset.mem_toList) members.nodup_toList
    (by rwa [Finset.length_toList]) maxClusterPeers (le_refl _)
  refine hrun as s' hexec hfrom
    (healthy_of_seenAt s'.consensus.peerTable.keys.toFinset (fun peer hpeer => ?_) ?_)
  · refine hrotated.seen peer ?_
    rw [Nat.sub_self, List.drop_zero]
    exact (hrotated.keys peer).mp (List.mem_toFinset.mp hpeer)
  · rw [KeyedMap.card_toFinset_keys]
    exact Nat.min_le_right _ _

end Exists

/-! ## Two groups -/

section Split

variable {A B : Finset SocketAddress} {τ : ℚ}

/-- No run of a node of one group and no run of a node of the other both end `HEALTHY`. -/
def NeverBothHealthy (members A B : Finset SocketAddress) (τ : ℚ) : Prop :=
  ∀ (rA : DnsRun members A) (rB : DnsRun members B), rA.threshold = τ → rB.threshold = τ →
    ¬(rA.quorumState = .HEALTHY ∧ rB.quorumState = .HEALTHY)

/-- What two groups that make up the cluster both reach. -/
theorem equal_groups {N a b : ℕ} (hτ : 1 / 2 ≤ τ) (hpos : 0 < N) (hsum : a + b = N)
    (ha : min ⌊((N + 1 : ℕ) : ℚ) * τ⌋₊ N ≤ a) (hb : min ⌊((N + 1 : ℕ) : ℚ) * τ⌋₊ N ≤ b) :
    a = b ∧ ((N : ℚ) + 1) * τ < a + 1 := by
  have hfloor : ((N + 1 : ℕ) : ℚ) * τ < ⌊((N + 1 : ℕ) : ℚ) * τ⌋₊ + 1 := Nat.lt_floor_add_one _
  have hhalf : ((N + 1 : ℕ) : ℚ) * (1 / 2) ≤ ((N + 1 : ℕ) : ℚ) * τ :=
    mul_le_mul_of_nonneg_left hτ (Nat.cast_nonneg _)
  have hlt : N + 1 < 2 * (⌊((N + 1 : ℕ) : ℚ) * τ⌋₊ + 1) := by
    have hlt' : ((N + 1 : ℕ) : ℚ) < 2 * (⌊((N + 1 : ℕ) : ℚ) * τ⌋₊ + 1) := by linarith
    exact_mod_cast hlt'
  obtain ⟨hab, hle⟩ : a = b ∧ ⌊((N + 1 : ℕ) : ℚ) * τ⌋₊ ≤ a := by omega
  refine ⟨hab, ?_⟩
  have hle' : (⌊((N + 1 : ℕ) : ℚ) * τ⌋₊ : ℚ) ≤ a := by exact_mod_cast hle
  push_cast at hfloor hle' ⊢
  linarith

/-- **DNS discovery and two groups.** In a cluster that is split into two groups, nodes of the
two are never both `HEALTHY` exactly if one group is empty, or the members fit into the table
and the groups have different sizes or a threshold with which one more than half the members
is required. -/
theorem dns_split_one_healthy_iff (hunion : A ∪ B = members) (hdisjoint : Disjoint A B)
    (hτ : 1 / 2 ≤ τ) :
    NeverBothHealthy members A B τ ↔
      A = ∅ ∨ B = ∅ ∨ members.card ≤ maxClusterPeers ∧
        (A.card ≠ B.card ∨ (A.card : ℚ) + 1 ≤ (members.card + 1) * τ) := by
  have hA : A ⊆ members := hunion ▸ Finset.subset_union_left
  have hB : B ⊆ members := hunion ▸ Finset.subset_union_right
  have hsum : A.card + B.card = members.card := by
    rw [← hunion, Finset.card_union_of_disjoint hdisjoint]
  constructor
  · intro hsafe
    by_contra hcond
    rw [not_or, not_or, not_and_or] at hcond
    obtain ⟨hneA, hneB, hcond⟩ := hcond
    rw [← Ne, ← Finset.nonempty_iff_ne_empty] at hneA hneB
    -- both groups reach a quorum
    obtain ⟨⟨rA, hτA, hhealthyA⟩, ⟨rB, hτB, hhealthyB⟩⟩ :
        (∃ r : DnsRun members A, r.threshold = τ ∧ r.quorumState = .HEALTHY) ∧
          ∃ r : DnsRun members B, r.threshold = τ ∧ r.quorumState = .HEALTHY := by
      by_cases hcard : members.card ≤ maxClusterPeers
      · have hequal := hcond.resolve_left (not_not_intro hcard)
        rw [not_or, not_not, not_le] at hequal
        obtain ⟨hAB, hlt⟩ := hequal
        have hlarge : min ⌊((members.card + 1 : ℕ) : ℚ) * τ⌋₊ members.card ≤ A.card := by
          refine (Nat.min_le_left _ _).trans (Nat.lt_succ_iff.mp ?_)
          rw [Nat.floor_lt' (by omega)]
          push_cast
          exact hlt
        exact ⟨exists_healthy hcard hA hneA hlarge, exists_healthy hcard hB hneB (hAB ▸ hlarge)⟩
      · have hlt := Nat.lt_of_not_le hcard
        exact ⟨exists_healthy_of_lt τ hlt hneA, exists_healthy_of_lt τ hlt hneB⟩
    exact hsafe rA rB hτA hτB ⟨hhealthyA, hhealthyB⟩
  · rintro hcond rA rB hτA hτB ⟨hhealthyA, hhealthyB⟩
    rcases hcond with rfl | rfl | ⟨hcard, hcond⟩
    · exact absurd rA.node_mem (Finset.notMem_empty _)
    · exact absurd rB.node_mem (Finset.notMem_empty _)
    · have ha := rA.healthy_le hcard hA hhealthyA
      have hb := rB.healthy_le hcard hB hhealthyB
      rw [hτA] at ha
      rw [hτB] at hb
      have hpos : 0 < members.card := Finset.card_pos.mpr ⟨rA.node, hA rA.node_mem⟩
      obtain ⟨hAB, hlt⟩ := equal_groups hτ hpos hsum ha hb
      rcases hcond with hne | hle
      · exact hne hAB
      · exact absurd hle (not_le.mpr hlt)

theorem dns_split_one_healthy_iff_three : NeverBothHealthy {0, 1, 2} {0} {1, 2} (1 / 2) :=
  (dns_split_one_healthy_iff (by decide) (by decide) (le_refl _)).mpr
    (.inr (.inr ⟨by decide, .inl (by decide)⟩))

/-- The node refreshes its peers at time 0. -/
def refreshedPair : PeerRefresh :=
  ((blank (1 / 2)).step (.start 0 (discoveredPeers [] [0, 1]) [])).getD (blank (1 / 2))

/-- One of two nodes that hears only from its own address, at time 31000 for the last time. -/
def alone (node : SocketAddress) : DnsRun {0, 1} {node} where
  node := node
  node_mem := Finset.mem_singleton_self node
  staticPeers := []
  staticPeers_mem := by simp
  before := blank (1 / 2)
  refreshedAt := 0
  before_le := fun peer state h => by cases h
  answer := [0, 1]
  lists := by
    intro peer
    simp
  order := []
  begun := refreshedPair
  begins := rfl
  refresh := []
  refreshed := refreshedPair
  refreshes := rfl
  finished := rfl
  after := [.seen node 31000]
  final := { refreshedPair with consensus := refreshedPair.consensus.updatePeerSeen node 31000 }
  ends := rfl
  fromGroup := by
    intro a ha
    obtain rfl : a = .seen node 31000 := by simpa using ha
    exact Finset.mem_singleton_self node
  now := 31000
  waited := by
    show 30 < (31000 - 0) / 1000
    decide

/-- Two nodes that do not hear from each other: each counts three nodes, two of which it sees,
and two are required. -/
theorem pair_both_healthy : ¬NeverBothHealthy {0, 1} {0} {1} (1 / 2) := by
  have hfloor : ⌊((3 : ℕ) : ℚ) * (1 / 2)⌋₊ = 1 := by
    rw [Nat.floor_eq_iff (by norm_num)]
    norm_num
  have hrequired : min (⌊((3 : ℕ) : ℚ) * (1 / 2)⌋₊ + 1) 3 ≤ 2 := by
    rw [hfloor]
    decide
  intro hnever
  refine hnever (alone 0) (alone 1) rfl rfl
    ⟨quorumState_checkQuorum_iff.mpr ?_, quorumState_checkQuorum_iff.mpr ?_⟩
  · exact hrequired.trans (by decide)
  · exact hrequired.trans (by decide)

end Split

end Ranvier
