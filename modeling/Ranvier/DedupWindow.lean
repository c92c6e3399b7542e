import Mathlib.Data.Finset.Card
import Mathlib.Data.Finset.Lattice.Lemmas
import Mathlib.Data.List.Dedup
import Mathlib.Data.List.TakeWhile
import Ranvier.Gossip

/-!
# Which numbers a receiver takes for duplicates

`is_duplicate` keeps a deque of the numbers it accepted from a peer and a hash set for
the lookup; both are cut to the last `gossip_dedup_window` numbers.

* `WithinLast` — what the window stands for, over any type: an element is among the
  last `n` **distinct** entries of a list;
* `Remembers` — the invariant: the window is the end of what was accepted, without
  repetition, and the set holds the same numbers;
* `duplicate_iff_recent` — the verdict on every stream of numbers from any peers.

A receiver keeps windows for `MAX_DEDUP_PEERS` peers. Whoever comes later is not
remembered, and nothing from such a peer is ever a duplicate
(`duplicate_not_recognized`).
-/

namespace Ranvier

/-! ## The last distinct entries of a list -/

section WithinLast

variable {α : Type} [DecidableEq α]

/-- `a` is among the last `n` distinct entries: fewer than `n` distinct ones came
behind it. -/
def WithinLast (n : ℕ) (as : List α) (a : α) : Prop :=
  ∃ before after, as = before ++ a :: after ∧ after.dedup.length < n

/-- The end of a list, if it has no repetition and is as long as it may be, holds the
last distinct entries. -/
theorem mem_suffix_iff_withinLast {n : ℕ} {as window : List α} {a : α} (hend : window <:+ as)
    (hnodup : window.Nodup) (hlength : window.length = min n as.length) :
    a ∈ window ↔ WithinLast n as a := by
  obtain ⟨past, rfl⟩ := hend
  constructor
  · intro ha
    obtain ⟨before, after, rfl⟩ := List.append_of_mem ha
    refine ⟨past ++ before, after, by rw [List.append_assoc], ?_⟩
    have hdedup := (List.dedup_sublist after).length_le
    rw [List.length_append, List.length_cons] at hlength
    omega
  · rintro ⟨before, after, hsplit, hafter⟩
    rcases List.append_eq_append_iff.mp hsplit with ⟨rest, -, hwindow⟩ | ⟨rest, hpast, hafter'⟩
    · rw [hwindow]
      exact List.mem_append_right _ List.mem_cons_self
    · cases rest with
      | nil =>
        rw [List.nil_append] at hafter'
        rw [← hafter']
        exact List.mem_cons_self
      | cons b rest =>
        -- the window lies behind `a`, so it is not longer than what lies there
        obtain ⟨rfl, rfl⟩ := List.cons.inj hafter'
        have hsubset : window ⊆ (rest ++ window).dedup := fun c hc =>
          List.mem_dedup.mpr (List.mem_append_right rest hc)
        have hle : window.length ≤ (rest ++ window).dedup.length :=
          (List.subperm_of_subset hnodup hsubset).length_le
        have hshort : (rest ++ window).dedup.length < n := hafter
        rw [hpast, List.length_append, List.length_append, List.length_cons] at hlength
        omega

end WithinLast

/-! ## One window -/

/-- A window and what was accepted from its peer. -/
structure Remembers (n : ℕ) (accepted : List UInt32) (w : SeqWindow) : Prop where
  suffix : w.window <:+ accepted
  nodup : w.window.Nodup
  length : w.window.length = min n accepted.length
  seqSet : w.seqSet = w.window.toFinset

/-- Sliding drops the oldest numbers from both. -/
theorem slideWindow_eq {n : ℕ} {window : List UInt32} (hnodup : window.Nodup) :
    slideWindow n window window.toFinset =
      ⟨window.drop (window.length - n), (window.drop (window.length - n)).toFinset⟩ := by
  induction window with
  | nil => simp [slideWindow]
  | cons oldest window ih =>
    obtain ⟨hfresh, hrest⟩ := List.nodup_cons.mp hnodup
    rw [slideWindow]
    split
    · next hlong =>
      have hset : (oldest :: window).toFinset.erase oldest = window.toFinset := by
        rw [List.toFinset_cons, Finset.erase_insert (by simpa using hfresh)]
      have hdrop : (oldest :: window).length - n = window.length - n + 1 := by
        rw [List.length_cons] at hlong ⊢
        omega
      rw [hset, ih hrest, hdrop, List.drop_succ_cons]
    · next hshort =>
      have hdrop : (oldest :: window).length - n = 0 := Nat.sub_eq_zero_of_le (not_lt.mp hshort)
      rw [hdrop, List.drop_zero]

namespace Remembers

variable {n : ℕ} {accepted : List UInt32} {w : SeqWindow} {q : UInt32}

/-- The lookup in the set answers for the last distinct numbers. -/
theorem mem_seqSet_iff (h : Remembers n accepted w) : q ∈ w.seqSet ↔ WithinLast n accepted q := by
  rw [h.seqSet, List.mem_toFinset]
  exact mem_suffix_iff_withinLast h.suffix h.nodup h.length

theorem length_le (h : Remembers n accepted w) : w.window.length ≤ n := by
  rw [h.length]
  exact Nat.min_le_left _ _

/-- The first number of a peer. -/
theorem first (hn : 1 ≤ n) : Remembers n [q] ⟨[q], {q}⟩ where
  suffix := List.suffix_refl _
  nodup := List.nodup_singleton q
  length := by
    rw [List.length_singleton]
    omega
  seqSet := rfl

/-- One more number. -/
theorem accept (h : Remembers n accepted w) (hnew : q ∉ w.seqSet) :
    Remembers n (accepted ++ [q]) (slideWindow n (w.window ++ [q]) (insert q w.seqSet)) := by
  have hfresh : q ∉ w.window := by
    rwa [h.seqSet, List.mem_toFinset] at hnew
  have hnodup : (w.window ++ [q]).Nodup :=
    h.nodup.append (List.nodup_singleton q) (by simpa using hfresh)
  have hset : insert q w.seqSet = (w.window ++ [q]).toFinset := by
    rw [h.seqSet, List.toFinset_append, Finset.insert_eq, Finset.union_comm]
    rfl
  rw [hset, slideWindow_eq hnodup]
  refine ⟨?_, hnodup.sublist (List.drop_sublist _ _), ?_, rfl⟩
  · obtain ⟨past, hpast⟩ := h.suffix
    refine (List.drop_suffix _ _).trans ⟨past, ?_⟩
    rw [← List.append_assoc, hpast]
  · have hlength := h.length
    simp only [List.length_drop, List.length_append, List.length_singleton]
    omega

end Remembers

/-! ## Streams of numbers -/

section Streams

variable {Addr : Type} [DecidableEq Addr] (cfg : GossipConfig)

/-- The numbers arrive one after the other, each with the peer it came from. -/
def receiveSeqs (node : GossipNode Addr) (receipts : List (Addr × UInt32)) : GossipNode Addr :=
  receipts.foldl (fun node r => (isDuplicate cfg node r.1 r.2).1) node

/-- The numbers of a peer that were not taken for duplicates, oldest first. -/
def acceptedFrom (peer : Addr) : GossipNode Addr → List (Addr × UInt32) → List UInt32
  | _, [] => []
  | node, r :: receipts =>
    let checked := isDuplicate cfg node r.1 r.2
    if r.1 = peer ∧ checked.2 = false then r.2 :: acceptedFrom peer checked.1 receipts
    else acceptedFrom peer checked.1 receipts

/-- Fewer than `MAX_DEDUP_PEERS` other peers were heard before the first number of
this one. -/
def HeardInTime (receipts : List (Addr × UInt32)) (peer : Addr) : Prop :=
  ((receipts.map Prod.fst).takeWhile (· ≠ peer)).toFinset.card < maxDedupPeers

variable {cfg} {start node : GossipNode Addr} {receipts : List (Addr × UInt32)} {r : Addr × UInt32}
  {peer : Addr}

theorem receiveSeqs_concat :
    receiveSeqs cfg start (receipts ++ [r]) =
      (isDuplicate cfg (receiveSeqs cfg start receipts) r.1 r.2).1 := by
  rw [receiveSeqs, List.foldl_concat, ← receiveSeqs]

theorem acceptedFrom_concat :
    acceptedFrom cfg peer start (receipts ++ [r]) =
      acceptedFrom cfg peer start receipts ++
        if r.1 = peer ∧ (isDuplicate cfg (receiveSeqs cfg start receipts) r.1 r.2).2 = false then
          [r.2]
        else [] := by
  induction receipts generalizing start with
  | nil =>
    rw [List.nil_append, acceptedFrom, acceptedFrom, List.nil_append]
    rfl
  | cons r' receipts ih =>
    rw [List.cons_append, acceptedFrom, acceptedFrom, ih]
    split
    · rfl
    · rfl

theorem acceptedFrom_of_notMem (h : peer ∉ receipts.map Prod.fst) :
    acceptedFrom cfg peer node receipts = [] := by
  induction receipts generalizing node with
  | nil => rfl
  | cons r receipts ih =>
    rw [List.map_cons, List.mem_cons, not_or] at h
    rw [acceptedFrom, if_neg (fun hr => h.1 hr.1.symm)]
    exact ih h.2

/-- Whom another receipt adds to the peers that were heard in time. -/
theorem heardInTime_concat :
    peer ∈ (receipts ++ [r]).map Prod.fst ∧ HeardInTime (receipts ++ [r]) peer ↔
      peer ∈ receipts.map Prod.fst ∧ HeardInTime receipts peer ∨
        peer = r.1 ∧ peer ∉ receipts.map Prod.fst ∧
          (receipts.map Prod.fst).toFinset.card < maxDedupPeers := by
  simp only [HeardInTime, List.map_append, List.map_cons, List.map_nil, List.takeWhile_append,
    List.mem_append, List.mem_singleton]
  by_cases hmem : peer ∈ receipts.map Prod.fst
  · have hshort : ((receipts.map Prod.fst).takeWhile (· ≠ peer)).length ≠
        (receipts.map Prod.fst).length := by
      intro hlength
      have hself := (List.takeWhile_prefix (· ≠ peer)).eq_of_length hlength
      simpa using List.takeWhile_eq_self_iff.mp hself peer hmem
    rw [if_neg hshort]
    simp [hmem]
  · have hself : (receipts.map Prod.fst).takeWhile (· ≠ peer) = receipts.map Prod.fst :=
      List.takeWhile_eq_self_iff.mpr fun a ha => by
        simpa using fun heq : a = peer => hmem (heq ▸ ha)
    rw [hself, if_pos rfl]
    by_cases hpeer : peer = r.1
    · have hend : [r.1].takeWhile (· ≠ peer) = [] := by simp [hpeer]
      rw [hend, List.append_nil]
      simp only [hmem, false_or, false_and, not_false_eq_true, true_and]
    · simp only [hmem, hpeer, false_or, false_and]

theorem heardInTime_of_card (h : (receipts.map Prod.fst).toFinset.card < maxDedupPeers) :
    HeardInTime receipts peer := by
  refine lt_of_le_of_lt (Finset.card_le_card ?_) h
  intro a ha
  rw [List.mem_toFinset] at ha ⊢
  exact (List.takeWhile_prefix _).subset ha

/-- What `is_duplicate` does, by what it knows of the peer. -/
theorem isDuplicate_cases (cfg : GossipConfig) (node : GossipNode Addr) (peer : Addr) (q : UInt32) :
    (∃ w, node.receivedSeqs.lookup peer = some w ∧ q ∈ w.seqSet ∧
        isDuplicate cfg node peer q = (node, true)) ∨
      (∃ w, node.receivedSeqs.lookup peer = some w ∧ q ∉ w.seqSet ∧
        isDuplicate cfg node peer q =
          ({ node with receivedSeqs := node.receivedSeqs.insert peer (slideWindow
              cfg.gossipDedupWindow (w.window ++ [q]) (insert q w.seqSet)) }, false)) ∨
      (node.receivedSeqs.lookup peer = none ∧ maxDedupPeers ≤ node.receivedSeqs.keys.length ∧
        isDuplicate cfg node peer q = (node, false)) ∨
      (node.receivedSeqs.lookup peer = none ∧ node.receivedSeqs.keys.length < maxDedupPeers ∧
        isDuplicate cfg node peer q =
          ({ node with receivedSeqs := node.receivedSeqs.insert peer ⟨[q], {q}⟩ }, false)) := by
  rw [isDuplicate]
  cases hlookup : node.receivedSeqs.lookup peer with
  | some w =>
    by_cases hq : q ∈ w.seqSet
    · exact .inl ⟨w, rfl, hq, if_pos hq⟩
    · exact .inr (.inl ⟨w, rfl, hq, if_neg hq⟩)
  | none =>
    by_cases hfull : maxDedupPeers ≤ node.receivedSeqs.keys.length
    · exact .inr (.inr (.inl ⟨rfl, hfull, if_pos hfull⟩))
    · exact .inr (.inr (.inr ⟨rfl, not_le.mp hfull, if_neg hfull⟩))

/-- What a node remembers after the receipts. -/
structure Tracks (cfg : GossipConfig) (start : GossipNode Addr) (receipts : List (Addr × UInt32))
    (node : GossipNode Addr) : Prop where
  tracked : ∀ peer, peer ∈ node.receivedSeqs ↔
    peer ∈ receipts.map Prod.fst ∧ HeardInTime receipts peer
  size : node.receivedSeqs.keys.length =
    min maxDedupPeers (receipts.map Prod.fst).toFinset.card
  windows : ∀ peer w, node.receivedSeqs.lookup peer = some w →
    Remembers cfg.gossipDedupWindow (acceptedFrom cfg peer start receipts) w

theorem tracks_start (hstart : start.receivedSeqs = ∅) : Tracks cfg start [] start where
  tracked peer := by simp [hstart]
  size := by simp [hstart]
  windows peer w hw := by
    rw [hstart] at hw
    cases hw

/-- A receipt that changes no window. -/
theorem Tracks.same (h : Tracks cfg start receipts node)
    (hpeers : r.1 ∈ receipts.map Prod.fst ∨
      maxDedupPeers ≤ (receipts.map Prod.fst).toFinset.card)
    (haccepted : ∀ peer ∈ node.receivedSeqs, acceptedFrom cfg peer start (receipts ++ [r]) =
      acceptedFrom cfg peer start receipts) :
    Tracks cfg start (receipts ++ [r]) node where
  tracked peer := by
    rw [heardInTime_concat, h.tracked]
    refine ⟨.inl, ?_⟩
    rintro (hold | ⟨rfl, hnew, hroom⟩)
    · exact hold
    · exact absurd hpeers (not_or.mpr ⟨hnew, not_le.mpr hroom⟩)
  size := by
    rw [h.size, List.map_append, List.toFinset_append]
    rcases hpeers with hmem | hfull
    · rw [Finset.union_eq_left.mpr]
      simpa using hmem
    · have hle : (receipts.map Prod.fst).toFinset.card ≤
          ((receipts.map Prod.fst).toFinset ∪ ([r].map Prod.fst).toFinset).card :=
        Finset.card_le_card Finset.subset_union_left
      omega
  windows peer w hw := by
    rw [haccepted peer (AList.lookup_isSome.mp (hw ▸ rfl))]
    exact h.windows peer w hw

/-- A receipt that writes the window of its peer. -/
theorem Tracks.write (h : Tracks cfg start receipts node) {w : SeqWindow}
    (hpeers : r.1 ∈ node.receivedSeqs ∨
      r.1 ∉ node.receivedSeqs ∧ node.receivedSeqs.keys.length < maxDedupPeers)
    (haccepted : ∀ peer ≠ r.1, acceptedFrom cfg peer start (receipts ++ [r]) =
      acceptedFrom cfg peer start receipts)
    (hw : Remembers cfg.gossipDedupWindow (acceptedFrom cfg r.1 start (receipts ++ [r])) w) :
    Tracks cfg start (receipts ++ [r])
      { node with receivedSeqs := node.receivedSeqs.insert r.1 w } := by
  -- a peer without a window that gets one is heard for the first time
  have hfirst : r.1 ∉ node.receivedSeqs → r.1 ∉ receipts.map Prod.fst ∧
      (receipts.map Prod.fst).toFinset.card < maxDedupPeers := by
    intro huntracked
    have hroom := (hpeers.resolve_left huntracked).2
    rw [h.size] at hroom
    have hcard : (receipts.map Prod.fst).toFinset.card < maxDedupPeers := by omega
    exact ⟨fun hmem => huntracked ((h.tracked r.1).mpr ⟨hmem, heardInTime_of_card hcard⟩), hcard⟩
  refine ⟨?_, ?_, ?_⟩
  · intro peer
    rw [AList.mem_insert, heardInTime_concat, ← h.tracked]
    constructor
    · rintro (rfl | hold)
      · by_cases htracked : r.1 ∈ node.receivedSeqs
        · exact .inl htracked
        · exact .inr ⟨rfl, hfirst htracked⟩
      · exact .inl hold
    · rintro (hold | ⟨rfl, -⟩)
      · exact .inr hold
      · exact .inl rfl
  · rw [AList.keys_insert, List.length_cons, List.map_append, List.toFinset_append]
    by_cases htracked : r.1 ∈ node.receivedSeqs
    · have hmem := ((h.tracked r.1).mp htracked).1
      have hpos := List.length_pos_of_mem (AList.mem_keys.mp htracked)
      rw [List.length_erase_of_mem (AList.mem_keys.mp htracked), Nat.sub_add_cancel hpos, h.size,
        Finset.union_eq_left.mpr]
      simpa using hmem
    · obtain ⟨hnew, hcard⟩ := hfirst htracked
      have hunion : ((receipts.map Prod.fst).toFinset ∪ ([r].map Prod.fst).toFinset).card =
          (receipts.map Prod.fst).toFinset.card + 1 := by
        rw [Finset.union_comm, List.map_singleton, List.toFinset_cons, List.toFinset_nil,
          Finset.insert_union, Finset.empty_union, Finset.card_insert_of_notMem]
        simpa using hnew
      rw [List.erase_of_not_mem (fun hkey => htracked (AList.mem_keys.mpr hkey)), h.size, hunion]
      omega
  · intro peer w' hw'
    by_cases hpeer : peer = r.1
    · subst hpeer
      rw [AList.lookup_insert] at hw'
      obtain rfl := Option.some.inj hw'
      exact hw
    · rw [AList.lookup_insert_ne hpeer] at hw'
      rw [haccepted peer hpeer]
      exact h.windows peer w' hw'

/-- One receipt. -/
theorem Tracks.step (hn : 1 ≤ cfg.gossipDedupWindow) (h : Tracks cfg start receipts node)
    (hnode : node = receiveSeqs cfg start receipts) :
    Tracks cfg start (receipts ++ [r]) (isDuplicate cfg node r.1 r.2).1 := by
  have haccepted : ∀ peer, acceptedFrom cfg peer start (receipts ++ [r]) =
      acceptedFrom cfg peer start receipts ++
        if r.1 = peer ∧ (isDuplicate cfg node r.1 r.2).2 = false then [r.2] else [] := by
    intro peer
    rw [acceptedFrom_concat, hnode]
  have hothers : ∀ peer ≠ r.1, acceptedFrom cfg peer start (receipts ++ [r]) =
      acceptedFrom cfg peer start receipts := by
    intro peer hpeer
    rw [haccepted, if_neg (fun hr => hpeer hr.1.symm), List.append_nil]
  rcases isDuplicate_cases cfg node r.1 r.2 with ⟨w, hw, hq, hcheck⟩ | ⟨w, hw, hq, hcheck⟩ |
    ⟨hw, hfull, hcheck⟩ | ⟨hw, hroom, hcheck⟩
  · rw [hcheck]
    refine h.same (.inl ?_) ?_
    · exact ((h.tracked r.1).mp (AList.lookup_isSome.mp (hw ▸ rfl))).1
    · intro peer _
      rw [haccepted, hcheck, if_neg (by simp), List.append_nil]
  · rw [hcheck]
    refine h.write (.inl (AList.lookup_isSome.mp (hw ▸ rfl))) hothers ?_
    rw [haccepted, hcheck, if_pos ⟨rfl, rfl⟩]
    exact (h.windows r.1 w hw).accept hq
  · rw [hcheck]
    have hcard : maxDedupPeers ≤ (receipts.map Prod.fst).toFinset.card := by
      rw [h.size] at hfull
      exact hfull.trans (Nat.min_le_right _ _)
    refine h.same (.inr hcard) ?_
    intro peer hpeer
    exact hothers peer fun heq => AList.lookup_eq_none.mp hw (heq ▸ hpeer)
  · rw [hcheck]
    have huntracked : r.1 ∉ node.receivedSeqs := AList.lookup_eq_none.mp hw
    refine h.write (.inr ⟨huntracked, hroom⟩) hothers ?_
    have hcard : (receipts.map Prod.fst).toFinset.card < maxDedupPeers := by
      rw [h.size] at hroom
      omega
    have hnew : r.1 ∉ receipts.map Prod.fst := fun hmem =>
      huntracked ((h.tracked r.1).mpr ⟨hmem, heardInTime_of_card hcard⟩)
    rw [haccepted, hcheck, if_pos ⟨rfl, rfl⟩, acceptedFrom_of_notMem hnew]
    exact .first hn

/-- What a node remembers after any stream. -/
theorem tracks_receiveSeqs (hn : 1 ≤ cfg.gossipDedupWindow) (hstart : start.receivedSeqs = ∅)
    (receipts : List (Addr × UInt32)) :
    Tracks cfg start receipts (receiveSeqs cfg start receipts) := by
  induction receipts using List.reverseRecOn with
  | nil => exact tracks_start hstart
  | append_singleton receipts r ih =>
    rw [receiveSeqs_concat]
    exact ih.step hn rfl

/-- A peer heard in time is taken at its window, the others are never recognized. -/
theorem Tracks.verdict (h : Tracks cfg start receipts node) (peer : Addr) (q : UInt32) :
    (HeardInTime receipts peer →
      ((isDuplicate cfg node peer q).2 = true ↔
        WithinLast cfg.gossipDedupWindow (acceptedFrom cfg peer start receipts) q)) ∧
      (¬HeardInTime receipts peer → (isDuplicate cfg node peer q).2 = false) := by
  rcases isDuplicate_cases cfg node peer q with ⟨w, hw, hq, hcheck⟩ | ⟨w, hw, hq, hcheck⟩ |
    ⟨hw, -, hcheck⟩ | ⟨hw, -, hcheck⟩
  · have hheard := ((h.tracked peer).mp (AList.lookup_isSome.mp (hw ▸ rfl))).2
    rw [hcheck, ← (h.windows peer w hw).mem_seqSet_iff]
    exact ⟨fun _ => by simp [hq], fun hlate => absurd hheard hlate⟩
  · rw [hcheck, ← (h.windows peer w hw).mem_seqSet_iff]
    exact ⟨fun _ => by simp [hq], fun _ => rfl⟩
  all_goals
    rw [hcheck]
    refine ⟨fun hheard => ?_, fun _ => rfl⟩
    have hnew : peer ∉ receipts.map Prod.fst := fun hmem =>
      AList.lookup_eq_none.mp hw ((h.tracked peer).mpr ⟨hmem, hheard⟩)
    rw [acceptedFrom_of_notMem hnew]
    simp [WithinLast]

/-- **Duplicates.** After any stream of numbers from any peers, the next number of a peer
is a duplicate exactly when it is among the last `gossip_dedup_window` distinct numbers
accepted from that peer, provided fewer than `MAX_DEDUP_PEERS` other peers were heard
before it; from a peer heard later nothing is a duplicate. Each window and its set hold
the same numbers, without repetition, and at most `gossip_dedup_window` of them. -/
theorem duplicate_iff_recent (hn : 1 ≤ cfg.gossipDedupWindow) (hstart : start.receivedSeqs = ∅)
    (receipts : List (Addr × UInt32)) (peer : Addr) (q : UInt32) :
    (HeardInTime receipts peer →
      ((isDuplicate cfg (receiveSeqs cfg start receipts) peer q).2 = true ↔
        WithinLast cfg.gossipDedupWindow (acceptedFrom cfg peer start receipts) q)) ∧
      (¬HeardInTime receipts peer →
        (isDuplicate cfg (receiveSeqs cfg start receipts) peer q).2 = false) ∧
      ∀ w, (receiveSeqs cfg start receipts).receivedSeqs.lookup peer = some w →
        (∀ n, n ∈ w.seqSet ↔ n ∈ w.window) ∧ w.window.Nodup ∧
          w.window.length ≤ cfg.gossipDedupWindow := by
  have htracks := tracks_receiveSeqs hn hstart receipts
  obtain ⟨hintime, hlate⟩ := htracks.verdict peer q
  refine ⟨hintime, hlate, fun w hw => ?_⟩
  have hwindow := htracks.windows peer w hw
  refine ⟨fun n => ?_, hwindow.nodup, hwindow.length_le⟩
  rw [hwindow.seqSet, List.mem_toFinset]

end Streams

/-- Receivers with the default options that know no peer yet. -/
def newReceiver : GossipNode ℕ := ⟨[], ∅, 0, ∅, ∅, false, true⟩

/-- A receiver that remembers two numbers per peer. -/
def windowOfTwo : GossipConfig := ⟨true, 2, 3, 100, false, false, false, false⟩

theorem duplicate_iff_recent_three :
    HeardInTime [((7 : ℕ), (1 : UInt32)), (7, 2), (8, 1), (7, 3)] 7 ∧
      (isDuplicate windowOfTwo
        (receiveSeqs windowOfTwo newReceiver [(7, 1), (7, 2), (8, 1), (7, 3)]) 7 2).2 = true ∧
      (isDuplicate windowOfTwo
        (receiveSeqs windowOfTwo newReceiver [(7, 1), (7, 2), (8, 1), (7, 3)]) 7 1).2 = false := by
  have hheard : HeardInTime [((7 : ℕ), (1 : UInt32)), (7, 2), (8, 1), (7, 3)] 7 := by
    simp [HeardInTime, maxDedupPeers]
  have hroom : 1 ≤ windowOfTwo.gossipDedupWindow := by decide
  have hnew : newReceiver.receivedSeqs = ∅ := rfl
  have hverdict := fun q =>
    (duplicate_iff_recent hroom hnew [(7, 1), (7, 2), (8, 1), (7, 3)] 7 q).1 hheard
  refine ⟨hheard, (hverdict 2).mpr ⟨[1], [3], by decide, by decide⟩, ?_⟩
  decide

/-- Ten thousand peers have sent a number each. -/
def fullHouse : List (ℕ × UInt32) := (List.range maxDedupPeers).map fun peer => (peer, 1)

theorem senders_fullHouse : fullHouse.map Prod.fst = List.range maxDedupPeers := by
  rw [fullHouse, List.map_map]
  exact List.map_id _

theorem not_heardInTime_fullHouse (more : List (ℕ × UInt32)) :
    ¬HeardInTime (fullHouse ++ more) maxDedupPeers := by
  have hothers : ∀ a ∈ List.range maxDedupPeers, decide (a ≠ maxDedupPeers) = true := by
    intro a ha
    exact decide_eq_true (List.mem_range.mp ha).ne
  rw [HeardInTime, List.map_append, senders_fullHouse, List.takeWhile_append_of_pos hothers,
    List.toFinset_append, not_lt]
  have hcard : (List.range maxDedupPeers).toFinset.card = maxDedupPeers := by
    rw [List.toFinset_card_of_nodup List.nodup_range, List.length_range]
  exact hcard.symm.le.trans (Finset.card_le_card Finset.subset_union_left)

/-- The next peer sends the number 1 twice, and the second one is not a duplicate. -/
theorem duplicate_not_recognized :
    ¬∀ (cfg : GossipConfig) (start : GossipNode ℕ) (receipts : List (ℕ × UInt32)) (peer : ℕ)
      (q : UInt32), 1 ≤ cfg.gossipDedupWindow → start.receivedSeqs = ∅ →
        ((isDuplicate cfg (receiveSeqs cfg start receipts) peer q).2 = true ↔
          WithinLast cfg.gossipDedupWindow (acceptedFrom cfg peer start receipts) q) := by
  intro hclaim
  have hverdict : ∀ more, (isDuplicate windowOfTwo
      (receiveSeqs windowOfTwo newReceiver (fullHouse ++ more)) maxDedupPeers 1).2 = false :=
    fun more => ((tracks_receiveSeqs (by decide) rfl _).verdict maxDedupPeers 1).2
      (not_heardInTime_fullHouse more)
  have hfirst := hverdict []
  rw [List.append_nil] at hfirst
  have hrecent : WithinLast windowOfTwo.gossipDedupWindow (acceptedFrom windowOfTwo maxDedupPeers
      newReceiver (fullHouse ++ [(maxDedupPeers, 1)])) 1 := by
    refine ⟨acceptedFrom windowOfTwo maxDedupPeers newReceiver fullHouse, [], ?_, by decide⟩
    rw [acceptedFrom_concat, if_pos ⟨rfl, hfirst⟩]
  have hsecond := (hclaim windowOfTwo newReceiver (fullHouse ++ [(maxDedupPeers, 1)])
    maxDedupPeers 1 (by decide) rfl).mpr hrecent
  rw [hverdict] at hsecond
  cases hsecond

end Ranvier
