import Ranvier.Registry

/-!
# Health checks and the dead set

A health check takes its time. What it finds is broadcast when it ends, whatever has become of
the backend meanwhile, and a shard puts the id into its dead set without a look at whether the
backend is still registered.

* `HealthNet` — the registry, with the checks that are under way;
* `DeadRegistered` — what is dead is registered, so no registration is born dead;
* `deadRegistered_iff_downs_known` — it holds in every state of a run exactly if every DOWN finds
  the backend registered on the shard that takes it.
-/

namespace Ranvier

/-- There is a shard 0. -/
local instance (priority := 2000) neZero_healthShards (n : ℕ) : NeZero (n + 1) :=
  ⟨Nat.succ_ne_zero n⟩

/-- The shards, and the backends whose check has begun and not ended. -/
structure HealthNet (n : ℕ) : Type where
  registry : Registry n
  checks : List BackendId := []

/-- What happens: anything on the registry but a change of status, and the health loop of
shard 0. -/
inductive CheckAction (n : ℕ) : Type where
  | registry (a : RegistryAction n)
  | beginChecks
  | verdict (id : BackendId) (isAlive : Bool)
  | failedCheck (id : BackendId)

namespace HealthNet

variable {n : ℕ}

/-- One action. A round of checks begins when the last one has ended; it checks the backends
that have an address on shard 0. A check that throws has no verdict. -/
def step (h : HealthNet n) : CheckAction n → Option (HealthNet n)
  | .registry (.setStatus _ _) => none
  | .registry a =>
    match h.registry.step a with
    | some net => some { h with registry := net }
    | none => none
  | .beginChecks =>
    if h.checks = [] then
      let s := h.registry.state 0
      some { h with checks := s.backendIds.filter fun id => (s.backends id).isSome }
    else none
  | .verdict id isAlive =>
    if id ∈ h.checks then
      match h.registry.step (.setStatus id isAlive) with
      | some net => some { registry := net, checks := h.checks.erase id }
      | none => none
    else none
  | .failedCheck id => if id ∈ h.checks then some { h with checks := h.checks.erase id } else none

/-- On this shard the ids in the dead set are registered. -/
def ShardSound (s : ShardRegistry) : Prop := ∀ id ∈ s.deadBackends, (s.backends id).isSome

/-- They are on every shard. -/
def DeadRegistered (h : HealthNet n) : Prop := ∀ i, ShardSound (h.registry.state i)

/-- A message that marks a backend dead finds it registered. -/
def Known (s : ShardRegistry) : RegistryMessage → Prop
  | .setStatus id false => (s.backends id).isSome
  | _ => True

/-- The condition on an action, in the state before it: if a verdict DOWN is news to shard 0,
the backend is registered there; and if a DOWN arrives, it is registered where it arrives. -/
def DownKnown (h : HealthNet n) : CheckAction n → Prop
  | .verdict id false =>
    id ∉ (h.registry.state 0).deadBackends → ((h.registry.state 0).backends id).isSome
  | .registry (.deliver sender receiver) =>
    ∀ m ∈ (h.registry.inFlight sender receiver).head?, Known (h.registry.state receiver) m
  | _ => True

instance (s : ShardRegistry) (m : RegistryMessage) : Decidable (Known s m) :=
  match m with
  | .setStatus id false => inferInstanceAs (Decidable ((s.backends id).isSome = true))
  | .setStatus _ true | .register _ _ | .unregister _ | .drain _ _ => .isTrue trivial

instance (h : HealthNet n) (a : CheckAction n) : Decidable (DownKnown h a) :=
  match a with
  | .verdict id false =>
    inferInstanceAs (Decidable (id ∉ (h.registry.state 0).deadBackends →
      ((h.registry.state 0).backends id).isSome = true))
  | .registry (.deliver sender receiver) =>
    inferInstanceAs (Decidable (∀ m ∈ (h.registry.inFlight sender receiver).head?,
      Known (h.registry.state receiver) m))
  | .verdict _ true | .beginChecks | .failedCheck _ | .registry (.register _ _ _)
  | .registry (.unregister _ _) | .registry (.drain _ _ _) | .registry (.setStatus _ _)
  | .registry (.runDrainingReaper _) | .registry (.guard _ _) => .isTrue trivial

/-! ## One shard -/

theorem shardSound_iff_view {s : ShardRegistry} :
    ShardSound s ↔ ∀ id, (s.viewOf id).dead = true → (s.viewOf id).record.isSome := by
  simp [ShardSound, ShardRegistry.viewOf]

theorem ShardSound.guard {s : ShardRegistry} (h : ShardSound s)
    (a : ShardRegistry.GuardAction) : ShardSound (s.guard a) := by
  rw [shardSound_iff_view] at h ⊢
  intro id
  rw [s.viewOf_guard a]
  exact h id

/-- A message leaves a shard sound, unless it marks dead what is not registered. -/
theorem ShardSound.apply_iff {s : ShardRegistry} (h : ShardSound s) (m : RegistryMessage) :
    ShardSound (m.apply s) ↔ Known s m := by
  rw [shardSound_iff_view] at h ⊢
  constructor
  · intro happly
    cases m with
    | setStatus target isAlive =>
      cases isAlive with
      | true => trivial
      | false =>
        have hdead := happly target
        rw [RegistryMessage.viewOf_apply] at hdead
        simpa [RegistryMessage.applyView, RegistryMessage.backend, ShardRegistry.viewOf, Known]
          using hdead
    | register | unregister | drain => trivial
  · intro hknown id
    rw [RegistryMessage.viewOf_apply]
    unfold RegistryMessage.applyView
    split
    · next hid =>
      cases m with
      | register target r => simp
      | unregister target => simp
      | drain target now => simpa using h id
      | setStatus target isAlive =>
        have htarget : target = id := hid
        subst htarget
        cases isAlive with
        | true => simp
        | false => simpa [ShardRegistry.viewOf, Known] using hknown
    · exact h id

/-! ## All shards -/

variable {h h' : HealthNet n}

theorem DeadRegistered.issue_iff {net : Registry n} {checks : List BackendId}
    (hsound : DeadRegistered ⟨net, checks⟩) (k : Fin (n + 1)) (m : RegistryMessage)
    (checks' : List BackendId) :
    DeadRegistered ⟨net.issue RegistryMessage.apply k m, checks'⟩ ↔ Known (net.state k) m := by
  rw [← ShardSound.apply_iff (hsound k) m]
  constructor
  · intro hnext
    have hk := hnext k
    simpa only [Network.issue, Function.update_self] using hk
  · intro happly i
    by_cases hik : i = k
    · subst hik
      simpa only [Network.issue, Function.update_self] using happly
    · simpa only [Network.issue, Function.update_of_ne hik] using hsound i

theorem DeadRegistered.issueAll {net : Registry n} {checks checks' : List BackendId}
    {messages : List RegistryMessage} (hsound : DeadRegistered ⟨net, checks⟩) (k : Fin (n + 1))
    (hknown : ∀ m ∈ messages, ∀ s, Known s m) :
    DeadRegistered ⟨net.issueAll k messages, checks'⟩ := by
  induction messages generalizing net with
  | nil => exact hsound
  | cons m messages ih =>
    rw [List.forall_mem_cons] at hknown
    exact ih ((hsound.issue_iff k m checks).mpr (hknown.1 _)) hknown.2

theorem DeadRegistered.deliver_iff {net net' : Registry n} {checks : List BackendId}
    (hsound : DeadRegistered ⟨net, checks⟩) {sender receiver : Fin (n + 1)}
    (hdeliver : net.deliver RegistryMessage.apply sender receiver = some net') :
    DeadRegistered ⟨net', checks⟩ ↔
      ∀ m ∈ (net.inFlight sender receiver).head?, Known (net.state receiver) m := by
  rw [Network.deliver] at hdeliver
  split at hdeliver
  · cases hdeliver
  · next m rest hhead =>
    obtain rfl := Option.some.inj hdeliver
    rw [hhead, List.head?_cons]
    constructor
    · intro hnext m' hm'
      obtain rfl := Option.some.inj hm'
      have hreceiver := hnext receiver
      rw [← ShardSound.apply_iff (hsound receiver) m]
      simpa only [Function.update_self] using hreceiver
    · intro hknown i
      by_cases hi : i = receiver
      · subst hi
        have happly := (ShardSound.apply_iff (hsound i) m).mpr (hknown m rfl)
        simpa only [Function.update_self] using happly
      · simpa only [Function.update_of_ne hi] using hsound i

/-- A verdict is broadcast if it is news to shard 0. -/
theorem DeadRegistered.verdict_iff {net net' : Registry n} {checks checks' : List BackendId}
    (hsound : DeadRegistered ⟨net, checks⟩) {id : BackendId} {isAlive : Bool}
    (hstep : net.step (.setStatus id isAlive) = some net') :
    DeadRegistered ⟨net', checks'⟩ ↔
      (isAlive = false → id ∉ (net.state 0).deadBackends → ((net.state 0).backends id).isSome) := by
  obtain rfl := Option.some.inj hstep
  simp only [Registry.issued]
  split
  · next hnews =>
    refine (hsound.issue_iff 0 (.setStatus id isAlive) checks').trans ?_
    cases isAlive with
    | true => simp [Known]
    | false =>
      have hdead : id ∉ (net.state 0).deadBackends := by simpa using hnews
      simp [Known, hdead]
  · next hnews =>
    refine iff_of_true hsound ?_
    rintro rfl hdead
    exact absurd (by simpa using hdead) hnews

/-- Nothing but a status marks a backend dead. -/
theorem known_of_issued {net : Registry n} {a : RegistryAction n}
    (ha : ∀ id isAlive, a ≠ .setStatus id isAlive) :
    ∀ m ∈ (net.issued a).2, ∀ s, Known s m := by
  cases a with
  | setStatus id isAlive => exact absurd rfl (ha id isAlive)
  | drain shard id now =>
    simp only [Registry.issued]
    split
    · simp [Known]
    · simp
  | runDrainingReaper now =>
    intro m hm s
    obtain ⟨id, -, rfl⟩ := List.mem_map.mp hm
    trivial
  | register | unregister | deliver | guard => simp [Registry.issued, Known]

/-- What each action does to the soundness of the shards. -/
theorem deadRegistered_step {a : CheckAction n} (hsound : DeadRegistered h)
    (hstep : h.step a = some h') : DeadRegistered h' ↔ DownKnown h a := by
  cases a with
  | beginChecks =>
    rw [step] at hstep
    split at hstep
    · obtain rfl := Option.some.inj hstep
      exact iff_of_true hsound trivial
    · cases hstep
  | failedCheck id =>
    rw [step] at hstep
    split at hstep
    · obtain rfl := Option.some.inj hstep
      exact iff_of_true hsound trivial
    · cases hstep
  | verdict id isAlive =>
    rw [step] at hstep
    split at hstep
    · split at hstep
      · next net hnet =>
        obtain rfl := Option.some.inj hstep
        refine (DeadRegistered.verdict_iff hsound hnet).trans ?_
        cases isAlive with
        | true => simp [DownKnown]
        | false => simp [DownKnown]
      · cases hstep
    · cases hstep
  | registry a =>
    cases a with
    | setStatus => cases hstep
    | deliver sender receiver =>
      rw [step] at hstep
      · split at hstep
        · next net hnet =>
          obtain rfl := Option.some.inj hstep
          exact DeadRegistered.deliver_iff hsound hnet
        · cases hstep
      · nofun
    | guard shard g =>
      obtain rfl := Option.some.inj hstep
      refine iff_of_true (fun i => ?_) trivial
      by_cases hi : i = shard
      · subst hi
        simpa only [Network.alter, Function.update_self] using (hsound i).guard g
      · simpa only [Network.alter, Function.update_of_ne hi] using hsound i
    | register _ _ _ | unregister _ _ | drain _ _ _ | runDrainingReaper _ =>
      obtain rfl := Option.some.inj hstep
      exact iff_of_true (DeadRegistered.issueAll hsound _ (known_of_issued nofun)) trivial

/-- What is dead is registered, and what is newly registered is not dead. -/
structure NoneBornDead (h : HealthNet n) : Prop where
  dead : DeadRegistered h
  born : ∀ i id r, (h.registry.state i).backends id = none →
    id ∉ ((h.registry.state i).registerBackend id r).deadBackends

theorem noneBornDead_iff : NoneBornDead h ↔ DeadRegistered h := by
  refine ⟨NoneBornDead.dead, fun hsound => ⟨hsound, fun i id r hnone hdead => ?_⟩⟩
  have hsome := hsound i id hdead
  rw [hnone] at hsome
  cases hsome

/-- The shards as they start; no check has begun. -/
def booted (n : ℕ) : HealthNet n := ⟨Registry.booted n, []⟩

/-- **Dead backends are registered, as long as no DOWN comes too late.** Whatever the order of
checks, registrations and removals on any number of shards: that every dead backend is registered
on each shard, and none is born dead, holds in every state exactly if every DOWN finds its
backend registered on the shard that takes it. -/
theorem deadRegistered_iff_downs_known {run : List (CheckAction n)}
    (hexec : exec step (booted n) run = some h) :
    Throughout step NoneBornDead (booted n) run ↔ Meets step DownKnown (booted n) run := by
  refine throughout_iff_meets ?_ hexec ?_
  · intro s a s' hs hstep
    rw [noneBornDead_iff] at hs ⊢
    exact deadRegistered_step hs hstep
  · rw [noneBornDead_iff]
    intro i id hdead
    cases hdead

/-- A check that ends before the backend is removed, on two shards. -/
def checkedInTime : List (CheckAction 1) :=
  [.registry (.register Registry.shardOne 7 { addr := 101 }),
    .registry (.deliver Registry.shardOne Registry.shardZero), .beginChecks, .verdict 7 false,
    .registry (.deliver Registry.shardZero Registry.shardOne),
    .registry (.unregister Registry.shardOne 7),
    .registry (.deliver Registry.shardOne Registry.shardZero),
    .registry (.register Registry.shardZero 7 { addr := 102 })]

theorem deadRegistered_iff_downs_known_inTime :
    Throughout step NoneBornDead (booted 1) checkedInTime := by
  have hsome : (exec step (booted 1) checkedInTime).isSome := by decide +kernel
  exact (deadRegistered_iff_downs_known (exec_eq_some_getD hsome)).mpr (by decide +kernel)

/-- The backend is removed while it is checked, and registered again afterwards. -/
def checkedTooLate : List (CheckAction 1) :=
  [.registry (.register Registry.shardZero 7 { addr := 101 }),
    .registry (.deliver Registry.shardZero Registry.shardOne), .beginChecks,
    .registry (.unregister Registry.shardZero 7),
    .registry (.deliver Registry.shardZero Registry.shardOne), .verdict 7 false,
    .registry (.deliver Registry.shardZero Registry.shardOne),
    .registry (.register Registry.shardZero 7 { addr := 101 }),
    .registry (.deliver Registry.shardZero Registry.shardOne)]

/-- Before the second registration the id is dead and not registered; after it the new backend
is dead on both shards, though nobody has checked it. -/
theorem checkedTooLate_bornDead :
    (∃ h, exec step (booted 1) (checkedTooLate.take 6) = some h ∧
      7 ∈ (h.registry.state 0).deadBackends ∧ ((h.registry.state 0).backends 7).isNone) ∧
    ∃ h, exec step (booted 1) checkedTooLate = some h ∧
      7 ∈ (h.registry.state 0).deadBackends ∧ 7 ∈ (h.registry.state 1).deadBackends ∧
        ((h.registry.state 0).backends 7).isSome := by
  have hfirst : (exec step (booted 1) (checkedTooLate.take 6)).isSome := by decide +kernel
  have hall : (exec step (booted 1) checkedTooLate).isSome := by decide +kernel
  exact ⟨⟨_, exec_eq_some_getD hfirst, by decide +kernel, by decide +kernel⟩,
    ⟨_, exec_eq_some_getD hall, by decide +kernel, by decide +kernel, by decide +kernel⟩⟩

end HealthNet

end Ranvier
