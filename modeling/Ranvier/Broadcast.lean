import Mathlib.Data.List.Basic
import Mathlib.Logic.Function.Basic

/-!
# Broadcasts over ordered channels

Parties share a replicated state. Whoever issues a message applies it to its own
copy at once and sends it to everyone else; each pair of parties has a channel
of its own that keeps the order, and nothing orders two channels.

Two copies may see the messages of different senders in different orders, so
they agree in the end only if the messages that cross do not interfere:

* `Linearizes` — an order in which the pending messages of one receiver may arrive;
* `Network.Settles` — every order of arrival, at every receiver, ends in the same view;
* `Network.Clear` — a message commutes with all that others have in flight;
* `Settles.issue`, `Settles.deliver`, `Settles.alter` — what keeps a network settling;
* `Settles.agree` — once nothing is in flight, all parties have that view.
-/

namespace Ranvier

universe u v w

variable {ι : Type u} {M : Type v}

section Linearizes

variable [DecidableEq ι]

/-- The messages of the channels `c`, each channel in order. -/
inductive Linearizes : (ι → List M) → List M → Prop
  | done {c : ι → List M} (empty : ∀ k, c k = []) : Linearizes c []
  | next {c : ι → List M} {k : ι} {m : M} {rest order : List M} (head : c k = m :: rest)
      (behind : Linearizes (Function.update c k rest) order) : Linearizes c (m :: order)

theorem Linearizes.mem {c : ι → List M} {order : List M} (h : Linearizes c order) {m : M}
    (hm : m ∈ order) : ∃ k, m ∈ c k := by
  induction h with
  | done _ => cases hm
  | @next c k x rest order head _ ih =>
    rcases List.mem_cons.mp hm with rfl | hm
    · exact ⟨k, by rw [head]; exact List.mem_cons_self⟩
    · obtain ⟨j, hj⟩ := ih hm
      refine ⟨j, ?_⟩
      by_cases hjk : j = k
      · subst hjk
        rw [Function.update_self] at hj
        rw [head]
        exact List.mem_cons_of_mem _ hj
      · rwa [Function.update_of_ne hjk] at hj

/-- **A new last message.** In any order of arrival that has it, what comes
behind it was sent by others, and without it the order is one of the channels
as they were. -/
theorem Linearizes.split {c : ι → List M} {k : ι} {m : M} {order : List M}
    (h : Linearizes (Function.update c k (c k ++ [m])) order) :
    ∃ before behind, order = before ++ m :: behind ∧ Linearizes c (before ++ behind) ∧
      ∀ x ∈ behind, ∃ j ≠ k, x ∈ c j := by
  generalize hc : Function.update c k (c k ++ [m]) = c' at h
  induction h generalizing c with
  | done empty =>
    subst hc
    have hk := empty k
    rw [Function.update_self] at hk
    exact absurd hk (by simp)
  | @next _ j x rest order head behind ih =>
    subst hc
    by_cases hjk : j = k
    · subst hjk
      rw [Function.update_self] at head
      cases hcj : c j with
      | nil =>
        -- the new message arrives: its channel has no other
        rw [hcj, List.nil_append, List.cons.injEq] at head
        obtain ⟨rfl, rfl⟩ := head
        rw [Function.update_idem, ← hcj, Function.update_eq_self] at behind
        refine ⟨[], order, rfl, behind, ?_⟩
        intro y hy
        obtain ⟨i, hi⟩ := behind.mem hy
        refine ⟨i, ?_, hi⟩
        rintro rfl
        rw [hcj] at hi
        cases hi
      | cons y ys =>
        rw [hcj, List.cons_append, List.cons.injEq] at head
        obtain ⟨rfl, rfl⟩ := head
        obtain ⟨before, after, rfl, hlin, hothers⟩ :=
          ih (c := Function.update c j ys) (by rw [Function.update_self]; simp)
        refine ⟨y :: before, after, rfl, .next hcj hlin, ?_⟩
        intro z hz
        obtain ⟨i, hij, hi⟩ := hothers z hz
        rw [Function.update_of_ne hij] at hi
        exact ⟨i, hij, hi⟩
    · rw [Function.update_of_ne hjk] at head
      have hkj : k ≠ j := fun h => hjk h.symm
      obtain ⟨before, after, rfl, hlin, hothers⟩ :=
        ih (c := Function.update c j rest)
          (by rw [Function.update_of_ne hkj, Function.update_comm hjk])
      refine ⟨x :: before, after, rfl, .next head hlin, ?_⟩
      intro z hz
      obtain ⟨i, hik, hi⟩ := hothers z hz
      refine ⟨i, hik, ?_⟩
      by_cases hij : i = j
      · subst hij
        rw [Function.update_self] at hi
        rw [head]
        exact List.mem_cons_of_mem _ hi
      · rwa [Function.update_of_ne hij] at hi

end Linearizes

/-! ## Networks -/

variable {σ : Type w}

/-- The copies and the channels, sender first. Nobody sends to itself. -/
structure Network (ι : Type u) (σ : Type w) (M : Type v) : Type (max u v w) where
  state : ι → σ
  inFlight : ι → ι → List M
  self_empty : ∀ k, inFlight k k = []

namespace Network

/-- Nothing is in flight. -/
def Quiet (net : Network ι σ M) : Prop := ∀ k i, net.inFlight k i = []

variable [DecidableEq ι] (act : M → σ → σ) (net : Network ι σ M)

/-- `k` applies the message and sends it to the others. -/
def issue (k : ι) (m : M) : Network ι σ M where
  state := Function.update net.state k (act m (net.state k))
  inFlight j i := if j = k ∧ i ≠ k then net.inFlight j i ++ [m] else net.inFlight j i
  self_empty j := by
    rw [if_neg (by rintro ⟨rfl, h⟩; exact h rfl)]
    exact net.self_empty j

/-- The head of the channel from `k` arrives at `i`. -/
def deliver (k i : ι) : Option (Network ι σ M) :=
  match net.inFlight k i with
  | [] => none
  | m :: _ =>
    some
      { state := Function.update net.state i (act m (net.state i))
        inFlight := fun j l =>
          if j = k ∧ l = i then (net.inFlight j l).tail else net.inFlight j l
        self_empty := by
          intro j
          split <;> simp [net.self_empty j] }

/-- `i` changes its copy without telling anyone. -/
def alter (i : ι) (s : σ) : Network ι σ M :=
  { net with state := Function.update net.state i s }

variable {V : Type w} (view : σ → V) (actView : M → V → V)

/-- Whatever order the pending messages arrive in, the view they end in is `v`
at every party. -/
def Settles (v : V) : Prop :=
  ∀ i order, Linearizes (fun k => net.inFlight k i) order →
    order.foldl (fun v m => actView m v) (view (net.state i)) = v

/-- The message commutes with all that the other parties have in flight. -/
def Clear (k : ι) (m : M) : Prop :=
  ∀ j ≠ k, ∀ i, ∀ m' ∈ net.inFlight j i, ∀ v, actView m (actView m' v) = actView m' (actView m v)

variable {net act view actView}

/-- A message that commutes with each of the list moves behind them. -/
theorem foldl_act_comm {m : M} {order : List M}
    (h : ∀ m' ∈ order, ∀ v, actView m (actView m' v) = actView m' (actView m v)) (v : V) :
    order.foldl (fun v m => actView m v) (actView m v) =
      actView m (order.foldl (fun v m => actView m v) v) := by
  induction order generalizing v with
  | nil => rfl
  | cons x order ih =>
    rw [List.foldl_cons, List.foldl_cons, ← h x List.mem_cons_self v]
    exact ih (fun m' hm' => h m' (List.mem_cons_of_mem _ hm')) (actView x v)

section Keeps

variable (hview : ∀ m s, view (act m s) = actView m (view s)) {v : V}

include hview

theorem Settles.issue {k : ι} {m : M} (hsettles : net.Settles view actView v)
    (hclear : net.Clear actView k m) : (net.issue act k m).Settles view actView (actView m v) := by
  intro i order horder
  by_cases hik : i = k
  · -- at the sender the message comes before all that is pending there
    subst hik
    have hsame : (fun j => (net.issue act i m).inFlight j i) = fun j => net.inFlight j i := by
      funext j
      exact if_neg fun h => h.2 rfl
    rw [hsame] at horder
    have hothers : ∀ m' ∈ order, ∀ v, actView m (actView m' v) = actView m' (actView m v) := by
      intro m' hm'
      obtain ⟨j, hj⟩ := horder.mem hm'
      refine hclear j ?_ i m' hj
      rintro rfl
      rw [net.self_empty j] at hj
      cases hj
    show order.foldl _ (view (Function.update net.state i _ i)) = _
    rw [Function.update_self, hview, foldl_act_comm hothers, hsettles i order horder]
  · have hnew : (fun j => (net.issue act k m).inFlight j i) =
        Function.update (fun j => net.inFlight j i) k (net.inFlight k i ++ [m]) := by
      funext j
      by_cases hjk : j = k
      · subst hjk
        rw [Function.update_self]
        exact if_pos ⟨rfl, hik⟩
      · rw [Function.update_of_ne hjk]
        exact if_neg fun h => hjk h.1
    rw [hnew] at horder
    obtain ⟨before, behind, rfl, hlin, hothers⟩ := horder.split
    have hbehind : ∀ m' ∈ behind, ∀ v, actView m (actView m' v) = actView m' (actView m v) := by
      intro m' hm'
      obtain ⟨j, hjk, hj⟩ := hothers m' hm'
      exact hclear j hjk i m' hj
    show (before ++ m :: behind).foldl _ (view (Function.update net.state k _ i)) = _
    rw [Function.update_of_ne hik, List.foldl_append, List.foldl_cons, foldl_act_comm hbehind,
      ← List.foldl_append, hsettles i _ hlin]

theorem Settles.deliver {k i : ι} {net' : Network ι σ M} (hsettles : net.Settles view actView v)
    (h : net.deliver act k i = some net') : net'.Settles view actView v := by
  rw [Network.deliver] at h
  split at h
  · cases h
  · next m rest hhead =>
    obtain rfl := Option.some.inj h
    intro l order horder
    by_cases hli : l = i
    · -- an order of what is left, behind the message, is an order of what was pending
      subst hli
      have hleft : (fun j => if j = k ∧ l = l then (net.inFlight j l).tail else net.inFlight j l) =
          Function.update (fun j => net.inFlight j l) k rest := by
        funext j
        by_cases hjk : j = k
        · subst hjk
          rw [if_pos ⟨rfl, rfl⟩, Function.update_self, hhead, List.tail_cons]
        · rw [if_neg fun h => hjk h.1, Function.update_of_ne hjk]
      have hbefore := hsettles l (m :: order) (.next hhead (hleft ▸ horder))
      show order.foldl _ (view (Function.update net.state l _ l)) = v
      rwa [Function.update_self, hview]
    · have hsame : (fun j => if j = k ∧ l = i then (net.inFlight j l).tail
          else net.inFlight j l) = fun j => net.inFlight j l := by
        funext j
        exact if_neg fun h => hli h.2
      show order.foldl _ (view (Function.update net.state i _ l)) = v
      rw [Function.update_of_ne hli]
      exact hsettles l order (hsame ▸ horder)

end Keeps

theorem Settles.alter {v : V} {i : ι} {s : σ} (hsettles : net.Settles view actView v)
    (h : view s = view (net.state i)) : (net.alter i s).Settles view actView v := by
  intro l order horder
  have hsame : view ((net.alter i s).state l) = view (net.state l) := by
    show view (Function.update net.state i s l) = _
    by_cases hli : l = i
    · subst hli
      rw [Function.update_self, h]
    · rw [Function.update_of_ne hli]
  rw [hsame]
  exact hsettles l order horder

/-- A quiet network whose parties agree settles. -/
theorem settles_of_agree {v : V} (hquiet : net.Quiet) (hagree : ∀ i, view (net.state i) = v) :
    net.Settles view actView v := by
  intro i order horder
  cases horder with
  | done _ => exact hagree i
  | @next _ k _ _ _ head _ =>
    exact absurd ((hquiet k i).symm.trans head) (by simp)

/-- **Agreement.** A settling network with nothing in flight has one view. -/
theorem Settles.agree {v : V} (hsettles : net.Settles view actView v) (hquiet : net.Quiet) (i : ι) :
    view (net.state i) = v :=
  hsettles i [] (.done fun k => hquiet k i)

end Network

end Ranvier
