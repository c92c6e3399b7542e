import Mathlib.Data.List.Basic

/-!
# Reading a text that comes in fragments

A reader looks at the front of a text and finds an item there, or that the front is
malformed, or that it needs more. What it makes of a whole text does not depend on how the
text is cut, as long as nobody stops it in the middle of an item:

* `TextReader` — one step of reading, with the laws that make it incremental;
* `readAll` — reading a whole text; `readAll_append` — reading on where a part has ended;
* `Reading.Within` — bounds on the items that were read and on the tail that is left;
* `exists_cut_over` — an item beyond a bound is cut somewhere beyond it, too;
* `pieces` — the cut between the items.
-/

namespace Ranvier

universe u v w

variable {σ : Type u} {α : Type v} {β : Type w}

/-- What a reader makes of the front of a text. -/
inductive ReadStep (σ : Type u) (β : Type w) : Type (max u w) where
  /-- the front is not enough -/
  | needMore
  /-- the front is no item and no beginning of one -/
  | malformed
  /-- an item of `len` characters with what it stands for; `none` ends the text -/
  | item (len : ℕ) (out : List β) (next : Option σ)

/-- A reader with its laws. -/
structure TextReader (σ : Type u) (α : Type v) (β : Type w) : Type (max u v w) where
  /-- one step -/
  read : σ → List α → ReadStep σ β
  /-- an item is not empty and lies within the text -/
  item_length : ∀ {s l len out next}, read s l = .item len out next → 0 < len ∧ len ≤ l.length
  /-- an item stays what it is whatever follows it -/
  item_front : ∀ {s l len out next} (m : List α), read s l = .item len out next →
    read s (l.take len ++ m) = .item len out next
  /-- malformed text stays malformed -/
  malformed_append : ∀ {s l} (m : List α), read s l = .malformed → read s (l ++ m) = .malformed
  /-- a part of an item is not enough -/
  item_take : ∀ {s l len out next} {k : ℕ}, read s l = .item len out next → k < len →
    read s (l.take k) = .needMore

/-- How reading a text ends. -/
inductive Ending (σ : Type u) (α : Type v) : Type (max u v) where
  /-- in the state `s`, before the end of an item that starts with `tail` -/
  | waiting (s : σ) (tail : List α)
  /-- at malformed text -/
  | malformed
  /-- behind the last item -/
  | ended

/-- What reading a text gives. -/
structure Reading (σ : Type u) (α : Type v) (β : Type w) : Type (max u v w) where
  /-- the items, each by the state it was read in and its length -/
  items : List (σ × ℕ)
  /-- what the items stand for -/
  out : List β
  /-- how it ended -/
  ending : Ending σ α

/-- The same reading after some items. -/
def Reading.after (items : List (σ × ℕ)) (out : List β) (g : Reading σ α β) : Reading σ α β :=
  ⟨items ++ g.items, out ++ g.out, g.ending⟩

/-- The items satisfy `okItem` and what is left of the text `okTail`. -/
def Reading.Within (okItem okTail : σ → ℕ → Prop) (g : Reading σ α β) : Prop :=
  (∀ x ∈ g.items, okItem x.1 x.2) ∧
    match g.ending with
    | .waiting s tail => okTail s tail.length
    | .malformed => False
    | .ended => True

theorem Reading.Within.of_after {okItem okTail : σ → ℕ → Prop} {items : List (σ × ℕ)}
    {out : List β} {g : Reading σ α β} (h : (g.after items out).Within okItem okTail) :
    (∀ x ∈ items, okItem x.1 x.2) ∧ g.Within okItem okTail :=
  ⟨fun x hx => h.1 x (List.mem_append_left _ hx),
    fun x hx => h.1 x (List.mem_append_right _ hx), h.2⟩

theorem Reading.Within.after {okItem okTail : σ → ℕ → Prop} {items : List (σ × ℕ)}
    {g : Reading σ α β} (h : g.Within okItem okTail) (hitems : ∀ x ∈ items, okItem x.1 x.2)
    (out : List β) : (g.after items out).Within okItem okTail := by
  refine ⟨fun x hx => ?_, h.2⟩
  rcases List.mem_append.mp hx with hx | hx
  · exact hitems x hx
  · exact h.1 x hx

namespace TextReader

variable (r : TextReader σ α β)

/-- Reading a whole text from the state `s`. -/
def readAll (s : σ) (l : List α) : Reading σ α β :=
  match _h : r.read s l with
  | .needMore => ⟨[], [], .waiting s l⟩
  | .malformed => ⟨[], [], .malformed⟩
  | .item len out none => ⟨[(s, len)], out, .ended⟩
  | .item len out (some next) => (readAll next (l.drop len)).after [(s, len)] out
termination_by l.length
decreasing_by
  obtain ⟨hpos, hle⟩ := r.item_length _h
  rw [List.length_drop]
  omega

/-- The text cut behind each item. -/
def pieces (s : σ) (l : List α) : List (List α) :=
  match _h : r.read s l with
  | .needMore => [l]
  | .malformed => [l]
  | .item len _ none => [l.take len, l.drop len]
  | .item len _ (some next) => l.take len :: pieces next (l.drop len)
termination_by l.length
decreasing_by
  obtain ⟨hpos, hle⟩ := r.item_length _h
  rw [List.length_drop]
  omega

variable {r} {s : σ} {l : List α} {len : ℕ} {out : List β}

theorem item_append {next : Option σ} (m : List α) (h : r.read s l = .item len out next) :
    r.read s (l ++ m) = .item len out next := by
  have hfront := r.item_front (l.drop len ++ m) h
  rwa [← List.append_assoc, List.take_append_drop] at hfront

/-- The item alone. -/
theorem read_take {next : Option σ} (h : r.read s l = .item len out next) :
    r.read s (l.take len) = .item len out next ∧ (l.take len).length = len := by
  have hfront := r.item_front [] h
  rw [List.append_nil] at hfront
  refine ⟨hfront, ?_⟩
  rw [List.length_take]
  exact Nat.min_eq_left (r.item_length h).2

theorem readAll_needMore (h : r.read s l = .needMore) :
    r.readAll s l = ⟨[], [], .waiting s l⟩ := by
  rw [readAll]
  split <;> simp_all

theorem readAll_malformed (h : r.read s l = .malformed) :
    r.readAll s l = ⟨[], [], .malformed⟩ := by
  rw [readAll]
  split <;> simp_all

theorem readAll_last (h : r.read s l = .item len out none) :
    r.readAll s l = ⟨[(s, len)], out, .ended⟩ := by
  rw [readAll]
  split <;> simp_all

theorem readAll_item {next : σ} (h : r.read s l = .item len out (some next)) :
    r.readAll s l = (r.readAll next (l.drop len)).after [(s, len)] out := by
  rw [readAll]
  split <;> simp_all

/-- **Induction** along a reading. -/
theorem readAll_induct (r : TextReader σ α β) {P : σ → List α → Prop}
    (needMore : ∀ s l, r.read s l = .needMore → P s l)
    (malformed : ∀ s l, r.read s l = .malformed → P s l)
    (last : ∀ s l len out, r.read s l = .item len out none → P s l)
    (item : ∀ s l len out next, r.read s l = .item len out (some next) →
      P next (l.drop len) → P s l) (s : σ) (l : List α) : P s l := by
  induction hn : l.length using Nat.strongRecOn generalizing s l with
  | ind n ih =>
    cases h : r.read s l with
    | needMore => exact needMore s l h
    | malformed => exact malformed s l h
    | item len out next =>
      obtain ⟨hpos, hle⟩ := r.item_length h
      cases next with
      | none => exact last s l len out h
      | some next =>
        refine item s l len out next h (ih (l.length - len) (by omega) next _ ?_)
        rw [List.length_drop]

/-- What is left waits for more. -/
theorem read_tail {s' : σ} {tail : List α} (h : (r.readAll s l).ending = .waiting s' tail) :
    r.read s' tail = .needMore := by
  induction s, l using r.readAll_induct with
  | needMore s l hr =>
    rw [readAll_needMore hr] at h
    obtain ⟨rfl, rfl⟩ := Ending.waiting.inj h
    exact hr
  | malformed s l hr =>
    rw [readAll_malformed hr] at h
    cases h
  | last s l len out hr =>
    rw [readAll_last hr] at h
    cases h
  | item s l len out next hr ih =>
    rw [readAll_item hr] at h
    exact ih h

/-- **Reading on.** Where a part of the text has left a tail, reading the whole goes on with
the tail and the rest; otherwise the rest is not looked at. -/
theorem readAll_append (r : TextReader σ α β) (s : σ) (l m : List α) :
    r.readAll s (l ++ m) =
      match (r.readAll s l).ending with
      | .waiting s' tail =>
        (r.readAll s' (tail ++ m)).after (r.readAll s l).items (r.readAll s l).out
      | .malformed => r.readAll s l
      | .ended => r.readAll s l := by
  induction s, l using r.readAll_induct with
  | needMore s l hr =>
    rw [readAll_needMore hr]
    rfl
  | malformed s l hr =>
    rw [readAll_malformed hr, readAll_malformed (r.malformed_append m hr)]
  | last s l len out hr =>
    rw [readAll_last hr, readAll_last (item_append m hr)]
  | item s l len out next hr ih =>
    obtain ⟨-, hle⟩ := r.item_length hr
    rw [readAll_item hr, readAll_item (item_append m hr), List.drop_append_of_le_length hle, ih]
    generalize r.readAll next (l.drop len) = g
    obtain ⟨items, out', ending⟩ := g
    cases ending with
    | waiting s' tail =>
      simp only [Reading.after, List.append_assoc]
    | malformed => rfl
    | ended => rfl

/-- Items and tail lie within the text. -/
theorem readAll_length (r : TextReader σ α β) (s : σ) (l : List α) :
    (∀ x ∈ (r.readAll s l).items, x.2 ≤ l.length) ∧
      ∀ s' tail, (r.readAll s l).ending = .waiting s' tail → tail.length ≤ l.length := by
  induction s, l using r.readAll_induct with
  | needMore s l hr =>
    rw [readAll_needMore hr]
    refine ⟨fun x hx => absurd hx List.not_mem_nil, fun s' tail h => ?_⟩
    exact Nat.le_of_eq (congrArg List.length (Ending.waiting.inj h).2.symm)
  | malformed s l hr =>
    rw [readAll_malformed hr]
    exact ⟨fun x hx => absurd hx List.not_mem_nil, fun s' tail h => by cases h⟩
  | last s l len out hr =>
    rw [readAll_last hr]
    refine ⟨fun x hx => ?_, fun s' tail h => by cases h⟩
    rw [List.mem_singleton.mp hx]
    exact (r.item_length hr).2
  | item s l len out next hr ih =>
    rw [readAll_item hr]
    obtain ⟨hitems, htail⟩ := ih
    rw [List.length_drop] at hitems htail
    refine ⟨fun x hx => ?_, fun s' tail h => ?_⟩
    · rcases List.mem_cons.mp hx with rfl | hx
      · exact (r.item_length hr).2
      · have := hitems x hx
        omega
    · have := htail s' tail h
      omega

/-- A part of an item that is within a bound is within it. -/
theorem ok_of_needMore {ok : σ → ℕ → Prop} (hok : ∀ s m n, m ≤ n → ok s n → ok s m)
    (hread : r.read s l = .needMore) {m : List α}
    (h : (r.readAll s (l ++ m)).Within (fun s len => ok s (len - 1)) ok) : ok s l.length := by
  cases hr : r.read s (l ++ m) with
  | needMore =>
    rw [readAll_needMore hr] at h
    refine hok s _ _ ?_ h.2
    rw [List.length_append]
    exact Nat.le_add_right _ _
  | malformed =>
    rw [readAll_malformed hr] at h
    exact absurd h.2 id
  | item len out next =>
    -- the item ends behind the part, which would have been enough otherwise
    have hlong : l.length < len := by
      by_contra hshort
      have hfront := r.item_front (l.drop len) hr
      rw [List.take_append_of_le_length (by omega), List.take_append_drop, hread] at hfront
      cases hfront
    have hitem : ok s (len - 1) := by
      cases next with
      | none =>
        rw [readAll_last hr] at h
        exact h.1 _ (List.mem_singleton_self _)
      | some next =>
        rw [readAll_item hr] at h
        exact h.1 _ List.mem_cons_self
    exact hok s _ _ (by omega) hitem

/-- A text with an item longer than a bound lets through can be cut so that the part leaves
a tail that is longer. -/
theorem exists_cut_over {ok : σ → ℕ → Prop} (hmal : (r.readAll s l).ending ≠ .malformed)
    (hover : ¬ (r.readAll s l).Within (fun s len => ok s (len - 1)) ok) :
    ∃ a b s' tail, l = a ++ b ∧ (r.readAll s a).ending = .waiting s' tail ∧
      ¬ ok s' tail.length := by
  -- an item that is too long is cut before its last character
  have hcut : ∀ {s : σ} {l : List α} {len : ℕ} {out : List β} {next : Option σ},
      r.read s l = .item len out next → ¬ ok s (len - 1) →
        ∃ a b s' tail, l = a ++ b ∧ (r.readAll s a).ending = .waiting s' tail ∧
          ¬ ok s' tail.length := by
    intro s l len out next hr hlong
    obtain ⟨hpos, hle⟩ := r.item_length hr
    refine ⟨l.take (len - 1), l.drop (len - 1), s, l.take (len - 1),
      (List.take_append_drop _ _).symm, ?_, ?_⟩
    · rw [readAll_needMore (r.item_take hr (by omega))]
    · rwa [List.length_take, Nat.min_eq_left (by omega)]
  induction s, l using r.readAll_induct with
  | needMore s l hr =>
    rw [readAll_needMore hr] at hover
    refine ⟨l, [], s, l, (List.append_nil l).symm, by rw [readAll_needMore hr], fun hok => ?_⟩
    exact hover ⟨fun x hx => absurd hx List.not_mem_nil, hok⟩
  | malformed s l hr =>
    rw [readAll_malformed hr] at hmal
    exact absurd rfl hmal
  | last s l len out hr =>
    refine hcut hr fun hok => hover ?_
    rw [readAll_last hr]
    refine ⟨fun x hx => ?_, trivial⟩
    rw [List.mem_singleton.mp hx]
    exact hok
  | item s l len out next hr ih =>
    by_cases hok : ok s (len - 1)
    · rw [readAll_item hr] at hmal hover
      have hrest : ¬ (r.readAll next (l.drop len)).Within (fun s len => ok s (len - 1)) ok := by
        rintro ⟨hitems, htail⟩
        refine hover ⟨fun x hx => ?_, htail⟩
        rcases List.mem_cons.mp hx with rfl | hx
        · exact hok
        · exact hitems x hx
      obtain ⟨a, b, s', tail, hab, hend, hlong⟩ := ih hmal hrest
      obtain ⟨-, hle⟩ := r.item_length hr
      have hfront := r.item_front a hr
      refine ⟨l.take len ++ a, b, s', tail, ?_, ?_, hlong⟩
      · rw [List.append_assoc, ← hab, List.take_append_drop]
      · have hdrop : (l.take len ++ a).drop len = a := by
          rw [List.drop_append_of_le_length (by rw [List.length_take]; omega),
            List.drop_eq_nil_of_le (List.length_take_le _ _), List.nil_append]
        rw [readAll_item hfront, hdrop]
        exact hend
    · exact hcut hr hok

theorem pieces_flatten (r : TextReader σ α β) (s : σ) (l : List α) :
    (r.pieces s l).flatten = l := by
  fun_induction pieces r s l with
  | case1 s l h => simp
  | case2 s l h => simp
  | case3 s l len out h => simp
  | case4 s l len out next h ih => rw [List.flatten_cons, ih, List.take_append_drop]

theorem pieces_item {next : σ} (h : r.read s l = .item len out (some next)) :
    r.pieces s l = l.take len :: r.pieces next (l.drop len) := by
  rw [pieces]
  split <;> simp_all

theorem pieces_last (h : r.read s l = .item len out none) :
    r.pieces s l = [l.take len, l.drop len] := by
  rw [pieces]
  split <;> simp_all

theorem pieces_needMore (h : r.read s l = .needMore) : r.pieces s l = [l] := by
  rw [pieces]
  split <;> simp_all

end TextReader

end Ranvier
