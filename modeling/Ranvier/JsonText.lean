import Ranvier.Bytes

/-!
# Searching JSON texts

What a search for a quoted word finds in the text of a JSON document, without parsing it. Of a
document only the strings matter: a quote that is no escaped one begins or ends a string, and
between two strings there is a comma or a colon.

* `JsonText` — a document, cut at its strings;
* `EndsIn` — a string that is a word, or ends in it behind an escaped quote: just then the word
  in quotes occurs in the text of the string;
* `quoted_infix_iff` — where a word in quotes can occur in a document;
* `findSub_quoted` — the first occurrence is in the first string that ends in the word.
-/

namespace Ranvier

/-- `"` -/
def quoteMark : UInt8 := 34

/-- `\` -/
def backslash : UInt8 := 92

/-- `,` -/
def comma : UInt8 := 44

/-- `:` -/
def colon : UInt8 := 58

/-- The text between the quotes of a string: a quote in it is escaped. -/
inductive Escaped : List UInt8 → Prop
  | nil : Escaped []
  | plain {b : UInt8} {raw : List UInt8} (notQuote : b ≠ quoteMark) (notEscape : b ≠ backslash)
      (rest : Escaped raw) : Escaped (b :: raw)
  | escape {b : UInt8} {raw : List UInt8} (rest : Escaped raw) : Escaped (backslash :: b :: raw)

/-- A string of a document, and what follows it up to the next one. -/
structure JsonPiece : Type where
  raw : List UInt8
  gap : List UInt8
  deriving DecidableEq, Repr

/-- Its text. -/
def JsonPiece.bytes (p : JsonPiece) : List UInt8 := quoteMark :: p.raw ++ quoteMark :: p.gap

/-- The text of pieces. -/
def piecesBytes (pieces : List JsonPiece) : List UInt8 := pieces.flatMap JsonPiece.bytes

/-- The quotes are those of the strings, and two strings are told apart. -/
def WellSpaced : List JsonPiece → Prop
  | [] => True
  | p :: pieces =>
    Escaped p.raw ∧ quoteMark ∉ p.gap ∧ (pieces ≠ [] → comma ∈ p.gap ∨ colon ∈ p.gap) ∧
      WellSpaced pieces

/-- The text of a document. -/
structure JsonText : Type where
  lead : List UInt8
  pieces : List JsonPiece
  lead_clean : quoteMark ∉ lead
  wellSpaced : WellSpaced pieces

def JsonText.bytes (t : JsonText) : List UInt8 := t.lead ++ piecesBytes t.pieces

/-- A word in quotes. -/
def quoted (w : List UInt8) : List UInt8 := quoteMark :: w ++ [quoteMark]

/-- Nothing in it would be escaped. -/
def Plain (w : List UInt8) : Prop := quoteMark ∉ w ∧ backslash ∉ w

/-- Nothing in it separates strings either. -/
def IsWord (w : List UInt8) : Prop := Plain w ∧ comma ∉ w ∧ colon ∉ w

/-- The string is the word, or ends in it behind an escaped quote. -/
def EndsIn (w raw : List UInt8) : Prop := raw = w ∨ (backslash :: quoteMark :: w) <:+ raw

instance (w : List UInt8) : Decidable (Plain w) := inferInstanceAs (Decidable (_ ∧ _))

instance (w : List UInt8) : Decidable (IsWord w) := inferInstanceAs (Decidable (_ ∧ _))

instance (w raw : List UInt8) : Decidable (EndsIn w raw) := inferInstanceAs (Decidable (_ ∨ _))

theorem quoted_ne_nil (w : List UInt8) : quoted w ≠ [] := List.cons_ne_nil _ _

theorem piecesBytes_cons (p : JsonPiece) (pieces : List JsonPiece) :
    piecesBytes (p :: pieces) = p.bytes ++ piecesBytes pieces := List.flatMap_cons

theorem piecesBytes_append (pieces pieces' : List JsonPiece) :
    piecesBytes (pieces ++ pieces') = piecesBytes pieces ++ piecesBytes pieces' :=
  List.flatMap_append

theorem length_bytes (p : JsonPiece) : p.bytes.length = p.raw.length + p.gap.length + 2 := by
  rw [JsonPiece.bytes, List.cons_append, List.length_cons, List.length_append, List.length_cons]
  omega

theorem WellSpaced.of_append {pieces pieces' : List JsonPiece}
    (h : WellSpaced (pieces ++ pieces')) : WellSpaced pieces' := by
  induction pieces with
  | nil => exact h
  | cons p pieces ih => exact ih h.2.2.2

theorem Plain.escaped {w : List UInt8} (hw : Plain w) : Escaped w := by
  induction w with
  | nil => exact .nil
  | cons b w ih =>
    rw [Plain, List.mem_cons, List.mem_cons, not_or, not_or] at hw
    exact .plain (Ne.symm hw.1.1) (Ne.symm hw.2.1) (ih ⟨hw.1.2, hw.2.2⟩)

/-- A string may be exchanged. -/
theorem WellSpaced.replace {w : List UInt8} {p : JsonPiece} {pieces : List JsonPiece}
    (h : WellSpaced (p :: pieces)) (hw : Plain w) : WellSpaced (⟨w, p.gap⟩ :: pieces) :=
  ⟨hw.escaped, h.2⟩

/-! ## Inside a string -/

section String

variable {w raw tail : List UInt8}

/-- A word that begins where the string begins and ends in a quote is the string. -/
theorem Escaped.eq_word (hraw : Escaped raw) (hw : Plain w)
    (h : w ++ [quoteMark] <+: raw ++ quoteMark :: tail) : raw = w := by
  induction hraw generalizing w with
  | nil =>
    cases w with
    | nil => rfl
    | cons b w =>
      rw [List.cons_append, List.nil_append, List.cons_prefix_cons] at h
      exact absurd (h.1 ▸ List.mem_cons_self) hw.1
  | @plain b raw notQuote _ _ ih =>
    cases w with
    | nil =>
      rw [List.nil_append, List.cons_append, List.cons_prefix_cons] at h
      exact absurd h.1.symm notQuote
    | cons b' w =>
      rw [List.cons_append, List.cons_append, List.cons_prefix_cons] at h
      have hw' : Plain w := ⟨fun hmem => hw.1 (List.mem_cons_of_mem _ hmem),
        fun hmem => hw.2 (List.mem_cons_of_mem _ hmem)⟩
      rw [h.1, ih hw' h.2]
  | escape _ _ =>
    cases w with
    | nil =>
      rw [List.nil_append, List.cons_append, List.cons_prefix_cons] at h
      exact absurd h.1 (by decide)
    | cons b' w =>
      rw [List.cons_append, List.cons_append, List.cons_prefix_cons] at h
      exact absurd (h.1 ▸ List.mem_cons_self) hw.2

/-- A word in quotes whose first quote is an escaped one. -/
theorem Escaped.suffix_of_prefix_drop (hraw : Escaped raw) (hw : Plain w) {i : ℕ}
    (hi : i < raw.length) (h : quoted w <+: (raw ++ quoteMark :: tail).drop i) :
    (backslash :: quoteMark :: w) <:+ raw ∧ i + 1 + w.length = raw.length := by
  induction hraw generalizing i with
  | nil => exact absurd hi (Nat.not_lt_zero i)
  | @plain b raw notQuote _ _ ih =>
    cases i with
    | zero =>
      rw [List.drop_zero, List.cons_append, quoted, List.cons_append, List.cons_prefix_cons] at h
      exact absurd h.1.symm notQuote
    | succ i =>
      rw [List.cons_append, List.drop_succ_cons] at h
      obtain ⟨hsuffix, hlength⟩ := ih (Nat.lt_of_succ_lt_succ hi) h
      refine ⟨hsuffix.trans (List.suffix_cons b raw), ?_⟩
      rw [List.length_cons]
      omega
  | @escape b raw hrest ih =>
    match i with
    | 0 =>
      rw [List.drop_zero, List.cons_append, quoted, List.cons_append, List.cons_prefix_cons] at h
      exact absurd h.1 (by decide)
    | 1 =>
      rw [List.cons_append, List.drop_succ_cons, List.drop_zero, quoted, List.cons_append,
        List.cons_append, List.cons_prefix_cons] at h
      obtain ⟨rfl, h⟩ := h
      obtain rfl := hrest.eq_word hw h
      refine ⟨List.suffix_refl _, ?_⟩
      rw [List.length_cons, List.length_cons]
      omega
    | i + 2 =>
      rw [List.cons_append, List.drop_succ_cons, List.cons_append, List.drop_succ_cons] at h
      have hi : i < raw.length := Nat.lt_of_succ_lt_succ (Nat.lt_of_succ_lt_succ hi)
      obtain ⟨hsuffix, hlength⟩ := ih hi h
      refine ⟨hsuffix.trans ((List.suffix_cons b raw).trans (List.suffix_cons backslash _)), ?_⟩
      rw [List.length_cons, List.length_cons]
      omega

end String

/-! ## In a document -/

section Document

variable {w raw gap rest : List UInt8} {p : JsonPiece} {pieces : List JsonPiece}

/-- A word that begins where a gap begins and ends in a quote is the gap. -/
theorem eq_gap_of_occurs (hw : quoteMark ∉ w) (hgap : quoteMark ∉ gap)
    (hrest : ∀ b ∈ rest.head?, b = quoteMark) (h : w ++ [quoteMark] <+: gap ++ rest) :
    gap = w ∧ rest ≠ [] := by
  induction gap generalizing w with
  | nil =>
    cases rest with
    | nil =>
      have hlength := h.length_le
      rw [List.length_append, List.length_singleton, List.nil_append, List.length_nil] at hlength
      exact absurd hlength (Nat.not_succ_le_zero _)
    | cons b rest =>
      refine ⟨?_, List.cons_ne_nil _ _⟩
      obtain rfl : b = quoteMark := hrest b rfl
      cases w with
      | nil => rfl
      | cons b' w =>
        rw [List.cons_append, List.nil_append, List.cons_prefix_cons] at h
        exact absurd (h.1 ▸ List.mem_cons_self) hw
  | cons b gap ih =>
    rw [List.mem_cons, not_or] at hgap
    cases w with
    | nil =>
      rw [List.nil_append, List.cons_append, List.cons_prefix_cons] at h
      exact absurd h.1 hgap.1
    | cons b' w =>
      rw [List.mem_cons, not_or] at hw
      rw [List.cons_append, List.cons_append, List.cons_prefix_cons] at h
      obtain ⟨rfl, hne⟩ := ih hw.2 hgap.2 h.2
      exact ⟨by rw [h.1], hne⟩

theorem head_piecesBytes (pieces : List JsonPiece) :
    ∀ b ∈ (piecesBytes pieces).head?, b = quoteMark := by
  cases pieces with
  | nil => exact fun b hb => by cases hb
  | cons p pieces =>
    intro b hb
    exact (Option.some.inj hb).symm

/-- Where a word in quotes can begin in a piece: in its string, if that ends in the word, or at
the end of it, if the gap is the word. -/
theorem prefix_drop_piece (hraw : Escaped p.raw) (hgap : quoteMark ∉ p.gap) (hw : Plain w) {j : ℕ}
    (hj : j < p.bytes.length) (h : quoted w <+: (p.bytes ++ piecesBytes pieces).drop j) :
    (EndsIn w p.raw ∧ j + w.length = p.raw.length) ∨ (p.gap = w ∧ pieces ≠ []) := by
  have htext : p.bytes ++ piecesBytes pieces =
      quoteMark :: (p.raw ++ quoteMark :: (p.gap ++ piecesBytes pieces)) := by
    simp [JsonPiece.bytes]
  rw [htext] at h
  cases j with
  | zero =>
    rw [List.drop_zero, quoted, List.cons_append, List.cons_prefix_cons] at h
    have heq := hraw.eq_word hw h.2
    exact .inl ⟨.inl heq, by rw [heq, Nat.zero_add]⟩
  | succ i =>
    rw [List.drop_succ_cons] at h
    rw [length_bytes] at hj
    rcases Nat.lt_trichotomy i p.raw.length with hi | rfl | hi
    · obtain ⟨hsuffix, hlength⟩ := hraw.suffix_of_prefix_drop hw hi h
      exact .inl ⟨.inr hsuffix, hlength⟩
    · rw [List.drop_left, quoted, List.cons_append, List.cons_prefix_cons] at h
      obtain ⟨heq, hne⟩ := eq_gap_of_occurs hw.1 hgap (head_piecesBytes pieces) h.2
      exact .inr ⟨heq, fun hnil => hne (by rw [hnil]; rfl)⟩
    · -- in the gap there is no quote
      obtain ⟨k, rfl⟩ := Nat.exists_eq_add_of_lt hi
      have hk : k < p.gap.length := by omega
      rw [show p.raw.length + k + 1 = p.raw.length + (k + 1) from rfl, ← List.drop_drop,
        List.drop_left, List.drop_succ_cons, List.drop_append_of_le_length hk.le,
        List.drop_eq_getElem_cons hk, quoted, List.cons_append, List.cons_append,
        List.cons_prefix_cons] at h
      exact absurd (h.1 ▸ List.getElem_mem hk) hgap

/-- A string that ends in the word has the word in quotes at its end. -/
theorem EndsIn.prefix_drop (h : EndsIn w p.raw) (rest : List UInt8) :
    quoted w <+: (p.bytes ++ rest).drop (p.raw.length - w.length) ∧ w.length ≤ p.raw.length ∧
      (p.bytes ++ rest).drop (p.raw.length - w.length) =
        (⟨w, p.gap⟩ : JsonPiece).bytes ++ rest := by
  have hdrop : w.length ≤ p.raw.length ∧ (p.bytes ++ rest).drop (p.raw.length - w.length) =
      (⟨w, p.gap⟩ : JsonPiece).bytes ++ rest := by
    obtain ⟨raw, gap⟩ := p
    dsimp only at h ⊢
    rcases h with rfl | ⟨before, rfl⟩
    · rw [Nat.sub_self, List.drop_zero]
      exact ⟨le_rfl, rfl⟩
    · have hlength : (before ++ backslash :: quoteMark :: w).length - w.length =
          (quoteMark :: before ++ [backslash]).length := by
        rw [List.length_append, List.length_append, List.length_cons, List.length_cons,
          List.length_cons, List.length_singleton]
        omega
      have htext : (⟨before ++ backslash :: quoteMark :: w, gap⟩ : JsonPiece).bytes ++ rest =
          (quoteMark :: before ++ [backslash]) ++ ((⟨w, gap⟩ : JsonPiece).bytes ++ rest) := by
        simp [JsonPiece.bytes]
      refine ⟨?_, ?_⟩
      · rw [List.length_append, List.length_cons, List.length_cons]
        omega
      · rw [hlength, htext, List.drop_left]
  refine ⟨?_, hdrop.1, hdrop.2⟩
  rw [hdrop.2]
  refine ⟨p.gap ++ rest, ?_⟩
  simp [quoted, JsonPiece.bytes]

theorem not_prefix_drop_lead {lead : List UInt8} (hlead : quoteMark ∉ lead) {j : ℕ}
    (hj : j < lead.length) : ¬quoted w <+: (lead ++ rest).drop j := by
  intro h
  rw [List.drop_append_of_le_length hj.le, List.drop_eq_getElem_cons hj, quoted, List.cons_append,
    List.cons_append, List.cons_prefix_cons] at h
  exact hlead (h.1 ▸ List.getElem_mem hj)

/-- The gap between two strings is the word. -/
def Between (w : List UInt8) (pieces : List JsonPiece) : Prop :=
  ∃ before p after, pieces = before ++ p :: after ∧ after ≠ [] ∧ p.gap = w

theorem exists_of_prefix_drop (hspaced : WellSpaced pieces) (hw : Plain w) {j : ℕ}
    (h : quoted w <+: (piecesBytes pieces).drop j) :
    (∃ p ∈ pieces, EndsIn w p.raw) ∨ Between w pieces := by
  induction pieces generalizing j with
  | nil =>
    rw [show piecesBytes [] = [] from rfl, List.drop_nil, List.prefix_nil] at h
    exact absurd h (quoted_ne_nil w)
  | cons p pieces ih =>
    obtain ⟨hraw, hgap, -, hrest⟩ := hspaced
    rw [piecesBytes_cons] at h
    rcases Nat.lt_or_ge j p.bytes.length with hj | hj
    · rcases prefix_drop_piece hraw hgap hw hj h with ⟨hends, -⟩ | ⟨heq, hne⟩
      · exact .inl ⟨p, List.mem_cons_self, hends⟩
      · exact .inr ⟨[], p, pieces, rfl, hne, heq⟩
    · rw [List.drop_append, List.drop_of_length_le hj, List.nil_append] at h
      rcases ih hrest h with ⟨q, hq, hends⟩ | ⟨before, q, after, rfl, hne, heq⟩
      · exact .inl ⟨q, List.mem_cons_of_mem p hq, hends⟩
      · exact .inr ⟨p :: before, q, after, rfl, hne, heq⟩

/-- **Words in quotes.** A word in quotes occurs in a document exactly if a string of it ends in the
word, or two strings have nothing but the word between them. -/
theorem quoted_infix_iff (t : JsonText) (hw : Plain w) :
    quoted w <:+: t.bytes ↔ (∃ p ∈ t.pieces, EndsIn w p.raw) ∨ Between w t.pieces := by
  constructor
  · rintro ⟨u, v, huv⟩
    have h : quoted w <+: t.bytes.drop u.length := by
      rw [← huv, List.append_assoc, List.drop_left]
      exact List.prefix_append _ _
    rcases Nat.lt_or_ge u.length t.lead.length with hj | hj
    · exact absurd h (not_prefix_drop_lead t.lead_clean hj)
    · rw [JsonText.bytes, List.drop_append, List.drop_of_length_le hj, List.nil_append] at h
      exact exists_of_prefix_drop t.wellSpaced hw h
  · rintro (⟨p, hp, hends⟩ | ⟨before, p, after, hpieces, hne, rfl⟩)
    · obtain ⟨before, after, hpieces⟩ := List.append_of_mem hp
      have hoccurs := (hends.prefix_drop (piecesBytes after)).1
      rw [JsonText.bytes, hpieces, piecesBytes_append, piecesBytes_cons, ← List.append_assoc]
      exact (hoccurs.isInfix.trans (List.drop_suffix _ _).isInfix).trans
        (List.suffix_append _ _).isInfix
    · obtain ⟨q, after, rfl⟩ := List.exists_cons_of_ne_nil hne
      rw [JsonText.bytes, hpieces, piecesBytes_append, piecesBytes_cons, piecesBytes_cons]
      refine ⟨t.lead ++ piecesBytes before ++ quoteMark :: p.raw,
        q.raw ++ quoteMark :: q.gap ++ piecesBytes after, ?_⟩
      simp [quoted, JsonPiece.bytes]

/-- What the search finds among pieces. -/
theorem findSub_pieces (hspaced : WellSpaced pieces) (hw : IsWord w) :
    (findSub (quoted w) (piecesBytes pieces) = none ∧ ∀ p ∈ pieces, ¬EndsIn w p.raw) ∨
      ∃ i before p after, findSub (quoted w) (piecesBytes pieces) = some i ∧
        pieces = before ++ p :: after ∧ (∀ q ∈ before, ¬EndsIn w q.raw) ∧ EndsIn w p.raw ∧
        i + w.length = (piecesBytes before).length + p.raw.length ∧
        (piecesBytes pieces).drop i = piecesBytes (⟨w, p.gap⟩ :: after) := by
  induction pieces with
  | nil =>
    refine .inl ⟨?_, nofun⟩
    rw [piecesBytes, List.flatMap_nil, findSub, if_neg (quoted_ne_nil w)]
  | cons p pieces ih =>
    obtain ⟨hraw, hgap, hseparated, hrest⟩ := hspaced
    -- a word has no comma and no colon, so it is not the gap
    have hstring : ∀ j < p.bytes.length, quoted w <+: (p.bytes ++ piecesBytes pieces).drop j →
        EndsIn w p.raw ∧ j + w.length = p.raw.length := by
      intro j hj h
      rcases prefix_drop_piece hraw hgap hw.1 hj h with hends | ⟨rfl, hne⟩
      · exact hends
      · exact ((hseparated hne).elim hw.2.1 hw.2.2).elim
    rw [piecesBytes_cons]
    by_cases hends : EndsIn w p.raw
    · obtain ⟨hoccurs, hle, hdrop⟩ := hends.prefix_drop (piecesBytes pieces)
      refine .inr ⟨p.raw.length - w.length, [], p, pieces, ?_, rfl, nofun, hends, ?_, hdrop⟩
      · refine (findSub_eq_some_iff (quoted_ne_nil w)).mpr ⟨hoccurs, fun j hj h => ?_⟩
        have hlt : j < p.bytes.length := by
          rw [length_bytes]
          omega
        have hlength := (hstring j hlt h).2
        omega
      · rw [piecesBytes, List.flatMap_nil, List.length_nil]
        omega
    · have hskip := findSub_skip (quoted_ne_nil w) (u := p.bytes) (v := piecesBytes pieces)
        fun j hj h => hends (hstring j hj h).1
      rw [hskip]
      rcases ih hrest with
        ⟨hnone, hall⟩ | ⟨i, before, q, after, hi, rfl, hfirst, hq, hlength, hdrop⟩
      · exact .inl ⟨by rw [hnone]; rfl, List.forall_mem_cons.mpr ⟨hends, hall⟩⟩
      · refine .inr ⟨i + p.bytes.length, p :: before, q, after, by rw [hi]; rfl, rfl,
          List.forall_mem_cons.mpr ⟨hends, hfirst⟩, hq, ?_, ?_⟩
        · rw [piecesBytes_cons, List.length_append]
          omega
        · rw [Nat.add_comm, ← List.drop_drop, List.drop_left]
          exact hdrop

/-- **The first occurrence.** A word in quotes is found at the end of the first string that ends
in it. -/
theorem findSub_quoted {lead : List UInt8} (hlead : quoteMark ∉ lead) (hspaced : WellSpaced pieces)
    (hw : IsWord w) :
    (findSub (quoted w) (lead ++ piecesBytes pieces) = none ∧ ∀ p ∈ pieces, ¬EndsIn w p.raw) ∨
      ∃ i before p after, findSub (quoted w) (lead ++ piecesBytes pieces) = some i ∧
        pieces = before ++ p :: after ∧ (∀ q ∈ before, ¬EndsIn w q.raw) ∧ EndsIn w p.raw ∧
        i + w.length = lead.length + (piecesBytes before).length + p.raw.length ∧
        (lead ++ piecesBytes pieces).drop i = piecesBytes (⟨w, p.gap⟩ :: after) := by
  have hskip := findSub_skip (quoted_ne_nil w) (u := lead) (v := piecesBytes pieces)
    fun j hj => not_prefix_drop_lead hlead hj
  rw [hskip]
  rcases findSub_pieces hspaced hw with
    ⟨hnone, hall⟩ | ⟨i, before, p, after, hi, hpieces, hfirst, hends, hlength, hdrop⟩
  · exact .inl ⟨by rw [hnone]; rfl, hall⟩
  · refine .inr ⟨i + lead.length, before, p, after, by rw [hi]; rfl, hpieces, hfirst, hends, ?_, ?_⟩
    · omega
    · rw [Nat.add_comm, ← List.drop_drop, List.drop_left]
      exact hdrop

end Document

end Ranvier
