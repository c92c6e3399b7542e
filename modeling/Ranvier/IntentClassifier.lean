import Ranvier.JsonText
import Ranvier.StreamParser

/-!
# Classifying requests by their raw body

The intent of a request is read off the bytes of its body, without parsing it: a quoted field
name anywhere makes it an AUTOCOMPLETE, and words of the system message make it an EDIT, which is
looked for with a chain of searches.

* `classifyIntent` — the classification;
* `FirstNear` — the string that the scan takes for the role of the first system message;
* `Scanned` — the text that it takes for the content of that message;
* `classifyIntent_of_json` — what the strings of a JSON body have to be like for it to be an
  AUTOCOMPLETE or an EDIT.
-/

namespace Ranvier

/-- `RequestIntent`. -/
inductive RequestIntent : Type where
  | AUTOCOMPLETE
  | CHAT
  | EDIT
  deriving DecidableEq, Repr

/-- `IntentClassifierConfig`. The quoted names are rebuilt whenever the names have changed. -/
structure IntentClassifierConfig : Type where
  fimFields : List (List UInt8) := ["suffix", "fim_prefix", "fim_middle", "fim_suffix"].map ascii
  editSystemKeywords : List (List UInt8) :=
    ["diff", "rewrite", "refactor", "edit", "patch", "apply"].map ascii
  editTagPatterns : List (List UInt8) := ["<diff>", "<edit>", "<rewrite>", "<patch>"].map ascii

/-- `rebuild_quoted_fields`. -/
def IntentClassifierConfig.fimFieldsQuoted (config : IntentClassifierConfig) : List (List UInt8) :=
  config.fimFields.map quoted

/-- `std::tolower` on a byte. -/
def toLower (b : UInt8) : UInt8 := if 65 ≤ b ∧ b ≤ 90 then b + 32 else b

/-- The keyword stands at the beginning of the text, ignoring case. -/
def matchesAt : List UInt8 → List UInt8 → Bool
  | [], _ => true
  | _ :: _, [] => false
  | k :: keyword, c :: text => toLower c == toLower k && matchesAt keyword text

/-- The keyword stands somewhere in the text, ignoring case. -/
def containsKeyword (keyword text : List UInt8) : Bool := text.tails.any (matchesAt keyword)

/-- `role` -/
def roleWord : List UInt8 := ascii "role"

/-- `system` -/
def systemWord : List UInt8 := ascii "system"

/-- `content` -/
def contentWord : List UInt8 := ascii "content"

/-- How far behind a role the word may stand. -/
def maxRoleDistance : ℕ := 30

/-- The loop over the roles, from a role on: the text from the first "system" on that is near
behind one. Every turn moves behind a role. -/
def findSystemRole : ℕ → List UInt8 → Option (List UInt8)
  | 0, _ => none
  | fuel + 1, text =>
    let next :=
      match findSub (quoted roleWord) (text.drop 6) with
      | some j => findSystemRole fuel ((text.drop 6).drop j)
      | none => none
    match findSub (quoted systemWord) text with
    | some i => if maxRoleDistance < i then next else some (text.drop i)
    | none => next

/-- The number of backslashes right before a place. -/
def backslashesBefore (seen : List UInt8) : ℕ :=
  (seen.reverse.takeWhile fun b => b == backslash).length

/-- The text up to the next quote that is not escaped; the first part has been seen. -/
def untilClosingQuote : List UInt8 → List UInt8 → List UInt8
  | seen, [] => seen
  | seen, b :: text =>
    if b = quoteMark ∧ backslashesBefore seen % 2 = 0 then seen
    else untilClosingQuote (seen ++ [b]) text

/-- How much of a content is looked at: `max_scan` is 2048 bytes from the opening quote on. -/
def maxContent : ℕ := 2047

/-- The value of a content, from behind its key on. -/
def contentValue (behind : List UInt8) : Option (List UInt8) :=
  match findSub [colon] behind with
  | none => none
  | some i =>
    match findSub [quoteMark] (behind.drop (i + 1)) with
    | none => none
    | some j =>
      some (untilClosingQuote [] (((behind.drop (i + 1)).drop (j + 1)).take maxContent))

/-- What is taken for the content of the first system message. -/
def systemContent (body : List UInt8) : Option (List UInt8) :=
  match findSub (quoted roleWord) body with
  | none => none
  | some i =>
    match findSystemRole body.length (body.drop i) with
    | none => none
    | some text =>
      match findSub (quoted contentWord) text with
      | none => none
      | some j => contentValue ((text.drop j).drop 9)

/-- A keyword or a tag stands in the content. -/
def mentionsEdit (config : IntentClassifierConfig) (content : List UInt8) : Bool :=
  config.editSystemKeywords.any (fun k => !k.isEmpty && containsKeyword k content) ||
    config.editTagPatterns.any fun tag => !tag.isEmpty && (findSub tag content).isSome

/-- `classify_intent`. -/
def classifyIntent (endpoint : String) (body : List UInt8) (config : IntentClassifierConfig) :
    RequestIntent :=
  if config.fimFieldsQuoted.any (fun q => (findSub q body).isSome) then .AUTOCOMPLETE
  else if endpoint = "/v1/completions" then .AUTOCOMPLETE
  else
    match systemContent body with
    | some content => if mentionsEdit config content then .EDIT else .CHAT
    | none => .CHAT

/-- A turn of the loop moves behind the role, so there are never more turns than bytes. -/
theorem findSystemRole_succ {fuel : ℕ} {text : List UInt8} (h : text.length ≤ fuel) :
    findSystemRole (fuel + 1) text = findSystemRole fuel text := by
  induction fuel generalizing text with
  | zero =>
    obtain rfl := List.length_eq_zero_iff.mp (Nat.le_zero.mp h)
    decide
  | succ fuel ih =>
    have hnext : ∀ j, findSystemRole (fuel + 1) ((text.drop 6).drop j) =
        findSystemRole fuel ((text.drop 6).drop j) := by
      intro j
      cases text with
      | nil => exact ih (by simp)
      | cons b text =>
        refine ih ?_
        rw [List.length_drop, List.length_drop]
        omega
    rw [findSystemRole, findSystemRole]
    simp only [hnext]

/-! ## Keywords and tags -/

theorem matchesAt_iff {keyword text : List UInt8} :
    matchesAt keyword text ↔ ∃ found, found <+: text ∧ found.map toLower = keyword.map toLower := by
  induction keyword generalizing text with
  | nil => exact iff_of_true rfl ⟨[], List.nil_prefix, rfl⟩
  | cons k keyword ih =>
    cases text with
    | nil =>
      refine iff_of_false Bool.false_ne_true ?_
      rintro ⟨found, hfound, hlower⟩
      obtain rfl := List.prefix_nil.mp hfound
      cases hlower
    | cons c text =>
      rw [matchesAt, Bool.and_eq_true, beq_iff_eq, ih]
      constructor
      · rintro ⟨hc, found, hfound, hlower⟩
        exact ⟨c :: found, List.cons_prefix_cons.mpr ⟨rfl, hfound⟩, by
          rw [List.map_cons, List.map_cons, hc, hlower]⟩
      · rintro ⟨found, hfound, hlower⟩
        cases found with
        | nil => cases hlower
        | cons b found =>
          obtain ⟨rfl, hrest⟩ := List.cons_prefix_cons.mp hfound
          rw [List.map_cons, List.map_cons, List.cons.injEq] at hlower
          exact ⟨hlower.1, found, hrest, hlower.2⟩

theorem containsKeyword_iff {keyword text : List UInt8} :
    containsKeyword keyword text ↔
      ∃ found, found <:+: text ∧ found.map toLower = keyword.map toLower := by
  rw [containsKeyword, List.any_eq_true]
  constructor
  · rintro ⟨tail, htail, hmatches⟩
    obtain ⟨found, hfound, hlower⟩ := matchesAt_iff.mp hmatches
    exact ⟨found, hfound.isInfix.trans ((List.mem_tails _ _).mp htail).isInfix, hlower⟩
  · rintro ⟨found, hfound, hlower⟩
    obtain ⟨tail, hstart, hsuffix⟩ := List.infix_iff_prefix_suffix.mp hfound
    exact ⟨tail, (List.mem_tails _ _).mpr hsuffix, matchesAt_iff.mpr ⟨found, hstart, hlower⟩⟩

/-- A keyword, ignoring case, or a tag stands in the text. -/
def Mentions (config : IntentClassifierConfig) (text : List UInt8) : Prop :=
  (∃ k ∈ config.editSystemKeywords, k ≠ [] ∧
      ∃ found, found <:+: text ∧ found.map toLower = k.map toLower) ∨
    ∃ tag ∈ config.editTagPatterns, tag ≠ [] ∧ tag <:+: text

theorem findSub_isSome_iff {pat text : List UInt8} (hpat : pat ≠ []) :
    (findSub pat text).isSome ↔ pat <:+: text := by
  rw [Option.isSome_iff_exists]
  constructor
  · rintro ⟨i, hi⟩
    obtain ⟨before, after, htext, -⟩ := findSub_split hpat hi
    exact ⟨before, after, htext.symm⟩
  · rintro ⟨before, after, htext⟩
    by_contra hnone
    have hnone : findSub pat text = none := by
      cases hfind : findSub pat text with
      | none => rfl
      | some i => exact absurd ⟨i, hfind⟩ hnone
    refine (findSub_eq_none_iff hpat).mp hnone before.length ?_
    rw [← htext, List.append_assoc, List.drop_left]
    exact List.prefix_append _ _

theorem mentionsEdit_iff {config : IntentClassifierConfig} {text : List UInt8} :
    mentionsEdit config text ↔ Mentions config text := by
  rw [mentionsEdit, Bool.or_eq_true, List.any_eq_true, List.any_eq_true, Mentions]
  have hnonempty : ∀ l : List UInt8, (!l.isEmpty) = true ↔ l ≠ [] := by
    intro l
    cases l <;> simp
  refine or_congr (exists_congr fun k => and_congr_right fun _ => ?_)
    (exists_congr fun tag => and_congr_right fun _ => ?_)
  · rw [Bool.and_eq_true, hnonempty, containsKeyword_iff]
  · rw [Bool.and_eq_true, hnonempty]
    exact and_congr_right fun hne => findSub_isSome_iff hne

/-! ## The end of a string -/

theorem backslashesBefore_snoc (seen : List UInt8) (b : UInt8) :
    backslashesBefore (seen ++ [b]) = if b = backslash then backslashesBefore seen + 1 else 0 := by
  rw [backslashesBefore, List.reverse_append, List.reverse_singleton, List.singleton_append]
  by_cases h : b = backslash
  · rw [if_pos h, List.takeWhile_cons_of_pos (by simpa using h)]
    rfl
  · rw [if_neg h, List.takeWhile_cons_of_neg (by simpa using h)]
    rfl

/-- Counting backslashes finds the end of a string: a quote in it has an odd number before it. -/
theorem untilClosingQuote_escaped {raw tail seen : List UInt8} {n : ℕ} (hraw : Escaped raw)
    (hseen : backslashesBefore seen % 2 = 0) :
    untilClosingQuote seen ((raw ++ quoteMark :: tail).take n) = seen ++ raw.take n := by
  induction hraw generalizing seen n with
  | nil =>
    cases n with
    | zero => simp [untilClosingQuote]
    | succ n =>
      rw [List.nil_append, List.take_succ_cons, untilClosingQuote, if_pos ⟨rfl, hseen⟩,
        List.take_nil, List.append_nil]
  | @plain b raw notQuote notEscape _ ih =>
    cases n with
    | zero => simp [untilClosingQuote]
    | succ n =>
      have hsnoc : backslashesBefore (seen ++ [b]) % 2 = 0 := by
        rw [backslashesBefore_snoc, if_neg notEscape]
      rw [List.cons_append, List.take_succ_cons, untilClosingQuote, if_neg fun h => notQuote h.1,
        ih hsnoc, List.append_assoc, List.singleton_append, List.take_succ_cons]
  | @escape b raw _ ih =>
    match n with
    | 0 => simp [untilClosingQuote]
    | 1 =>
      rw [List.cons_append, List.take_succ_cons, List.take_zero, untilClosingQuote,
        if_neg fun h => absurd h.1 (by decide), untilClosingQuote, List.take_succ_cons,
        List.take_zero]
    | n + 2 =>
      have hodd : ¬backslashesBefore (seen ++ [backslash]) % 2 = 0 := by
        rw [backslashesBefore_snoc, if_pos rfl]
        omega
      have heven : backslashesBefore (seen ++ [backslash] ++ [b]) % 2 = 0 := by
        rw [backslashesBefore_snoc, backslashesBefore_snoc, if_pos rfl]
        split <;> omega
      rw [List.cons_append, List.cons_append, List.take_succ_cons, List.take_succ_cons,
        untilClosingQuote, if_neg fun h => absurd h.1 (by decide), untilClosingQuote,
        if_neg fun h => hodd h.2, ih heven]
      simp

/-- What stands in a text before its first quote that is not escaped, with an even number of
backslashes right before it; all of the text if there is none. -/
structure UpToQuote (text slice : List UInt8) : Prop where
  ends : slice = text ∨
    ∃ rest, text = slice ++ quoteMark :: rest ∧ backslashesBefore slice % 2 = 0
  inside : ∀ front rest, slice = front ++ quoteMark :: rest → backslashesBefore front % 2 = 1

theorem untilClosingQuote_append (seen text : List UInt8) :
    ∃ part, untilClosingQuote seen text = seen ++ part ∧
      (part = text ∨
        ∃ rest, text = part ++ quoteMark :: rest ∧ backslashesBefore (seen ++ part) % 2 = 0) ∧
      ∀ front rest, part = front ++ quoteMark :: rest →
        backslashesBefore (seen ++ front) % 2 = 1 := by
  induction text generalizing seen with
  | nil =>
    refine ⟨[], (List.append_nil seen).symm, .inl rfl, fun front rest h => ?_⟩
    exact absurd h.symm (by simp)
  | cons b text ih =>
    rw [untilClosingQuote]
    split
    · next hquote =>
      refine ⟨[], (List.append_nil seen).symm, .inr ⟨text, ?_, ?_⟩, fun front rest h => ?_⟩
      · rw [hquote.1, List.nil_append]
      · rw [List.append_nil]
        exact hquote.2
      · exact absurd h.symm (by simp)
    · next hplain =>
      obtain ⟨part, heq, hends, hinside⟩ := ih (seen ++ [b])
      rw [List.append_assoc, List.singleton_append] at heq hends
      refine ⟨b :: part, heq, hends.imp (congrArg (b :: ·)) ?_, fun front rest h => ?_⟩
      · rintro ⟨rest, rfl, heven⟩
        exact ⟨rest, rfl, heven⟩
      · cases front with
        | nil =>
          rw [List.nil_append, List.cons.injEq] at h
          rw [List.append_nil]
          by_contra hodd
          exact hplain ⟨h.1, by omega⟩
        | cons c front =>
          rw [List.cons_append, List.cons.injEq] at h
          obtain ⟨rfl, hpart⟩ := h
          have := hinside front rest hpart
          rwa [List.append_assoc, List.singleton_append] at this

theorem upToQuote_untilClosingQuote (text : List UInt8) :
    UpToQuote text (untilClosingQuote [] text) := by
  obtain ⟨part, heq, hends, hinside⟩ := untilClosingQuote_append [] text
  rw [heq, List.nil_append]
  exact ⟨hends, hinside⟩

/-! ## In a JSON text -/

theorem isWord_roleWord : IsWord roleWord := by decide

theorem isWord_systemWord : IsWord systemWord := by decide

theorem isWord_contentWord : IsWord contentWord := by decide

/-- The first string ends in "role" and the next one that ends in "system", `s`, has this word at
most 30 bytes behind. -/
def NearSystem (pieces : List JsonPiece) (s : JsonPiece) (rest : List JsonPiece) : Prop :=
  ∃ r between, pieces = r :: between ++ s :: rest ∧ EndsIn roleWord r.raw ∧
    (∀ q ∈ between, ¬EndsIn systemWord q.raw) ∧ EndsIn systemWord s.raw ∧
    r.gap.length + (piecesBytes between).length + s.raw.length ≤ maxRoleDistance

/-- The first place where this is so. -/
inductive FirstNear : List JsonPiece → JsonPiece → List JsonPiece → Prop
  | here {pieces : List JsonPiece} {s : JsonPiece} {rest : List JsonPiece}
      (near : NearSystem pieces s rest) : FirstNear pieces s rest
  | later {p : JsonPiece} {pieces : List JsonPiece} {s : JsonPiece} {rest : List JsonPiece}
      (notNear : ∀ s' rest', ¬NearSystem (p :: pieces) s' rest')
      (behind : FirstNear pieces s rest) : FirstNear (p :: pieces) s rest

section Roles

variable {p s : JsonPiece} {pieces rest : List JsonPiece}

/-- What the string that ends in "role" begins with is of no importance. -/
theorem nearSystem_congr (hp : EndsIn roleWord p.raw) :
    NearSystem (⟨roleWord, p.gap⟩ :: pieces) s rest ↔ NearSystem (p :: pieces) s rest := by
  constructor
  · rintro ⟨r, between, heq, -, hbetween, hs, hnear⟩
    rw [List.cons_append, List.cons.injEq] at heq
    obtain ⟨rfl, rfl⟩ := heq
    exact ⟨p, between, rfl, hp, hbetween, hs, hnear⟩
  · rintro ⟨r, between, heq, -, hbetween, hs, hnear⟩
    rw [List.cons_append, List.cons.injEq] at heq
    obtain ⟨rfl, rfl⟩ := heq
    exact ⟨⟨roleWord, p.gap⟩, between, rfl, .inl rfl, hbetween, hs, hnear⟩

theorem FirstNear.of_roleWord (hp : EndsIn roleWord p.raw)
    (h : FirstNear (⟨roleWord, p.gap⟩ :: pieces) s rest) : FirstNear (p :: pieces) s rest := by
  cases h with
  | here near => exact .here ((nearSystem_congr hp).mp near)
  | later notNear behind =>
    exact .later (fun s' rest' h => notNear s' rest' ((nearSystem_congr hp).mpr h)) behind

/-- Strings that do not end in "role" are passed over. -/
theorem FirstNear.append {before : List JsonPiece} (hbefore : ∀ q ∈ before, ¬EndsIn roleWord q.raw)
    (h : FirstNear pieces s rest) : FirstNear (before ++ pieces) s rest := by
  induction before with
  | nil => exact h
  | cons q before ih =>
    rw [List.forall_mem_cons] at hbefore
    refine .later ?_ (ih hbefore.2)
    rintro s' rest' ⟨r, between, heq, hr, -⟩
    rw [List.cons_append, List.cons.injEq] at heq
    exact hbefore.1 (heq.1 ▸ hr)

theorem FirstNear.eq_append (h : FirstNear pieces s rest) :
    ∃ before, pieces = before ++ s :: rest := by
  induction h with
  | here near =>
    obtain ⟨r, between, heq, -⟩ := near
    exact ⟨r :: between, heq⟩
  | @later p _ _ _ _ _ ih =>
    obtain ⟨before, rfl⟩ := ih
    exact ⟨p :: before, rfl⟩

/-- The first element with a property. -/
theorem split_first_unique {α : Type} {P : α → Prop} {a b c d : List α} {x y : α}
    (h : a ++ x :: c = b ++ y :: d) (ha : ∀ z ∈ a, ¬P z) (hb : ∀ z ∈ b, ¬P z) (hx : P x)
    (hy : P y) : a = b ∧ x = y ∧ c = d := by
  induction a generalizing b with
  | nil =>
    cases b with
    | nil => exact ⟨rfl, List.cons.inj h⟩
    | cons z b =>
      rw [List.nil_append, List.cons_append, List.cons.injEq] at h
      exact absurd hx (h.1 ▸ hb z List.mem_cons_self)
  | cons z a ih =>
    rw [List.forall_mem_cons] at ha
    cases b with
    | nil =>
      rw [List.nil_append, List.cons_append, List.cons.injEq] at h
      exact absurd hy (h.1 ▸ ha.1)
    | cons z' b =>
      rw [List.forall_mem_cons] at hb
      rw [List.cons_append, List.cons_append, List.cons.injEq] at h
      obtain ⟨rfl, hrest⟩ := ih h.2 ha.2 hb.2
      exact ⟨by rw [h.1], hrest⟩

theorem not_endsIn_role : ¬EndsIn systemWord roleWord := by decide

theorem not_endsIn_system : ¬EndsIn contentWord systemWord := by decide

/-- The search for "system" from a role on: how far it is to the word. -/
theorem findSub_system {gap : List UInt8} (hspaced : WellSpaced (⟨roleWord, gap⟩ :: pieces)) :
    (findSub (quoted systemWord) (piecesBytes (⟨roleWord, gap⟩ :: pieces)) = none ∧
        ∀ s' rest', ¬NearSystem (⟨roleWord, gap⟩ :: pieces) s' rest') ∨
      ∃ i s rest, findSub (quoted systemWord) (piecesBytes (⟨roleWord, gap⟩ :: pieces)) = some i ∧
        (piecesBytes (⟨roleWord, gap⟩ :: pieces)).drop i =
          piecesBytes (⟨systemWord, s.gap⟩ :: rest) ∧
        (i ≤ maxRoleDistance → NearSystem (⟨roleWord, gap⟩ :: pieces) s rest) ∧
        (maxRoleDistance < i → ∀ s' rest', ¬NearSystem (⟨roleWord, gap⟩ :: pieces) s' rest') := by
  rcases findSub_pieces hspaced isWord_systemWord with
    ⟨hnone, hall⟩ | ⟨i, before, s, rest, hi, hpieces, hbefore, hs, hlength, hdrop⟩
  · refine .inl ⟨hnone, ?_⟩
    rintro s' rest' ⟨r, between, heq, -, -, hs', -⟩
    have hmem : s' ∈ (⟨roleWord, gap⟩ : JsonPiece) :: pieces := by
      rw [heq]
      exact List.mem_append_right _ List.mem_cons_self
    exact hall s' hmem hs'
  · cases before with
    | nil =>
      rw [List.nil_append, List.cons.injEq] at hpieces
      rw [← hpieces.1] at hs
      exact absurd hs not_endsIn_role
    | cons r between =>
      rw [List.cons_append, List.cons.injEq] at hpieces
      obtain ⟨rfl, rfl⟩ := hpieces
      have hbetween := (List.forall_mem_cons.mp hbefore).2
      have hrole : roleWord.length = 4 := by decide
      have hsystem : systemWord.length = 6 := by decide
      rw [piecesBytes_cons, List.length_append, length_bytes, hsystem] at hlength
      dsimp only at hlength
      rw [hrole] at hlength
      refine .inr ⟨i, s, rest, hi, hdrop, ?_, ?_⟩
      · intro hle
        refine ⟨⟨roleWord, gap⟩, between, rfl, .inl rfl, hbetween, hs, ?_⟩
        dsimp only
        omega
      · rintro hlt s' rest' ⟨r, between', heq, -, hbetween', hs', hnear⟩
        rw [List.cons_append, List.cons.injEq] at heq
        obtain ⟨rfl, heq⟩ := heq
        obtain ⟨rfl, rfl, -⟩ :=
          split_first_unique (P := fun q : JsonPiece => EndsIn systemWord q.raw) heq hbetween
            hbetween' hs hs'
        dsimp only at hnear
        omega

/-- **The loop over the roles** ends at the first string "system" that is near behind a "role". -/
theorem findSystemRole_spec {fuel : ℕ} {gap text : List UInt8}
    (hspaced : WellSpaced (⟨roleWord, gap⟩ :: pieces))
    (h : findSystemRole fuel (piecesBytes (⟨roleWord, gap⟩ :: pieces)) = some text) :
    ∃ s rest, FirstNear (⟨roleWord, gap⟩ :: pieces) s rest ∧
      text = piecesBytes (⟨systemWord, s.gap⟩ :: rest) := by
  induction fuel generalizing gap pieces with
  | zero => cases h
  | succ fuel ih =>
    -- where the next role is searched for
    have hbehind : (piecesBytes (⟨roleWord, gap⟩ :: pieces)).drop 6 =
        gap ++ piecesBytes pieces := by
      rw [piecesBytes_cons]
      rfl
    have hnext : (match findSub (quoted roleWord) (gap ++ piecesBytes pieces) with
        | some j => findSystemRole fuel ((gap ++ piecesBytes pieces).drop j)
        | none => none) = some text →
        (∀ s' rest', ¬NearSystem (⟨roleWord, gap⟩ :: pieces) s' rest') →
        ∃ s rest, FirstNear (⟨roleWord, gap⟩ :: pieces) s rest ∧
          text = piecesBytes (⟨systemWord, s.gap⟩ :: rest) := by
      intro hfind hfar
      rcases findSub_quoted hspaced.2.1 hspaced.2.2.2 isWord_roleWord with
        ⟨hnone, -⟩ | ⟨j, before, p, after, hj, rfl, hbefore, hp, -, hdrop⟩
      · rw [hnone] at hfind
        cases hfind
      · rw [hj] at hfind
        dsimp only at hfind
        rw [hdrop] at hfind
        obtain ⟨s, rest, hfirst, htext⟩ :=
          ih (hspaced.2.2.2.of_append.replace isWord_roleWord.1) hfind
        exact ⟨s, rest, .later hfar ((hfirst.of_roleWord hp).append hbefore), htext⟩
    rw [findSystemRole, hbehind] at h
    rcases findSub_system hspaced with ⟨hnone, hfar⟩ | ⟨i, s, rest, hi, hdrop, hnear, hfar⟩
    · rw [hnone] at h
      exact hnext h hfar
    · rw [hi] at h
      dsimp only at h
      split at h
      · next hlt => exact hnext h (hfar hlt)
      · next hle =>
        refine ⟨s, rest, .here (hnear (Nat.not_lt.mp hle)), ?_⟩
        rw [← hdrop]
        exact (Option.some.inj h).symm

end Roles

/-- What the scan takes for the content of the first system message: it goes to the first string
that ends in "content" behind the role, to the first colon behind that and the first quote behind
the colon, and takes at most 2047 bytes up to the next quote that is not escaped. If the string is
a key, this is the string that follows it, as it is written. -/
def Scanned (t : JsonText) (slice : List UInt8) : Prop :=
  ∃ s between c after, FirstNear t.pieces s (between ++ c :: after) ∧
    (∀ q ∈ between, ¬EndsIn contentWord q.raw) ∧ EndsIn contentWord c.raw ∧
    (∃ toColon toQuote text,
      c.gap ++ piecesBytes after = toColon ++ colon :: (toQuote ++ quoteMark :: text) ∧
      colon ∉ toColon ∧ quoteMark ∉ toQuote ∧ UpToQuote (text.take maxContent) slice) ∧
    (colon ∈ c.gap → ∃ q rest, after = q :: rest ∧ slice = q.raw.take maxContent)

section Content

variable {gap behind slice : List UInt8} {pieces : List JsonPiece}

theorem drop_behind (u v : List UInt8) (b : UInt8) : (u ++ b :: v).drop (u.length + 1) = v := by
  rw [← List.drop_drop, List.drop_left]
  rfl

/-- Where the slice stands. -/
theorem contentValue_place (h : contentValue behind = some slice) :
    ∃ toColon toQuote text, behind = toColon ++ colon :: (toQuote ++ quoteMark :: text) ∧
      colon ∉ toColon ∧ quoteMark ∉ toQuote ∧ UpToQuote (text.take maxContent) slice := by
  rw [contentValue] at h
  split at h
  · cases h
  · next i hi =>
    obtain ⟨toColon, rest, rfl, hcolon, rfl⟩ := findSub_singleton_split hi
    rw [drop_behind] at h
    split at h
    · cases h
    · next j hj =>
      obtain ⟨toQuote, text, rfl, hquote, rfl⟩ := findSub_singleton_split hj
      rw [drop_behind] at h
      obtain rfl := Option.some.inj h
      exact ⟨toColon, toQuote, text, rfl, hcolon, hquote, upToQuote_untilClosingQuote _⟩

/-- Behind a key it is the string that follows. -/
theorem contentValue_of_key (hgap : quoteMark ∉ gap) (hcolon : colon ∈ gap)
    (hspaced : WellSpaced pieces) (h : contentValue (gap ++ piecesBytes pieces) = some slice) :
    ∃ q rest, pieces = q :: rest ∧ slice = q.raw.take maxContent := by
  obtain ⟨before, after, rfl, hfirst⟩ := List.eq_append_cons_of_mem hcolon
  have hafter : quoteMark ∉ after := fun hmem =>
    hgap (List.mem_append_right before (List.mem_cons_of_mem colon hmem))
  have htext : before ++ colon :: after ++ piecesBytes pieces =
      before ++ colon :: (after ++ piecesBytes pieces) := by
    rw [List.append_assoc, List.cons_append]
  rw [contentValue, htext, findSub_singleton hfirst] at h
  dsimp only at h
  rw [drop_behind] at h
  cases pieces with
  | nil =>
    have hnone : findSub [quoteMark] (after ++ piecesBytes []) = none := by
      rw [findSub_eq_none_iff (List.cons_ne_nil _ _)]
      intro j hj
      have hmem : quoteMark ∈ after ++ piecesBytes [] :=
        List.mem_of_mem_drop (hj.subset List.mem_cons_self)
      rw [show piecesBytes [] = [] from rfl, List.append_nil] at hmem
      exact hafter hmem
    rw [hnone] at h
    cases h
  | cons q rest =>
    have hbytes : after ++ piecesBytes (q :: rest) =
        after ++ quoteMark :: (q.raw ++ quoteMark :: (q.gap ++ piecesBytes rest)) := by
      rw [piecesBytes_cons]
      simp [JsonPiece.bytes]
    rw [hbytes, findSub_singleton hafter] at h
    dsimp only at h
    rw [drop_behind, untilClosingQuote_escaped hspaced.1 rfl, List.nil_append] at h
    exact ⟨q, rest, rfl, (Option.some.inj h).symm⟩

/-- **The chain of searches** in a JSON text. -/
theorem systemContent_spec (t : JsonText) (h : systemContent t.bytes = some slice) :
    Scanned t slice := by
  rw [systemContent, JsonText.bytes] at h
  rcases findSub_quoted t.lead_clean t.wellSpaced isWord_roleWord with
    ⟨hnone, -⟩ | ⟨i, before, p, after, hi, hpieces, hbefore, hp, -, hdrop⟩
  · rw [hnone] at h
    cases h
  · rw [hi] at h
    dsimp only at h
    rw [hdrop] at h
    have hspaced : WellSpaced (p :: after) := (hpieces ▸ t.wellSpaced).of_append
    split at h
    · cases h
    · next text htext =>
      obtain ⟨s, rest, hnear, rfl⟩ :=
        findSystemRole_spec (hspaced.replace isWord_roleWord.1) htext
      have hfirst : FirstNear t.pieces s rest := hpieces ▸ (hnear.of_roleWord hp).append hbefore
      obtain ⟨front, hfront⟩ := hfirst.eq_append
      have hspaced : WellSpaced (s :: rest) := (hfront ▸ t.wellSpaced).of_append
      split at h
      · cases h
      · next j hj =>
        rcases findSub_pieces (hspaced.replace isWord_systemWord.1) isWord_contentWord with
          ⟨hnone, -⟩ | ⟨k, before', c, after', hk, hrest, hbefore', hc, -, hdrop'⟩
        · cases hj.symm.trans hnone
        · obtain rfl : j = k := Option.some.inj (hj.symm.trans hk)
          have hbehind : (piecesBytes (⟨contentWord, c.gap⟩ :: after')).drop 9 =
              c.gap ++ piecesBytes after' := by
            rw [piecesBytes_cons]
            rfl
          rw [hdrop', hbehind] at h
          cases before' with
          | nil =>
            rw [List.nil_append, List.cons.injEq] at hrest
            rw [← hrest.1] at hc
            exact absurd hc not_endsIn_system
          | cons s' between =>
            rw [List.cons_append, List.cons.injEq] at hrest
            obtain ⟨-, rfl⟩ := hrest
            obtain ⟨-, hgap, -, hafter⟩ := hspaced.2.2.2.of_append
            exact ⟨s, between, c, after', hfirst, (List.forall_mem_cons.mp hbefore').2, hc,
              contentValue_place h, fun hcolon => contentValue_of_key hgap hcolon hafter h⟩

end Content

/-- **The intent of a JSON body.** It is an AUTOCOMPLETE only at the completions endpoint, or if a
FIM field stands in the body in quotes: for a field without quotes and backslashes this means that
a string of the document, key or value, is the field or ends in it behind an escaped quote, or
that nothing but the field stands between two strings. It is an EDIT only if it is no
AUTOCOMPLETE, and a keyword or a tag stands in what the scan takes for the content of the first
system message. -/
theorem classifyIntent_of_json (t : JsonText) (endpoint : String)
    (config : IntentClassifierConfig) :
    (classifyIntent endpoint t.bytes config = .AUTOCOMPLETE ↔
      endpoint = "/v1/completions" ∨ ∃ f ∈ config.fimFields, quoted f <:+: t.bytes) ∧
    (∀ f, Plain f → (quoted f <:+: t.bytes ↔
      (∃ p ∈ t.pieces, EndsIn f p.raw) ∨ Between f t.pieces)) ∧
    (classifyIntent endpoint t.bytes config = .EDIT →
      ∃ slice, Scanned t slice ∧ Mentions config slice) := by
  have hfields : config.fimFieldsQuoted.any (fun q => (findSub q t.bytes).isSome) ↔
      ∃ f ∈ config.fimFields, quoted f <:+: t.bytes := by
    rw [IntentClassifierConfig.fimFieldsQuoted, List.any_map, List.any_eq_true]
    exact exists_congr fun f => and_congr_right fun _ => findSub_isSome_iff (quoted_ne_nil f)
  refine ⟨?_, fun f hf => quoted_infix_iff t hf, ?_⟩
  · rw [classifyIntent, ← hfields]
    split
    · next hfim => exact iff_of_true rfl (.inr hfim)
    · next hfim =>
      split
      · next hendpoint => exact iff_of_true rfl (.inl hendpoint)
      · next hendpoint =>
        refine iff_of_false ?_ (not_or.mpr ⟨hendpoint, hfim⟩)
        split
        · split <;> simp
        · simp
  · intro h
    rw [classifyIntent] at h
    split at h
    · cases h
    · split at h
      · cases h
      · split at h
        · next slice hslice =>
          split at h
          · next hmentions =>
            exact ⟨slice, systemContent_spec t hslice, mentionsEdit_iff.mp hmentions⟩
          · cases h
        · cases h

/-! ## Bodies that are misread -/

/-- Space, tab and the line ends. -/
def isJsonSpace (b : UInt8) : Bool := b == 32 || b == 9 || b == 10 || b == 13

/-- A string that a colon follows. -/
def JsonPiece.isKey (p : JsonPiece) : Bool := (p.gap.dropWhile isJsonSpace).head? == some colon

/-- How many objects and arrays are open behind a text. -/
def openBehind (depth : ℤ) (text : List UInt8) : ℤ :=
  depth + (text.countP fun b => b == 123 || b == 91) - (text.countP fun b => b == 125 || b == 93)

/-- The keys of the outermost object. -/
def topLevelKeys : ℤ → List JsonPiece → List (List UInt8)
  | _, [] => []
  | depth, p :: pieces =>
    let keys := topLevelKeys (openBehind depth p.gap) pieces
    if depth = 1 ∧ p.isKey then p.raw :: keys else keys

/-- The members whose value is a string, at any depth. -/
def stringMembers : List JsonPiece → List (List UInt8 × List UInt8)
  | p :: q :: pieces =>
    let members := stringMembers (q :: pieces)
    if p.gap.filter (fun b => !isJsonSpace b) = [colon] then (p.raw, q.raw) :: members else members
  | _ => []

/-- Strings without quotes and backslashes. -/
theorem wellSpaced_of_plain {pieces : List JsonPiece}
    (h : ∀ p ∈ pieces, Plain p.raw ∧ quoteMark ∉ p.gap)
    (hseparated : ∀ p ∈ pieces.dropLast, comma ∈ p.gap ∨ colon ∈ p.gap) : WellSpaced pieces := by
  induction pieces with
  | nil => trivial
  | cons p pieces ih =>
    rw [List.forall_mem_cons] at h
    refine ⟨h.1.1.escaped, h.1.2, fun hne => ?_, ih h.2 fun q hq => ?_⟩
    · refine hseparated p ?_
      rw [List.dropLast_cons_of_ne_nil hne]
      exact List.mem_cons_self
    · cases pieces with
      | nil => cases hq
      | cons p' pieces => exact hseparated q (List.mem_cons_of_mem p hq)

/-- `{` -/
def openBrace : List UInt8 := ascii "\x7b"

theorem openBrace_clean : quoteMark ∉ openBrace := by decide

/-- The strings of a body whose user asks about a word that is the name of a field. -/
def suffixPieces : List JsonPiece :=
  [⟨ascii "messages", ascii ":[\x7b"⟩, ⟨ascii "role", ascii ":"⟩, ⟨ascii "user", ascii ","⟩,
    ⟨ascii "content", ascii ":"⟩, ⟨ascii "suffix", ascii "\x7d]\x7d"⟩]

theorem wellSpaced_suffixPieces : WellSpaced suffixPieces :=
  wellSpaced_of_plain (by decide) (by decide)

def askedForSuffix : JsonText := ⟨openBrace, suffixPieces, openBrace_clean, wellSpaced_suffixPieces⟩

/-- The strings of a body whose user has the name "system". -/
def namedPieces : List JsonPiece :=
  [⟨ascii "messages", ascii ":[\x7b"⟩, ⟨ascii "role", ascii ":"⟩, ⟨ascii "user", ascii ","⟩,
    ⟨ascii "name", ascii ":"⟩, ⟨ascii "system", ascii ","⟩, ⟨ascii "content", ascii ":"⟩,
    ⟨ascii "Please refactor this.", ascii "\x7d]\x7d"⟩]

theorem wellSpaced_namedPieces : WellSpaced namedPieces :=
  wellSpaced_of_plain (by decide) (by decide)

def namedSystem : JsonText := ⟨openBrace, namedPieces, openBrace_clean, wellSpaced_namedPieces⟩

/-- The field is no key of the first body, and no message of the second has the role system. -/
theorem plainUsers_misread :
    askedForSuffix.bytes = ascii
        "\x7b\"messages\":[\x7b\"role\":\"user\",\"content\":\"suffix\"\x7d]\x7d" ∧
      topLevelKeys (openBehind 0 askedForSuffix.lead) askedForSuffix.pieces = [ascii "messages"] ∧
      classifyIntent "/v1/chat/completions" askedForSuffix.bytes {} = .AUTOCOMPLETE ∧
    namedSystem.bytes = ascii ("\x7b\"messages\":[\x7b\"role\":\"user\",\"name\":\"system\"," ++
        "\"content\":\"Please refactor this.\"\x7d]\x7d") ∧
      stringMembers namedSystem.pieces =
        [(ascii "role", ascii "user"), (ascii "name", ascii "system"),
          (ascii "content", ascii "Please refactor this.")] ∧
      classifyIntent "/v1/chat/completions" namedSystem.bytes {} = .EDIT := by
  decide +kernel

end Ranvier
