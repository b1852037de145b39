import Mathlib.Data.List.Infix

/-!
# LIKE patterns

A pattern of SQL's `LIKE` over an alphabet with three special characters: one stands for any string,
one for any character, and the escape character makes a literal of what follows it. Escaping a text
by replacing the special characters one after the other, the escape character first, gives the
pattern of that text.
-/

namespace ShipmentImport

/-- The special characters of a pattern: `%`, `_` and the escape character. -/
structure LikeSyntax (α : Type) where
  anyString : α
  anyChar : α
  escape : α
  string_ne_char : anyString ≠ anyChar
  string_ne_escape : anyString ≠ escape
  char_ne_escape : anyChar ≠ escape

namespace LikeSyntax

variable {α : Type} [DecidableEq α] (S : LikeSyntax α)

def special (c : α) : Bool := c = S.anyString || c = S.anyChar || c = S.escape

/-- What a pattern is a list of. -/
inductive Token (α : Type)
  | anyString
  | anyChar
  | literal (c : α)

/-- The tokens of a pattern; `none` when it ends with an escape character that escapes nothing,
which is an error. -/
def tokens : List α → Option (List (Token α))
  | [] => some []
  | [c] =>
    if c = S.escape then none
    else if c = S.anyString then some [.anyString]
    else if c = S.anyChar then some [.anyChar]
    else some [.literal c]
  | c :: d :: cs =>
    if c = S.escape then (tokens cs).map (.literal d :: ·)
    else if c = S.anyString then (tokens (d :: cs)).map (.anyString :: ·)
    else if c = S.anyChar then (tokens (d :: cs)).map (.anyChar :: ·)
    else (tokens (d :: cs)).map (.literal c :: ·)

/-- Whether the tokens describe a text as a whole. -/
def describes : List (Token α) → List α → Bool
  | [], text => text.isEmpty
  | .anyString :: ts, text => text.tails.any (describes ts)
  | .anyChar :: _, [] | .literal _ :: _, [] => false
  | .anyChar :: ts, _ :: text => describes ts text
  | .literal c :: ts, d :: text => c = d && describes ts text

/-- `text LIKE pattern`, if the pattern is one. -/
def like (pattern text : List α) : Option Bool := (S.tokens pattern).map (describes · text)

/-- `text.replace(c, new)` for a text `c` of one character. -/
def replace (c : α) (new text : List α) : List α := text.flatMap fun d => if d = c then new else [d]

/-- A text with its special characters escaped. -/
def escaped (text : List α) : List α :=
  replace S.anyChar [S.escape, S.anyChar]
    (replace S.anyString [S.escape, S.anyString] (replace S.escape [S.escape, S.escape] text))

/-- The three replacements put one escape character before each special one. -/
theorem escaped_eq (text : List α) :
    S.escaped text = text.flatMap fun c => if S.special c then [S.escape, c] else [c] := by
  unfold escaped replace
  rw [List.flatMap_assoc, List.flatMap_assoc]
  refine List.flatMap_congr fun c _ => ?_
  have h1 := S.string_ne_char
  have h2 := S.string_ne_escape
  have h3 := S.char_ne_escape
  by_cases he : c = S.escape
  · subst he
    simp [special, h2.symm, h3.symm]
  by_cases hs : c = S.anyString
  · subst hs
    simp [special, h1, h2, h3.symm]
  by_cases hc : c = S.anyChar
  · subst hc
    simp [special, h1.symm, h3]
  · simp [special, he, hs, hc]

theorem tokens_escape (c : α) (cs : List α) :
    S.tokens (S.escape :: c :: cs) = (S.tokens cs).map (.literal c :: ·) := by
  rw [tokens, if_pos rfl]

theorem tokens_anyString (cs : List α) :
    S.tokens (S.anyString :: cs) = (S.tokens cs).map (.anyString :: ·) := by
  cases cs <;> simp [tokens, S.string_ne_escape]

theorem tokens_literal {c : α} (h : S.special c = false) (cs : List α) :
    S.tokens (c :: cs) = (S.tokens cs).map (.literal c :: ·) := by
  simp only [special, Bool.or_eq_false_iff, decide_eq_false_iff_not] at h
  obtain ⟨⟨hs, hc⟩, he⟩ := h
  cases cs <;> simp [tokens, hs, hc, he]

/-- An escaped text is read back as its characters. -/
theorem tokens_escaped (text rest : List α) :
    S.tokens (S.escaped text ++ rest) = (S.tokens rest).map (text.map .literal ++ ·) := by
  rw [escaped_eq]
  induction text with
  | nil => simp
  | cons c text ih =>
    have hc : ∀ cs, S.tokens ((if S.special c then [S.escape, c] else [c]) ++ cs) =
        (S.tokens cs).map (.literal c :: ·) := by
      intro cs
      by_cases h : S.special c = true
      · rw [if_pos h]
        exact S.tokens_escape c cs
      · rw [if_neg h]
        exact S.tokens_literal (by simpa using h) cs
    rw [List.flatMap_cons, List.append_assoc, hc, ih, Option.map_map]
    rfl

/-- Literals followed by any string describe the texts that begin with them. -/
theorem describes_prefix (text t : List α) :
    describes (text.map .literal ++ [.anyString]) t = true ↔ text <+: t := by
  induction text generalizing t with
  | nil =>
    have : [] ∈ t.tails := (List.mem_tails _ _).2 List.nil_suffix
    simp only [List.map_nil, List.nil_append, describes, List.any_eq_true, List.nil_prefix, iff_true]
    exact ⟨[], this, rfl⟩
  | cons c text ih =>
    cases t with
    | nil => simp [describes]
    | cons d t => simp [describes, ih, List.cons_prefix_cons]

theorem describes_infix (text t : List α) :
    describes (.anyString :: (text.map .literal ++ [.anyString])) t = true ↔ text <:+: t := by
  simp only [describes, List.any_eq_true, List.mem_tails, describes_prefix,
    List.infix_iff_prefix_suffix]
  exact ⟨fun ⟨u, hs, hp⟩ => ⟨u, hp, hs⟩, fun ⟨u, hp, hs⟩ => ⟨u, hs, hp⟩⟩

/-! ## Matching up to case -/

/-- A folding of characters that leaves the special ones alone and makes no other one special. -/
structure Folding where
  fold : α → α
  fixes : ∀ c, S.special c = true → fold c = c
  reflects : ∀ c, S.special (fold c) = true → S.special c = true

variable {S} (F : S.Folding)

/-- `text ILIKE pattern`. -/
def ilike (pattern text : List α) : Option Bool := S.like (pattern.map F.fold) (text.map F.fold)

theorem Folding.special_fold (c : α) : S.special (F.fold c) = S.special c := by
  cases h : S.special c with
  | true => rw [F.fixes c h, h]
  | false =>
    cases hf : S.special (F.fold c) with
    | true => exact absurd (F.reflects c hf) (by simp [h])
    | false => rfl

theorem Folding.map_escaped (text : List α) :
    (S.escaped text).map F.fold = S.escaped (text.map F.fold) := by
  have he : F.fold S.escape = S.escape := F.fixes _ (by simp [special])
  rw [escaped_eq, escaped_eq, List.map_flatMap, List.flatMap_map]
  refine List.flatMap_congr fun c _ => ?_
  rw [F.special_fold]
  cases S.special c with
  | true => simp [he]
  | false => rfl

/-- A pattern made of an escaped text between two wildcards matches the texts that contain it, up to
folding. -/
theorem ilike_contains (text t : List α) :
    ilike F (S.anyString :: (S.escaped text ++ [S.anyString])) t =
      some (decide (text.map F.fold <:+: t.map F.fold)) := by
  have hs : F.fold S.anyString = S.anyString := F.fixes _ (by simp [special])
  have hp : (S.anyString :: (S.escaped text ++ [S.anyString])).map F.fold =
      S.anyString :: (S.escaped (text.map F.fold) ++ [S.anyString]) := by
    rw [List.map_cons, List.map_append, F.map_escaped, hs, List.map_singleton, hs]
  have hend : S.tokens [S.anyString] = some [.anyString] := S.tokens_anyString []
  rw [ilike, like, hp, tokens_anyString, tokens_escaped, hend]
  simp only [Option.map_some, Option.some.injEq]
  rw [Bool.eq_iff_iff, describes_infix, decide_eq_true_eq]

end LikeSyntax

end ShipmentImport
