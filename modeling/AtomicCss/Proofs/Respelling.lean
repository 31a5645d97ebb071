import AtomicCss.Proofs.Lexed
import AtomicCss.Proofs.Rewriting

/-!
# Written tokens

What normalization writes is the text of a list of tokens: the rewritten ones, with blanks where a
space is put. Writing these tokens once more gives the same text, their parentheses balance like
those of the value, and a `content` value of theirs is CSS if the value is.
-/

namespace AtomicCss.Proofs

open Token Value

/-- The text of tokens. -/
def spell (tokens : List Token) : List Char :=
  tokens.flatMap spelling

/-- The blanks in front of a token. -/
def blanks (written : List Char) (pending : Bool) (t : Token) : List Token :=
  if pending && !needsNoSpace written t then [.whitespace] else []

/-- The tokens as they are written. -/
def rewriteTokens (property : String) (written : List Char) (pending : Bool) (scopes : List Bool) :
    List Token → List Token
  | [] => []
  | .whitespace :: tokens => rewriteTokens property written true scopes tokens
  | t :: tokens =>
    blanks written pending t ++ rewritten property (scopes.any id) t :: rewriteTokens property
      (written ++ spacing written pending t ++ tokenText property (scopes.any id) t) false
      (scopesAfter scopes t) tokens

section

variable {property : String} {written : List Char} {pending : Bool} {scopes : List Bool}

lemma spell_blanks (t : Token) : spell (blanks written pending t) = spacing written pending t := by
  unfold blanks spacing
  split <;> rfl

lemma rewriteTokens_cons {t : Token} (h : t ≠ .whitespace) (tokens : List Token) :
    rewriteTokens property written pending scopes (t :: tokens) =
      blanks written pending t ++ rewritten property (scopes.any id) t :: rewriteTokens property
        (written ++ spacing written pending t ++ tokenText property (scopes.any id) t) false
        (scopesAfter scopes t) tokens := by
  cases t with
  | whitespace => exact (h rfl).elim
  | _ => rfl

lemma writeTokens_eq_spell (tokens : List Token) :
    writeTokens property written pending scopes tokens =
      written ++ spell (rewriteTokens property written pending scopes tokens) := by
  induction tokens generalizing written pending scopes with
  | nil => exact (List.append_nil written).symm
  | cons t tokens ih =>
    by_cases hblank : t = .whitespace
    · subst hblank
      exact ih
    · rw [writeTokens_cons hblank, rewriteTokens_cons hblank, ih]
      unfold spell
      rw [List.flatMap_append, List.flatMap_cons, spelling_rewritten]
      change _ = written ++ (spell _ ++ _)
      rw [spell_blanks]
      simp only [List.append_assoc]

lemma rewritten_ne_whitespace {t : Token} (h : t ≠ .whitespace) (verbatim : Bool) :
    rewritten property verbatim t ≠ .whitespace :=
  fun heq => h ((rewritten_eq_iff property verbatim t id).1 heq)

/-- A rewritten token is written like the token itself, behind the space that was put. -/
lemma writeTokens_rewritten {t : Token} (h : t ≠ .whitespace) (hparts : HasParts t)
    (tokens : List Token) :
    writeTokens property written false scopes
        (blanks written pending t ++ rewritten property (scopes.any id) t :: tokens) =
      writeTokens property
        (written ++ spacing written pending t ++ tokenText property (scopes.any id) t) false
        (scopesAfter scopes t) tokens := by
  have hne : rewritten property (scopes.any id) t ≠ .whitespace := rewritten_ne_whitespace h _
  have hagain : ∀ again, spacing written again (rewritten property (scopes.any id) t) =
      spacing written again t := by
    intro again
    unfold spacing
    rw [needsNoSpace_rewritten]
  unfold blanks
  split
  · rename_i hspace
    have hpending : pending = true := (Bool.and_eq_true_iff.1 hspace).1
    change writeTokens property written true scopes (_ :: tokens) = _
    rw [writeTokens_cons hne, hagain, tokenText_rewritten hparts, spelling_rewritten,
      scopesAfter_rewritten, hpending]
  · rename_i hspace
    have hnone : spacing written pending t = [] := if_neg hspace
    rw [List.nil_append, writeTokens_cons hne, hagain, tokenText_rewritten hparts,
      spelling_rewritten, scopesAfter_rewritten, hnone]
    rfl

/-- The written tokens have nothing more to rewrite. -/
lemma writeTokens_rewriteTokens {tokens : List Token} (hparts : ∀ t ∈ tokens, HasParts t) :
    writeTokens property written false scopes
        (rewriteTokens property written pending scopes tokens) =
      writeTokens property written pending scopes tokens := by
  induction tokens generalizing written pending scopes with
  | nil => rfl
  | cons t tokens ih =>
    obtain ⟨ht, hmore⟩ := List.forall_mem_cons.1 hparts
    by_cases hblank : t = .whitespace
    · subst hblank
      exact ih hmore
    · rw [rewriteTokens_cons hblank, writeTokens_rewritten hblank ht, writeTokens_cons hblank]
      exact ih hmore

lemma openBehind?_whitespace (depth : Nat) (tokens : List Token) :
    openBehind? depth (.whitespace :: tokens) = openBehind? depth tokens :=
  if_neg nofun

lemma openBehind?_rewriteTokens (tokens : List Token) (depth : Nat) :
    openBehind? depth (rewriteTokens property written pending scopes tokens) =
      openBehind? depth tokens := by
  induction tokens generalizing written pending scopes depth with
  | nil => rfl
  | cons t tokens ih =>
    by_cases hblank : t = .whitespace
    · subst hblank
      exact ih depth
    · have hblanks : ∀ more, openBehind? depth (blanks written pending t ++ more) =
          openBehind? depth more := by
        intro more
        unfold blanks
        split
        · exact openBehind?_whitespace depth more
        · rfl
      have hclose := rewritten_eq_iff property (scopes.any id) t (u := .rightParen) id
      rw [rewriteTokens_cons hblank, hblanks, openBehind?, openBehind?, depthBehind_rewritten, ih]
      simp only [hclose]

lemma contentItems_whitespace (depth : Nat) (found : Bool) (tokens : List Token) :
    contentItems depth found (.whitespace :: tokens) = contentItems depth found tokens := by
  rw [contentItems]
  split
  · rfl
  · rename_i hdepth
    rw [Nat.eq_zero_of_not_pos hdepth]

/-- Inside parentheses only these count, outside of them a dimension is no content. -/
lemma contentItems_word {t : Token} (h : IsWord t) {depth : Nat} (hdepth : 0 < depth)
    (found : Bool) (tokens : List Token) :
    contentItems depth found (t :: tokens) = contentItems depth found tokens := by
  cases t <;> first | exact h.elim | simp only [contentItems, if_pos hdepth]

lemma contentItems_dimensionToken (text unit : List Char) (found : Bool) (tokens : List Token) :
    contentItems 0 found (dimensionToken text unit :: tokens) = false := by
  have hseconds : ∀ number, contentItems 0 found (secondsToken number :: tokens) = false := by
    intro number
    unfold secondsToken
    split
    · rename_i hinfinite
      have hname : isNamed contentKeywords (number ++ ['s']) = false := by
        rcases hinfinite with rfl | rfl <;> decide +kernel
      rw [contentItems, if_neg (Nat.lt_irrefl 0), hname]
      rfl
    · rfl
  unfold dimensionToken
  dsimp only
  split
  · split
    · rfl
    · split
      · exact hseconds _
      · rfl
  · repeat' split
    all_goals rfl

/-- Rewriting a token of a `content` value does not change what it counts for. -/
lemma contentItems_rewritten (verbatim : Bool) (t : Token) {depth : Nat} {found : Bool}
    {tokens tokens' : List Token}
    (h : ∀ depth found, contentItems depth found tokens' = contentItems depth found tokens) :
    contentItems depth found (rewritten "content" verbatim t :: tokens') =
      contentItems depth found (t :: tokens) := by
  have hcons : contentItems depth found (t :: tokens') = contentItems depth found (t :: tokens) := by
    cases t <;> simp only [contentItems, h]
  by_cases hsame : tokenText "content" verbatim t = t.spelling
  · rw [rewritten_of_same hsame, hcons]
  · rw [← hcons]
    rcases rewritten_cases "content" verbatim t with heq | ⟨hword, hrewritten⟩
    · rw [heq]
    · rcases Nat.eq_zero_or_pos depth with rfl | hdepth
      · unfold rewritten
        rw [if_neg hsame]
        cases t with
        | ident name => exact (hsame rfl).elim
        | dimension text unit => exact contentItems_dimensionToken text unit found tokens'
        | string | number | percentage => rfl
        | _ => exact hword.elim
      · rw [contentItems_word hrewritten hdepth, contentItems_word hword hdepth]

lemma contentItems_rewriteTokens (tokens : List Token) (depth : Nat) (found : Bool) :
    contentItems depth found (rewriteTokens "content" written pending scopes tokens) =
      contentItems depth found tokens := by
  induction tokens generalizing written pending scopes depth found with
  | nil => rfl
  | cons t tokens ih =>
    by_cases hblank : t = .whitespace
    · subst hblank
      rw [contentItems_whitespace]
      exact ih depth found
    · have hblanks : ∀ more, contentItems depth found (blanks written pending t ++ more) =
          contentItems depth found more := by
        intro more
        unfold blanks
        split
        · exact contentItems_whitespace depth found more
        · rfl
      rw [rewriteTokens_cons hblank, hblanks]
      exact contentItems_rewritten (scopes.any id) t fun depth found => ih depth found

end

end AtomicCss.Proofs
