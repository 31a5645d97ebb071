import AtomicCss.Proofs.Dimension
import AtomicCss.Proofs.Reading

/-!
# Tokens written and read again

Normalization writes each token in its canonical text. That text is read as a token again, which has
nothing more to rewrite and takes the part of the first one.
-/

namespace AtomicCss.Proofs

open Token Value

/-- What a token becomes if its text changes. -/
def reworded : Token → Token
  | .ident name => .ident (Property.dashCaseText name)
  | .string _ _ => .string '"' []
  | .number text => .number (Decimal.canonical text)
  | .percentage text => .percentage (Decimal.canonical text)
  | .dimension text unit => dimensionToken text unit
  | t => t

/-- The token whose spelling is written for a token. -/
def rewritten (property : String) (verbatim : Bool) (t : Token) : Token :=
  if tokenText property verbatim t = t.spelling then t else reworded t

/-- The tokens that may be rewritten. They open and close nothing. -/
def IsWord : Token → Prop
  | .ident _ | .string .. | .number _ | .percentage _ | .dimension .. => True
  | _ => False

lemma isWord_dimensionToken (text unit : List Char) : IsWord (dimensionToken text unit) := by
  unfold dimensionToken secondsToken
  dsimp only
  repeat' split
  all_goals trivial

lemma rewritten_of_same {property : String} {verbatim : Bool} {t : Token}
    (h : tokenText property verbatim t = t.spelling) : rewritten property verbatim t = t := by
  unfold rewritten
  rw [if_pos h]

/-- A token is kept, or a word becomes another. -/
lemma rewritten_cases (property : String) (verbatim : Bool) (t : Token) :
    rewritten property verbatim t = t ∨ IsWord t ∧ IsWord (rewritten property verbatim t) := by
  by_cases hsame : tokenText property verbatim t = t.spelling
  · exact .inl (rewritten_of_same hsame)
  · unfold rewritten
    rw [if_neg hsame]
    cases t with
    | dimension text unit => exact .inr ⟨trivial, isWord_dimensionToken text unit⟩
    | ident | string | number | percentage => exact .inr ⟨trivial, trivial⟩
    | _ => exact .inl rfl

lemma spelling_rewritten (property : String) (verbatim : Bool) (t : Token) :
    (rewritten property verbatim t).spelling = tokenText property verbatim t := by
  by_cases hsame : tokenText property verbatim t = t.spelling
  · rw [rewritten_of_same hsame, hsame]
  · unfold rewritten
    rw [if_neg hsame]
    cases t with
    | ident name =>
      have hdashed : (namesProperties property && !Property.isCustomText name) = true := by
        by_contra hkept
        exact hsame (if_neg hkept)
      exact (if_pos hdashed).symm
    | string quote raw =>
      have hempty : (holdsQuotes property && quote == '\'' && raw.isEmpty) = true := by
        by_contra hkept
        exact hsame (if_neg hkept)
      exact (if_pos hempty).symm
    | number text =>
      cases verbatim
      · rfl
      · exact (hsame rfl).elim
    | percentage text =>
      cases verbatim
      · rfl
      · exact (hsame rfl).elim
    | dimension text unit =>
      cases verbatim
      · exact spelling_dimensionToken text unit
      · exact (hsame rfl).elim
    | _ => exact (hsame rfl).elim

/-- The text of a number has the parts of one and can be read. -/
def HasParts (t : Token) : Prop :=
  ∀ text unit, t = .number text ∨ t = .percentage text ∨ t = .dimension text unit →
    ∃ p : NumberParts, text = p.text ∧ (Decimal.read? p.text).isSome = true

lemma hasParts_of_taken {cs rest : List Char} {t : Token} (h : Taken cs t rest) : HasParts t := by
  have hparts : startsNumber cs = true → (Decimal.read? (numberSpan cs).1).isSome = true →
      ∃ p : NumberParts, (numberSpan cs).1 = p.text ∧ (Decimal.read? p.text).isSome = true := by
    intro hstart hread
    obtain ⟨p, hp, _⟩ := parts_of_startsNumber hstart
    exact ⟨p, hp, hp ▸ hread⟩
  intro text unit ht
  cases h with
  | number hstart hread =>
    obtain rfl : (numberSpan cs).1 = text := by simpa using ht
    exact hparts hstart hread
  | percentage hstart hread =>
    obtain rfl : (numberSpan cs).1 = text := by simpa using ht
    exact hparts hstart hread
  | dimension hstart hread =>
    obtain ⟨rfl, _⟩ : (numberSpan cs).1 = text ∧ _ = unit := by simpa using ht
    exact hparts hstart hread
  | _ => simp at ht

/-- What has been rewritten is written as it is. -/
lemma tokenText_rewritten {property : String} {verbatim : Bool} {t : Token} (h : HasParts t) :
    tokenText property verbatim (rewritten property verbatim t) =
      (rewritten property verbatim t).spelling := by
  by_cases hsame : tokenText property verbatim t = t.spelling
  · rw [rewritten_of_same hsame, hsame]
  · unfold rewritten
    rw [if_neg hsame]
    cases t with
    | ident name =>
      change (if _ then Property.dashCaseText (Property.dashCaseText name)
        else Property.dashCaseText name) = Property.dashCaseText name
      rw [dashCaseText_idem, ite_self]
    | string quote raw =>
      change (if _ then ['"', '"'] else ['"', '"']) = ['"', '"']
      exact ite_self _
    | number text =>
      obtain ⟨p, rfl, _⟩ := h text [] (.inl rfl)
      rw [reworded, p.canonical_text, tokenText, p.canonical_text_canonical, ite_self]
      rfl
    | percentage text =>
      obtain ⟨p, rfl, _⟩ := h text [] (.inr (.inl rfl))
      rw [reworded, p.canonical_text, tokenText, p.canonical_text_canonical, ite_self]
      rfl
    | dimension text unit =>
      obtain ⟨p, rfl, _⟩ := h text unit (.inr (.inr rfl))
      cases verbatim
      · exact tokenText_dimensionToken unit property
      · exact (hsame rfl).elim
    | _ => exact (hsame rfl).elim

section

variable (property : String) (verbatim : Bool) (t : Token)

lemma scopesAfter_rewritten (scopes : List Bool) :
    scopesAfter scopes (rewritten property verbatim t) = scopesAfter scopes t := by
  have hword : ∀ {u : Token}, IsWord u → scopesAfter scopes u = scopes := by
    intro u hu
    cases u <;> first | rfl | exact hu.elim
  rcases rewritten_cases property verbatim t with heq | ⟨ht, hu⟩
  · rw [heq]
  · rw [hword ht, hword hu]

lemma depthBehind_rewritten (depth : Nat) :
    depthBehind depth (rewritten property verbatim t) = depthBehind depth t := by
  have hword : ∀ {u : Token}, IsWord u → depthBehind depth u = depth := by
    intro u hu
    cases u <;> first | rfl | exact hu.elim
  rcases rewritten_cases property verbatim t with heq | ⟨ht, hu⟩
  · rw [heq]
  · rw [hword ht, hword hu]

/-- No mark becomes a word, and no word a mark. -/
lemma rewritten_eq_iff {u : Token} (hu : ¬IsWord u) :
    rewritten property verbatim t = u ↔ t = u := by
  rcases rewritten_cases property verbatim t with heq | ⟨ht, hword⟩
  · rw [heq]
  · constructor
    · rintro rfl
      exact (hu hword).elim
    · rintro rfl
      exact (hu ht).elim

lemma needsNoSpace_rewritten (written : List Char) :
    needsNoSpace written (rewritten property verbatim t) = needsNoSpace written t := by
  have hclose := rewritten_eq_iff property verbatim t (u := .rightParen) id
  have hcomma := rewritten_eq_iff property verbatim t (u := .comma) id
  unfold needsNoSpace
  dsimp only
  rw [Bool.eq_iff_iff]
  simp only [Bool.or_eq_true, beq_iff_eq, hclose, hcomma]

end

end AtomicCss.Proofs
