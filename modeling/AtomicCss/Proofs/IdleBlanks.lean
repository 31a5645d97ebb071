import AtomicCss.Proofs.Idempotence

/-!
# Blanks that separate nothing

A blank behind an opening parenthesis or a comma, or in front of a closing parenthesis or a comma,
is never written. So two values with the same tokens, up to such blanks, have the same normal form.
-/

namespace AtomicCss.Proofs

open Token Value

/-- The tokens behind which a blank separates nothing. -/
def opens : Token → Bool
  | .function _ | .leftParen | .comma => true
  | _ => false

/-- The tokens in front of which a blank separates nothing. -/
def closes : Token → Bool
  | .rightParen | .comma => true
  | _ => false

/-- The tokens, of which `before` is the one in front, without the blanks that separate nothing. -/
def withoutIdle (before : Option Token) : List Token → List Token
  | [] => []
  | t :: tokens =>
    if t = .whitespace ∧ (before.any opens ∨ tokens.head?.any closes) then
      withoutIdle (some t) tokens
    else t :: withoutIdle (some t) tokens

lemma needsNoSpace_of_closes {t : Token} (h : closes t = true) (written : List Char) :
    needsNoSpace written t = true := by
  have hlast : t = .rightParen ∨ t = .comma := by
    cases t <;> first | exact .inl rfl | exact .inr rfl | cases h
  unfold needsNoSpace
  rcases hlast with rfl | rfl <;> exact Bool.or_eq_true_iff.2 (by simp)

/-- No space is written behind the text of an opening token. -/
lemma needsNoSpace_of_opens {t : Token} (h : opens t = true) (property : String) (verbatim : Bool)
    (written : List Char) (u : Token) :
    needsNoSpace (written ++ tokenText property verbatim t) u = true := by
  cases t with
  | function name => exact needsNoSpace_append_open written name (.inl rfl) u
  | leftParen => exact needsNoSpace_append_open written [] (.inl rfl) u
  | comma => exact needsNoSpace_append_open written [] (.inr rfl) u
  | _ => cases h

/-- Whether blanks are pending makes no difference: they are in both runs or in none, or the next
token is written without a space. -/
def SameSpace (written : List Char) (pending pending' : Bool) (tokens : List Token) : Prop :=
  pending = pending' ∨ (∀ t, needsNoSpace written t = true) ∨ tokens.head?.any closes = true

lemma SameSpace.spacing {written : List Char} {pending pending' : Bool} {t : Token}
    {tokens : List Token} (h : SameSpace written pending pending' (t :: tokens)) :
    spacing written pending t = spacing written pending' t := by
  have hnone : needsNoSpace written t = true → ∀ p, Proofs.spacing written p t = [] := by
    intro hspace p
    unfold Proofs.spacing
    rw [hspace, Bool.not_true, Bool.and_false]
    rfl
  rcases h with rfl | hwritten | hclose
  · rfl
  · rw [hnone (hwritten t), hnone (hwritten t)]
  · have hspace := needsNoSpace_of_closes hclose written
    rw [hnone hspace, hnone hspace]

/-- The same is written without the idle blanks. The induction is on the tokens, with the two flags
kept so that the next token is written alike. -/
lemma writeTokens_withoutIdle (property : String) (tokens : List Token) {before : Option Token}
    {written : List Char} {pending pending' : Bool} {scopes : List Bool}
    (hbefore : before.any opens = true → ∀ t, needsNoSpace written t = true)
    (hpending : SameSpace written pending pending' tokens) :
    writeTokens property written pending scopes (withoutIdle before tokens) =
      writeTokens property written pending' scopes tokens := by
  induction tokens generalizing before written pending pending' scopes with
  | nil => rfl
  | cons t tokens ih =>
    by_cases hblank : t = .whitespace
    · subst hblank
      change _ = writeTokens property written true scopes tokens
      unfold withoutIdle
      -- an idle blank makes the flags differ, but only where no space is written
      by_cases hidle : before.any opens = true ∨ tokens.head?.any closes = true
      · rw [if_pos ⟨rfl, hidle⟩]
        exact ih nofun (.inr (hidle.imp_left hbefore))
      · rw [if_neg fun h => hidle h.2]
        exact ih nofun (.inl rfl)
    · unfold withoutIdle
      rw [if_neg fun h => hblank h.1, writeTokens_cons hblank, writeTokens_cons hblank,
        hpending.spacing]
      exact ih (fun hopens => needsNoSpace_of_opens hopens property _ _) (.inl rfl)

/-- A value that ends in an `!important`, with blanks behind the exclamation mark or without. -/
def EndsInMark (value : List Char) : Prop :=
  ∃ front blanks word, value = front ++ '!' :: (blanks ++ word) ∧
    (∀ c ∈ blanks, Text.isBlank c = true) ∧ Text.lower word = importantMark.tail

lemma endsInMark_iff {value : List Char} :
    EndsInMark value ↔ (splitImportant value).2 = true := by
  constructor
  · rintro ⟨front, blanks, word, rfl, hblanks, hword⟩
    rw [splitImportant_mark front hblanks hword]
  · intro h
    rcases splitImportant_cases value with hself | hmark
    · rw [hself] at h
      cases h
    · exact hmark

instance (value : List Char) : Decidable (EndsInMark value) :=
  decidable_of_iff _ endsInMark_iff.symm

/-- A value that is a list of tokens and nothing else: no blanks at its ends, and no mark. -/
structure Splits (value : List Char) (tokens : List Token) : Prop where
  trimmed : Trimmed value
  unmarked : ¬EndsInMark value
  tokens : tokenize value = .ok tokens

/-- The normal form of such a value is what is written for its tokens. -/
lemma Splits.normalizeText {property : String} {value : List Char} {tokens : List Token}
    (h : Splits value tokens) (hproperty : property ≠ "content") :
    normalizeText property value = .ok (writeTokens property [] false [] tokens) := by
  have hsplit : splitImportant (Text.trim value) = (value, false) := by
    rw [trim_of_trimmed h.trimmed]
    exact (splitImportant_cases value).resolve_right h.unmarked
  have hbody : bodyOf value = value := congrArg Prod.fst hsplit
  have hcontent : ¬IsPlainContent property value := by
    unfold IsPlainContent
    rw [beq_false_of_ne hproperty]
    exact Bool.false_ne_true
  rw [normalizeText_tokens hcontent, hbody, h.tokens, hsplit]
  exact congrArg Except.ok (List.append_nil _)

/-- Values with the same tokens, up to blanks that separate nothing, have the same normal form. -/
theorem normalizeScalar_idleBlanks {property v w : String} {tokens tokens' : List Token}
    (hproperty : property ≠ "content") (hv : Splits v.toList tokens) (hw : Splits w.toList tokens')
    (hsame : withoutIdle none tokens = withoutIdle none tokens') :
    ∃ text, normalizeScalar property (.text v) = .ok text ∧
      normalizeScalar property (.text w) = .ok text := by
  have hwritten : ∀ tokens, writeTokens property [] false [] (withoutIdle none tokens) =
      writeTokens property [] false [] tokens := fun tokens =>
    writeTokens_withoutIdle property tokens nofun (.inl rfl)
  refine ⟨String.ofList (writeTokens property [] false [] (withoutIdle none tokens)), ?_, ?_⟩
  · change (normalizeText property v.toList).map _ = _
    rw [hv.normalizeText hproperty, hwritten]
    rfl
  · change (normalizeText property w.toList).map _ = _
    rw [hw.normalizeText hproperty, hsame, hwritten]
    rfl

theorem normalizeScalar_idleBlanks_shadow :
    ∃ text,
      normalizeScalar "box-shadow" (.text "0 0 calc( ( 1px + 2px )*2 ) rgb( 0 , 10% ,0 ), none") =
        .ok text ∧
      normalizeScalar "box-shadow" (.text "0 0 calc((1px + 2px)*2) rgb(0,10%,0),none") =
        .ok text := by
  have hlong : tokenize "0 0 calc( ( 1px + 2px )*2 ) rgb( 0 , 10% ,0 ), none".toList =
      .ok [.number ['0'], .whitespace, .number ['0'], .whitespace, .function "calc".toList,
        .whitespace, .leftParen, .whitespace, .dimension ['1'] ['p', 'x'], .whitespace, .delim '+',
        .whitespace, .dimension ['2'] ['p', 'x'], .whitespace, .rightParen, .delim '*',
        .number ['2'], .whitespace, .rightParen, .whitespace, .function "rgb".toList, .whitespace,
        .number ['0'], .whitespace, .comma, .whitespace, .percentage ['1', '0'], .whitespace,
        .comma, .number ['0'], .whitespace, .rightParen, .comma, .whitespace,
        .ident "none".toList] := by
    decide +kernel
  have hshort : tokenize "0 0 calc((1px + 2px)*2) rgb(0,10%,0),none".toList =
      .ok [.number ['0'], .whitespace, .number ['0'], .whitespace, .function "calc".toList,
        .leftParen, .dimension ['1'] ['p', 'x'], .whitespace, .delim '+', .whitespace,
        .dimension ['2'] ['p', 'x'], .rightParen, .delim '*', .number ['2'], .rightParen,
        .whitespace, .function "rgb".toList, .number ['0'], .comma, .percentage ['1', '0'], .comma,
        .number ['0'], .rightParen, .comma, .ident "none".toList] := by
    decide +kernel
  exact normalizeScalar_idleBlanks (by decide)
    ⟨by decide +kernel, by decide +kernel, hlong⟩ ⟨by decide +kernel, by decide +kernel, hshort⟩
    (by decide +kernel)

end AtomicCss.Proofs
