import AtomicCss.Proofs.ReadBack
import AtomicCss.Proofs.Respelling

/-!
# Values whose tokens stay apart

A written value is split at the same places again, unless a rewritten token and its neighbour join
into one. Tokens join where a number stands directly behind a name, a number or a sign, where a
parenthesis or a percent sign stands directly behind a dimension, and where a blank behind an
escaped parenthesis or comma is dropped.
-/

namespace AtomicCss.Proofs

open Token Value

/-- The tokens that begin with a number. -/
def isQuantity : Token → Bool
  | .number _ | .percentage _ | .dimension .. => true
  | _ => false

/-- The neighbours that join if one of them is rewritten. -/
def joins : Token → Token → Bool
  | .dimension .., .leftParen => true
  | .dimension .., .delim '%' => true
  | t, u => isOpenEnded t && isQuantity u

/-- The text of the token ends in an escaped mark behind which no space is written. -/
def endsOpen (property : String) (verbatim : Bool) (t : Token) : Bool :=
  isOpenEnded t && (tokenText property verbatim t).getLast?.any fun c => c == '(' || c == ','

/-- Two neighbours that are told apart in what is written for them. -/
structure Apart (property : String) (verbatim : Bool) (t u : Token) : Prop where
  kept : joins t u = true → tokenText property verbatim t = t.spelling ∧
    tokenText property verbatim u = u.spelling
  spaced : u = .whitespace → endsOpen property verbatim t = false

instance (property : String) (verbatim : Bool) (t u : Token) :
    Decidable (Apart property verbatim t u) :=
  decidable_of_iff ((joins t u = true → tokenText property verbatim t = t.spelling ∧
      tokenText property verbatim u = u.spelling) ∧
    (u = .whitespace → endsOpen property verbatim t = false))
    ⟨fun h => ⟨h.1, h.2⟩, fun h => ⟨h.kept, h.spaced⟩⟩

/-- The tokens of a value that are the same in what is written for it. -/
def Separate (property : String) : List Bool → List Token → Prop
  | _, [] => True
  | scopes, t :: tokens => Intact property (scopes.any id) t ∧
    (∀ u ∈ tokens.head?, Apart property (scopes.any id) t u) ∧
      Separate property (scopesAfter scopes t) tokens

instance decidableSeparate (property : String) :
    (scopes : List Bool) → (tokens : List Token) → Decidable (Separate property scopes tokens)
  | _, [] => inferInstanceAs (Decidable True)
  | scopes, t :: tokens =>
    have := decidableSeparate property (scopesAfter scopes t) tokens
    inferInstanceAs (Decidable (_ ∧ _ ∧ _))

section

variable {cs rest : List Char} {t : Token}

lemma not_blank_of_next? (h : next? cs = .ok (some (t, rest))) (ht : t ≠ .whitespace) :
    ∀ c ∈ cs.head?, Text.isBlank c = false := by
  intro c hc
  by_contra hblank
  rw [Bool.not_eq_false] at hblank
  obtain ⟨cs, rfl⟩ := List.head?_eq_some_iff.1 hc
  rw [next?, if_pos hblank] at h
  cases h
  exact ht rfl

lemma isQuantity_of_startsNumber (h : next? cs = .ok (some (t, rest)))
    (hstart : startsNumber cs = true) : isQuantity t = true := by
  rw [next?_of_startsNumber hstart] at h
  obtain ⟨pair, hread, heq⟩ := map_eq_ok h
  cases heq
  unfold readNumber at hread
  dsimp only at hread
  repeat' split at hread
  all_goals first | (cases hread; rfl) | cases hread

/-- A quantity that is kept begins with the number that it is read from. -/
lemma sameNumber_of_taken (h : Taken cs t rest) (ht : isQuantity t = true) (more : List Char) :
    SameNumber (t.spelling ++ more) cs := by
  have hnumber : startsNumber cs = true → ∀ behind,
      SameNumber ((numberSpan cs).1 ++ behind) cs := by
    intro hstart behind
    obtain ⟨p, hp, _⟩ := parts_of_startsNumber hstart
    have happend := numberSpan_append cs
    rw [hp] at happend ⊢
    conv_rhs => rw [← happend]
    exact p.sameNumber _ _
  cases h with
  | number hstart => exact hnumber hstart more
  | percentage hstart =>
    rw [spelling, List.append_assoc]
    exact hnumber hstart _
  | dimension hstart =>
    rw [spelling, List.append_assoc]
    exact hnumber hstart _
  | _ => cases ht

lemma isQuantity_rewritten {property : String} {verbatim : Bool} (h : isQuantity t = false) :
    isQuantity (rewritten property verbatim t) = false := by
  unfold rewritten
  split
  · exact h
  · cases t <;> first | rfl | cases h

lemma nameStart_of_equalsIgnoringCase {name : List Char} {c : Char}
    (h : Text.equalsIgnoringCase name ['u', 'r', 'l'] = true) (hc : c ∈ name.head?) :
    c = 'u' ∨ isNameStart c = true := by
  obtain ⟨cs, rfl⟩ := List.head?_eq_some_iff.1 hc
  have hlower : c.toLower = 'u' := (List.cons.inj (eq_of_beq h)).1
  by_cases hupper : c.isUpper = true
  · simp [isNameStart, Char.isAlpha, hupper]
  · left
    rw [← toLower_of_not_isUpper (Bool.eq_false_iff.2 hupper), hlower]

lemma tokenText_ne_nil {property : String} {verbatim : Bool} (hf : Formed t) :
    tokenText property verbatim t ≠ [] := by
  have hnumber : ∀ {text : List Char}, text ≠ [] →
      (if verbatim then text else Decimal.canonical text) ≠ [] := by
    intro text hne
    split
    · exact hne
    · exact canonical_ne_nil hne
  cases t with
  | ident name =>
    obtain ⟨c, cs, rfl, _⟩ := hf
    rw [tokenText]
    split
    · exact dashCaseText_ne_nil (List.cons_ne_nil c cs)
    · exact List.cons_ne_nil c cs
  | number text => exact hnumber hf.1
  | percentage text => exact List.append_ne_nil_of_left_ne_nil (hnumber hf.1) _
  | dimension text unit =>
    rw [tokenText]
    split
    · exact List.append_ne_nil_of_left_ne_nil hf.1 _
    · rcases canonicalDimension_plain hf.2 unit with heq | ⟨hne, _⟩
      · rw [heq]
        exact List.append_ne_nil_of_left_ne_nil (canonical_ne_nil hf.1) _
      · exact hne
  | string quote raw =>
    rw [tokenText]
    split <;> exact List.cons_ne_nil _ _
  | function name => exact List.append_ne_nil_of_right_ne_nil _ (List.cons_ne_nil _ _)
  | _ => exact List.cons_ne_nil _ _

lemma headLike_append {text : List Char} (h : text ≠ []) (more rest : List Char) :
    HeadLike (text ++ more) (text ++ rest) := by
  intro c hc
  rw [List.head?_append_of_ne_nil _ h] at hc
  exact .inr ⟨c, List.mem_head?_append_of_mem_head? hc, .inl rfl⟩

/-- A dashed name begins like the name. -/
lemma headLike_dashCaseText {name : List Char} (h : name ≠ []) (more rest : List Char) :
    HeadLike (Property.dashCaseText name ++ more) (name ++ rest) := by
  intro c hc
  rw [List.head?_append_of_ne_nil _ (dashCaseText_ne_nil h)] at hc
  obtain ⟨d, hd, hcase⟩ := head_dashCaseText hc
  exact .inr ⟨d, List.mem_head?_append_of_mem_head? hd,
    hcase.imp_right fun hnames => ⟨hnames.1, hnames.2.1⟩⟩

/-- The name of an address may be written in capitals. -/
lemma headLike_url {name : List Char} (h : Text.equalsIgnoringCase name ['u', 'r', 'l'] = true)
    (more rest : List Char) : HeadLike ('u' :: more) (name ++ rest) := by
  intro c hc
  obtain rfl := Option.some.inj hc
  cases name with
  | nil => cases h
  | cons d ds =>
    exact .inr ⟨d, rfl, (nameStart_of_equalsIgnoringCase h rfl).imp_right fun hd => ⟨hd, rfl⟩⟩

/-- What is written for a token that is no quantity begins like its source. -/
lemma headLike_rewritten {property : String} {verbatim : Bool} (h : Taken cs t rest)
    (hblank : t ≠ .whitespace) (ht : isQuantity t = false) (more : List Char) :
    HeadLike ((rewritten property verbatim t).spelling ++ more) cs := by
  rcases spelling_of_taken h hblank with hspelling | ⟨raw, rfl⟩
  · rw [← hspelling]
    by_cases hkept : tokenText property verbatim t = t.spelling
    · rw [rewritten_of_same hkept]
      exact headLike_append (hkept ▸ tokenText_ne_nil (formed_of_taken h)) more rest
    · rw [rewritten_of_changed hkept]
      cases t with
      | ident name =>
        obtain ⟨c, cs, rfl, _⟩ := formed_of_taken h
        exact headLike_dashCaseText (List.cons_ne_nil c cs) more rest
      | string quote raw =>
        intro c hc
        obtain rfl := Option.some.inj hc
        exact .inl (by decide)
      | number | percentage | dimension => cases ht
      | _ => exact (hkept rfl).elim
  · cases h with
    | url _ hurl =>
      rw [rewritten_of_same rfl, ← nameSpan_append cs]
      exact headLike_url hurl _ _

/-- What is written behind a text for which only a closing mark needs no space. -/
lemma head_pending {property : String} {written : List Char} {scopes : List Bool}
    (hwritten : ∀ u, needsNoSpace written u = true → u = .rightParen ∨ u = .comma)
    (tokens : List Token) :
    ∀ c ∈ (spell (rewriteTokens property written true scopes tokens)).head?,
      c ∈ [' ', ',', ')'] := by
  induction tokens with
  | nil => nofun
  | cons u tokens ih =>
    by_cases hblank : u = .whitespace
    · subst hblank
      exact ih
    · rw [rewriteTokens_cons hblank]
      intro c hc
      by_cases hspace : needsNoSpace written u = true
      · rcases hwritten u hspace with rfl | rfl
        all_goals
          rw [rewritten_of_same rfl, blanks, hspace] at hc
          obtain rfl := Option.some.inj hc
          decide
      · rw [Bool.not_eq_true] at hspace
        rw [blanks, hspace] at hc
        obtain rfl := Option.some.inj hc
        decide

lemma quoteAhead_dropWhile (cs : List Char) :
    quoteAhead (cs.dropWhile Text.isBlank) = quoteAhead cs := by
  unfold quoteAhead
  rw [List.dropWhile_idempotent]

lemma quoteAhead_of_not_blank {c : Char} (h : Text.isBlank c = false) (cs : List Char) :
    quoteAhead (c :: cs) = (c == '"' || c == '\'') := by
  unfold quoteAhead
  rw [List.dropWhile_cons_of_neg (by simp [h])]

lemma string_of_quote {c : Char} (hc : c = '"' ∨ c = '\'')
    (h : next? (c :: cs) = .ok (some (t, rest))) : ∃ raw, t = .string c raw := by
  have htaken := taken_of_next? h
  cases htaken with
  | string _ _ => exact ⟨_, rfl⟩
  | whitespace _ hblank => rcases hc with rfl | rfl <;> cases hblank
  | delim _ hmem => rcases hc with rfl | rfl <;> exact absurd hmem (by decide)
  | number hstart | percentage hstart | dimension hstart =>
    rcases hc with rfl | rfl <;> cases hstart
  | url hstart | function hstart | ident hstart => rcases hc with rfl | rfl <;> cases hstart
  | _ => simp at hc

/-- A string behind an opening parenthesis is written directly behind it. -/
lemma quoteAhead_rewriteTokens {property : String} {written : List Char} {tokens : List Token}
    (h : Lexed cs tokens) (hquote : quoteAhead cs = true)
    (hwritten : ∀ u, needsNoSpace written u = true) {pending : Bool} {scopes : List Bool} :
    quoteAhead (spell (rewriteTokens property written pending scopes tokens)) = true := by
  induction h generalizing pending with
  | nil => cases hquote
  | @cons cs rest u tokens hnext _ ih =>
    by_cases hblank : u = .whitespace
    · subst hblank
      apply ih
      cases taken_of_next? hnext with
      | whitespace cs hc =>
        rw [← quoteAhead_dropWhile, List.dropWhile_cons_of_pos hc] at hquote
        exact hquote
    · have hhead := not_blank_of_next? hnext hblank
      rw [rewriteTokens_cons hblank, blanks, hwritten, Bool.not_true, Bool.and_false]
      cases cs with
      | nil => cases hnext
      | cons c cs =>
        rw [quoteAhead_of_not_blank (hhead c rfl)] at hquote
        have hc : c = '"' ∨ c = '\'' := by simpa using hquote
        obtain ⟨raw, rfl⟩ := string_of_quote hc hnext
        obtain ⟨q, more, hq, hquotes⟩ : ∃ q more,
            (rewritten property (scopes.any id) (.string c raw)).spelling = q :: more ∧
              (q = '"' ∨ q = '\'') := by
          unfold rewritten
          split
          · exact ⟨c, _, rfl, hc⟩
          · exact ⟨'"', _, rfl, .inl rfl⟩
        change quoteAhead ((rewritten property (scopes.any id) (.string c raw)).spelling ++ _) = true
        rw [hq]
        rcases hquotes with rfl | rfl <;> rfl

/-- Behind an opening parenthesis or a comma no space is needed. -/
lemma needsNoSpace_append_open (written text : List Char) {c : Char} (hc : c = '(' ∨ c = ',')
    (u : Token) : needsNoSpace (written ++ (text ++ [c])) u = true := by
  unfold needsNoSpace
  rw [← List.append_assoc, List.getLast?_concat]
  rcases hc with rfl | rfl <;> rfl

/-- Behind any other token only a closing mark needs no space. -/
lemma closing_of_needsNoSpace {property : String} {verbatim : Bool} {written : List Char}
    (hne : tokenText property verbatim t ≠ [])
    (hclosed : endsOpen property verbatim t = false)
    (hopen : isOpenEnded t = true) {u : Token}
    (hu : needsNoSpace (written ++ tokenText property verbatim t) u = true) :
    u = .rightParen ∨ u = .comma := by
  have hlast : ((tokenText property verbatim t).getLast?.any fun c => c == '(' || c == ',') =
      false := by
    unfold endsOpen at hclosed
    rwa [hopen, Bool.true_and] at hclosed
  unfold needsNoSpace at hu
  rw [List.getLast?_append_of_ne_nil _ hne, List.getLast?_eq_getLast_of_ne_nil hne] at hu
  rw [List.getLast?_eq_getLast_of_ne_nil hne, Option.any_some] at hlast
  dsimp only at hu
  rw [hlast] at hu
  simpa using hu

lemma joins_of_isOpenEnded {u : Token} (ht : isOpenEnded t = true) (hu : isQuantity u = true) :
    joins t u = true := by
  unfold joins
  split
  · rfl
  · rfl
  · rw [ht, hu]
    rfl

/-- A space or a closing mark goes on with nothing. -/
lemma standsBehind_closing {property : String} {verbatim : Bool} {text : List Char}
    (hrest : rest ≠ []) (h : ∀ c ∈ text.head?, c ∈ [' ', ',', ')']) :
    StandsBehind property verbatim t text rest := by
  have hclosed : ∀ c ∈ [' ', ',', ')'], c ∈ [' ', ',', ')', '"'] ∧
      ¬(c.isDigit = true ∨ c = '+' ∨ c = '-' ∨ c = '.') := by decide
  refine .inl ⟨⟨fun hnil => (hrest hnil).elim, fun c hc => .inl (hclosed c (h c hc)).1⟩, ?_⟩
  cases text with
  | nil => rfl
  | cons c cs => exact startsNumber_of_head (hclosed c (h c rfl)).2

lemma ne_nil_of_next? (h : next? cs = .ok (some (t, rest))) : cs ≠ [] := by
  rintro rfl
  cases h

/-- A rewritten token that is read where it stands goes on with no token that it is apart from. -/
lemma standsBehind_token {property : String} {verbatim : Bool} {u : Token}
    {rest' more more' : List Char} (hopen : isOpenEnded t = true)
    (hapart : Apart property verbatim t u) (hu : next? rest = .ok (some (u, rest')))
    (hblank : u ≠ .whitespace)
    (hnext : next? ((rewritten property verbatim u).spelling ++ more) =
      .ok (some (rewritten property verbatim u, more'))) :
    StandsBehind property verbatim t ((rewritten property verbatim u).spelling ++ more) rest := by
  have htaken := taken_of_next? hu
  by_cases hquantity : isQuantity u = true
  · obtain ⟨hkept, hsame⟩ := hapart.kept (joins_of_isOpenEnded hopen hquantity)
    rw [rewritten_of_same hsame]
    exact .inr ⟨sameNumber_of_taken htaken hquantity more, hkept⟩
  · rw [Bool.not_eq_true] at hquantity
    refine .inl ⟨⟨fun hnil => (ne_nil_of_next? hu hnil).elim,
      headLike_rewritten htaken hblank hquantity more⟩, ?_⟩
    by_contra hstart
    rw [Bool.not_eq_false] at hstart
    have hnumber := isQuantity_of_startsNumber hnext hstart
    rw [isQuantity_rewritten hquantity] at hnumber
    cases hnumber

/-- What is written for the tokens behind an open-ended one does not go on with it. -/
lemma standsBehind_rewriteTokens {property : String} {verbatim : Bool} {scopes : List Bool}
    {written : List Char} {tokens : List Token} (hopen : isOpenEnded t = true)
    (hne : tokenText property verbatim t ≠ []) (hscopes : scopes.any id = verbatim)
    (hapart : ∀ u ∈ tokens.head?, Apart property verbatim t u) (hlexed : Lexed rest tokens)
    (hrewritten : Lexed
      (spell (rewriteTokens property (written ++ tokenText property verbatim t) false scopes tokens))
      (rewriteTokens property (written ++ tokenText property verbatim t) false scopes tokens)) :
    StandsBehind property verbatim t
      (spell (rewriteTokens property (written ++ tokenText property verbatim t) false scopes tokens))
      rest := by
  cases hlexed with
  | nil => exact .inl ⟨⟨id, nofun⟩, rfl⟩
  | @cons _ rest' u tokens hnext htail =>
    have happart := hapart u rfl
    by_cases hblank : u = .whitespace
    · subst hblank
      have hclosing : ∀ u, needsNoSpace (written ++ tokenText property verbatim t) u = true →
          u = .rightParen ∨ u = .comma := fun u hu =>
        closing_of_needsNoSpace hne (happart.spaced rfl) hopen hu
      exact standsBehind_closing (ne_nil_of_next? hnext) (head_pending hclosing tokens)
    · rw [rewriteTokens_cons hblank, hscopes] at hrewritten ⊢
      obtain ⟨_, hnext', _⟩ := hrewritten.uncons
      exact standsBehind_token hopen happart hnext hblank hnext'

lemma next?_leftParen (cs : List Char) : next? ('(' :: cs) = .ok (some (.leftParen, cs)) := rfl

lemma next?_percent (cs : List Char) : next? ('%' :: cs) = .ok (some (.delim '%', cs)) := rfl

/-- A token that is apart from the one behind it is read back in front of what is written for
that. -/
lemma reads_rewriteTokens {property : String} {scopes : List Bool} {written : List Char}
    {tokens : List Token} (hnext : next? cs = .ok (some (t, rest))) (hblank : t ≠ .whitespace)
    (htail : Lexed rest tokens) (hintact : Intact property (scopes.any id) t)
    (hapart : ∀ u ∈ tokens.head?, Apart property (scopes.any id) t u)
    (hbehind : Lexed
      (spell (rewriteTokens property (written ++ tokenText property (scopes.any id) t) false
        (scopesAfter scopes t) tokens))
      (rewriteTokens property (written ++ tokenText property (scopes.any id) t) false
        (scopesAfter scopes t) tokens)) :
    Reads (rewritten property (scopes.any id) t)
      (spell (rewriteTokens property (written ++ tokenText property (scopes.any id) t) false
        (scopesAfter scopes t) tokens)) := by
  have htaken := taken_of_next? hnext
  refine reads_rewritten htaken (not_blank_of_next? hnext hblank) hintact (fun hopen => ?_) ?_ ?_
  · refine standsBehind_rewriteTokens hopen (tokenText_ne_nil (formed_of_taken htaken)) ?_ hapart
      htail hbehind
    -- open-ended tokens open and close nothing
    cases t <;> first | rfl | cases hopen
  · rintro text unit rfl hchanged
    have hjoins : ∀ u ∈ tokens.head?, joins (.dimension text unit) u ≠ true :=
      fun u hu hjoins => hchanged ((hapart u hu).kept hjoins).1
    refine ⟨fun hopen => ?_, fun hpercent => ?_⟩
    · obtain ⟨cs, rfl⟩ := List.head?_eq_some_iff.1 hopen
      obtain ⟨more, rfl⟩ := htail.head_eq (next?_leftParen cs)
      exact hjoins _ rfl rfl
    · obtain ⟨cs, rfl⟩ := List.head?_eq_some_iff.1 hpercent
      obtain ⟨more, rfl⟩ := htail.head_eq (next?_percent cs)
      exact hjoins _ rfl rfl
  · rintro name rfl hurl
    refine quoteAhead_rewriteTokens htail ?_ (needsNoSpace_append_open _ name (.inl rfl))
    cases htaken with
    | function _ _ hquote => exact hquote hurl

/-- What is written for separate tokens is split into the rewritten tokens. -/
lemma lexed_rewriteTokens {property : String} {tokens : List Token} (h : Lexed cs tokens)
    {scopes : List Bool} (hseparate : Separate property scopes tokens)
    {written : List Char} {pending : Bool} :
    Lexed (spell (rewriteTokens property written pending scopes tokens))
      (rewriteTokens property written pending scopes tokens) := by
  -- from the end: what is written behind a token has been split when the token is read in front
  induction h generalizing scopes written pending with
  | nil => exact .nil
  | @cons cs rest t tokens hnext htail ih =>
    obtain ⟨hintact, hapart, hmore⟩ := hseparate
    by_cases hblank : t = .whitespace
    · subst hblank
      exact ih hmore
    · have hbehind := @ih _ hmore
        (written ++ spacing written pending t ++ tokenText property (scopes.any id) t) false
      have hreads := reads_rewriteTokens hnext hblank htail hintact hapart hbehind
      have hword := Lexed.cons hreads hbehind
      rw [rewriteTokens_cons hblank]
      unfold blanks
      split
      · have hne : rewritten property (scopes.any id) t ≠ .whitespace :=
          rewritten_ne_whitespace hblank _
        exact .cons (reads_whitespace (not_blank_of_next? hreads hne)) hword
      · exact hword

end

end AtomicCss.Proofs
