import AtomicCss.Proofs.WrittenEnd

/-!
# Normalized values are normal

A normalized value is its own normal form, as long as its tokens stay apart when they are written.
It is trimmed, ends in a mark only if one was moved there, is split into the rewritten tokens, and
these are written as they are. Text that is quoted as a whole is a string from then on.
-/

namespace AtomicCss.Proofs

open Token Value

/-- The tokens of a value stay apart, unless it is quoted as a whole. -/
def SeparateText (property : String) (raw : List Char) : Prop :=
  ¬IsPlainContent property raw →
    ∀ tokens, tokenize (bodyOf raw) = .ok tokens → Separate property [] tokens

/-- A text with no blanks at its ends. -/
structure Trimmed (text : List Char) : Prop where
  head : ∀ c ∈ text.head?, Text.isBlank c = false
  last : ¬EndsBlank text

lemma trimmed_iff {text : List Char} :
    Trimmed text ↔ text.head?.any Text.isBlank = false ∧ ¬EndsBlank text := by
  rw [Option.any_eq_false]
  exact ⟨fun h => ⟨h.head, h.last⟩, fun h => ⟨h.1, h.2⟩⟩

instance (text : List Char) : Decidable (Trimmed text) :=
  decidable_of_iff _ trimmed_iff.symm

lemma not_endsBlank_trimEnd (text : List Char) : ¬EndsBlank (Text.trimEnd text) := by
  rintro ⟨c, hc, hblank⟩
  have hne : Text.trimEnd text ≠ [] := by
    rintro hnil
    rw [hnil] at hc
    cases hc
  rw [List.getLast?_eq_getLast_of_ne_nil hne] at hc
  obtain rfl := Option.some.inj hc
  exact List.rdropWhile_last_not Text.isBlank text hne hblank

lemma trimEnd_of_not_endsBlank {text : List Char} (h : ¬EndsBlank text) :
    Text.trimEnd text = text := by
  refine List.rdropWhile_eq_self_iff.2 fun hne hblank => h ⟨_, ?_, hblank⟩
  exact List.getLast?_eq_getLast_of_ne_nil hne

lemma trim_of_trimmed {text : List Char} (h : Trimmed text) : Text.trim text = text := by
  have hstart : Text.trimStart text = text := by
    unfold Text.trimStart
    cases text with
    | nil => rfl
    | cons c cs => exact List.dropWhile_cons_of_neg (by simp [h.head c rfl])
  unfold Text.trim
  rw [hstart, trimEnd_of_not_endsBlank h.last]

lemma trim_blanks_append {blanks : List Char} (h : ∀ c ∈ blanks, Text.isBlank c = true)
    (cs : List Char) : Text.trim (blanks ++ cs) = Text.trim cs := by
  unfold Text.trim Text.trimStart
  rw [List.dropWhile_append_of_pos h]

/-- The body of a value has no blank at its end. -/
lemma not_endsBlank_bodyOf (raw : List Char) : ¬EndsBlank (bodyOf raw) := by
  unfold bodyOf
  rcases splitImportant_cases (Text.trim raw) with hself | ⟨front, blanks, word, heq, hblanks, hword⟩
  · rw [hself]
    exact not_endsBlank_trimEnd _
  · rw [heq, splitImportant_mark front hblanks hword]
    exact not_endsBlank_trimEnd front

/-- Without a mark, the body is the whole value, and ends in none. -/
lemma markSeen_bodyOf {raw : List Char} (h : (splitImportant (Text.trim raw)).2 = false) :
    markSeen 0 (bodyOf raw) ≠ 10 := by
  have hseen := markSeen_ne_of_splitImportant h
  unfold bodyOf
  rw [splitImportant_eq_self hseen]
  exact hseen

def markOf (important : Bool) : List Char :=
  if important then importantMark else []

lemma normalizeText_plain {property : String} {raw : List Char} (h : IsPlainContent property raw) :
    normalizeText property raw =
      .ok (quoted (bodyOf raw) ++ markOf (splitImportant (Text.trim raw)).2) :=
  if_pos h

lemma normalizeText_tokens {property : String} {raw : List Char}
    (h : ¬IsPlainContent property raw) :
    normalizeText property raw = (tokenize (bodyOf raw)).map fun tokens =>
      writeTokens property [] false [] tokens ++ markOf (splitImportant (Text.trim raw)).2 :=
  if_neg h

/-- A mark that is written behind a body is split off again. -/
lemma splitImportant_append_mark {body : List Char} (h : Trimmed body) {important : Bool}
    (hseen : important = false → markSeen 0 body ≠ 10) :
    splitImportant (Text.trim (body ++ markOf important)) = (body, important) := by
  cases important with
  | false =>
    change splitImportant (Text.trim (body ++ [])) = _
    rw [List.append_nil, trim_of_trimmed h]
    exact splitImportant_eq_self (hseen rfl)
  | true =>
    have htrimmed : Trimmed (body ++ importantMark) := by
      refine ⟨?_, fun hblank => ?_⟩
      · cases body with
        | nil =>
          intro c hc
          obtain rfl := Option.some.inj hc
          rfl
        | cons c cs => exact h.head
      · rw [endsBlank_append (by decide)] at hblank
        revert hblank
        simp [EndsBlank, importantMark]
        decide
    change splitImportant (Text.trim (body ++ importantMark)) = _
    have hmark : splitImportant (body ++ '!' :: ([] ++ importantMark.tail)) = _ :=
      splitImportant_mark body (List.forall_mem_nil _) rfl
    rw [trimEnd_of_not_endsBlank h.last] at hmark
    rw [trim_of_trimmed htrimmed]
    exact hmark

/-- A body is normal if it is CSS, splits into tokens and is written from them as it stands. -/
structure NormalBody (property : String) (body : List Char) : Prop where
  trimmed : Trimmed body
  css : property = "content" → isCssContent body = true
  tokens : ∃ tokens, tokenize body = .ok tokens ∧ writeTokens property [] false [] tokens = body

/-- A normal body with the mark of its value is a normal form. -/
lemma normalizeText_of_normalBody {property : String} {body : List Char}
    (h : NormalBody property body) {important : Bool}
    (hseen : important = false → markSeen 0 body ≠ 10) :
    normalizeText property (body ++ markOf important) = .ok (body ++ markOf important) := by
  obtain ⟨tokens, htokens, hwritten⟩ := h.tokens
  have hsplit := splitImportant_append_mark h.trimmed hseen
  have hbody : bodyOf (body ++ markOf important) = body := congrArg Prod.fst hsplit
  have hcontent : ¬IsPlainContent property (body ++ markOf important) := by
    unfold IsPlainContent
    rw [hbody, Bool.and_eq_true]
    rintro ⟨hproperty, hcss⟩
    rw [h.css (eq_of_beq hproperty)] at hcss
    cases hcss
  rw [normalizeText_tokens hcontent, hbody, htokens, hsplit]
  change Except.ok (writeTokens property [] false [] tokens ++ _) = _
  rw [hwritten]

lemma stringBody?_escaped (text behind : List Char) :
    stringBody? '"' (escaped text ++ '"' :: behind) = some (escaped text, behind) := by
  induction text with
  | nil =>
    unfold escaped stringBody?
    exact if_pos rfl
  | cons c cs ih =>
    unfold escaped
    split
    · rw [List.cons_append, List.cons_append]
      unfold stringBody?
      rw [if_neg (by decide), if_pos rfl]
      dsimp only
      rw [ih]
      rfl
    · rename_i hc
      rw [not_or] at hc
      rw [List.cons_append]
      unfold stringBody?
      rw [if_neg hc.1, if_neg hc.2, ih]
      rfl

/-- A token that is read up to the end of its text is the only one. -/
lemma lexed_of_reads {t : Token} (h : Reads t []) : Lexed t.spelling [t] := by
  refine .cons ?_ .nil
  rw [← List.append_nil t.spelling]
  exact h

/-- A quoted text is one string. -/
lemma tokenize_quoted (text : List Char) :
    tokenize (quoted text) = .ok [.string '"' (escaped text)] := by
  have hreads : Reads (.string '"' (escaped text)) [] :=
    reads_string (.inl rfl) (stringBody?_escaped text [])
  exact tokenize_eq_ok.2 ⟨lexed_of_reads hreads, rfl⟩

lemma normalBody_quoted (property : String) (text : List Char) :
    NormalBody property (quoted text) := by
  have htokens := tokenize_quoted text
  refine ⟨⟨?_, ?_⟩, fun _ => ?_, _, htokens, ?_⟩
  · intro c hc
    obtain rfl := Option.some.inj hc
    rfl
  · unfold quoted
    rw [← List.cons_append, endsBlank_concat]
    decide
  · unfold isCssContent
    rw [htokens]
    rfl
  · have hkept : ¬(holdsQuotes property && '"' == '\'' && (escaped text).isEmpty) = true := by simp
    exact if_neg hkept

lemma markSeen_quoted (text : List Char) : markSeen 0 (quoted text) ≠ 10 := by
  unfold quoted
  rw [← List.cons_append, markSeen_concat_offMark (by decide)]
  decide

lemma Lexed.forall {P : Token → Prop} {cs : List Char} {tokens : List Token} (h : Lexed cs tokens)
    (hstep : ∀ cs t rest, Taken cs t rest → P t) : ∀ t ∈ tokens, P t := by
  induction h with
  | nil => nofun
  | cons hnext _ ih => exact List.forall_mem_cons.2 ⟨hstep _ _ _ (taken_of_next? hnext), ih⟩

/-- No space is written in front of everything. -/
lemma head_rewriteTokens {property : String} {pending : Bool} {scopes : List Bool}
    (tokens : List Token) :
    ∀ t ∈ (rewriteTokens property [] pending scopes tokens).head?, t ≠ .whitespace := by
  induction tokens generalizing pending with
  | nil => nofun
  | cons t tokens ih =>
    by_cases hblank : t = .whitespace
    · subst hblank
      exact ih
    · have hnone : blanks [] pending t = [] := by
        unfold blanks needsNoSpace
        simp
      rw [rewriteTokens_cons hblank, hnone]
      intro u hu
      obtain rfl := Option.some.inj hu
      exact rewritten_ne_whitespace hblank _

/-- What is written for a body ends like the body. -/
lemma endsLike_body (property : String) {body : List Char} {tokens : List Token}
    (htokens : tokenize body = .ok tokens) (hlast : ¬EndsBlank body) :
    EndsLike (writeTokens property [] false [] tokens) body := by
  have hstart : EndsLike (if false then [] ++ [' '] else []) [] := ⟨.inl rfl, id⟩
  exact endsLike_writeTokens (tokenize_eq_ok.1 htokens).1 hstart hlast

/-- What is written for a body whose tokens stay apart is normal. -/
lemma normalBody_writeTokens {property : String} {body : List Char} {tokens : List Token}
    (htokens : tokenize body = .ok tokens) (hlast : ¬EndsBlank body)
    (hcss : property = "content" → isCssContent body = true)
    (hseparate : Separate property [] tokens) :
    NormalBody property (writeTokens property [] false [] tokens) := by
  obtain ⟨hlexed, hbalanced⟩ := tokenize_eq_ok.1 htokens
  have hspell : writeTokens property [] false [] tokens =
      spell (rewriteTokens property [] false [] tokens) := writeTokens_eq_spell tokens
  have hagain : Lexed (spell (rewriteTokens property [] false [] tokens))
      (rewriteTokens property [] false [] tokens) := lexed_rewriteTokens hlexed hseparate
  have hparts : ∀ t ∈ tokens, HasParts t := hlexed.forall fun _ _ _ h => hasParts_of_taken h
  have hwritten : writeTokens property [] false [] (rewriteTokens property [] false [] tokens) =
      writeTokens property [] false [] tokens := writeTokens_rewriteTokens hparts
  have htokens' : tokenize (writeTokens property [] false [] tokens) =
      .ok (rewriteTokens property [] false [] tokens) := by
    rw [hspell]
    exact tokenize_eq_ok.2 ⟨hagain, (openBehind?_rewriteTokens tokens 0).trans hbalanced⟩
  refine ⟨⟨?_, ?_⟩, fun hcontent => ?_, _, htokens', hwritten⟩
  · rw [hspell]
    have hhead : ∀ t ∈ (rewriteTokens property [] false [] tokens).head?, t ≠ .whitespace :=
      head_rewriteTokens tokens
    generalize rewriteTokens property [] false [] tokens = written at hagain hhead
    cases written with
    | nil => nofun
    | cons t written =>
      obtain ⟨_, hnext, _⟩ := hagain.uncons
      exact not_blank_of_next? hnext (hhead t rfl)
  · exact fun hblank => hlast ((endsLike_body property htokens hlast).blank hblank)
  · subst hcontent
    have hitems := hcss rfl
    unfold isCssContent at hitems ⊢
    rw [htokens] at hitems
    rw [htokens']
    exact (contentItems_rewriteTokens tokens 0 false).trans hitems

/-- Without a mark of its own, a value gets none by being written. -/
lemma markSeen_writeTokens {property : String} {body : List Char} {tokens : List Token}
    (htokens : tokenize body = .ok tokens) (hlast : ¬EndsBlank body)
    (hseen : markSeen 0 body ≠ 10) :
    markSeen 0 (writeTokens property [] false [] tokens) ≠ 10 := by
  rcases (endsLike_body property htokens hlast).mark with hnone | hsame
  · rw [hnone]
    decide
  · rw [hsame]
    exact hseen

/-- The normal form of a value whose tokens stay apart is a normal body, with the mark that the
value had. -/
lemma normalBody_of_normalizeText {property : String} {raw text : List Char}
    (h : normalizeText property raw = .ok text) (hseparate : SeparateText property raw) :
    ∃ body important, text = body ++ markOf important ∧ NormalBody property body ∧
      (important = false → markSeen 0 body ≠ 10) := by
  have hlast := not_endsBlank_bodyOf raw
  by_cases hplain : IsPlainContent property raw
  · refine ⟨quoted (bodyOf raw), (splitImportant (Text.trim raw)).2, ?_,
      normalBody_quoted property (bodyOf raw), fun _ => markSeen_quoted (bodyOf raw)⟩
    rw [normalizeText_plain hplain] at h
    exact (Except.ok.inj h).symm
  · rw [normalizeText_tokens hplain] at h
    obtain ⟨tokens, htokens, rfl⟩ := map_eq_ok h
    have hcss : property = "content" → isCssContent (bodyOf raw) = true := by
      rintro rfl
      unfold IsPlainContent at hplain
      simpa using hplain
    exact ⟨_, (splitImportant (Text.trim raw)).2, rfl,
      normalBody_writeTokens htokens hlast hcss (hseparate hplain tokens htokens),
      fun hmark => markSeen_writeTokens htokens hlast (markSeen_bodyOf hmark)⟩

/-- Normalization is idempotent on values whose tokens stay apart: the normal form is normalized,
and is its own normal form. -/
theorem normalizeScalar_idempotent {property raw text : String}
    (h : normalizeScalar property (.text raw) = .ok text)
    (hseparate : SeparateText property raw.toList) :
    normalizeScalar property (.text text) = .ok text := by
  obtain ⟨cs, hcs, rfl⟩ := map_eq_ok h
  obtain ⟨body, important, rfl, hbody, hseen⟩ := normalBody_of_normalizeText hcs hseparate
  change (normalizeText property (String.ofList (body ++ markOf important)).toList).map _ = _
  rw [String.toList_ofList, normalizeText_of_normalBody hbody hseen]
  rfl

theorem normalizeScalar_idempotent_background :
    normalizeScalar "background" (.text " url( a.png )  +1.50px, calc(1.0px + 2px) !important") =
        .ok "url(a.png) 1.5px,calc(1.0px + 2px)!important" ∧
      normalizeScalar "background" (.text "url(a.png) 1.5px,calc(1.0px + 2px)!important") =
        .ok "url(a.png) 1.5px,calc(1.0px + 2px)!important" := by
  have hnormal : normalizeScalar "background"
      (.text " url( a.png )  +1.50px, calc(1.0px + 2px) !important") =
        .ok "url(a.png) 1.5px,calc(1.0px + 2px)!important" := by decide +kernel
  refine ⟨hnormal, normalizeScalar_idempotent hnormal fun _ tokens htokens => ?_⟩
  have hvalue : tokenize (bodyOf " url( a.png )  +1.50px, calc(1.0px + 2px) !important".toList) =
      .ok [.url "a.png".toList, .whitespace, .dimension "+1.50".toList "px".toList, .comma,
        .whitespace, .function "calc".toList, .dimension "1.0".toList "px".toList, .whitespace,
        .delim '+', .whitespace, .dimension "2".toList "px".toList, .rightParen] := by
    decide +kernel
  rw [hvalue] at htokens
  cases htokens
  decide +kernel

/-- A plus sign keeps two numbers apart, and is dropped. -/
theorem normalizeScalar_joins :
    normalizeScalar "margin" (.text "0+0") = .ok "00" ∧
      normalizeScalar "margin" (.text "00") = .ok "0" := by
  decide +kernel

end AtomicCss.Proofs
