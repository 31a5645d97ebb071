import AtomicCss.Proofs.NormalText

/-!
# Characters of normalized values

Normalization keeps the characters of a value and puts in printable ones. So a property of
characters that all printable ones have passes from a text to its normalized form. A backslash is
only put in where a whole text is quoted.
-/

namespace AtomicCss.Proofs

open Token Value

lemma mem_dashes {first : Bool} {name : List Char} {c : Char}
    (h : c ∈ Property.dashes first name) : c ∈ name ∨ IsPlain c := by
  have hdash : IsPlain '-' := by decide
  induction name generalizing first with
  | nil => cases h
  | cons d ds ih =>
    have htail : c ∈ Property.dashes false ds → c ∈ d :: ds ∨ IsPlain c := fun h =>
      (ih h).imp_left fun h => List.mem_cons_of_mem _ h
    unfold Property.dashes at h
    by_cases hline : d = '_'
    · rw [if_pos hline] at h
      rcases List.mem_cons.1 h with rfl | h
      · exact .inr hdash
      · exact htail h
    rw [if_neg hline] at h
    by_cases hupper : d.isUpper = true
    · rw [if_pos hupper] at h
      have hlower : c ∈ d.toLower :: Property.dashes false ds → c ∈ d :: ds ∨ IsPlain c := by
        intro h
        rcases List.mem_cons.1 h with rfl | h
        · exact .inr (plain_toLower hupper)
        · exact htail h
      split at h
      · exact hlower h
      · rcases List.mem_cons.1 h with rfl | h
        · exact .inr hdash
        · exact hlower h
    · rw [if_neg hupper] at h
      rcases List.mem_cons.1 h with rfl | h
      · exact .inl List.mem_cons_self
      · exact htail h

lemma mem_dashCaseText {name : List Char} {c : Char} (h : c ∈ Property.dashCaseText name) :
    c ∈ name ∨ IsPlain c := by
  unfold Property.dashCaseText at h
  split at h
  · exact .inl h
  · dsimp only at h
    split at h
    · rcases List.mem_cons.1 h with rfl | h
      · exact .inr (by decide)
      · exact mem_dashes h
    · exact mem_dashes h

lemma mem_number {text : List Char} (verbatim : Bool) {c : Char}
    (h : c ∈ if verbatim then text else Decimal.canonical text) : c ∈ text ∨ IsPlain c := by
  split at h
  · exact .inl h
  · rcases mem_canonical h with h | rfl | rfl | rfl
    · exact .inl h
    all_goals exact .inr (by decide)

/-- The canonical text of a token keeps to the characters of its spelling and to plain ones. -/
lemma mem_tokenText {property : String} {verbatim : Bool} {t : Token} (hf : Formed t) {c : Char}
    (h : c ∈ tokenText property verbatim t) : c ∈ t.spelling ∨ IsPlain c ∨ c = '"' := by
  cases t with
  | ident name =>
    rw [tokenText] at h
    split at h
    · exact (mem_dashCaseText h).imp_right .inl
    · exact .inl h
  | string quote raw =>
    rw [tokenText] at h
    split at h
    · exact .inr (.inr (by simpa using h))
    · exact .inl h
  | number text => exact (mem_number verbatim h).imp_right .inl
  | percentage text =>
    rcases List.mem_append.1 h with h | h
    · exact (mem_number verbatim h).imp (fun h => List.mem_append_left _ h) .inl
    · exact .inl (List.mem_append_right _ h)
  | dimension text unit =>
    rw [tokenText] at h
    split at h
    · exact .inl h
    · rcases canonicalDimension_plain hf.2 unit with heq | ⟨_, hplain⟩
      · rw [heq] at h
        rcases List.mem_append.1 h with h | h
        · exact (mem_number false h).imp (fun h => List.mem_append_left _ h) .inl
        · exact .inl (List.mem_append_right _ h)
      · exact .inr (.inl (hplain c h))
  | _ => exact .inl h

lemma mem_writeTokens {property : String} {c : Char} (tokens : List Token) : ∀ {written : List Char}
    {pending : Bool} {scopes : List Bool}, c ∈ writeTokens property written pending scopes tokens →
    c ∈ written ∨ c = ' ' ∨ ∃ t ∈ tokens, ∃ verbatim, c ∈ tokenText property verbatim t := by
  induction tokens with
  | nil => exact fun h => .inl h
  | cons t tokens ih =>
    intro written pending scopes h
    by_cases hblank : t = .whitespace
    · subst hblank
      rcases ih h with h | h | ⟨u, hu, h⟩
      · exact .inl h
      · exact .inr (.inl h)
      · exact .inr (.inr ⟨u, List.mem_cons_of_mem _ hu, h⟩)
    · rw [writeTokens_cons hblank] at h
      rcases ih h with h | h | ⟨u, hu, h⟩
      · simp only [List.mem_append] at h
        rcases h with (h | h) | h
        · exact .inl h
        · refine .inr (.inl ?_)
          unfold spacing at h
          split at h
          · exact List.mem_singleton.1 h
          · cases h
        · exact .inr (.inr ⟨t, List.mem_cons_self, _, h⟩)
      · exact .inr (.inl h)
      · exact .inr (.inr ⟨u, List.mem_cons_of_mem _ hu, h⟩)

lemma mem_escaped {text : List Char} {c : Char} (h : c ∈ escaped text) : c ∈ text ∨ c = '\\' := by
  induction text with
  | nil => cases h
  | cons d ds ih =>
    have htail : c ∈ d :: escaped ds → c ∈ d :: ds ∨ c = '\\' := by
      intro h
      rcases List.mem_cons.1 h with rfl | h
      · exact .inl List.mem_cons_self
      · exact (ih h).imp_left fun h => List.mem_cons_of_mem _ h
    unfold escaped at h
    split at h
    · rcases List.mem_cons.1 h with h | h
      · exact .inr h
      · exact htail h
    · exact htail h

section

variable {P : Char → Prop} (hP : Common P)

include hP

lemma forall_normalizeText {property : String} {raw text : List Char}
    (h : normalizeText property raw = .ok text) (hraw : ∀ c ∈ raw, P c)
    (hcontent : property = "content" → P '\\') : ∀ c ∈ text, P c := by
  have hspace : P ' ' := hP _ (by decide)
  have hquote : P '"' := hP _ (by decide)
  have hbody : ∀ c ∈ bodyOf raw, P c := fun c hc => hraw c (bodyOf_subset raw hc)
  obtain ⟨mark, hmark, hcases⟩ := normalizeText_cases h
  have hcommon : ∀ mark ∈ [importantMark, []], ∀ c ∈ mark, IsCommon c := by decide
  have hmarks : ∀ c ∈ mark, P c := hP.forall_mem (hcommon mark hmark)
  rcases hcases with ⟨hplain, rfl⟩ | ⟨_, tokens, htokens, rfl⟩
  · intro c hc
    rcases List.mem_append.1 hc with hc | hc
    · rcases List.mem_cons.1 hc with rfl | hc
      · exact hquote
      · rcases List.mem_append.1 hc with hc | hc
        · rcases mem_escaped hc with hc | rfl
          · exact hbody c hc
          · apply hcontent
            unfold IsPlainContent at hplain
            simp only [Bool.and_eq_true, beq_iff_eq] at hplain
            exact hplain.1
        · rw [List.mem_singleton.1 hc]
          exact hquote
    · exact hmarks c hc
  · intro c hc
    rcases List.mem_append.1 hc with hc | hc
    · rcases mem_writeTokens tokens hc with hc | rfl | ⟨t, ht, verbatim, hc⟩
      · cases hc
      · exact hspace
      · rcases mem_tokenText (formed_of_tokenize htokens t ht) hc with hc | hc | rfl
        · exact spelling_of_tokenize hP hbody htokens t ht c hc
        · exact common_of_plain hP hc
        · exact hquote
    · exact hmarks c hc

lemma forall_normalizeScalar {property : String} {value : Scalar} {text : String}
    (h : normalizeScalar property value = .ok text)
    (hvalue : ∀ raw ∈ scalarTexts value, ∀ c ∈ raw.toList, P c)
    (hcontent : property = "content" → P '\\') : ∀ c ∈ text.toList, P c := by
  cases value with
  | text raw =>
    obtain ⟨cs, hcs, rfl⟩ := map_eq_ok h
    rw [String.toList_ofList]
    exact forall_normalizeText hP hcs (hvalue raw List.mem_cons_self) hcontent
  | number x =>
    obtain ⟨cs, hcs, rfl⟩ := map_eq_ok h
    rw [String.toList_ofList]
    rcases normalizeNumber_cases hcs with hplain | ⟨raw, hplain, hraw⟩
    · exact fun c hc => common_of_plain hP (hplain c hc)
    · exact forall_normalizeText hP hraw (fun c hc => common_of_plain hP (hplain c hc)) hcontent
  | ref target => cases h

end

end AtomicCss.Proofs
