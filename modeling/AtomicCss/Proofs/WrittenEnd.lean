import AtomicCss.Proofs.ImportantMark

/-!
# How a written value ends

What is written for a token ends like the token itself, or with a character that is neither blank
nor part of a mark. So a written value ends with no blank and with no more of a mark than the value.
-/

namespace AtomicCss.Proofs

open Token Value

def EndsBlank (text : List Char) : Prop :=
  ∃ c ∈ text.getLast?, Text.isBlank c = true

instance (text : List Char) : Decidable (EndsBlank text) :=
  decidable_of_iff (text.getLast?.any Text.isBlank = true) (Option.any_eq_true _ _)

lemma endsBlank_append {text more : List Char} (h : more ≠ []) :
    EndsBlank (text ++ more) ↔ EndsBlank more := by
  unfold EndsBlank
  rw [List.getLast?_append_of_ne_nil _ h]

lemma endsBlank_concat {text : List Char} {c : Char} :
    EndsBlank (text ++ [c]) ↔ Text.isBlank c = true := by
  simp [EndsBlank]

/-- The written part ends like its source, whatever stands in front of the two. -/
structure Tracks (written source : List Char) : Prop where
  mark {m n : Nat} : AtMost m n → AtMost (markSeen m written) (markSeen n source)
  blank : EndsBlank written → EndsBlank source

namespace Tracks

lemma refl (text : List Char) : Tracks text text :=
  ⟨fun h => h.markSeen text, id⟩

lemma of_offMark {c : Char} (h : OffMark c) (text source : List Char) :
    Tracks (text ++ [c]) source where
  mark _ := .inl (markSeen_concat_offMark h _ text)
  blank hblank := by
    rw [endsBlank_concat, h.2] at hblank
    cases hblank

lemma append {written source written' source' : List Char} (h : Tracks written source)
    (h' : Tracks written' source') (hnil : written' = [] → source' = []) :
    Tracks (written ++ written') (source ++ source') where
  mark hmark := by
    rw [markSeen_append, markSeen_append]
    exact h'.mark (h.mark hmark)
  blank hblank := by
    by_cases hwritten : written' = []
    · rw [hwritten, List.append_nil] at hblank
      rw [hnil hwritten, List.append_nil]
      exact h.blank hblank
    · have hsource := h'.blank ((endsBlank_append hwritten).1 hblank)
      have hne : source' ≠ [] := by
        rintro rfl
        obtain ⟨c, hc, _⟩ := hsource
        cases hc
      exact (endsBlank_append hne).2 hsource

lemma behind_offMark {c : Char} (hc : OffMark c) {written source : List Char}
    (h : Tracks written source) : Tracks (c :: written) source where
  mark {m n} _ := by
    change AtMost (markSeen (markStep m c) written) _
    rw [markStep_offMark hc]
    exact h.mark (.inl rfl)
  blank hblank := by
    by_cases hwritten : written = []
    · rw [hwritten, ← List.nil_append [c], endsBlank_concat, hc.2] at hblank
      cases hblank
    · have hends : EndsBlank ([c] ++ written) := hblank
      exact h.blank ((endsBlank_append hwritten).1 hends)

end Tracks

lemma offMark_of_numeric {c : Char} (h : IsNumeric c) : OffMark c := by
  have hblank : Text.isBlank c = false := Bool.eq_false_iff.2 fun hblank =>
    not_mark_of_plain (plain_of_numeric h) (.inl hblank)
  have hdigits : ∀ d ∈ importantMark, d.isDigit = false := by decide
  refine ⟨?_, hblank⟩
  rcases h with hdigit | rfl | rfl | rfl | rfl | rfl
  · rw [toLower_of_digit (.inl hdigit)]
    intro hmem
    rw [hdigits c hmem] at hdigit
    cases hdigit
  all_goals decide

lemma tracks_of_numeric {text : List Char} (hne : text ≠ []) (h : ∀ c ∈ text, IsNumeric c)
    (source : List Char) : Tracks text source := by
  rw [← List.dropLast_append_getLast hne]
  exact .of_offMark (offMark_of_numeric (h _ (List.getLast_mem hne))) _ source

/-- A capital is read like its small letter. -/
lemma tracks_toLower {c : Char} (h : c.isUpper = true) : Tracks [c.toLower] [c] := by
  obtain ⟨hne, hblank, htwice⟩ : c.toLower ≠ '!' ∧ Text.isBlank c.toLower = false ∧
      c.toLower.toLower = c.toLower :=
    forall_toLower (P := fun d => d ≠ '!' ∧ Text.isBlank d = false ∧ d.toLower = d) (by decide) h
  have hmark : c ≠ '!' := by
    rintro rfl
    cases h
  have hupper : Text.isBlank c = false := Bool.eq_false_iff.2 fun hblank =>
    not_mark_of_plain (plain_of_isUpper h) (.inl hblank)
  have hstep : ∀ seen, markStep seen c.toLower = markStep seen c := by
    intro seen
    unfold markStep
    rw [if_neg hne, if_neg hmark, htwice, hblank, hupper]
  refine ⟨fun {m n} hmark => ?_, fun hends => ?_⟩
  · change AtMost (markStep m c.toLower) (markStep n c)
    rw [hstep]
    exact hmark.markStep c
  · rw [← List.nil_append [c.toLower], endsBlank_concat, hblank] at hends
    cases hends

lemma tracks_dashes (first : Bool) (name : List Char) :
    Tracks (Property.dashes first name) name := by
  have hdash : OffMark '-' := by decide
  have hnil : ∀ {name : List Char}, Property.dashes false name = [] → name = [] := by
    intro name hnil
    by_contra hne
    exact dashes_ne_nil hne hnil
  induction name generalizing first with
  | nil => exact .refl []
  | cons c cs ih =>
    unfold Property.dashes
    split
    · exact (Tracks.of_offMark hdash [] [c]).append (ih false) hnil
    · split
      · rename_i hupper
        have hletter := (tracks_toLower hupper).append (ih false) hnil
        split
        · exact hletter
        · exact hletter.behind_offMark hdash
      · exact (Tracks.refl [c]).append (ih false) hnil

lemma tracks_dashCaseText (name : List Char) : Tracks (Property.dashCaseText name) name := by
  unfold Property.dashCaseText
  split
  · exact .refl name
  · dsimp only
    split
    · exact (tracks_dashes true name).behind_offMark (by decide)
    · exact tracks_dashes true name

lemma tracks_canonical {text : List Char} (h : text ≠ [] ∧ ∀ c ∈ text, IsNumeric c)
    (source : List Char) : Tracks (Decimal.canonical text) source :=
  tracks_of_numeric (canonical_ne_nil h.1) (numeric_canonical h.2) source

/-- A dimension keeps its unit or gets one that is no part of a mark. -/
lemma tracks_canonicalDimension {text : List Char} (h : text ≠ [] ∧ ∀ c ∈ text, IsNumeric c)
    (unit : List Char) : Tracks (canonicalDimension text unit) (text ++ unit) := by
  have hseconds : OffMark 's' := by decide
  unfold canonicalDimension
  dsimp only
  split
  · split
    · exact .of_offMark hseconds ['0'] _
    · split
      · exact .of_offMark hseconds _ _
      · have hassoc : Decimal.canonical text ++ ['m', 's'] =
            Decimal.canonical text ++ ['m'] ++ ['s'] := by simp
        rw [hassoc]
        exact .of_offMark hseconds _ _
  · split
    · exact .of_offMark (by decide : OffMark 'g') ['0', 'd', 'e'] _
    · split
      · exact .of_offMark hseconds ['0'] _
      · split
        · exact .of_offMark (by decide : OffMark '0') [] _
        · exact (tracks_canonical h text).append (.refl unit) id

lemma tracks_tokenText {property : String} {verbatim : Bool} {t : Token} (hf : Formed t) :
    Tracks (tokenText property verbatim t) t.spelling := by
  cases t with
  | ident name =>
    rw [tokenText]
    split
    · exact tracks_dashCaseText name
    · exact .refl name
  | string quote raw =>
    rw [tokenText]
    split
    · exact .of_offMark (by decide : OffMark '"') ['"'] _
    · exact .refl _
  | number text =>
    rw [tokenText]
    split
    · exact .refl _
    · exact tracks_canonical hf _
  | percentage text => exact .of_offMark (by decide : OffMark '%') _ _
  | dimension text unit =>
    rw [tokenText]
    split
    · exact .refl _
    · exact tracks_canonicalDimension hf unit
  | _ => exact .refl _

/-- What is written for a token ends like the part of the text that the token is taken off. -/
lemma source_of_taken {cs rest : List Char} {t : Token} (h : Taken cs t rest)
    (hblank : t ≠ .whitespace) (property : String) (verbatim : Bool) :
    ∃ source, source ++ rest = cs ∧ Tracks (tokenText property verbatim t) source := by
  rcases spelling_of_taken h hblank with hspelling | ⟨raw, rfl⟩
  · exact ⟨t.spelling, hspelling, tracks_tokenText (formed_of_taken h)⟩
  · cases h with
    | @url _ inner raw _ _ _ hopen _ hb =>
      have hinner : inner.takeWhile Text.isBlank ++ (raw ++ ')' :: rest) = inner := by
        rw [← stringBody?_append hb]
        exact List.takeWhile_append_dropWhile
      refine ⟨(nameSpan cs).1 ++ '(' :: (inner.takeWhile Text.isBlank ++ (raw ++ [')'])), ?_,
        .of_offMark (by decide : OffMark ')') _ _⟩
      calc _ = (nameSpan cs).1 ++ '(' :: (inner.takeWhile Text.isBlank ++ (raw ++ ')' :: rest)) := by
            simp
        _ = cs := by rw [hinner, ← hopen, nameSpan_append]

/-- A text that ends with no more of a mark than another, and with a blank only if that does. -/
structure EndsLike (written source : List Char) : Prop where
  mark : AtMost (markSeen 0 written) (markSeen 0 source)
  blank : EndsBlank written → EndsBlank source

/-- Where a space is left out, nothing has been seen of a mark, or nothing is seen of it next. -/
lemma atMost_spacing {written : List Char} {pending : Bool} {n : Nat} (t : Token)
    (h : AtMost (markSeen 0 (if pending then written ++ [' '] else written)) n) :
    AtMost (markSeen 0 (written ++ spacing written pending t)) n ∨ t = .rightParen ∨ t = .comma := by
  cases pending with
  | false =>
    left
    rw [spacing, Bool.false_and, if_neg Bool.false_ne_true, List.append_nil]
    exact h
  | true =>
    by_cases hspace : needsNoSpace written t = true
    · have hnone : spacing written true t = [] := by
        rw [spacing, hspace]
        rfl
      rw [hnone, List.append_nil]
      unfold needsNoSpace at hspace
      dsimp only at hspace
      rw [Bool.or_eq_true, Bool.or_eq_true, beq_iff_eq, beq_iff_eq] at hspace
      rcases hspace with (hlast | hclose) | hcomma
      · refine .inl (.inl ?_)
        rcases List.eq_nil_or_concat' written with rfl | ⟨front, c, rfl⟩
        · rfl
        · rw [List.getLast?_concat] at hlast
          have hmarks : ∀ c ∈ ['(', ','], OffMark c := by decide
          exact markSeen_concat_offMark (hmarks c (by simpa using hlast)) 0 front
      · exact .inr (.inl hclose)
      · exact .inr (.inr hcomma)
    · left
      have hspaced : spacing written true t = [' '] := by
        rw [spacing, Bool.eq_false_iff.2 hspace]
        rfl
      rw [hspaced]
      exact h

/-- A token that is written ends the text like its source. -/
lemma EndsLike.token {written source : List Char} {pending : Bool}
    (h : EndsLike (if pending then written ++ [' '] else written) source) {t : Token}
    {cs rest : List Char} (htaken : Taken cs t rest) (hblank : t ≠ .whitespace)
    (property : String) (verbatim : Bool) :
    ∃ taken, taken ++ rest = cs ∧
      EndsLike (written ++ spacing written pending t ++ tokenText property verbatim t)
        (source ++ taken) := by
  obtain ⟨taken, happend, htracks⟩ := source_of_taken htaken hblank property verbatim
  have hne : tokenText property verbatim t ≠ [] := tokenText_ne_nil (formed_of_taken htaken)
  refine ⟨taken, happend, ?_, fun hends => ?_⟩
  · rw [markSeen_append, markSeen_append 0 source]
    rcases atMost_spacing t h.mark with hmark | rfl | rfl
    · exact htracks.mark hmark
    · exact .inl (markStep_offMark (by decide : OffMark ')') _)
    · exact .inl (markStep_offMark (by decide : OffMark ',') _)
  · have hsource := htracks.blank ((endsBlank_append hne).1 hends)
    have hsome : taken ≠ [] := by
      rintro rfl
      obtain ⟨c, hc, _⟩ := hsource
      cases hc
    exact (endsBlank_append hsome).2 hsource

/-- Blanks of the source are as good as one space. -/
lemma EndsLike.blanks {written source : List Char} {pending : Bool}
    (h : EndsLike (if pending then written ++ [' '] else written) source) {c : Char}
    (hc : Text.isBlank c = true) {more : List Char} (hmore : ∀ c ∈ more, Text.isBlank c = true) :
    EndsLike (written ++ [' ']) (source ++ c :: more) where
  mark := by
    rw [markSeen_append 0 source, markSeen_blanks hmore hc]
    cases pending with
    | false =>
      rw [markSeen_append]
      exact h.mark.markStep ' '
    | true =>
      have htwice := h.mark.markStep ' '
      rw [if_pos rfl, markSeen_append] at htwice
      change AtMost (markStep (markStep (markSeen 0 written) ' ') ' ') _ at htwice
      rw [markStep_space_space] at htwice
      rw [markSeen_append]
      exact htwice
  blank _ := by
    have hall : ∀ d ∈ c :: more, Text.isBlank d = true := List.forall_mem_cons.2 ⟨hc, hmore⟩
    have hne := List.cons_ne_nil c more
    exact (endsBlank_append hne).2 ⟨(c :: more).getLast hne,
      List.getLast?_eq_getLast_of_ne_nil hne, hall _ (List.getLast_mem hne)⟩

/-- What is written for the tokens of a text ends like the text, unless the text ends with a
blank. -/
lemma endsLike_writeTokens {property : String} {cs : List Char} {tokens : List Token}
    (h : Lexed cs tokens) {written source : List Char} {pending : Bool} {scopes : List Bool}
    (hends : EndsLike (if pending then written ++ [' '] else written) source)
    (hlast : ¬EndsBlank (source ++ cs)) :
    EndsLike (writeTokens property written pending scopes tokens) (source ++ cs) := by
  induction h generalizing written source pending scopes with
  | nil =>
    rw [List.append_nil] at hlast ⊢
    cases pending with
    | false => exact hends
    | true => exact (hlast (hends.blank (endsBlank_concat.2 rfl))).elim
  | @cons cs rest t tokens hnext _ ih =>
    have htaken := taken_of_next? hnext
    by_cases hblank : t = .whitespace
    · subst hblank
      cases htaken with
      | @whitespace c cs hc =>
        have hassoc : source ++ c :: cs.takeWhile Text.isBlank ++ cs.dropWhile Text.isBlank =
            source ++ c :: cs := by
          rw [List.append_assoc, List.cons_append, List.takeWhile_append_dropWhile]
        have hmore : ∀ d ∈ cs.takeWhile Text.isBlank, Text.isBlank d = true :=
          fun d hd => List.mem_takeWhile_imp hd
        rw [← hassoc] at hlast ⊢
        change EndsLike (writeTokens property written true scopes _) _
        exact ih (hends.blanks hc hmore) hlast
    · obtain ⟨taken, happend, hbehind⟩ := hends.token htaken hblank property (scopes.any id)
      rw [writeTokens_cons hblank]
      rw [← happend, ← List.append_assoc] at hlast ⊢
      exact ih hbehind hlast

end AtomicCss.Proofs
