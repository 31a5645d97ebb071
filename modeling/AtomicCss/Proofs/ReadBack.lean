import AtomicCss.Proofs.Boundary

/-!
# Rewritten tokens read back

What is written for a token is read as the rewritten token, in front of every text that does not go
on with it. Two things may be lost: a dashed name may begin no name, and an address whose trailing
blank was escaped ends in a stray backslash.
-/

namespace AtomicCss.Proofs

open Token Value

/-- What is written for the token is one of its kind. -/
def Intact (property : String) (verbatim : Bool) : Token → Prop
  | .ident name => startsName (tokenText property verbatim (.ident name)) = true
  | .url raw => urlBody? (raw ++ [')']) = some (raw, [])
  | _ => True

instance (property : String) (verbatim : Bool) : (t : Token) → Decidable (Intact property verbatim t)
  | .ident _ => inferInstanceAs (Decidable (_ = true))
  | .url _ => inferInstanceAs (Decidable (_ = _))
  | .function _ | .hash _ | .string .. | .number _ | .percentage _ | .dimension .. | .whitespace
  | .comma | .leftParen | .rightParen | .delim _ => inferInstanceAs (Decidable True)

/-- What stands behind a token that may go on: no number, or behind a token that is kept the same
number as before. -/
def StandsBehind (property : String) (verbatim : Bool) (t : Token) (rest' rest : List Char) : Prop :=
  Replaces rest' rest ∧ startsNumber rest' = false ∨
    SameNumber rest' rest ∧ tokenText property verbatim t = t.spelling

lemma Replaces.nameRun {rest' rest name : List Char} (h : Replaces rest' rest)
    (hrun : NameRun rest name) : NameRun rest' name :=
  hrun.behind h.ended (h.head.not_name hrun.head)

lemma rewritten_of_changed {property : String} {verbatim : Bool} {t : Token}
    (h : tokenText property verbatim t ≠ t.spelling) : rewritten property verbatim t = reworded t := by
  unfold rewritten
  rw [if_neg h]

section

variable {property : String} {verbatim : Bool} {rest rest' : List Char}

lemma StandsBehind.replaces {t : Token} (h : StandsBehind property verbatim t rest' rest) :
    Replaces rest' rest := by
  rcases h with ⟨hreplaces, _⟩ | ⟨hsame, _⟩
  · exact hreplaces
  · exact hsame.replaces

/-- Behind a token that is rewritten no number stands. -/
lemma StandsBehind.not_startsNumber {t : Token} (h : StandsBehind property verbatim t rest' rest)
    (hchanged : tokenText property verbatim t ≠ t.spelling) : startsNumber rest' = false := by
  rcases h with ⟨_, hnumber⟩ | ⟨_, hsame⟩
  · exact hnumber
  · exact (hchanged hsame).elim

lemma reads_rewritten_number {p : NumberParts} (hend : p.EndsAt rest)
    (hhead : ∀ c ∈ rest.head?, c ≠ '%' ∧ isNameStart c = false)
    (hbehind : StandsBehind property verbatim (.number p.text) rest' rest) :
    Reads (rewritten property verbatim (.number p.text)) rest' := by
  have hhead' := hbehind.replaces.head.not_unit hhead
  have hname : ∀ c ∈ rest'.head?, isNameStart c = false := fun c hc => (hhead' c hc).2
  by_cases hsame : tokenText property verbatim (.number p.text) = p.text
  · rw [rewritten_of_same hsame]
    refine reads_number ?_ hhead'
    rcases hbehind with ⟨_, hnumber⟩ | ⟨hsame, _⟩
    · exact p.endsAt_of_not_startsNumber hnumber hname
    · exact hsame.endsAt hend
  · rw [rewritten_of_changed hsame, reworded, p.canonical_text]
    have hnumber := hbehind.not_startsNumber hsame
    exact reads_number (p.canonical.endsAt_of_not_startsNumber hnumber hname) hhead'

/-- A number ends where a unit begins that is no exponent. -/
lemma endsAt_unit {q : NumberParts} {unit : List Char}
    (hunit : ∃ c cs, unit = c :: cs ∧ isNameStart c = true)
    (hexponent : q.exponent = [] → (exponentSpan (unit ++ rest)).1 = []) :
    q.EndsAt (unit ++ rest) := by
  obtain ⟨c, cs, rfl, hc⟩ := hunit
  refine ⟨digitSpan_cons (not_isDigit_of_nameStart hc) _, fun _ _ => ?_, hexponent⟩
  by_contra hfraction
  obtain ⟨d, ds, heq, _⟩ := isDigit_of_fractionSpan hfraction
  obtain rfl := (List.cons.inj heq).1
  exact absurd hc (by decide)

lemma exponent_canonical {p : NumberParts} (h : p.canonical.exponent = []) : p.exponent = [] := by
  by_contra hexponent
  rw [NumberParts.canonical_of_exponent hexponent] at h
  exact hexponent h

lemma isNameChar_eq_false {c : Char} (h : isNameChar c = false) :
    isNameStart c = false ∧ c.isDigit = false := by
  unfold isNameChar at h
  simp only [Bool.or_eq_false_iff] at h
  exact h.1

/-- The units that dimensions get are names, and no exponents. -/
lemma forall_units : ∀ u ∈ [['s'], ['m', 's'], ['d', 'e', 'g']],
    (∃ c cs, u = c :: cs ∧ isNameStart c = true ∧ ¬(c = 'e' ∨ c = 'E')) ∧
      ∀ c ∈ u, isNameChar c = true := by
  simp only [List.forall_mem_cons, List.not_mem_nil, false_imp_iff, implies_true, and_true]
  refine ⟨⟨⟨_, _, rfl, ?_⟩, ?_⟩, ⟨⟨_, _, rfl, ?_⟩, ?_⟩, ⟨_, _, rfl, ?_⟩, ?_⟩ <;> decide

/-- The canonical form of a dimension is read in front of what goes on neither with a name nor with
a number. -/
lemma reads_of_shape {p : NumberParts} {unit : List Char} {u : Token}
    (hshape : DimensionShape p unit u)
    (hunit : ∃ c cs, unit = c :: cs ∧ isNameStart c = true) (hrun : NameRun rest unit)
    (hexponent : p.exponent = [] → (exponentSpan (unit ++ rest)).1 = [])
    (hnumber : startsNumber rest = false) (hopen : rest.head? ≠ some '(')
    (hpercent : rest.head? ≠ some '%') : Reads u rest := by
  have hinfinite : ∀ name ∈ [['i', 'n', 'f', 's'], ['-', 'i', 'n', 'f', 's']],
      (∀ c ∈ name, isNameChar c = true) ∧ startsName name = true ∧
        ∀ c ∈ name, Text.isBlank c = false := by decide
  cases hshape with
  | kept =>
    exact reads_dimension (endsAt_unit hunit fun h => hexponent (exponent_canonical h)) hunit hrun
  | renamed _ hu =>
    obtain ⟨⟨c, cs, rfl, hstart, hletter⟩, hchars⟩ := forall_units _ hu
    refine reads_dimension (endsAt_unit ⟨c, cs, rfl, hstart⟩ fun _ => ?_) ⟨c, cs, rfl, hstart⟩
      (nameRun_of_chars hchars hrun.head)
    rw [List.cons_append, exponentSpan_eq_nil_iff]
    exact fun he => (hletter he).elim
  | zero =>
    have hname : ∀ c ∈ rest.head?, isNameStart c = false := fun c hc =>
      (isNameChar_eq_false (hrun.head c hc).1).1
    refine reads_number (p := .zero)
      (NumberParts.zero.endsAt_of_not_startsNumber hnumber hname) fun c hc => ⟨?_, hname c hc⟩
    rintro rfl
    exact hpercent hc
  | infinite hmem =>
    obtain ⟨hchars, hstart, hblank⟩ := hinfinite _ hmem
    exact reads_ident (fun c hc => hblank c (List.mem_of_mem_head? hc)) hstart
      (nameRun_of_chars hchars hrun.head) hopen

lemma reads_rewritten_dimension {p : NumberParts} {unit : List Char}
    (hend : p.EndsAt (unit ++ rest))
    (hunit : ∃ c cs, unit = c :: cs ∧ isNameStart c = true) (hrun : NameRun rest unit)
    (hbehind : StandsBehind property verbatim (.dimension p.text unit) rest' rest)
    (hmark : tokenText property verbatim (.dimension p.text unit) ≠ p.text ++ unit →
      rest.head? ≠ some '(' ∧ rest.head? ≠ some '%') :
    Reads (rewritten property verbatim (.dimension p.text unit)) rest' := by
  have hreplaces := hbehind.replaces
  have hrun' := hreplaces.nameRun hrun
  have hexponent : p.exponent = [] → (exponentSpan (unit ++ rest')).1 = [] := by
    intro hnone
    refine exponentSpan_unit ?_ (hend.exponent hnone)
      (fun c hc => (isNameChar_eq_false (hrun'.head c hc).1).2) fun hsigned => ?_
    · obtain ⟨c, cs, rfl, _⟩ := hunit
      exact List.cons_ne_nil c cs
    · rcases hbehind with ⟨_, hnumber⟩ | ⟨hsame, _⟩
      · exact signedSpan_of_not_startsNumber hnumber
      · exact hsame.signedSpan hsigned
  by_cases hsame : tokenText property verbatim (.dimension p.text unit) = p.text ++ unit
  · rw [rewritten_of_same hsame]
    exact reads_dimension (endsAt_unit hunit hexponent) hunit hrun'
  · obtain ⟨hopen, hpercent⟩ := hmark hsame
    rw [rewritten_of_changed hsame]
    exact reads_of_shape (dimensionToken_shape p unit) hunit hrun' hexponent
      (hbehind.not_startsNumber hsame) (hreplaces.head.head_ne (by decide) rfl hopen)
      (hreplaces.head.head_ne (by decide) rfl hpercent)

/-- The head of a name stays, or one of a name is put in its place. -/
lemma head_dashCaseText {name : List Char} {c : Char} (h : c ∈ (Property.dashCaseText name).head?) :
    ∃ d ∈ name.head?, d = c ∨
      isNameStart d = true ∧ isNameChar c = true ∧ Text.isBlank c = false := by
  have hdash : isNameChar '-' = true ∧ Text.isBlank '-' = false := by decide
  have hlower : ∀ {d : Char}, d.isUpper = true →
      isNameChar d.toLower = true ∧ Text.isBlank d.toLower = false := fun hupper =>
    forall_toLower (P := fun c => isNameChar c = true ∧ Text.isBlank c = false) (by decide) hupper
  have hcapital : ∀ {d : Char}, d.isUpper = true → isNameStart d = true := by
    intro d hupper
    simp [isNameStart, Char.isAlpha, hupper]
  unfold Property.dashCaseText at h
  split at h
  · exact ⟨c, h, .inl rfl⟩
  · cases name with
    | nil => cases h
    | cons d ds =>
      refine ⟨d, rfl, ?_⟩
      dsimp only at h
      split at h
      · rename_i hvendor
        obtain rfl := Option.some.inj h
        exact .inr ⟨hcapital (Bool.and_eq_true_iff.1 hvendor).1, hdash⟩
      · unfold Property.dashes at h
        split at h
        · rename_i hline
          obtain rfl := Option.some.inj h
          exact .inr ⟨hline ▸ by decide, hdash⟩
        · split at h
          · rename_i hupper
            rw [if_pos rfl] at h
            obtain rfl := Option.some.inj h
            exact .inr ⟨hcapital hupper, hlower hupper⟩
          · exact .inl (Option.some.inj h)

/-- A name is written as it is, or dashed. -/
lemma rewritten_ident (property : String) (verbatim : Bool) (name : List Char) :
    ∃ name', rewritten property verbatim (.ident name) = .ident name' ∧
      tokenText property verbatim (.ident name) = name' ∧
      (name' = name ∨ name' = Property.dashCaseText name) := by
  by_cases hsame : tokenText property verbatim (.ident name) = name
  · exact ⟨name, rewritten_of_same hsame, hsame, .inl rfl⟩
  · have hchanged := rewritten_of_changed hsame
    refine ⟨_, hchanged, ?_, .inr rfl⟩
    rw [← spelling_rewritten, hchanged]
    rfl

lemma reads_rewritten_ident {name : List Char} (hblank : ∀ c ∈ name.head?, Text.isBlank c = false)
    (hrun : NameRun rest name) (hintact : Intact property verbatim (.ident name))
    (hreplaces : Replaces rest' rest) (hopen : rest.head? ≠ some '(') :
    Reads (rewritten property verbatim (.ident name)) rest' := by
  obtain ⟨name', heq, htext, hname⟩ := rewritten_ident property verbatim name
  rw [heq]
  rw [Intact, htext] at hintact
  have hopen' := hreplaces.head.head_ne (by decide) rfl hopen
  rcases hname with rfl | rfl
  · exact reads_ident hblank hintact (hreplaces.nameRun hrun) hopen'
  · refine reads_ident (fun c hc => ?_) hintact (hreplaces.nameRun hrun.dashCaseText) hopen'
    obtain ⟨d, hd, rfl | ⟨_, _, hc⟩⟩ := head_dashCaseText hc
    · exact hblank d hd
    · exact hc

lemma reads_rewritten_delim {c : Char} (hmark : ¬IsMark c)
    (hnumber : startsNumber (c :: rest) = false) (hname : startsName (c :: rest) = false)
    (hbehind : isOpenEnded (.delim c) = true →
      StandsBehind property verbatim (.delim c) rest' rest) : Reads (.delim c) rest' := by
  by_cases hopen : c = '+' ∨ c = '-' ∨ c = '.'
  · have hends : isOpenEnded (.delim c) = true := by
      rcases hopen with rfl | rfl | rfl <;> rfl
    have hbehind := hbehind hends
    refine reads_delim hmark ?_ ?_
    · rcases hbehind with ⟨_, hnone⟩ | ⟨hsame, _⟩
      · exact startsNumber_mark hopen hnone
      · rw [hsame.startsNumber_cons]
        exact hnumber
    · by_cases hdash : c = '-'
      · subst hdash
        exact hbehind.replaces.head.not_startsName hname
      · rw [startsName_cons hdash] at hname ⊢
        exact hname
  · rw [not_or, not_or] at hopen
    obtain ⟨hplus, hdash, hpoint⟩ := hopen
    refine reads_delim hmark ?_ ?_
    · have hsign : ¬(c = '+' ∨ c = '-') := not_or.2 ⟨hplus, hdash⟩
      rw [startsNumber_unsigned hsign, if_neg hpoint] at hnumber ⊢
      exact hnumber
    · rw [startsName_cons hdash] at hname ⊢
      exact hname

/-- An address is read from behind its blanks, where no quote stands. -/
lemma head_of_urlBody? {inner raw : List Char} (hquote : quoteAhead inner = false)
    (hbody : urlBody? (inner.dropWhile Text.isBlank) = some (raw, rest)) :
    ∀ c ∈ raw.head?, Text.isBlank c = false ∧ c ≠ '"' ∧ c ≠ '\'' := by
  intro c hraw
  have hinner : c ∈ (inner.dropWhile Text.isBlank).head? := by
    rw [stringBody?_append hbody]
    exact List.mem_head?_append_of_mem_head? hraw
  obtain ⟨cs, hcs⟩ := List.head?_eq_some_iff.1 hinner
  refine ⟨?_, ?_⟩
  · have hnot := List.head?_dropWhile_not Text.isBlank inner
    simpa [hcs] using hnot
  · unfold quoteAhead at hquote
    rw [hcs] at hquote
    simpa using hquote

/-- The body of an address begins with no blank and no quote. -/
lemma head_urlBody {inner raw : List Char} (hquote : quoteAhead inner = false)
    (hbody : urlBody? (inner.dropWhile Text.isBlank) = some (raw, rest)) :
    ∀ c ∈ (Text.trimEnd raw).head?, Text.isBlank c = false ∧ c ≠ '"' ∧ c ≠ '\'' := by
  intro c hc
  refine head_of_urlBody? hquote hbody c ?_
  have happend : Text.trimEnd raw ++ raw.rtakeWhile Text.isBlank = raw :=
    List.rdropWhile_append_rtakeWhile
  rw [← happend]
  exact List.mem_head?_append_of_mem_head? hc

/-- What is read as a name begins like one. -/
lemma startsName_nameSpan {cs : List Char} (h : startsName cs = true) :
    startsName (nameSpan cs).1 = true := by
  cases cs with
  | nil => cases h
  | cons c cs =>
    by_cases hdash : c = '-'
    · subst hdash
      cases cs with
      | nil => cases h
      | cons d ds =>
        have hd : isNameStart d = true ∨ d = '-' := by simpa [startsName] using h
        have hchar : isNameChar d = true := by
          rcases hd with hd | rfl
          · exact nameChar_of_nameStart hd
          · rfl
        rw [nameSpan_char rfl, nameSpan_char hchar]
        exact h
    · rw [startsName_cons hdash] at h
      rw [nameSpan_char (nameChar_of_nameStart h)]
      exact (startsName_cons hdash _).trans h

/-- A rewritten token is read where it is written. -/
lemma reads_rewritten {cs : List Char} {t : Token} (h : Taken cs t rest)
    (hblank : ∀ c ∈ cs.head?, Text.isBlank c = false) (hintact : Intact property verbatim t)
    (hbehind : isOpenEnded t = true → StandsBehind property verbatim t rest' rest)
    (hmark : ∀ text unit, t = .dimension text unit →
      tokenText property verbatim t ≠ text ++ unit →
      rest.head? ≠ some '(' ∧ rest.head? ≠ some '%')
    (hquote : ∀ name, t = .function name →
      Text.equalsIgnoringCase name ['u', 'r', 'l'] = true → quoteAhead rest' = true) :
    Reads (rewritten property verbatim t) rest' := by
  have hname : ∀ c ∈ (nameSpan cs).1.head?, Text.isBlank c = false := fun c hc =>
    hblank c (nameSpan_append cs ▸ List.mem_head?_append_of_mem_head? hc)
  cases h with
  | whitespace _ hc => rw [hblank _ rfl] at hc; cases hc
  | comma => exact reads_comma rest'
  | leftParen => exact reads_leftParen rest'
  | rightParen => exact reads_rightParen rest'
  | @string quote cs raw _ hq hb =>
    by_cases hsame : tokenText property verbatim (.string quote raw) = quote :: (raw ++ [quote])
    · rw [rewritten_of_same hsame]
      exact reads_string hq (stringBody?_reads hb rest')
    · rw [rewritten_of_changed hsame]
      refine reads_string (.inl rfl) ?_
      unfold stringBody?
      exact if_pos rfl
  | hash cs =>
    rw [rewritten_of_same rfl]
    exact reads_hash ((hbehind rfl).replaces.nameRun (nameRun_nameSpan cs))
  | number hstart _ hhead =>
    obtain ⟨p, hp, hend⟩ := parts_of_startsNumber hstart
    rw [hp] at hbehind ⊢
    exact reads_rewritten_number hend hhead (hbehind rfl)
  | percentage hstart _ hrest =>
    obtain ⟨p, hp, hend⟩ := parts_of_startsNumber hstart
    rw [hp]
    by_cases hsame : tokenText property verbatim (.percentage p.text) = p.text ++ ['%']
    · rw [rewritten_of_same hsame]
      exact reads_percentage rest'
    · rw [rewritten_of_changed hsame, reworded, p.canonical_text]
      exact reads_percentage rest'
  | dimension hstart _ hrest hc =>
    obtain ⟨p, hp, hend⟩ := parts_of_startsNumber hstart
    have happend := nameSpan_append (numberSpan cs).2
    rw [hp] at hbehind hmark ⊢
    refine reads_rewritten_dimension (happend.symm ▸ hend) ?_ (nameRun_nameSpan _)
      (hbehind rfl) (hmark _ _ rfl)
    rw [hrest, nameSpan_char (nameChar_of_nameStart hc)]
    exact ⟨_, _, rfl, hc⟩
  | url _ _ _ hq hb =>
    rw [rewritten_of_same rfl]
    exact reads_url (head_urlBody hq hb) (List.rdropWhile_idempotent _ _)
      (stringBody?_reads hintact rest')
  | @function _ inner hstart hopen _ =>
    rw [rewritten_of_same rfl]
    have hrun := nameRun_nameSpan cs
    rw [hopen] at hrun
    refine reads_function hname (startsName_nameSpan hstart) (hrun.behind (by simp) ?_) (hquote _ rfl)
    intro c hc
    obtain rfl := Option.some.inj hc
    decide
  | ident hstart hopen =>
    exact reads_rewritten_ident hname (nameRun_nameSpan cs) hintact (hbehind rfl).replaces hopen
  | delim hc hmem hnumber hstart =>
    rw [rewritten_of_same rfl]
    refine reads_rewritten_delim ?_ hnumber hstart hbehind
    rintro (hc' | hc')
    · rw [hc] at hc'
      cases hc'
    · exact hmem hc'

end

end AtomicCss.Proofs
