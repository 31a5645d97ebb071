import AtomicCss.Proofs.PlainNumber
import AtomicCss.Value.Normalize

/-!
# Dimensions written twice

The canonical form of a dimension is a dimension again, or a plain zero, or, for a time that no
double can hold, a name. Written once more it stays as it is: its number keeps its value, so it falls
under the same rule, and a number of seconds is not read as zero.
-/

namespace AtomicCss.Proofs

open Decimal Value

/-- The value that a number is compared by. -/
def valueOf (text : List Char) : Float :=
  (read? text).getD (0.0 / 0.0)

/-- Seconds, unless there are infinitely many. -/
def secondsToken (number : List Char) : Token :=
  if number = ['i', 'n', 'f'] ∨ number = ['-', 'i', 'n', 'f'] then .ident (number ++ ['s'])
  else .dimension number ['s']

/-- What the canonical form of a dimension is read as. -/
def dimensionToken (text unit : List Char) : Token :=
  let value := valueOf text
  if isNamed ["ms"] unit then
    if value == 0.0 then .dimension ['0'] ['s']
    else if value ≥ 10.0 || value ≤ -10.0 then secondsToken (canonical (format (value / 1000.0)))
    else .dimension (canonical text) ['m', 's']
  else if value == 0.0 && isNamed angleUnits unit then .dimension ['0'] ['d', 'e', 'g']
  else if value == 0.0 && isNamed ["s"] unit then .dimension ['0'] ['s']
  else if value == 0.0 && isNamed lengthUnits unit then .number ['0']
  else .dimension (canonical text) unit

lemma spelling_secondsToken (number : List Char) :
    (secondsToken number).spelling = number ++ ['s'] := by
  unfold secondsToken
  split <;> rfl

lemma spelling_dimensionToken (text unit : List Char) :
    (dimensionToken text unit).spelling = canonicalDimension text unit := by
  unfold dimensionToken
  simp only [apply_ite Token.spelling, spelling_secondsToken]
  rfl

/-- What the canonical form of the dimension `p.text ++ unit` can be. -/
inductive DimensionShape (p : NumberParts) (unit : List Char) : Token → Prop
  | kept : DimensionShape p unit (.dimension p.canonical.text unit)
  | renamed {q : NumberParts} {u : List Char} : (read? q.text).isSome = true →
    u ∈ [['s'], ['m', 's'], ['d', 'e', 'g']] → DimensionShape p unit (.dimension q.text u)
  | zero : DimensionShape p unit (.number ['0'])
  | infinite {name : List Char} : name ∈ [['i', 'n', 'f', 's'], ['-', 'i', 'n', 'f', 's']] →
    DimensionShape p unit (.ident name)

/-- The canonical number is compared like the number itself. -/
lemma valueOf_canonical (p : NumberParts) : valueOf p.canonical.text = valueOf p.text ∨
    (valueOf p.canonical.text == 0.0) = true ∧ (valueOf p.text == 0.0) = true := by
  by_cases hexponent : p.exponent = []
  · have hnone : p.canonical.exponent = [] := by
      by_cases hkept : p.keptWhole ≠ [] ∨ p.keptFraction ≠ []
      · exact (NumberParts.canonical_parts hexponent hkept).2.2.2
      · rw [not_or, not_not, not_not] at hkept
        rw [NumberParts.canonical_of_zeros hexponent hkept.1 hkept.2]
        rfl
    unfold valueOf
    rw [NumberParts.read?_text hexponent, NumberParts.read?_text hnone]
    exact NumberParts.value_canonical hexponent
  · exact .inl (by rw [NumberParts.canonical_of_exponent hexponent])

lemma valueOf_canonical_zero (p : NumberParts) :
    (valueOf p.canonical.text == 0.0) = (valueOf p.text == 0.0) := by
  rcases valueOf_canonical p with heq | ⟨hcanonical, hvalue⟩
  · rw [heq]
  · rw [hcanonical, hvalue]

/-- Rounding to four places leaves a number. -/
lemma isNumber_roundToFourPlaces {x : Float} (h : IsNumber x) : IsNumber (roundToFourPlaces x) := by
  have hten : ∃ m e hp, (10000.0 : Float).toModel.unpack = .finite .positive m e hp :=
    ⟨_, _, _, rfl⟩
  obtain ⟨m, e, hp, hten⟩ := hten
  unfold roundToFourPlaces
  refine IsNumber.div ?_ hten
  unfold toNearestInteger
  dsimp only
  split
  · split
    · exact (isNumber_ofScientific _).neg
    · exact isNumber_ofScientific _
  · exact h.mul hten

/-- A plain number that is read as zero is a written zero. -/
def ReadsTrue (p : NumberParts) : Prop :=
  p.exponent = [] ∧ (p.canonical.text = ['0'] ∨ (valueOf p.text == 0.0) = false)

lemma plainText_cases {x : Float} (h : IsNumber x) :
    (∃ p : NumberParts, plainText x = p.text ∧ ReadsTrue p) ∨
      plainText x = ['i', 'n', 'f'] ∨ plainText x = ['-', 'i', 'n', 'f'] := by
  cases hreading : Reading.ofFloat x with
  | undefined => exact (reading_of_isNumber h hreading).elim
  | infinite negative =>
    right
    unfold plainText
    rw [hreading]
    cases negative
    · exact .inl rfl
    · exact .inr rfl
  | finite negative m =>
    left
    obtain ⟨p, htext, hexponent, hzero⟩ := parts_of_plainText hreading
    refine ⟨p, htext, hexponent, hzero.imp_right fun hvalue => ?_⟩
    unfold valueOf
    rw [NumberParts.read?_text hexponent]
    exact hvalue

lemma format_cases {x : Float} (h : IsNumber x) :
    (∃ p : NumberParts, format x = p.text ∧ ReadsTrue p) ∨
      format x = ['i', 'n', 'f'] ∨ format x = ['-', 'i', 'n', 'f'] := by
  unfold format
  split
  · exact plainText_cases h
  · dsimp only
    split
    · exact .inl ⟨.zero, rfl, rfl, .inl rfl⟩
    · exact plainText_cases (isNumber_roundToFourPlaces h)

lemma NumberParts.numeric (p : NumberParts) : ∀ c ∈ p.text, IsNumeric c := by
  have hend : p.EndsAt [] := ⟨rfl, fun _ _ => rfl, fun _ => rfl⟩
  have hspan := numberSpan_text p hend
  rw [List.append_nil] at hspan
  intro c hc
  have hspanned : c ∈ (Token.numberSpan p.text).1 := by rwa [hspan]
  exact numeric_of_numberSpan hspanned

lemma secondsToken_parts (p : NumberParts) :
    secondsToken p.text = .dimension p.text ['s'] := by
  have hn : ∀ name ∈ [['i', 'n', 'f'], ['-', 'i', 'n', 'f']], 'n' ∈ name := by decide
  have hletter : ∀ name ∈ [['i', 'n', 'f'], ['-', 'i', 'n', 'f']], p.text ≠ name := by
    intro name hname heq
    have hnumeric := p.numeric 'n' (heq ▸ hn name hname)
    revert hnumeric
    unfold IsNumeric
    decide
  unfold secondsToken
  rw [if_neg]
  rintro (heq | heq)
  · exact hletter _ (by decide) heq
  · exact hletter _ (by decide) heq

/-- The ends of the doubles have names for numbers. -/
lemma secondsToken_infinite {number : List Char}
    (h : number = ['i', 'n', 'f'] ∨ number = ['-', 'i', 'n', 'f']) :
    ∃ name ∈ [['i', 'n', 'f', 's'], ['-', 'i', 'n', 'f', 's']],
      secondsToken (canonical number) = .ident name := by
  rcases h with rfl | rfl
  · exact ⟨_, List.mem_cons_self, rfl⟩
  · exact ⟨_, List.mem_cons_of_mem _ List.mem_cons_self, rfl⟩

lemma isNumber_seconds {x : Float} (h : (x ≥ 10.0 || x ≤ -10.0) = true) :
    IsNumber (x / 1000.0) := by
  obtain ⟨m, e, hp, hthousand⟩ : ∃ m e hp,
      (1000.0 : Float).toModel.unpack = .finite .positive m e hp := ⟨_, _, _, rfl⟩
  have hx : IsNumber x := by
    rcases Bool.or_eq_true_iff.1 h with hlarge | hsmall
    · exact (isNumber_of_le (of_decide_eq_true hlarge)).2
    · exact (isNumber_of_le (of_decide_eq_true hsmall)).1
  exact hx.div hthousand

lemma dimensionToken_shape (p : NumberParts) (unit : List Char) :
    DimensionShape p unit (dimensionToken p.text unit) := by
  have hzero : ∀ u ∈ [['s'], ['m', 's'], ['d', 'e', 'g']],
      DimensionShape p unit (.dimension NumberParts.zero.text u) := fun u hu =>
    .renamed rfl hu
  unfold dimensionToken
  dsimp only
  split
  · split
    · exact hzero _ (by decide)
    · split
      · rename_i hlarge
        rcases format_cases (isNumber_seconds hlarge) with ⟨q, hq, _⟩ | hinfinite
        · rw [hq, q.canonical_text, secondsToken_parts]
          exact .renamed q.canonical.isSome_read? (by decide)
        · obtain ⟨name, hname, heq⟩ := secondsToken_infinite hinfinite
          rw [heq]
          exact .infinite hname
      · rw [p.canonical_text]
        exact .renamed p.canonical.isSome_read? (by decide)
  · split
    · exact hzero _ (by decide)
    · split
      · exact hzero _ (by decide)
      · split
        · exact .zero
        · rw [p.canonical_text]
          exact .kept

lemma canonicalDimension_seconds {p : NumberParts} (h : ReadsTrue p) :
    canonicalDimension p.canonical.text ['s'] = p.canonical.text ++ ['s'] := by
  rcases h.2 with hzero | hvalue
  · rw [hzero]
    decide +kernel
  · unfold canonicalDimension
    dsimp only
    change (if _ then _ else if (valueOf p.canonical.text == 0.0 && _) = true then _
      else if (valueOf p.canonical.text == 0.0 && _) = true then _
      else if (valueOf p.canonical.text == 0.0 && _) = true then _ else _) = _
    rw [valueOf_canonical_zero, hvalue, p.canonical_text_canonical]
    rfl

/-- A dimension in canonical form is written as it is. -/
lemma tokenText_dimensionToken {p : NumberParts} (unit : List Char) (property : String) :
    tokenText property false (dimensionToken p.text unit) =
      (dimensionToken p.text unit).spelling := by
  have hzero : ∀ u ∈ [['s'], ['d', 'e', 'g']],
      tokenText property false (.dimension ['0'] u) = ['0'] ++ u := by
    intro u hu
    change canonicalDimension ['0'] u = ['0'] ++ u
    revert u
    decide +kernel
  have hdashed : ∀ name ∈ [['i', 'n', 'f', 's'], ['-', 'i', 'n', 'f', 's']],
      Property.dashCaseText name = name := by decide
  unfold dimensionToken
  dsimp only
  split
  · split
    · exact hzero _ (by decide)
    · split
      · rename_i hlarge
        rcases format_cases (isNumber_seconds hlarge) with ⟨q, hq, htrue⟩ | hinfinite
        · rw [hq, q.canonical_text, secondsToken_parts]
          exact canonicalDimension_seconds htrue
        · obtain ⟨name, hname, heq⟩ := secondsToken_infinite hinfinite
          rw [heq]
          change (if _ then Property.dashCaseText name else name) = name
          split
          · exact hdashed name hname
          · rfl
      · rename_i hne hsmall
        have hvalue : valueOf p.canonical.text = valueOf p.text :=
          (valueOf_canonical p).resolve_right fun hboth => hne hboth.2
        rw [p.canonical_text]
        change canonicalDimension p.canonical.text ['m', 's'] = _
        unfold canonicalDimension
        change (if isNamed ["ms"] ['m', 's'] = true then
          if (valueOf p.canonical.text == 0.0) = true then _
          else if (valueOf p.canonical.text ≥ 10.0 || valueOf p.canonical.text ≤ -10.0) = true then _
          else _ else _) = _
        rw [hvalue, if_pos (by decide +kernel), if_neg hne, if_neg hsmall,
          p.canonical_text_canonical]
        rfl
  · rename_i hms
    split
    · exact hzero _ (by decide)
    · rename_i hangle
      split
      · exact hzero _ (by decide)
      · rename_i hs
        split
        · rfl
        · rename_i hlength
          rw [p.canonical_text]
          change canonicalDimension p.canonical.text unit = _
          unfold canonicalDimension
          change (if _ then _ else if (valueOf p.canonical.text == 0.0 && _) = true then _
            else if (valueOf p.canonical.text == 0.0 && _) = true then _
            else if (valueOf p.canonical.text == 0.0 && _) = true then _ else _) = _
          rw [valueOf_canonical_zero, if_neg hms, if_neg hangle, if_neg hs, if_neg hlength,
            p.canonical_text_canonical]
          rfl

end AtomicCss.Proofs
