import AtomicCss.Proofs.NumberValue
import AtomicCss.Proofs.SpacedWords
import AtomicCss.Proofs.Tokens
import AtomicCss.Value.Normalize

/-!
# The widths of lines

A width is a zero, a keyword, a number with a unit or a call of a math function. A number is no
number any more with a unit behind it, so all dimensions are taken for widths. Of the calls only
those of `calc` are.
-/

namespace AtomicCss.Proofs

open Text Expansion Token

/-- A number with a unit, and nothing behind it. -/
def IsDimension (word : List Char) : Prop :=
  ∃ text unit, next? word = .ok (some (.dimension text unit, []))

/-- A call of a function whose arguments are kept as written in the normal form. -/
def IsMathCall (word : List Char) : Prop :=
  ∃ name args, word = name ++ '(' :: (args ++ [')']) ∧
    Value.isNamed Value.verbatimFunctions name = true ∧
    closesFrom (fun _ => false) 0 none args = true

/-- The widths that a line may have. -/
inductive IsLineWidth : List Char → Prop
  | zero : IsLineWidth ['0']
  | keyword {word : List Char} : String.ofList word ∈ widthKeywords → IsLineWidth word
  | dimension {word : List Char} : IsDimension word → IsLineWidth word
  | math {word : List Char} : IsMathCall word → IsLineWidth word

section

variable {word tail : List Char} {c : Char}

/-- What is read as an exponent behind a letter is one, with nothing behind it. -/
lemma exponentSpan_of_exponent? {e : Char} {n : Int} (he : e = 'e' ∨ e = 'E')
    (h : Decimal.exponent? tail = some n) : exponentSpan (e :: tail) = (e :: tail, []) := by
  have hspan : ∀ {sign digits : List Char} {n : ℕ}, isSign sign →
      (if !digits.isEmpty && digits.all Char.isDigit then some (Decimal.digitsValue digits)
        else none) = some n →
      exponentSpan (e :: (sign ++ digits)) = (e :: (sign ++ digits), []) := by
    intro sign digits n hsign h
    obtain ⟨hdigits, _⟩ := Option.ite_none_right_eq_some.1 h
    obtain ⟨hne, hrun⟩ := Bool.and_eq_true_iff.1 hdigits
    have hexponent : IsExponent (e :: (sign ++ digits)) :=
      .inr ⟨e, sign, digits, he, hsign, List.all_eq_true.1 hrun, by simpa using hne, rfl⟩
    have happend : exponentSpan (e :: (sign ++ digits) ++ []) = (e :: (sign ++ digits), []) :=
      exponentSpan_append_of_exponent hexponent rfl fun _ => rfl
    rwa [List.append_nil] at happend
  unfold Decimal.exponent? at h
  dsimp only at h
  split at h
  · obtain ⟨m, hm, _⟩ := Option.map_eq_some_iff.1 h
    obtain ⟨n, hn, _⟩ := Option.bind_eq_some_iff.1 hm
    exact hspan (.inr (.inr rfl)) hn
  · obtain ⟨m, hm, _⟩ := Option.map_eq_some_iff.1 h
    exact hspan (.inr (.inl rfl)) hm
  · obtain ⟨m, hm, _⟩ := Option.map_eq_some_iff.1 h
    exact hspan (.inl rfl) hm

/-- A rest that is no exponent leaves nothing to be read. -/
lemma scaled?_eq_none {rest : List Char} (digits places : ℕ) (hne : rest ≠ [])
    (hexponent : ∀ e after, rest = e :: after → e = 'e' ∨ e = 'E' →
      Decimal.exponent? after = none) : scaled? digits places rest = none := by
  unfold scaled?
  split
  · exact (hne rfl).elim
  · rw [hexponent _ _ rfl (.inl rfl)]
    rfl
  · rw [hexponent _ _ rfl (.inr rfl)]
    rfl
  · rfl

/-- A unit leaves nothing to be read as a number. -/
lemma unsigned?_of_unit (p : NumberParts) (hend : p.EndsAt (c :: tail))
    (hc : isNameStart c = true) :
    Decimal.unsigned? (p.whole ++ (pointed p.fraction ++ (p.exponent ++ c :: tail))) = none := by
  have hpoint : (p.exponent ++ c :: tail).head? ≠ some '.' := by
    refine p.exponent_ok.head_append fun hhead => ?_
    obtain rfl := Option.some.inj hhead
    exact absurd hc (by decide)
  rw [unsigned?_digits p.whole_run p.fraction_run (digitSpan_exponent p.exponent_ok hend.digit)
    hpoint]
  split
  · rfl
  · refine scaled?_eq_none _ _ (by simp) fun e after heq he => ?_
    have hspan : exponentSpan (p.exponent ++ c :: tail) = (p.exponent, c :: tail) :=
      exponentSpan_append_of_exponent p.exponent_ok hend.digit hend.exponent
    rw [Option.eq_none_iff_forall_ne_some]
    intro n hn
    rw [heq, exponentSpan_of_exponent? he hn] at hspan
    cases (Prod.mk.inj hspan).2

/-- Such a text is a width unless it is read as a number. -/
lemma isWidth_of_digits {sign : List Char} {d : Char} {ds : List Char} (hsign : isSign sign)
    (hd : d.isDigit = true ∨ d = '.') (h : Decimal.unsigned? (d :: ds) = none) :
    isWidth (sign ++ d :: ds) = true := by
  have hplain : d ≠ '-' ∧ d ≠ '+' := by
    rcases hd with hd | rfl
    · exact (ne_sign_of_isDigit hd).symm
    · decide
  have hread : Decimal.read? (sign ++ d :: ds) = none := by
    rw [read?_signed hsign hd, h]
    rfl
  have hdrop : (sign ++ d :: ds).dropWhile (fun c => c == '-' || c == '+') = d :: ds := by
    rcases hsign with rfl | rfl | rfl <;> simp [hplain]
  have hnumeric : (d.isDigit || d == '.') = true := by
    rcases hd with hd | rfl
    · rw [hd]
      rfl
    · rfl
  unfold isWidth isNumber
  rw [hdrop, hread]
  simp [hnumeric]

/-- A number with a unit behind it, from the sign on. -/
lemma digits_of_dimension (h : IsDimension word) : ∃ sign d ds, isSign sign ∧
    (d.isDigit = true ∨ d = '.') ∧ Decimal.unsigned? (d :: ds) = none ∧
    word = sign ++ d :: ds := by
  obtain ⟨text, unit, h⟩ := h
  generalize htoken : Token.dimension text unit = t at h
  generalize hnil : ([] : List Char) = rest at h
  cases taken_of_next? h with
  | dimension hstarts hread hrest hc =>
    rename_i c tail
    obtain ⟨p, htext, hend⟩ := parts_of_startsNumber hstarts
    rw [hrest] at hend
    have hword : word =
        p.sign ++ (p.whole ++ (pointed p.fraction ++ (p.exponent ++ c :: tail))) := by
      rw [← numberSpan_append word, htext, hrest, NumberParts.text]
      simp
    have hunsigned := unsigned?_of_unit p hend hc
    obtain ⟨d, ds, hdigits, hd⟩ := head_digits p (p.exponent ++ c :: tail)
    rw [hdigits] at hword hunsigned
    exact ⟨p.sign, d, ds, p.sign_ok, hd, hunsigned, hword⟩
  | _ => cases htoken

lemma isWidth_of_dimension (h : IsDimension word) : isWidth word = true := by
  obtain ⟨sign, d, ds, hsign, hd, hunsigned, rfl⟩ := digits_of_dimension h
  exact isWidth_of_digits hsign hd hunsigned

lemma not_isAlpha_of_digit (h : c.isDigit = true ∨ c = '.') : c.isAlpha = false := by
  rcases h with hdigit | rfl
  · have hrange := Char.isDigit_iff_toNat.1 hdigit
    have hnine : '9'.toNat = 57 := rfl
    rw [Char.isAlpha, Bool.or_eq_false_iff, ← Bool.not_eq_true, ← Bool.not_eq_true]
    constructor
    · intro hupper
      have := toNat_of_isUpper hupper
      omega
    · intro hlower
      have := toNat_of_isLower hlower
      omega
  · rfl

/-- The styles are words of letters. -/
lemma isLineStyle_of_not_isAlpha {c : Char} (hc : c ∈ word) (halpha : c.isAlpha = false) :
    isLineStyle word = false := by
  have hletters : ∀ s ∈ lineStyles, ∀ d ∈ s.toList, d.isAlpha = true := by decide +kernel
  unfold isLineStyle
  rw [List.contains_eq_mem, decide_eq_false_iff_not]
  intro hmem
  have hletter := hletters _ hmem c (by rwa [String.toList_ofList])
  rw [halpha] at hletter
  cases hletter

/-- A math call begins with a letter and has a parenthesis in it. -/
lemma mathCall_parts (h : IsMathCall word) :
    ∃ c cs, word = c :: cs ∧ c.isAlpha = true ∧ '(' ∈ cs := by
  obtain ⟨name, args, rfl, hname, _⟩ := h
  have hheads : ∀ s ∈ Value.verbatimFunctions,
      s.toList.head? = some 'c' ∨ s.toList.head? = some 'm' := by
    decide +kernel
  have hhead := hheads _ (List.contains_iff_mem.1 hname)
  rw [String.toList_ofList] at hhead
  cases name with
  | nil => rcases hhead with hhead | hhead <;> cases hhead
  | cons c cs =>
    refine ⟨c, cs ++ '(' :: (args ++ [')']), rfl, ?_, by simp⟩
    by_cases hupper : c.isUpper = true
    · rw [Char.isAlpha, hupper]
      rfl
    · have hlower : (lower (c :: cs)).head? = some c :=
        congrArg some (toLower_of_not_isUpper (by simpa using hupper))
      rw [hlower] at hhead
      rcases hhead with hhead | hhead <;> obtain rfl := Option.some.inj hhead <;> rfl

/-- Of the math calls only those of `calc` are taken for widths, and only as this is written. -/
lemma isLineWidth_of_mathCall (h : IsMathCall word) :
    isLineWidth word = "calc(".toList.isPrefixOf word := by
  obtain ⟨c, cs, rfl, hc, hopen⟩ := mathCall_parts h
  have hne : c ≠ '-' ∧ c ≠ '+' ∧ c ≠ '0' ∧ c ≠ '.' := by
    refine ⟨?_, ?_, ?_, ?_⟩ <;> rintro rfl <;> exact absurd hc (by decide)
  have hdigit : c.isDigit = false := by
    by_contra hdigit
    rw [Bool.not_eq_false] at hdigit
    rw [not_isAlpha_of_digit (.inl hdigit)] at hc
    cases hc
  have hdrop : (c :: cs).dropWhile (fun c => c == '-' || c == '+') = c :: cs :=
    List.dropWhile_cons_of_neg (by simp [hne])
  have hkeyword : widthKeywords.contains (String.ofList (c :: cs)) = false := by
    have hplain : ∀ k ∈ widthKeywords, '(' ∉ k.toList := by decide
    rw [List.contains_eq_mem, decide_eq_false_iff_not]
    intro hmem
    exact hplain _ hmem (by rw [String.toList_ofList]; exact List.mem_cons_of_mem _ hopen)
  unfold isLineWidth isWidth
  rw [hdrop, hkeyword]
  simp [hne, hdigit]

lemma IsLineWidth.not_style (h : IsLineWidth word) : isLineStyle word = false := by
  cases h with
  | zero => decide
  | keyword hkeyword =>
    have hapart : ∀ k ∈ widthKeywords, k ∉ lineStyles := by decide
    unfold isLineStyle
    rw [List.contains_eq_mem, decide_eq_false_iff_not]
    exact hapart _ hkeyword
  | dimension h =>
    obtain ⟨sign, d, ds, _, hd, _, rfl⟩ := digits_of_dimension h
    have hmem : d ∈ sign ++ d :: ds := List.mem_append_right _ List.mem_cons_self
    exact isLineStyle_of_not_isAlpha hmem (not_isAlpha_of_digit hd)
  | math h =>
    obtain ⟨c, cs, rfl, _, hopen⟩ := mathCall_parts h
    exact isLineStyle_of_not_isAlpha (List.mem_cons_of_mem _ hopen) rfl

/-- The widths of a line are taken for widths, except for some math calls. -/
lemma IsLineWidth.isLineWidth_iff (h : IsLineWidth word) :
    isLineWidth word = true ↔ (IsMathCall word → "calc(".toList <+: word) := by
  by_cases hmath : IsMathCall word
  · rw [isLineWidth_of_mathCall hmath, List.isPrefixOf_iff_prefix]
    exact ⟨fun hcalc _ => hcalc, fun hcalc => hcalc hmath⟩
  · refine iff_of_true ?_ fun h => (hmath h).elim
    cases h with
    | zero => decide
    | keyword hkeyword =>
      unfold isLineWidth
      rw [List.contains_iff_mem.2 hkeyword, Bool.or_true]
    | dimension h =>
      unfold isLineWidth
      rw [isWidth_of_dimension h, Bool.true_or]
    | math h => exact (hmath h).elim

/-- Of the words of letters only the keywords are widths. -/
lemma not_isLineWidth_of_letters (hletters : ∀ c ∈ word, c.isAlpha = true)
    (hkeyword : String.ofList word ∉ widthKeywords) : ¬IsLineWidth word := by
  intro h
  cases h with
  | zero => exact absurd (hletters '0' (List.mem_singleton_self _)) (by decide)
  | keyword hmem => exact hkeyword hmem
  | dimension h =>
    obtain ⟨sign, d, ds, _, hd, _, rfl⟩ := digits_of_dimension h
    have hletter := hletters d (List.mem_append_right _ List.mem_cons_self)
    rw [not_isAlpha_of_digit hd] at hletter
    cases hletter
  | math h =>
    obtain ⟨c, cs, rfl, _, hopen⟩ := mathCall_parts h
    exact absurd (hletters '(' (List.mem_cons_of_mem _ hopen)) (by decide)

end

end AtomicCss.Proofs
