import AtomicCss.Proofs.NearestDecimal
import AtomicCss.Proofs.NumberParts

/-!
# The values of numbers

A number without an exponent is read as its digits over a power of ten, under its sign. The zeros
that its canonical spelling drops count for nothing there, so that spelling has the same value, up to
the sign of zero. The plain text of a double other than zero is not read as zero.
-/

namespace AtomicCss.Proofs

open Decimal

lemma digitsValue_eq (digits : List Char) : digitsValue digits = Nat.ofDigitChars 10 digits 0 := rfl

lemma digitsValue_zeros (before : List Char) (n : Nat) :
    digitsValue (before ++ List.replicate n '0') = digitsValue before * 10 ^ n := by
  rw [digitsValue_eq, Nat.ofDigitChars_append, Nat.ofDigitChars_replicate_zero, Nat.mul_comm]
  rfl

lemma digitsValue_leading (n : Nat) (digits : List Char) :
    digitsValue (List.replicate n '0' ++ digits) = digitsValue digits := by
  rw [digitsValue_eq, Nat.ofDigitChars_append, Nat.ofDigitChars_replicate_zero, Nat.mul_zero]
  rfl

lemma takeWhile_zeros (digits : List Char) :
    ∃ n, digits.takeWhile (· == '0') = List.replicate n '0' := by
  refine ⟨_, List.eq_replicate_of_mem fun c hc => ?_⟩
  exact eq_of_beq (List.all_eq_true.1 List.all_takeWhile c hc)

lemma NumberParts.whole_eq (p : NumberParts) : ∃ n, p.whole = List.replicate n '0' ++ p.keptWhole := by
  obtain ⟨n, hn⟩ := takeWhile_zeros p.whole
  exact ⟨n, hn ▸ List.takeWhile_append_dropWhile.symm⟩

lemma NumberParts.fraction_eq (p : NumberParts) :
    ∃ n, p.fraction = p.keptFraction ++ List.replicate n '0' := by
  obtain ⟨n, hn⟩ := takeWhile_zeros p.fraction.reverse
  refine ⟨n, List.reverse_injective ?_⟩
  rw [List.reverse_append, List.reverse_replicate, keptFraction, dropEndWhile, List.reverse_reverse,
    ← hn, List.takeWhile_append_dropWhile]

def signed (sign : List Char) (x : Float) : Float :=
  if sign = ['-'] then -x else x

/-- The value of a number without an exponent. -/
def NumberParts.value (p : NumberParts) : Float :=
  signed p.sign (nearest (digitsValue (p.whole ++ p.fraction)) (-(p.fraction.length : Int)))

lemma toLower_of_digit {c : Char} (h : c.isDigit = true ∨ c = '.') : c.toLower = c := by
  apply toLower_of_not_isUpper
  rcases h with h | rfl
  · by_contra hupper
    rw [Bool.not_eq_false] at hupper
    have hdigit := Char.isDigit_iff_toNat.1 h
    have hrange := toNat_of_isUpper hupper
    have hnine : '9'.toNat = 57 := rfl
    omega
  · rfl

/-- Infinity and the undefined number have names that begin with letters. -/
lemma named?_of_digit {c : Char} (h : c.isDigit = true ∨ c = '.') (cs : List Char) :
    named? (c :: cs) = none := by
  have hfirst : ∀ {d : Char} {ds : List Char}, Text.lower (c :: cs) = d :: ds → d = c := by
    intro d ds heq
    have hhead := (List.cons.inj heq).1
    rw [← hhead, toLower_of_digit h]
  have hletter : ∀ d ∈ ['i', 'n'], d ≠ c := by
    intro d hd
    rintro rfl
    rcases h with h | rfl
    · simp only [List.mem_cons, List.not_mem_nil, or_false] at hd
      rcases hd with rfl | rfl <;> exact absurd h (by decide)
    · exact absurd hd (by decide)
  unfold named?
  dsimp only
  rw [if_neg, if_neg]
  · exact fun heq => hletter 'n' (by decide) (hfirst heq)
  · rintro (heq | heq) <;> exact hletter 'i' (by decide) (hfirst heq)

/-- What digits with places behind the point come to in front of an exponent or of nothing. -/
def scaled? (digits places : ℕ) : List Char → Option Float
  | [] => some (nearest digits (-(places : Int)))
  | 'e' :: after | 'E' :: after => (exponent? after).map fun e => nearest digits (e - places)
  | _ => none

/-- Digits behind a sign are read as an exponent. -/
lemma isSome_exponent? {sign digits : List Char} (hsign : isSign sign) (hrun : IsRun digits)
    (hne : digits ≠ []) : (exponent? (sign ++ digits)).isSome = true := by
  have hdigits : (!digits.isEmpty && digits.all Char.isDigit) = true := by
    rw [Bool.and_eq_true, List.all_eq_true]
    exact ⟨by simpa using hne, hrun⟩
  rcases hsign with rfl | rfl | rfl
  · rw [List.nil_append]
    unfold exponent?
    dsimp only
    split
    · exact absurd (hrun '-' List.mem_cons_self) (by decide)
    · exact absurd (hrun '+' List.mem_cons_self) (by decide)
    · rw [if_pos hdigits]
      rfl
  all_goals simp [exponent?, hdigits]

lemma isSome_scaled? (digits places : ℕ) {exponent : List Char} (h : IsExponent exponent) :
    (scaled? digits places exponent).isSome = true := by
  rcases h with rfl | ⟨e, sign, run, he, hsign, hrun, hne, rfl⟩
  · rfl
  · have hsome := isSome_exponent? hsign hrun hne
    rcases he with rfl | rfl
    · change ((exponent? (sign ++ run)).map _).isSome = true
      rwa [Option.isSome_map]
    · change ((exponent? (sign ++ run)).map _).isSome = true
      rwa [Option.isSome_map]

/-- Digits with a point among them are read in front of a rest that begins with neither. -/
lemma unsigned?_digits {whole fraction rest : List Char} (hwhole : IsRun whole)
    (hfraction : IsRun fraction) (hdigit : (Token.digitSpan rest).1 = [])
    (hpoint : rest.head? ≠ some '.') :
    unsigned? (whole ++ (pointed fraction ++ rest)) =
      if whole.isEmpty && fraction.isEmpty then none
      else scaled? (digitsValue (whole ++ fraction)) fraction.length rest := by
  have hbehind : (Token.digitSpan (pointed fraction ++ rest)).1 = [] := by
    by_cases hf : fraction = []
    · rwa [hf]
    · rw [pointed_of_ne_nil hf]
      exact digitSpan_cons (by decide) _
  have hwholes := digitSpan_append_of_run hwhole hbehind
  have htake : (whole ++ (pointed fraction ++ rest)).takeWhile Char.isDigit = whole :=
    congrArg Prod.fst hwholes
  have hdrop : (whole ++ (pointed fraction ++ rest)).dropWhile Char.isDigit =
      pointed fraction ++ rest := congrArg Prod.snd hwholes
  have hfractions := digitSpan_append_of_run hfraction hdigit
  have htake' : (fraction ++ rest).takeWhile Char.isDigit = fraction :=
    congrArg Prod.fst hfractions
  have hdrop' : (fraction ++ rest).dropWhile Char.isDigit = rest := congrArg Prod.snd hfractions
  unfold unsigned?
  dsimp only
  rw [htake, hdrop]
  split
  · rename_i after heq
    have hf : fraction ≠ [] := by
      intro hf
      rw [hf, pointed_nil, List.nil_append] at heq
      exact hpoint (heq ▸ rfl)
    rw [pointed_of_ne_nil hf, List.cons_append] at heq
    obtain rfl := (List.cons.inj heq).2
    rw [htake', hdrop']
    rfl
  · rename_i heq
    have hf : fraction = [] := by
      by_contra hf
      exact heq (fraction ++ rest) (by rw [pointed_of_ne_nil hf]; rfl)
    rw [hf, pointed_nil, List.nil_append]
    rfl

/-- An exponent begins with no point. -/
lemma IsExponent.head_append {exponent rest : List Char} (h : IsExponent exponent)
    (hrest : rest.head? ≠ some '.') : (exponent ++ rest).head? ≠ some '.' := by
  rcases h with rfl | ⟨e, sign, digits, he, _, _, _, rfl⟩
  · exact hrest
  · rcases he with rfl | rfl <;> simp

/-- The text of a number behind its sign begins with a digit or a point. -/
lemma head_digits (p : NumberParts) (rest : List Char) :
    ∃ d ds, p.whole ++ (pointed p.fraction ++ rest) = d :: ds ∧ (d.isDigit = true ∨ d = '.') := by
  cases hw : p.whole with
  | cons d ds =>
    exact ⟨d, _, rfl, .inl (p.whole_run d (hw ▸ List.mem_cons_self))⟩
  | nil =>
    have hf : p.fraction ≠ [] := p.some_digits.resolve_left (by simp [hw])
    rw [pointed_of_ne_nil hf]
    exact ⟨'.', _, rfl, .inr rfl⟩

/-- Behind a sign, digits are read as they are without one. -/
lemma read?_signed {sign : List Char} {d : Char} (hsign : isSign sign)
    (hd : d.isDigit = true ∨ d = '.') (ds : List Char) :
    read? (sign ++ d :: ds) = (unsigned? (d :: ds)).map (signed sign) := by
  have hmagnitude : (named? (d :: ds) <|> unsigned? (d :: ds)) = unsigned? (d :: ds) := by
    rw [named?_of_digit hd]
    rfl
  have hplain : d ≠ '-' ∧ d ≠ '+' := by
    rcases hd with hd | rfl
    · exact (ne_sign_of_isDigit hd).symm
    · decide
  rcases hsign with rfl | rfl | rfl
  · rw [List.nil_append]
    unfold read?
    dsimp only
    split
    · exact (hplain.1 (by simp_all)).elim
    · exact (hplain.2 (by simp_all)).elim
    · rw [hmagnitude]
      exact Option.map_id'.symm
  · change (named? (d :: ds) <|> unsigned? (d :: ds)) = _
    rw [hmagnitude]
    exact Option.map_id'.symm
  · change (named? (d :: ds) <|> unsigned? (d :: ds)).map (- ·) = _
    rw [hmagnitude]
    rfl

/-- A number is read as its digits under its exponent and its sign. -/
lemma NumberParts.read?_eq (p : NumberParts) :
    read? p.text =
      (scaled? (digitsValue (p.whole ++ p.fraction)) p.fraction.length p.exponent).map
        (signed p.sign) := by
  have hsome : ¬(p.whole.isEmpty && p.fraction.isEmpty) = true := by
    rw [Bool.and_eq_true, List.isEmpty_iff, List.isEmpty_iff]
    exact fun hnone => p.some_digits.elim (fun h => h hnone.1) fun h => h hnone.2
  have hdigit : (Token.digitSpan p.exponent).1 = [] := by
    have hend : (Token.digitSpan (p.exponent ++ [])).1 = [] :=
      digitSpan_exponent p.exponent_ok rfl
    rwa [List.append_nil] at hend
  have hpoint : p.exponent.head? ≠ some '.' := by
    have hhead : (p.exponent ++ []).head? ≠ some '.' := p.exponent_ok.head_append nofun
    rwa [List.append_nil] at hhead
  have htext : p.text = p.sign ++ (p.whole ++ (pointed p.fraction ++ p.exponent)) := by
    rw [text, List.append_assoc, List.append_assoc]
  have hdigits := unsigned?_digits p.whole_run p.fraction_run hdigit hpoint
  obtain ⟨d, ds, hhead, hd⟩ := head_digits p p.exponent
  rw [hhead, if_neg hsome] at hdigits
  rw [htext, hhead, read?_signed p.sign_ok hd, hdigits]

/-- Whatever has the parts of a number is read as one. -/
lemma NumberParts.isSome_read? (p : NumberParts) : (read? p.text).isSome = true := by
  rw [p.read?_eq, Option.isSome_map]
  exact isSome_scaled? _ _ p.exponent_ok

/-- A number without an exponent is read as its value. -/
lemma NumberParts.read?_text {p : NumberParts} (h : p.exponent = []) :
    read? p.text = some p.value := by
  rw [p.read?_eq, h]
  rfl

lemma signed_zero (sign : List Char) : (signed sign 0.0 == 0.0) = true := by
  unfold signed
  split <;> decide +kernel

lemma nearest_zero (exponent : Int) : nearest 0 exponent = 0.0 := rfl

/-- The zeros that are dropped in front do not count, those behind count as places. -/
lemma NumberParts.kept_digits (p : NumberParts) : ∃ n,
    digitsValue (p.whole ++ p.fraction) = digitsValue (p.keptWhole ++ p.keptFraction) * 10 ^ n ∧
      p.fraction.length = n + p.keptFraction.length := by
  obtain ⟨m, hwhole⟩ := p.whole_eq
  obtain ⟨n, hfraction⟩ := p.fraction_eq
  refine ⟨n, ?_, ?_⟩
  · rw [hwhole, hfraction, List.append_assoc, digitsValue_leading, ← List.append_assoc,
      digitsValue_zeros]
  · conv_lhs => rw [hfraction]
    rw [List.length_append, List.length_replicate, Nat.add_comm]

/-- The canonical spelling keeps the value, but for the sign of zero. -/
lemma NumberParts.value_canonical {p : NumberParts} (h : p.exponent = []) :
    p.canonical.value = p.value ∨
      (p.canonical.value == 0.0) = true ∧ (p.value == 0.0) = true := by
  obtain ⟨n, hdigits, hlength⟩ := p.kept_digits
  by_cases hkept : p.keptWhole ≠ [] ∨ p.keptFraction ≠ []
  · obtain ⟨hsign, hwhole', hfraction', hnone⟩ := canonical_parts h hkept
    refine .inl ?_
    rw [value, value, hsign, hwhole', hfraction', hdigits, hlength, nearest_mul_pow]
    unfold signed
    by_cases hminus : p.sign = ['-'] <;> simp [hminus]
  · rw [not_or, not_not, not_not] at hkept
    refine .inr ⟨?_, ?_⟩
    · rw [canonical_of_zeros h hkept.1 hkept.2]
      exact signed_zero []
    · have hzero : digitsValue (p.whole ++ p.fraction) = 0 := by
        rw [hdigits, hkept.1, hkept.2]
        exact Nat.zero_mul _
      rw [value, hzero, nearest_zero]
      exact signed_zero _

end AtomicCss.Proofs
