import AtomicCss.Proofs.NameText
import AtomicCss.Proofs.NumberValue

/-!
# Tokens read back

A token is read off the front of its own spelling, as long as the text behind does not go on with it.
What that means depends on the kind of the token: a name ends where no name character follows, a
number where no digit, point or exponent does.
-/

namespace AtomicCss.Proofs

open Token

/-- The token is read off a text that begins with its spelling. -/
def Reads (t : Token) (rest : List Char) : Prop :=
  next? (t.spelling ++ rest) = .ok (some (t, rest))

lemma reads_comma (rest : List Char) : Reads .comma rest := rfl

lemma reads_leftParen (rest : List Char) : Reads .leftParen rest := rfl

lemma reads_rightParen (rest : List Char) : Reads .rightParen rest := rfl

lemma reads_whitespace {rest : List Char} (h : ∀ c ∈ rest.head?, Text.isBlank c = false) :
    Reads .whitespace rest := by
  have hdrop : rest.dropWhile Text.isBlank = rest := by
    cases rest with
    | nil => rfl
    | cons c cs => rw [List.dropWhile_cons_of_neg (by simp [h c rfl])]
  change Except.ok (some (whitespace, rest.dropWhile Text.isBlank)) = _
  rw [hdrop]

lemma stringBody?_reads {quote : Char} {cs raw rest : List Char}
    (h : stringBody? quote cs = some (raw, rest)) (behind : List Char) :
    stringBody? quote (raw ++ quote :: behind) = some (raw, behind) := by
  fun_induction stringBody? quote cs generalizing raw rest with
  | case1 => cases h
  | case2 cs =>
    cases h
    unfold stringBody?
    simp
  | case3 => cases h
  | case4 d ds hne ih =>
    obtain ⟨⟨raw', rest'⟩, hrest, heq⟩ := Option.map_eq_some_iff.1 h
    cases heq
    rw [List.cons_append, List.cons_append]
    unfold stringBody?
    rw [if_neg hne, if_pos rfl]
    dsimp only
    rw [ih hrest]
    rfl
  | case5 c cs hne hbackslash ih =>
    obtain ⟨⟨raw', rest'⟩, hrest, heq⟩ := Option.map_eq_some_iff.1 h
    cases heq
    rw [List.cons_append]
    unfold stringBody?
    rw [if_neg hne, if_neg hbackslash, ih hrest]
    rfl

lemma reads_string {quote : Char} (hquote : quote = '"' ∨ quote = '\'') {raw : List Char}
    {rest : List Char} (h : stringBody? quote (raw ++ quote :: rest) = some (raw, rest)) :
    Reads (.string quote raw) rest := by
  unfold Reads
  rw [spelling, List.cons_append, List.append_assoc, List.singleton_append, next?, h]
  rcases hquote with rfl | rfl <;> rfl

lemma reads_hash {name rest : List Char} (h : NameRun rest name) : Reads (.hash name) rest := by
  change Except.ok (some (Token.hash (nameSpan (name ++ rest)).1, (nameSpan (name ++ rest)).2)) = _
  rw [nameSpan_of_nameRun h]

/-- Blanks, brackets, commas, quotes and hashes begin tokens of their own. -/
def IsMark (c : Char) : Prop :=
  Text.isBlank c = true ∨ c ∈ [',', '(', ')', '"', '\'', '#']

lemma next?_of_not_mark {c : Char} (h : ¬IsMark c) (cs : List Char) :
    next? (c :: cs) =
      if startsNumber (c :: cs) then (readNumber (c :: cs)).map some
      else if startsName (c :: cs) then (readNamed (c :: cs)).map some
      else .ok (some (delim c, cs)) := by
  unfold IsMark at h
  simp only [List.mem_cons, List.not_mem_nil, or_false, not_or] at h
  obtain ⟨hblank, hcomma, hopen, hclose, hdouble, hsingle, hhash⟩ := h
  rw [next?, if_neg hblank, if_neg hcomma, if_neg hopen, if_neg hclose,
    if_neg (not_or.2 ⟨hdouble, hsingle⟩), if_neg hhash]

/-- What a number begins with. -/
lemma head_of_startsNumber {c : Char} {cs : List Char} (h : startsNumber (c :: cs) = true) :
    c.isDigit = true ∨ c = '+' ∨ c = '-' ∨ c = '.' := by
  by_cases hsign : c = '+' ∨ c = '-'
  · tauto
  · unfold startsNumber at h
    dsimp only at h
    rw [if_neg hsign] at h
    split at h
    · rename_i heq
      cases heq
      exact .inr (.inr (.inr rfl))
    · rename_i heq
      cases heq
      exact .inl h
    · cases h

lemma not_mark_of_plain {c : Char} (h : IsPlain c) : ¬IsMark c := by
  rcases h with h | h
  · have hrange := toNat_of_isAlphanum h
    rintro (hblank | hmem)
    · unfold Text.isBlank at hblank
      simp only [Bool.or_eq_true, Bool.and_eq_true, decide_eq_true_eq, beq_iff_eq] at hblank
      omega
    · revert h
      simp only [List.mem_cons, List.not_mem_nil, or_false] at hmem
      rcases hmem with rfl | rfl | rfl | rfl | rfl | rfl <;> decide
  · have hsigns : ∀ c ∈ ['+', '-', '.', '_', '%'], ¬IsMark c := by
      unfold IsMark
      decide
    exact hsigns c h

lemma next?_of_startsNumber {cs : List Char} (h : startsNumber cs = true) :
    next? cs = (readNumber cs).map some := by
  cases cs with
  | nil => cases h
  | cons c cs =>
    have hnumeric : IsNumeric c := by
      unfold IsNumeric
      have hhead := head_of_startsNumber h
      tauto
    rw [next?_of_not_mark (not_mark_of_plain (plain_of_numeric hnumeric)), if_pos h]

lemma startsNumber_of_digit {sign : List Char} (h : isSign sign) {d : Char}
    (hd : d.isDigit = true) (cs : List Char) : startsNumber (sign ++ d :: cs) = true := by
  have hpoint : d ≠ '.' := by
    rintro rfl
    exact absurd hd (by decide)
  obtain ⟨hplus, hminus⟩ := ne_sign_of_isDigit hd
  rcases h with rfl | rfl | rfl
  all_goals
    simp only [List.nil_append, List.cons_append, startsNumber]
    split <;> simp_all

lemma startsNumber_of_point {sign : List Char} (h : isSign sign) {d : Char}
    (hd : d.isDigit = true) (cs : List Char) : startsNumber (sign ++ '.' :: d :: cs) = true := by
  rcases h with rfl | rfl | rfl <;> simpa [startsNumber] using hd

lemma NumberParts.startsNumber (p : NumberParts) (rest : List Char) :
    startsNumber (p.text ++ rest) = true := by
  have htext : p.text ++ rest =
      p.sign ++ (p.whole ++ (pointed p.fraction ++ (p.exponent ++ rest))) := by
    simp [text]
  rw [htext]
  cases hw : p.whole with
  | cons d ds => exact startsNumber_of_digit p.sign_ok (p.whole_run d (hw ▸ List.mem_cons_self)) _
  | nil =>
    have hf : p.fraction ≠ [] := p.some_digits.resolve_left (by simp [hw])
    rw [pointed_of_ne_nil hf, List.nil_append]
    cases hfraction : p.fraction with
    | nil => exact (hf hfraction).elim
    | cons d ds =>
      exact startsNumber_of_point p.sign_ok
        (p.fraction_run d (hfraction ▸ List.mem_cons_self)) _

/-- What follows a number decides the kind of the token. -/
def afterNumber (text : List Char) : List Char → Token × List Char
  | [] => (.number text, [])
  | c :: tail =>
    if c = '%' then (.percentage text, tail)
    else if isNameStart c then (.dimension text (nameSpan (c :: tail)).1, (nameSpan (c :: tail)).2)
    else (.number text, c :: tail)

lemma readNumber_text {p : NumberParts} {rest : List Char} (hend : p.EndsAt rest) :
    readNumber (p.text ++ rest) = .ok (afterNumber p.text rest) := by
  have hnone : ¬(Decimal.read? p.text).isNone = true := by
    rw [Option.isNone_iff_eq_none]
    exact Option.isSome_iff_ne_none.1 p.isSome_read?
  unfold readNumber
  rw [numberSpan_text p hend]
  dsimp only
  rw [if_neg hnone]
  cases rest with
  | nil => rfl
  | cons c cs =>
    unfold afterNumber
    dsimp only
    simp only [apply_ite Except.ok]

section

variable {p : NumberParts}

lemma reads_number {rest : List Char} (hend : p.EndsAt rest)
    (hhead : ∀ c ∈ rest.head?, c ≠ '%' ∧ isNameStart c = false) :
    Reads (.number p.text) rest := by
  unfold Reads
  rw [spelling, next?_of_startsNumber (p.startsNumber rest), readNumber_text hend]
  cases rest with
  | nil => rfl
  | cons c cs =>
    obtain ⟨hpercent, hname⟩ := hhead c rfl
    rw [afterNumber, if_neg hpercent, if_neg (by simp [hname])]
    rfl

/-- Nothing goes on over a percent sign. -/
lemma reads_percentage (rest : List Char) : Reads (.percentage p.text) rest := by
  have hend : p.EndsAt ('%' :: rest) := ⟨rfl, fun _ _ => rfl, fun _ => rfl⟩
  unfold Reads
  rw [spelling, List.append_assoc, List.singleton_append,
    next?_of_startsNumber (p.startsNumber _), readNumber_text hend]
  rfl

lemma reads_dimension {unit rest : List Char} (hend : p.EndsAt (unit ++ rest))
    (hunit : ∃ c cs, unit = c :: cs ∧ isNameStart c = true) (hrun : NameRun rest unit) :
    Reads (.dimension p.text unit) rest := by
  obtain ⟨c, cs, rfl, hc⟩ := hunit
  have hpercent : c ≠ '%' := by
    rintro rfl
    exact absurd hc (by decide)
  unfold Reads
  rw [spelling, List.append_assoc, next?_of_startsNumber (p.startsNumber _),
    readNumber_text hend, List.cons_append, afterNumber, if_neg hpercent, if_pos hc,
    ← List.cons_append, nameSpan_of_nameRun hrun]
  rfl

end

/-- What a name begins with. -/
lemma head_of_startsName {c : Char} {cs : List Char} (h : startsName (c :: cs) = true) :
    isNameStart c = true ∨ c = '-' := by
  unfold startsName at h
  split at h
  · rename_i heq
    cases heq
    exact .inr rfl
  · rename_i heq
    cases heq
    exact .inl h
  · cases h

lemma not_mark_of_nameStart {c : Char} (hblank : Text.isBlank c = false)
    (h : isNameStart c = true ∨ c = '-') : ¬IsMark c := by
  rintro (hmark | hmark)
  · rw [hblank] at hmark
    cases hmark
  · simp only [List.mem_cons, List.not_mem_nil, or_false] at hmark
    rcases hmark with rfl | rfl | rfl | rfl | rfl | rfl <;> revert h <;> decide

lemma not_isDigit_of_nameStart {c : Char} (h : isNameStart c = true) : c.isDigit = false := by
  by_contra hdigit
  rw [Bool.not_eq_false] at hdigit
  have hrange := Char.isDigit_iff_toNat.1 hdigit
  have hzero : '0'.toNat = 48 := rfl
  have hnine : '9'.toNat = 57 := rfl
  unfold isNameStart at h
  simp only [Bool.or_eq_true, beq_iff_eq, decide_eq_true_eq] at h
  rcases h with (h | rfl) | h
  · rcases Bool.or_eq_true_iff.1 h with h | h
    · have hupper := toNat_of_isUpper h
      omega
    · have hlower := toNat_of_isLower h
      omega
  · exact absurd hdigit (by decide)
  · omega

lemma startsNumber_of_head {c : Char} {cs : List Char}
    (h : ¬(c.isDigit = true ∨ c = '+' ∨ c = '-' ∨ c = '.')) : startsNumber (c :: cs) = false :=
  Bool.eq_false_iff.2 fun hnumber => h (head_of_startsNumber hnumber)

lemma startsNumber_dash {c : Char} {cs : List Char} (hdigit : c.isDigit = false)
    (hpoint : c ≠ '.') : startsNumber ('-' :: c :: cs) = false := by
  simp only [startsNumber]
  split <;> simp_all

/-- No number begins like a name. -/
lemma not_startsNumber_of_startsName {cs : List Char} (h : startsName cs = true) :
    startsNumber cs = false := by
  have hletter : ∀ {c : Char}, isNameStart c = true → c ≠ '+' ∧ c ≠ '-' ∧ c ≠ '.' := by
    intro c hc
    refine ⟨?_, ?_, ?_⟩ <;> rintro rfl <;> exact absurd hc (by decide)
  unfold startsName at h
  split at h
  · rename_i c tail
    rcases Bool.or_eq_true_iff.1 h with hc | hc
    · exact startsNumber_dash (not_isDigit_of_nameStart hc) (hletter hc).2.2
    · rw [eq_of_beq hc]
      rfl
  · obtain ⟨hplus, hminus, hpoint⟩ := hletter h
    apply startsNumber_of_head
    rw [not_isDigit_of_nameStart h]
    simp [hplus, hminus, hpoint]
  · cases h

lemma startsName_cons {c : Char} (h : c ≠ '-') (cs : List Char) :
    startsName (c :: cs) = isNameStart c := by
  unfold startsName
  split <;> simp_all

lemma startsName_append {name : List Char} (h : startsName name = true) (rest : List Char) :
    startsName (name ++ rest) = true := by
  cases name with
  | nil => cases h
  | cons c cs =>
    by_cases hdash : c = '-'
    · subst hdash
      cases cs with
      | nil => cases h
      | cons d ds => exact h
    · rw [List.cons_append, startsName_cons hdash]
      rwa [startsName_cons hdash] at h

lemma next?_of_startsName {cs : List Char} (hblank : ∀ c ∈ cs.head?, Text.isBlank c = false)
    (h : startsName cs = true) : next? cs = (readNamed cs).map some := by
  cases cs with
  | nil => cases h
  | cons c cs =>
    rw [next?_of_not_mark (not_mark_of_nameStart (hblank c rfl) (head_of_startsName h)),
      if_neg (by simp [not_startsNumber_of_startsName h]), if_pos h]

lemma readNamed_open {cs name inner : List Char} (h : nameSpan cs = (name, '(' :: inner)) :
    readNamed cs =
      if Text.equalsIgnoringCase name ['u', 'r', 'l'] && !quoteAhead inner then
        match urlBody? (inner.dropWhile Text.isBlank) with
        | some (raw, rest) => .ok (.url (Text.trimEnd raw), rest)
        | none => .error (.unclosedUrl (name ++ ['(']))
      else .ok (.function name, inner) := by
  unfold readNamed
  rw [h]
  rfl

section

variable {name : List Char} (hblank : ∀ c ∈ name.head?, Text.isBlank c = false)
  (hstart : startsName name = true)

include hblank hstart

lemma next?_name (rest : List Char) :
    next? (name ++ rest) = (readNamed (name ++ rest)).map some := by
  refine next?_of_startsName ?_ (startsName_append hstart rest)
  cases name with
  | nil => cases hstart
  | cons c cs => exact hblank

lemma reads_ident {rest : List Char} (hrun : NameRun rest name) (hopen : rest.head? ≠ some '(') :
    Reads (.ident name) rest := by
  unfold Reads
  rw [spelling, next?_name hblank hstart, readNamed, nameSpan_of_nameRun hrun]
  dsimp only
  split
  · exact (hopen rfl).elim
  · rfl

lemma reads_function {rest : List Char} (hrun : NameRun ('(' :: rest) name)
    (hurl : Text.equalsIgnoringCase name ['u', 'r', 'l'] = true → quoteAhead rest = true) :
    Reads (.function name) rest := by
  have hfunction : ¬(Text.equalsIgnoringCase name ['u', 'r', 'l'] && !quoteAhead rest) = true := by
    rw [Bool.and_eq_true]
    rintro ⟨hname, hquote⟩
    rw [hurl hname] at hquote
    cases hquote
  unfold Reads
  rw [spelling, List.append_assoc, List.singleton_append, next?_name hblank hstart,
    readNamed_open (nameSpan_of_nameRun hrun), if_neg hfunction]
  rfl

end

/-- An address begins with no blank and no quote, and ends with no blank and no stray backslash. -/
lemma reads_url {raw rest : List Char}
    (hhead : ∀ c ∈ raw.head?, Text.isBlank c = false ∧ c ≠ '"' ∧ c ≠ '\'')
    (htrim : Text.trimEnd raw = raw) (hbody : urlBody? (raw ++ ')' :: rest) = some (raw, rest)) :
    Reads (.url raw) rest := by
  have hfirst : ∀ c ∈ (raw ++ ')' :: rest).head?, Text.isBlank c = false ∧ c ≠ '"' ∧ c ≠ '\'' := by
    cases raw with
    | nil =>
      intro c hc
      obtain rfl : ')' = c := by simpa using hc
      decide
    | cons c cs => exact hhead
  have hdrop : (raw ++ ')' :: rest).dropWhile Text.isBlank = raw ++ ')' :: rest := by
    cases hcs : raw ++ ')' :: rest with
    | nil => rfl
    | cons c cs =>
      have hc := (hfirst c (by simp [hcs])).1
      rw [List.dropWhile_cons_of_neg (by simp [hc])]
  have hquote : quoteAhead (raw ++ ')' :: rest) = false := by
    unfold quoteAhead
    rw [hdrop]
    cases hcs : raw ++ ')' :: rest with
    | nil => rfl
    | cons c cs =>
      have hc := (hfirst c (by simp [hcs])).2
      simp [hc.1, hc.2]
  have hspan : nameSpan (['u', 'r', 'l'] ++ '(' :: (raw ++ ')' :: rest)) =
      (['u', 'r', 'l'], '(' :: (raw ++ ')' :: rest)) := rfl
  have hspelling : (Token.url raw).spelling ++ rest =
      ['u', 'r', 'l'] ++ '(' :: (raw ++ ')' :: rest) := by
    simp [spelling]
  have hblank : ∀ c ∈ ['u', 'r', 'l'].head?, Text.isBlank c = false := by
    intro c hc
    obtain rfl := Option.some.inj hc
    rfl
  unfold Reads
  rw [hspelling, next?_name hblank (by decide), readNamed_open hspan, hquote, if_pos (by decide),
    hdrop, hbody]
  dsimp only
  rw [htrim]
  rfl

lemma reads_delim {c : Char} (hmark : ¬IsMark c) {rest : List Char}
    (hnumber : startsNumber (c :: rest) = false) (hname : startsName (c :: rest) = false) :
    Reads (.delim c) rest := by
  unfold Reads
  rw [spelling, List.singleton_append, next?_of_not_mark hmark, if_neg (by simp [hnumber]),
    if_neg (by simp [hname])]

end AtomicCss.Proofs
