import AtomicCss.Proofs.Exposure
import AtomicCss.Proofs.Separation

/-!
# What tokens expose

A token that is no single character exposes nothing, neither in the text that it is read from nor in
what is written for it. Whether a parenthesis behind it opens an address is the same in both, as the
name that stands before the parenthesis is no other one.
-/

namespace AtomicCss.Proofs

open Token Text Value Spot

section

variable {run text more found name blanks rest cs : List Char} {c quote : Char} {t : Token}

/-- A name that is not that of an address, and does not go on to be one. -/
def Spoiled (run : List Char) : Prop :=
  ∃ c ∈ run, c.toLower ∉ ['u', 'r', 'l']

lemma Spoiled.append (h : Spoiled run) (more : List Char) : Spoiled (run ++ more) := by
  obtain ⟨c, hc, hlower⟩ := h
  exact ⟨c, List.mem_append_left _ hc, hlower⟩

lemma spoiled_concat (h : c.toLower ∉ ['u', 'r', 'l']) (run : List Char) : Spoiled (run ++ [c]) :=
  ⟨c, by simp, h⟩

lemma Spoiled.not_isUrlName (h : Spoiled run) : isUrlName run = false := by
  obtain ⟨c, hc, hlower⟩ := h
  by_contra hurl
  rw [Bool.not_eq_false] at hurl
  have hname : lower run = ['u', 'r', 'l'] := eq_of_beq hurl
  exact hlower (hname ▸ List.mem_map_of_mem hc)

/-- A text that exposes nothing and leaves a spoiled name. -/
def Spoils (text : List Char) : Prop :=
  ∀ run, ∃ run', Spoiled run' ∧ Passes (free run) text [] (free run')

lemma Spoils.append_name (h : Spoils text) (hname : IsName name) : Spoils (text ++ name) := by
  intro run
  obtain ⟨run', hspoiled, hpasses⟩ := h run
  have hne : run' ≠ [] := by
    rintro rfl
    obtain ⟨c, hc, _⟩ := hspoiled
    cases hc
  exact ⟨run' ++ name, hspoiled.append name, hpasses.append (passes_name hname (.inl hne))⟩

lemma spoils_name (hname : IsName name) (hhead : ∀ c ∈ name.head?, isBlank c = false)
    (h : Spoiled name) : Spoils name := by
  intro run
  obtain ⟨c, hc, hlower⟩ := h
  exact ⟨run ++ name, ⟨c, List.mem_append_right _ hc, hlower⟩, passes_name hname (.inr hhead)⟩

lemma isBlank_of_numeric (h : IsNumeric c) : isBlank c = false :=
  Bool.eq_false_iff.2 fun hblank => not_mark_of_plain (plain_of_numeric h) (.inl hblank)

lemma isNameChar_of_isDigit (h : c.isDigit = true) : isNameChar c = true := by
  simp [isNameChar, h]

lemma isIdle_of_numeric (h : IsNumeric c) : IsIdle c := by
  intro hmem
  simp only [List.mem_cons, List.not_mem_nil, or_false] at hmem
  rcases hmem with rfl | rfl | rfl | rfl | rfl | rfl | rfl <;> revert h <;> unfold IsNumeric <;>
    decide

lemma exists_concat_digit {digits : List Char} (h : IsRun digits) (hne : digits ≠ [])
    (front : List Char) : ∃ before d, front ++ digits = before ++ [d] ∧ d.isDigit = true :=
  ⟨front ++ digits.dropLast, digits.getLast hne,
    by rw [List.append_assoc, List.dropLast_append_getLast], h _ (List.getLast_mem hne)⟩

/-- The text of a number ends in a digit. -/
lemma NumberParts.ends_in_digit (p : NumberParts) :
    ∃ front d, p.text = front ++ [d] ∧ d.isDigit = true := by
  unfold NumberParts.text
  rcases p.exponent_ok with hexponent | ⟨e, sign, digits, _, _, hrun, hne, hexponent⟩
  · rw [hexponent, List.append_nil]
    by_cases hfraction : p.fraction = []
    · rw [hfraction, pointed_nil, List.append_nil]
      exact exists_concat_digit p.whole_run (p.some_digits.resolve_right (· hfraction)) _
    · rw [pointed_of_ne_nil hfraction, List.append_cons]
      exact exists_concat_digit p.fraction_run hfraction _
  · rw [hexponent, List.append_cons, ← List.append_assoc]
    exact exists_concat_digit hrun hne _

/-- A number spoils the name before it, as it ends in a digit. -/
lemma NumberParts.spoils (p : NumberParts) : Spoils p.text := by
  intro run
  obtain ⟨front, d, htext, hd⟩ := p.ends_in_digit
  have hnumeric := p.numeric
  rw [htext] at hnumeric ⊢
  obtain ⟨run', hfront⟩ := passes_idle
    (fun c hc => isIdle_of_numeric (hnumeric c (List.mem_append_left _ hc))) run
  have hchar := isNameChar_of_isDigit hd
  have hdigit : Passes (free run') [d] [] (free (run' ++ [d])) :=
    (Passes.nil _).cons
      (next_free_nameChar hchar (.inr (isBlank_of_numeric (.inl hd))))
      (by simp [not_endsDeclaration_of_isNameChar hchar])
  have hletter : d.toLower ∉ ['u', 'r', 'l'] := by
    rw [toLower_of_digit (.inl hd)]
    intro hmem
    simp only [List.mem_cons, List.not_mem_nil, or_false] at hmem
    rcases hmem with rfl | rfl | rfl <;> cases hd
  exact ⟨_, spoiled_concat hletter run', hfront.append hdigit⟩

/-- What a token exposes: the character itself, if it ends a declaration. -/
def exposedIn : Token → List Char
  | .delim c => if endsDeclaration c then [c] else []
  | _ => []

/-- The names that a token may leave before the cursor. -/
def Leaves : Token → List Char → Prop
  | .ident _, _ => True
  | .hash _, run | .number _, run | .dimension .., run => Spoiled run
  | .delim c, run => if c = '-' then Spoiled run else run = []
  | _, run => run = []

/-- The names behind which a token stands as it does behind none. -/
def Accepts (run : List Char) : Token → Prop
  | .url _ => run = []
  | .function _ | .leftParen => run = [] ∨ Spoiled run
  | _ => True

lemma accepts_nil (t : Token) : Accepts [] t := by
  cases t with
  | url | function | leftParen => simp [Accepts]
  | _ => trivial

/-- The texts that stand for a token but for a blank: those that it is read from, and those that are
written for it. -/
inductive Renders : Token → List Char → Prop
  | ident (name : List Char) {text : List Char} : IsName text →
    (∀ c ∈ text.head?, isBlank c = false) → Renders (.ident name) text
  | function {name : List Char} : IsName name → (∀ c ∈ name.head?, isBlank c = false) →
    Renders (.function name) (name ++ ['('])
  | hash {name : List Char} : IsName name → Renders (.hash name) ('#' :: name)
  | string (quote : Char) (raw : List Char) {quote' : Char} {raw' : List Char} :
    quote' = '"' ∨ quote' = '\'' → BodyText quote' raw' →
    Renders (.string quote raw) (quote' :: (raw' ++ [quote']))
  | url (raw : List Char) {name blanks body : List Char} : IsName name →
    (∀ c ∈ name.head?, isBlank c = false) → isUrlName name = true →
    (∀ c ∈ blanks, isBlank c = true) → BodyText ')' body →
    (∀ c ∈ body.head?, isBlank c = false ∧ c ≠ '"' ∧ c ≠ '\'') →
    Renders (.url raw) (name ++ '(' :: (blanks ++ (body ++ [')'])))
  | number (number : List Char) {text : List Char} : Spoils text → Renders (.number number) text
  | percentage (number : List Char) {text : List Char} : Spoils text →
    Renders (.percentage number) (text ++ ['%'])
  | dimension (number unit : List Char) {text : List Char} : Spoils text →
    Renders (.dimension number unit) text
  | comma : Renders .comma [',']
  | leftParen : Renders .leftParen ['(']
  | rightParen : Renders .rightParen [')']
  | delim {c : Char} : c = '-' ∨ isNameChar c = false → c ∉ ['\\', '"', '\'', '(', '#'] →
    Renders (.delim c) [c]

lemma next_leftParen (run : List Char) :
    (free run).next '(' = if isUrlName run then urlHead else free [] := by
  simp [next]

lemma passes_single (h : (free run).next c = free name) :
    Passes (free run) [c] (exposedIn (.delim c)) (free name) where
  exposes := by simp [exposed, exposedIn, isFree]
  ends := h

/-- In front of a string it makes no difference whether an address may begin. -/
lemma passes_quoteAhead {q : Spot} (hquote : quoteAhead text = true)
    (h : Passes (free []) text found q) : Passes urlHead text found q := by
  induction text with
  | nil => cases hquote
  | cons c cs ih =>
    by_cases hblank : isBlank c = true
    · have hfirst : Passes (free []) [c] [] (free []) :=
        passes_blanks (by simpa using hblank) (by simp) (.inl rfl)
      have hrest : Passes urlHead cs found q := by
        refine ih ?_ (h.of_cons hfirst)
        rwa [quoteAhead, List.dropWhile_cons_of_pos hblank] at hquote
      exact hrest.cons (by simp [next, hblank]) rfl
    · rw [Bool.not_eq_true] at hblank
      rw [quoteAhead_of_not_blank hblank] at hquote
      have hc : c = '"' ∨ c = '\'' := by simpa using hquote
      have hbackslash : c ≠ '\\' := by rcases hc with rfl | rfl <;> decide
      have hfirst : Passes (free []) [c] [] (quoted c) := by
        refine (Passes.nil _).cons (by simp [next, hbackslash, hc]) ?_
        rcases hc with rfl | rfl <;> rfl
      exact (h.of_cons hfirst).cons (by simp [next, hblank, hc]) rfl

/-- The way over a token leads to a name that it may leave, and on from there. -/
lemma passes_renders (h : Renders t text) (hrun : Accepts run t)
    (hquote : ∀ name, t = .function name → isUrlName name = true → quoteAhead rest = true) :
    ∃ run', Leaves t run' ∧ ∀ others q, Passes (free run') rest others q →
      Passes (free run) (text ++ rest) (exposedIn t ++ others) q := by
  have hsteps : ∀ {run' : List Char}, Passes (free run) text (exposedIn t) (free run') →
      ∀ others q, Passes (free run') rest others q →
        Passes (free run) (text ++ rest) (exposedIn t ++ others) q :=
    fun htext _ _ hrest => htext.append hrest
  cases h with
  | ident name hname hhead => exact ⟨_, trivial, hsteps (passes_name hname (.inr hhead))⟩
  | @function name hname hhead =>
    have hpasses : Passes (free run) name [] (free (run ++ name)) := passes_name hname (.inr hhead)
    refine ⟨[], rfl, fun others q hrest => ?_⟩
    rw [List.append_assoc]
    refine hpasses.append ?_
    by_cases hurl : isUrlName (run ++ name) = true
    · obtain rfl : run = [] := hrun.resolve_right fun hspoiled => by
        rw [(hspoiled.append name).not_isUrlName] at hurl
        cases hurl
      exact (passes_quoteAhead (hquote name rfl hurl) hrest).cons
        ((next_leftParen _).trans (if_pos hurl)) rfl
    · exact hrest.cons ((next_leftParen _).trans (if_neg hurl)) rfl
  | @hash name hname =>
    have hhash : Spoiled (run ++ ['#']) := spoiled_concat (by decide) run
    exact ⟨_, hhash.append name, hsteps
      ((passes_name hname (.inl (by simp))).cons (by simp [next]) rfl)⟩
  | string quote raw hmark hbody =>
    exact ⟨[], rfl, hsteps (passes_string hmark hbody (.inr ⟨run, rfl⟩))⟩
  | @url raw name blanks body hname hhead hurl hblanks hbody hfirst =>
    obtain rfl : run = [] := hrun
    have haddress := (passes_urlHead_blanks hblanks).append (passes_address hbody hfirst)
    have hopen := haddress.cons ((next_leftParen name).trans (if_pos hurl)) rfl
    exact ⟨[], rfl, hsteps ((passes_name hname (.inr hhead)).append hopen)⟩
  | number number hspoils =>
    obtain ⟨run', hspoiled, hpasses⟩ := hspoils run
    exact ⟨run', hspoiled, hsteps hpasses⟩
  | percentage number hspoils =>
    obtain ⟨run', _, hpasses⟩ := hspoils run
    have hpercent : Passes (free run') ['%'] [] (free []) := (Passes.nil _).cons rfl rfl
    exact ⟨[], rfl, hsteps (hpasses.append hpercent)⟩
  | dimension number unit hspoils =>
    obtain ⟨run', hspoiled, hpasses⟩ := hspoils run
    exact ⟨run', hspoiled, hsteps hpasses⟩
  | comma => exact ⟨[], rfl, hsteps ((Passes.nil _).cons rfl rfl)⟩
  | leftParen =>
    have hurl : isUrlName run = false := by
      rcases hrun with rfl | hspoiled
      · rfl
      · exact hspoiled.not_isUrlName
    have hnext : (free run).next '(' = free [] := by
      rw [next_leftParen, hurl]
      rfl
    exact ⟨[], rfl, hsteps ((Passes.nil _).cons hnext rfl)⟩
  | rightParen => exact ⟨[], rfl, hsteps ((Passes.nil _).cons rfl rfl)⟩
  | @delim c hchar hspecial =>
    simp only [List.mem_cons, List.not_mem_nil, or_false, not_or] at hspecial
    obtain ⟨hbackslash, hdouble, hsingle, hopen, hhash⟩ := hspecial
    by_cases hdash : c = '-'
    · subst hdash
      have hnext : (free run).next '-' = free (run ++ ['-']) :=
        next_free_nameChar rfl (.inr rfl)
      exact ⟨_, spoiled_concat (by decide) run, hsteps (passes_single hnext)⟩
    · have hname : isNameChar c = false := hchar.resolve_left hdash
      have hnext : (free run).next c = free [] := by
        simp [next, hbackslash, hdouble, hsingle, hopen, hhash, hname]
      exact ⟨[], by simp [Leaves, hdash], hsteps (passes_single hnext)⟩

lemma head_space : ∀ c ∈ [' '].head?, isNameChar c = false ∧ c ≠ '\\' := by
  simp only [List.head?_cons, Option.mem_def, Option.some.injEq, forall_eq']
  decide

lemma isName_of_chars (h : ∀ c ∈ name, isNameChar c = true) : IsName name :=
  nameRun_of_chars h head_space

/-- A name in front of a text ends in no stray backslash. -/
lemma isName_of_ne_nil (h : NameRun rest name) (hne : rest ≠ []) : IsName name :=
  h.behind (fun hnil => (hne hnil).elim) head_space

/-- A token of which every backslash escapes something is read as it is spelled. -/
lemma renders_spelling (h : Taken cs t rest) (hblank : ∀ c ∈ cs.head?, isBlank c = false)
    (hend : endsInEscape (ownText t) = false) : Renders t t.spelling := by
  have hname : ∀ c ∈ (nameSpan cs).1.head?, isBlank c = false := fun c hc =>
    hblank c (nameSpan_append cs ▸ List.mem_head?_append_of_mem_head? hc)
  have hspoils : startsNumber cs = true → Spoils (numberSpan cs).1 := by
    intro hstart
    obtain ⟨p, hp, _⟩ := parts_of_startsNumber hstart
    exact hp ▸ p.spoils
  cases h with
  | whitespace _ hc =>
    rw [hblank _ rfl] at hc
    cases hc
  | comma => exact .comma
  | leftParen => exact .leftParen
  | rightParen => exact .rightParen
  | string hquote hbody => exact .string _ _ hquote (bodyText_of_stringBody? hbody)
  | hash cs => exact .hash (isName_of_nameRun (nameRun_nameSpan cs) hend)
  | number hstart => exact .number _ (hspoils hstart)
  | percentage hstart => exact .percentage _ (hspoils hstart)
  | dimension hstart =>
    refine .dimension _ _ ((hspoils hstart).append_name ?_)
    exact isName_of_nameRun (nameRun_nameSpan _) hend
  | @url _ inner body _ hstart hurl hopen hquote hbody =>
    obtain ⟨blanks, htrim, _⟩ := trimEnd_append body
    have hwhole := bodyText_of_stringBody? hbody
    rw [htrim] at hwhole
    have hname : IsName ['u', 'r', 'l'] := isName_of_chars (by decide)
    exact .url _ hname (by simp [isBlank]) rfl (List.forall_mem_nil _) (hwhole.of_append hend)
      (head_urlBody hquote hbody)
  | function hstart hopen =>
    refine .function (isName_of_ne_nil (nameRun_nameSpan cs) ?_) hname
    rw [hopen]
    exact List.cons_ne_nil _ _
  | ident => exact .ident _ (isName_of_nameRun (nameRun_nameSpan cs) hend) hname
  | @delim c rest hc hmem hnumber hstart =>
    have hbackslash : c ≠ '\\' := by
      rintro rfl
      cases hend
    simp only [List.mem_cons, List.not_mem_nil, or_false, not_or] at hmem
    refine .delim ?_ (by simp [hbackslash, hmem])
    by_cases hdash : c = '-'
    · exact .inl hdash
    · refine .inr ?_
      rw [startsName_cons hdash] at hstart
      have hdigit : c.isDigit = false := by
        by_contra hdigit
        rw [Bool.not_eq_false] at hdigit
        have hnumber' := startsNumber_of_digit (.inl rfl) hdigit rest
        rw [List.nil_append, hnumber] at hnumber'
        cases hnumber'
      have hstart' : isNameStart c = false := hstart
      simp [isNameChar, hstart', hdigit, hdash]

lemma exists_renders_url {raw : List Char} (h : Taken cs (.url raw) rest)
    (hblank : ∀ c ∈ cs.head?, isBlank c = false) :
    ∃ text, cs = text ++ rest ∧ Renders (.url raw) text := by
  cases h with
  | @url _ inner body _ hstart hurl hopen hquote hbody =>
    have hinner : inner = inner.takeWhile isBlank ++ (body ++ ')' :: rest) := by
      rw [← stringBody?_append hbody, List.takeWhile_append_dropWhile]
    have hname : IsName (nameSpan cs).1 := by
      refine isName_of_ne_nil (nameRun_nameSpan cs) ?_
      rw [hopen]
      exact List.cons_ne_nil _ _
    have hfront : ∀ c ∈ inner.takeWhile isBlank, isBlank c = true := fun c hc =>
      List.all_eq_true.1 List.all_takeWhile c hc
    refine ⟨_, ?_, .url _ hname (fun c hc => ?_) hurl hfront (bodyText_of_stringBody? hbody)
      (head_of_urlBody? hquote hbody)⟩
    · conv_lhs => rw [← nameSpan_append cs, hopen, hinner]
      simp
    · exact hblank c (nameSpan_append cs ▸ List.mem_head?_append_of_mem_head? hc)

/-- A token of which every backslash escapes something is taken off a text that stands for it. -/
lemma exists_renders (h : Taken cs t rest) (hblank : ∀ c ∈ cs.head?, isBlank c = false)
    (hend : endsInEscape (ownText t) = false) : ∃ text, cs = text ++ rest ∧ Renders t text := by
  have ht : t ≠ .whitespace := by
    rintro rfl
    cases h with
    | whitespace _ hc =>
      rw [hblank _ rfl] at hc
      cases hc
  rcases spelling_of_taken h ht with hspelling | ⟨raw, rfl⟩
  · exact ⟨t.spelling, hspelling.symm, renders_spelling h hblank hend⟩
  · exact exists_renders_url h hblank

lemma spoils_dimension {p : NumberParts} {unit : List Char} {u : Token}
    (hshape : DimensionShape p unit u) (hunit : IsName unit) : Spoils u.spelling := by
  have hinfinite : ∀ name ∈ [['i', 'n', 'f', 's'], ['-', 'i', 'n', 'f', 's']],
      (∀ c ∈ name, isNameChar c = true) ∧ (∀ c ∈ name, isBlank c = false) ∧ 'n' ∈ name := by
    decide
  cases hshape with
  | kept => exact p.canonical.spoils.append_name hunit
  | @renamed q u hread hu => exact q.spoils.append_name (isName_of_chars (forall_units u hu).2)
  | zero => exact NumberParts.zero.spoils
  | infinite hmem =>
    obtain ⟨hchars, hblank, hn⟩ := hinfinite _ hmem
    exact spoils_name (isName_of_chars hchars) (fun c hc => hblank c (List.mem_of_mem_head? hc))
      ⟨'n', hn, by decide⟩

/-- What is written for such a token stands for it, too. -/
lemma renders_tokenText (h : Taken cs t rest) (hblank : ∀ c ∈ cs.head?, isBlank c = false)
    (hend : endsInEscape (ownText t) = false) (property : String) (verbatim : Bool) :
    Renders t (tokenText property verbatim t) := by
  by_cases hsame : tokenText property verbatim t = t.spelling
  · exact hsame ▸ renders_spelling h hblank hend
  · have hchanged := rewritten_of_changed hsame
    rw [← spelling_rewritten, hchanged]
    have hparts := hasParts_of_taken h
    cases h with
    | ident =>
      refine .ident _ (NameRun.dashCaseText (isName_of_nameRun (nameRun_nameSpan cs) hend)) ?_
      intro c hc
      obtain ⟨d, hd, rfl | ⟨_, _, hc⟩⟩ := head_dashCaseText hc
      · exact hblank d (nameSpan_append cs ▸ List.mem_head?_append_of_mem_head? hd)
      · exact hc
    | string => exact .string _ _ (.inl rfl) .nil
    | number =>
      obtain ⟨p, hp, _⟩ := hparts _ [] (.inl rfl)
      rw [hp, reworded, p.canonical_text]
      exact .number _ p.canonical.spoils
    | percentage =>
      obtain ⟨p, hp, _⟩ := hparts _ [] (.inr (.inl rfl))
      rw [hp, reworded, p.canonical_text]
      exact .percentage _ p.canonical.spoils
    | dimension =>
      obtain ⟨p, hp, _⟩ := hparts _ _ (.inr (.inr rfl))
      rw [hp, reworded]
      exact .dimension _ _ (spoils_dimension (dimensionToken_shape p _)
        (isName_of_nameRun (nameRun_nameSpan _) hend))
    | _ => exact (hsame rfl).elim

end

end AtomicCss.Proofs
