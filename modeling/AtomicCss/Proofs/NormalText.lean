import AtomicCss.Proofs.NumberText
import AtomicCss.Value.Normalize

/-!
# Normalized values are sealed

Normalization writes a value token by token, with a space where blanks stood, but never behind a
comma. So a normalized value is sealed as long as its tokens are contained: an address without
quotes must not open a quote or a parenthesis, and no backslash may stand on its own.
-/

namespace AtomicCss.Proofs

open Token Cursor Value

/-- Quiet characters cannot be told apart. -/
lemma step?_quiet_eq {c d : Char} (hc : IsQuiet c) (hd : IsQuiet d) (r : Cursor) :
    r.step? c = r.step? d := by
  have hoff : ∀ {e : Char} (q : Quote), IsQuiet e → e ≠ q.char := by
    intro e q he
    cases q
    · exact he.2.2.1
    · exact he.2.1
  obtain ⟨depth, mode⟩ := r
  cases mode with
  | free => exact (outside?_quiet hc depth).trans (outside?_quiet hd depth).symm
  | comma =>
    simp only [step?, hc.2.2.2.2.2.2, hd.2.2.2.2.2.2, if_false]
    exact (outside?_quiet hc depth).trans (outside?_quiet hd depth).symm
  | quoted q => simp only [step?, hc.1, hd.1, hoff q hc, hoff q hd, if_false]
  | escaped quote => cases quote <;> rfl

/-- Two quiet characters lead as far as one. -/
lemma step?_quiet_twice {c d : Char} (hc : IsQuiet c) (hd : IsQuiet d) (r : Cursor) :
    ((r.step? c).bind fun s => s.step? d) = r.step? c := by
  have hfree : ∀ depth, (⟨depth, .free⟩ : Cursor).step? d = some ⟨depth, .free⟩ := fun depth =>
    outside?_quiet hd depth
  have hquoted : ∀ (e : Char) depth q, IsQuiet e →
      (⟨depth, .quoted q⟩ : Cursor).step? e = some ⟨depth, .quoted q⟩ := by
    intro e depth q he
    have hoff : e ≠ q.char := by
      cases q
      · exact he.2.2.1
      · exact he.2.1
    simp only [step?, he.1, hoff, if_false]
  obtain ⟨depth, mode⟩ := r
  cases mode with
  | free =>
    change ((outside? depth c).bind _) = outside? depth c
    rw [outside?_quiet hc]
    exact hfree depth
  | comma =>
    simp only [step?, hc.2.2.2.2.2.2, if_false]
    rw [outside?_quiet hc]
    exact hfree depth
  | quoted q =>
    rw [hquoted c depth q hc]
    exact hquoted d depth q hd
  | escaped quote =>
    cases quote with
    | none => exact hfree depth
    | some q => exact hquoted d depth q hd

lemma plain_toLower {c : Char} (h : c.isUpper = true) : IsPlain c.toLower :=
  forall_toLower (by decide) h

/-- The dashed spelling of a name is read like the name. -/
lemma over?_dashes (first : Bool) (name : List Char) (r : Cursor) :
    r.over? (Property.dashes first name) = r.over? name := by
  have hdash : IsQuiet '-' := by decide
  induction name generalizing first r with
  | nil => rfl
  | cons c cs ih =>
    unfold Property.dashes
    by_cases hline : c = '_'
    · rw [if_pos hline, over?_cons, over?_cons,
        step?_quiet_eq (c := '-') (d := c) hdash (hline ▸ by decide)]
      exact congrArg _ (funext fun s => ih false s)
    rw [if_neg hline]
    by_cases hupper : c.isUpper = true
    · have hc := quiet_of_plain (plain_of_isUpper hupper)
      have hl := quiet_of_plain (plain_toLower hupper)
      rw [if_pos hupper]
      cases first with
      | true =>
        rw [if_pos rfl, over?_cons, over?_cons, step?_quiet_eq hl hc]
        exact congrArg _ (funext fun s => ih false s)
      | false =>
        -- the dash and the small letter lead as far as the capital
        rw [if_neg Bool.false_ne_true, over?_cons, over?_cons,
          ← step?_quiet_twice hc hl, ← step?_quiet_eq hdash hc, Option.bind_assoc]
        refine congrArg _ (funext fun s => ?_)
        rw [over?_cons]
        exact congrArg _ (funext fun u => ih false u)
    · rw [if_neg hupper, over?_cons, over?_cons]
      exact congrArg _ (funext fun s => ih false s)

lemma level_dashCaseText {c : Char} {cs : List Char} (h : Balanced (c :: cs)) (hc : c ≠ ' ') :
    Level (Property.dashCaseText (c :: cs)) := by
  have hname := level_of_balanced h hc
  have hdashes : Level (Property.dashes true (c :: cs)) := by
    unfold Level
    rw [over?_dashes]
    exact hname
  unfold Property.dashCaseText
  split
  · exact hname
  · dsimp only
    split
    · have hdash : Level ['-'] := rfl
      exact hdash.append hdashes
    · exact hdashes

lemma level_of_plain {text : List Char} (hne : text ≠ []) (h : ∀ c ∈ text, IsPlain c) :
    Level text :=
  level_of_quiet hne fun c hc => quiet_of_plain (h c hc)

/-- A number that keeps its digits or gets canonical ones. -/
lemma level_number {text : List Char} (h : text ≠ [] ∧ ∀ c ∈ text, IsNumeric c) (verbatim : Bool) :
    Level (if verbatim then text else Decimal.canonical text) := by
  split
  · exact level_of_plain h.1 fun c hc => plain_of_numeric (h.2 c hc)
  · exact level_of_plain (canonical_ne_nil h.1) fun c hc =>
      plain_of_numeric (numeric_canonical h.2 c hc)

lemma plain_canonical {text : List Char} (h : ∀ c ∈ text, IsPlain c) :
    ∀ c ∈ Decimal.canonical text, IsPlain c := by
  intro c hc
  rcases mem_canonical hc with hc | rfl | rfl | rfl
  · exact h c hc
  all_goals decide

/-- Unless a dimension keeps its unit, its canonical form is plain. -/
lemma canonicalDimension_plain {text : List Char} (h : ∀ c ∈ text, IsNumeric c)
    (unit : List Char) :
    canonicalDimension text unit = Decimal.canonical text ++ unit ∨
      canonicalDimension text unit ≠ [] ∧ ∀ c ∈ canonicalDimension text unit, IsPlain c := by
  have hzeros : ∀ zero ∈ [['0', 's'], ['0', 'd', 'e', 'g'], ['0']],
      zero ≠ [] ∧ ∀ c ∈ zero, IsPlain c := by decide
  have hsuffixed : ∀ number unit, (∀ c ∈ number, IsPlain c) →
      unit ∈ [['s'], ['m', 's']] → Decimal.canonical number ++ unit ≠ [] ∧
        ∀ c ∈ Decimal.canonical number ++ unit, IsPlain c := by
    intro number unit hnumber hunit
    have hunits : ∀ unit ∈ [['s'], ['m', 's']], unit ≠ [] ∧ ∀ c ∈ unit, IsPlain c := by decide
    refine ⟨List.append_ne_nil_of_right_ne_nil _ (hunits unit hunit).1, ?_⟩
    intro c hc
    rcases List.mem_append.1 hc with hc | hc
    · exact plain_canonical hnumber c hc
    · exact (hunits unit hunit).2 c hc
  unfold canonicalDimension
  dsimp only
  split
  · refine .inr ?_
    split
    · exact hzeros _ (by decide)
    · split
      · exact hsuffixed _ _ (fun c hc => mem_format hc) (by decide)
      · exact hsuffixed _ _ (fun c hc => plain_of_numeric (h c hc)) (by decide)
  · split
    · exact .inr (hzeros _ (by decide))
    · split
      · exact .inr (hzeros _ (by decide))
      · split
        · exact .inr (hzeros _ (by decide))
        · exact .inl rfl

/-- The open parentheses behind a token. -/
def depthBehind (depth : Nat) : Token → Nat
  | .function _ | .leftParen => depth + 1
  | .rightParen => depth - 1
  | _ => depth

/-- The cursor gets over a token, and only a comma leaves it behind a comma. -/
lemma over?_tokenText (property : String) (verbatim : Bool) {t : Token} (hf : Formed t)
    (hc : Contained t) (hblank : t ≠ .whitespace) {r : Cursor} (hr : r.Ready)
    (hclose : t = .rightParen → r.depth ≠ 0) :
    ∃ s : Cursor, r.over? (tokenText property verbatim t) = some s ∧ s.Ready ∧
      s.depth = depthBehind r.depth t ∧ (s.mode = .comma → t = .comma) := by
  have hlevel : ∀ {text : List Char}, Level text →
      ∃ s : Cursor, r.over? text = some s ∧ s.Ready ∧ s.depth = r.depth ∧
        (s.mode = .comma → t = .comma) := fun h =>
    ⟨⟨r.depth, .free⟩, h.over? hr, .inl rfl, rfl, nofun⟩
  have hopen : r.over? ['('] = some ⟨r.depth + 1, .free⟩ := by
    obtain ⟨depth, mode⟩ := r
    rcases hr with hmode | heq
    · obtain rfl : mode = .free := hmode
      rfl
    · cases heq
      rfl
  cases t with
  | ident name =>
    obtain ⟨c, cs, rfl, hspace⟩ := hf
    apply hlevel
    rw [tokenText]
    split
    · exact level_dashCaseText hc hspace
    · exact level_of_balanced hc hspace
  | function name =>
    obtain ⟨c, cs, rfl, hspace⟩ := hf
    refine ⟨⟨r.depth + 1, .free⟩, ?_, .inl rfl, rfl, nofun⟩
    have hname : Level (c :: cs) := level_of_balanced hc hspace
    change r.over? ((c :: cs) ++ ['(']) = _
    rw [over?_append_of_eq (hname.over? hr)]
    rfl
  | hash name =>
    apply hlevel
    have hname : Balanced name := hc
    exact level_of_balanced (hname : Balanced ('#' :: name)) (by decide)
  | string quote raw =>
    apply hlevel
    rw [tokenText]
    split
    · rfl
    · exact hf
  | url raw =>
    refine ⟨⟨r.depth, .free⟩, ?_, .inl rfl, rfl, nofun⟩
    have hstart : Level ['u', 'r', 'l'] := rfl
    change r.over? (['u', 'r', 'l'] ++ ['('] ++ raw ++ [')']) = _
    rw [over?_append, over?_append, over?_append, hstart.over? hr, Option.bind_some]
    change (((some (⟨r.depth + 1, .free⟩ : Cursor)).bind fun u => u.over? raw).bind _) = _
    rw [Option.bind_some, Enclosed.over? hc, Option.bind_some]
    rfl
  | number text =>
    apply hlevel
    exact level_number hf verbatim
  | percentage text =>
    apply hlevel
    exact (level_number hf verbatim).append (t := ['%']) rfl
  | dimension text unit =>
    apply hlevel
    rw [tokenText]
    split
    · exact (level_of_plain hf.1 fun c hc => plain_of_numeric (hf.2 c hc)).append_balanced hc
    · rcases canonicalDimension_plain hf.2 unit with heq | ⟨hne, hplain⟩
      · rw [heq]
        exact (level_number hf false).append_balanced hc
      · exact level_of_plain hne hplain
  | whitespace => exact (hblank rfl).elim
  | comma =>
    obtain ⟨depth, mode⟩ := r
    rcases hr with hmode | heq
    · obtain rfl : mode = .free := hmode
      cases depth with
      | zero => exact ⟨⟨0, .comma⟩, rfl, .inr rfl, rfl, fun _ => rfl⟩
      | succ depth => exact ⟨⟨depth + 1, .free⟩, rfl, .inl rfl, rfl, nofun⟩
    · cases heq
      exact ⟨⟨0, .comma⟩, rfl, .inr rfl, rfl, fun _ => rfl⟩
  | leftParen => exact ⟨⟨r.depth + 1, .free⟩, hopen, .inl rfl, rfl, nofun⟩
  | rightParen =>
    obtain ⟨depth, mode⟩ := r
    have hdepth : depth ≠ 0 := hclose rfl
    rcases hr with hmode | heq
    · obtain rfl : mode = .free := hmode
      refine ⟨⟨depth - 1, .free⟩, ?_, .inl rfl, rfl, nofun⟩
      change (outside? depth ')').bind _ = _
      simp [outside?, hdepth]
    · cases heq
      exact (hdepth rfl).elim
  | delim c =>
    apply hlevel
    exact level_of_balanced hc hf

lemma openDepth_cons {depth final : Nat} {location : Location} {t : Token}
    {more : List (Location × Token)} (h : openDepth depth ((location, t) :: more) = .ok final) :
    (t = .rightParen → depth ≠ 0) ∧ openDepth (depthBehind depth t) more = .ok final := by
  cases t with
  | rightParen =>
    rw [openDepth] at h
    by_cases hdepth : depth = 0
    · rw [if_pos hdepth] at h
      cases h
    · rw [if_neg hdepth] at h
      exact ⟨fun _ => hdepth, h⟩
  | _ => exact ⟨nofun, h⟩

/-- What is written between a text and the token behind it. -/
def spacing (written : List Char) (pending : Bool) (t : Token) : List Char :=
  if pending && !needsNoSpace written t then [' '] else []

lemma writeTokens_cons {t : Token} (h : t ≠ .whitespace) (property : String) (written : List Char)
    (pending : Bool) (scopes : List Bool) (tokens : List Token) :
    writeTokens property written pending scopes (t :: tokens) =
      writeTokens property
        (written ++ spacing written pending t ++ tokenText property (scopes.any id) t) false
        (scopesAfter scopes t) tokens := by
  cases t with
  | whitespace => exact (h rfl).elim
  | _ => rfl

/-- Spaces are not written behind a comma. -/
lemma over?_spacing {written : List Char} {r : Cursor} (hr : r.Ready)
    (hcomma : r.mode = .comma → written.getLast? = some ',') (pending : Bool) (t : Token) :
    ∃ s : Cursor, r.over? (spacing written pending t) = some s ∧ s.Ready ∧ s.depth = r.depth := by
  unfold spacing
  split
  · rename_i hspace
    obtain ⟨depth, mode⟩ := r
    rcases hr with hmode | heq
    · obtain rfl : mode = .free := hmode
      exact ⟨⟨depth, .free⟩, rfl, .inl rfl, rfl⟩
    · cases heq
      have hlast := hcomma rfl
      simp [needsNoSpace, hlast] at hspace
  · exact ⟨r, rfl, hr, rfl⟩

/-- The cursor gets over all that is written for tokens, in step with their parentheses. -/
lemma over?_writeTokens (property : String) : ∀ (located : List (Location × Token))
    {written : List Char} {pending : Bool} {scopes : List Bool} {r : Cursor} {final : Nat},
    (∀ t ∈ located.map Prod.snd, Formed t ∧ Contained t) → start.over? written = some r →
    r.Ready → (r.mode = .comma → written.getLast? = some ',') →
    openDepth r.depth located = .ok final →
    ∃ s : Cursor, start.over? (writeTokens property written pending scopes
      (located.map Prod.snd)) = some s ∧ s.Ready ∧ s.depth = final := by
  intro located
  induction located with
  | nil =>
    intro written pending scopes r final _ hover hr _ hdepth
    cases hdepth
    exact ⟨r, hover, hr, rfl⟩
  | cons item more ih =>
    obtain ⟨location, t⟩ := item
    intro written pending scopes r final htokens hover hr hcomma hdepth
    obtain ⟨hclose, hbehind⟩ := openDepth_cons hdepth
    have hmore : ∀ t ∈ more.map Prod.snd, Formed t ∧ Contained t := fun t ht =>
      htokens t (List.mem_cons_of_mem _ ht)
    by_cases hblank : t = .whitespace
    · subst hblank
      exact ih hmore hover hr hcomma hbehind
    · obtain ⟨hf, hc⟩ := htokens t List.mem_cons_self
      obtain ⟨u, hu, hready, hsame⟩ := over?_spacing hr hcomma pending t
      obtain ⟨s, hs, hsready, hsdepth, hscomma⟩ :=
        over?_tokenText property (scopes.any id) hf hc hblank hready (hsame ▸ hclose)
      rw [List.map_cons, writeTokens_cons hblank]
      refine ih hmore ?_ hsready ?_ (hsdepth ▸ hsame ▸ hbehind)
      · rw [over?_append, over?_append_of_eq hover, hu, Option.bind_some, hs]
      · intro hmode
        obtain rfl := hscomma hmode
        exact List.getLast?_concat

lemma sealed_writeTokens {property : String} {body : List Char} {tokens : List Token}
    (h : tokenize body = .ok tokens) (hcontained : ∀ t ∈ tokens, Contained t) :
    Sealed (writeTokens property [] false [] tokens) := by
  have hformed := formed_of_tokenize h
  obtain ⟨located, rfl, hdepth, _⟩ := located_of_tokenize h
  obtain ⟨s, hs, hready, hzero⟩ := over?_writeTokens property located
    (fun t ht => ⟨hformed t ht, hcontained t ht⟩) (over?_nil start) (.inl rfl) nofun hdepth
  exact ⟨s, hready, hzero, hs⟩

/-- The text of a value without its `!important`. -/
def bodyOf (raw : List Char) : List Char :=
  (splitImportant (Text.trim raw)).1

/-- Whether a value is plain text that is quoted as a whole. -/
def IsPlainContent (property : String) (raw : List Char) : Prop :=
  (property == "content" && !isCssContent (bodyOf raw)) = true

/-- Outside strings, a contained text leaves nothing open. -/
def ContainedText (property : String) (raw : List Char) : Prop :=
  ¬IsPlainContent property raw →
    ∀ tokens, tokenize (bodyOf raw) = .ok tokens → ∀ t ∈ tokens, Contained t

/-- The two ways to write a value out. -/
lemma normalizeText_cases {property : String} {raw text : List Char}
    (h : normalizeText property raw = .ok text) : ∃ mark ∈ [importantMark, []],
      (IsPlainContent property raw ∧ text = quoted (bodyOf raw) ++ mark) ∨
      (¬IsPlainContent property raw ∧ ∃ tokens, tokenize (bodyOf raw) = .ok tokens ∧
        text = writeTokens property [] false [] tokens ++ mark) := by
  refine ⟨if (splitImportant (Text.trim raw)).2 then importantMark else [], ?_, ?_⟩
  · split
    · exact List.mem_cons_self
    · exact List.mem_cons_of_mem _ List.mem_cons_self
  · unfold normalizeText at h
    dsimp only at h
    split at h
    · rename_i hplain
      cases h
      exact .inl ⟨hplain, rfl⟩
    · rename_i hplain
      obtain ⟨tokens, htokens, rfl⟩ := map_eq_ok h
      exact .inr ⟨hplain, tokens, htokens, rfl⟩

lemma Sealed.append_mark {text mark : List Char} (h : Sealed text)
    (hmark : mark ∈ [importantMark, []]) : Sealed (text ++ mark) := by
  rcases List.mem_cons.1 hmark with rfl | hmark
  · exact h.append rfl
  · rw [List.mem_singleton.1 hmark, List.append_nil]
    exact h

lemma over?_escaped (text : List Char) :
    (⟨0, .quoted .double⟩ : Cursor).over? (escaped text) = some ⟨0, .quoted .double⟩ := by
  induction text with
  | nil => rfl
  | cons c cs ih =>
    unfold escaped
    by_cases hc : c = '"' ∨ c = '\\'
    · rw [if_pos hc]
      exact ih
    · rw [if_neg hc, over?_cons]
      have hstep : (⟨0, .quoted .double⟩ : Cursor).step? c = some ⟨0, .quoted .double⟩ := by
        have hbackslash : c ≠ '\\' := fun h => hc (.inr h)
        have hquote : c ≠ Quote.double.char := fun h => hc (.inl h)
        simp only [step?, hbackslash, hquote, if_false]
      rw [hstep]
      exact ih

lemma sealed_quoted (text : List Char) : Sealed (quoted text) := by
  refine ⟨start, .inl rfl, rfl, ?_⟩
  change (⟨0, .quoted .double⟩ : Cursor).over? (escaped text ++ ['"']) = _
  rw [over?_append_of_eq (over?_escaped text)]
  rfl

lemma sealed_normalizeText {property : String} {raw text : List Char}
    (h : normalizeText property raw = .ok text) (hcontained : ContainedText property raw) :
    Sealed text := by
  obtain ⟨mark, hmark, ⟨_, rfl⟩ | ⟨hplain, tokens, htokens, rfl⟩⟩ := normalizeText_cases h
  · exact (sealed_quoted _).append_mark hmark
  · exact (sealed_writeTokens htokens (hcontained hplain tokens htokens)).append_mark hmark

lemma bodyOf_subset (raw : List Char) : bodyOf raw ⊆ raw := by
  refine List.Subset.trans ?_ (trim_subset raw)
  unfold bodyOf splitImportant
  dsimp only
  split
  · split
    · rename_i body hbody
      refine List.Subset.trans (trimEnd_subset _) fun c hc => ?_
      have hfront : c ∈ Text.trimEnd ((Text.trim raw).take ((Text.trim raw).length - 9)) := by
        rw [← List.mem_reverse, hbody]
        exact List.mem_cons_of_mem _ (List.mem_reverse.1 hc)
      exact List.take_subset _ _ (trimEnd_subset _ hfront)
    · exact List.Subset.refl _
  · exact List.Subset.refl _

/-- The text of a number is contained under every property. -/
lemma contained_of_plain {raw : List Char} (h : ∀ c ∈ raw, IsPlain c) (property : String) :
    ContainedText property raw := by
  intro _ tokens htokens
  refine contained_of_quiet (fun c hc => ?_) htokens
  exact quiet_of_plain (h c (bodyOf_subset raw hc))

/-- A number is normalized like a plain text, or is one. -/
lemma normalizeNumber_cases {property : String} {x : Float} {text : List Char}
    (h : normalizeNumber property x = .ok text) :
    (∀ c ∈ text, IsPlain c) ∨
      ∃ raw, (∀ c ∈ raw, IsPlain c) ∧ normalizeText property raw = .ok text := by
  have hformat : ∀ c ∈ Decimal.format x, IsPlain c := fun c hc => mem_format hc
  have hunit : ∀ unit ∈ [['m', 's'], ['p', 'x']], ∀ c ∈ Decimal.format x ++ unit, IsPlain c := by
    have hunits : ∀ unit ∈ [['m', 's'], ['p', 'x']], ∀ c ∈ unit, IsPlain c := by decide
    intro unit hunit c hc
    rcases List.mem_append.1 hc with hc | hc
    · exact hformat c hc
    · exact hunits unit hunit c hc
  unfold normalizeNumber at h
  dsimp only at h
  split at h
  · cases h
  · split at h
    · cases h
      exact .inl hformat
    · split at h
      · exact .inr ⟨_, hunit _ (by decide), h⟩
      · split at h
        · exact .inr ⟨_, hunit _ (by decide), h⟩
        · exact .inr ⟨_, hformat, h⟩

/-- The texts of a single value. -/
def scalarTexts : Scalar → List String
  | .text text => [text]
  | _ => []

lemma sealed_normalizeScalar {property : String} {value : Scalar} {text : String}
    (h : normalizeScalar property value = .ok text)
    (hcontained : ∀ raw ∈ scalarTexts value, ContainedText property raw.toList) :
    Sealed text.toList := by
  cases value with
  | text raw =>
    obtain ⟨cs, hcs, rfl⟩ := map_eq_ok h
    rw [String.toList_ofList]
    exact sealed_normalizeText hcs (hcontained raw List.mem_cons_self)
  | number x =>
    obtain ⟨cs, hcs, rfl⟩ := map_eq_ok h
    rw [String.toList_ofList]
    rcases normalizeNumber_cases hcs with hplain | ⟨raw, hplain, hraw⟩
    · exact (balanced_of_quiet fun c hc => quiet_of_plain (hplain c hc)).sealed
    · exact sealed_normalizeText hraw (contained_of_plain hplain property)
  | ref target => cases h

end AtomicCss.Proofs
