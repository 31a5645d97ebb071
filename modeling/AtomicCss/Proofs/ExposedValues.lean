import AtomicCss.Proofs.ExposedTokens
import AtomicCss.Proofs.ImportantMark
import AtomicCss.Class.Rule

/-!
# What normalized values expose

A normalized value exposes the semicolons and braces that the value exposes, in their order: its
tokens stand in both texts, and none of them joins with another so that one more is hidden or shown.
So a block of values that expose none has one declaration for each of them.
-/

namespace AtomicCss.Proofs

open Token Text Value Spot

section

variable {run cs rest text found written : List Char} {tokens : List Token} {t : Token}
  {property : String}

/-- The name before a text is a part of none that goes on there, and of no address. -/
def ReadyFor (run cs : List Char) : Prop :=
  run = [] ∨ (Spoiled run ∧ ∀ c ∈ cs.head?, isNameStart c = false) ∨
    ∀ c ∈ cs.head?, isNameChar c = false ∧ c ≠ '('

lemma not_nameChar_of_blank {c : Char} (hblank : isBlank c = true)
    (hstart : isNameStart c = false) : isNameChar c = false := by
  have hdash : c ≠ '-' := isBlank_ne hblank rfl
  have hdigit : c.isDigit = false := by
    by_contra hdigit
    rw [Bool.not_eq_false] at hdigit
    rw [isBlank_of_numeric (.inl hdigit)] at hblank
    cases hblank
  simp [isNameChar, hstart, hdigit, hdash]

lemma readyFor_of_taken (h : Taken cs t rest) (hleaves : Leaves t run) : ReadyFor run rest := by
  cases h with
  | ident _ hopen =>
    refine .inr (.inr fun c hc => ⟨((nameRun_nameSpan cs).head c hc).1, ?_⟩)
    rintro rfl
    exact hopen hc
  | hash cs =>
    refine .inr (.inl ⟨hleaves, fun c hc => ?_⟩)
    exact (isNameChar_eq_false ((nameRun_nameSpan cs).head c hc).1).1
  | number _ _ hhead => exact .inr (.inl ⟨hleaves, fun c hc => (hhead c hc).2⟩)
  | dimension =>
    refine .inr (.inl ⟨hleaves, fun c hc => ?_⟩)
    exact (isNameChar_eq_false ((nameRun_nameSpan _).head c hc).1).1
  | @delim d _ _ _ _ hstart =>
    by_cases hdash : d = '-'
    · subst hdash
      refine .inr (.inl ⟨hleaves, fun c hc => ?_⟩)
      obtain ⟨more, rfl⟩ := List.head?_eq_some_iff.1 hc
      have hstart : (isNameStart c || c == '-') = false := hstart
      exact (Bool.or_eq_false_iff.1 hstart).1
    · left
      simpa [Leaves, hdash] using hleaves
  | _ => exact .inl hleaves

/-- A name begins like one where it is read. -/
lemma head_of_nameSpan (h : startsName cs = true) :
    ∃ c ∈ cs.head?, c ∈ (nameSpan cs).1.head? ∧ isNameChar c = true := by
  have hne := nameSpan_ne_nil h
  cases hname : (nameSpan cs).1 with
  | nil => exact (hne hname).elim
  | cons c more =>
    have hcs : c ∈ cs.head? := by
      rw [← nameSpan_append cs, hname]
      rfl
    refine ⟨c, hcs, rfl, ?_⟩
    obtain ⟨ds, rfl⟩ := List.head?_eq_some_iff.1 hcs
    by_cases hdash : c = '-'
    · rw [hdash]
      rfl
    · exact nameChar_of_nameStart ((startsName_cons hdash ds).symm.trans h)

lemma accepts_of_taken (h : Taken cs t rest) (hready : ReadyFor run cs) : Accepts run t := by
  rcases hready with rfl | ⟨hspoiled, hstart⟩ | hname
  · exact accepts_nil t
  · cases h with
    | url hs hurl =>
      obtain ⟨c, hc, hfirst, _⟩ := head_of_nameSpan hs
      have hnone := hstart c hc
      rcases nameStart_of_equalsIgnoringCase hurl hfirst with rfl | hsome
      · cases hnone
      · rw [hsome] at hnone
        cases hnone
    | function | leftParen => exact .inr hspoiled
    | _ => trivial
  · have hnot : startsName cs = false := by
      by_contra hs
      rw [Bool.not_eq_false] at hs
      obtain ⟨c, hc, _, hchar⟩ := head_of_nameSpan hs
      rw [(hname c hc).1] at hchar
      cases hchar
    cases h with
    | url hs | function hs =>
      rw [hs] at hnot
      cases hnot
    | leftParen => exact ((hname '(' rfl).2 rfl).elim
    | _ => trivial

lemma quoteAhead_of_taken (h : Taken cs t rest) (name : List Char) (ht : t = .function name)
    (hurl : isUrlName name = true) : quoteAhead rest = true := by
  cases h with
  | function _ _ hquote =>
    cases ht
    exact hquote hurl
  | _ => cases ht

/-- The text of a value exposes what its tokens do. -/
lemma passes_lexed (h : Lexed cs tokens)
    (hends : ∀ t ∈ tokens, endsInEscape (ownText t) = false) (hready : ReadyFor run cs) :
    ∃ run', Passes (free run) cs (tokens.flatMap exposedIn) (free run') := by
  induction h generalizing run with
  | nil => exact ⟨run, .nil _⟩
  | @cons cs rest t tokens hnext _ ih =>
    obtain ⟨hend, hmore⟩ := List.forall_mem_cons.1 hends
    have htaken := taken_of_next? hnext
    by_cases hblank : t = .whitespace
    · subst hblank
      cases htaken with
      | @whitespace c cs hc =>
        obtain ⟨run', hrest⟩ := ih hmore (.inl rfl)
        refine ⟨run', ?_⟩
        have hblanks : Passes (free run) (c :: cs.takeWhile isBlank) [] (free []) := by
          refine passes_blanks ?_ (List.cons_ne_nil _ _) ?_
          · refine List.forall_mem_cons.2 ⟨hc, fun d hd => ?_⟩
            exact List.all_eq_true.1 List.all_takeWhile d hd
          · rcases hready with hrun | ⟨_, hstart⟩ | hname
            · exact .inl hrun
            · exact .inr fun d hd => not_nameChar_of_blank (Option.some.inj hd ▸ hc) (hstart d hd)
            · exact .inr fun d hd => (hname d hd).1
        have hall := hblanks.append hrest
        rwa [List.cons_append, List.takeWhile_append_dropWhile] at hall
    · have hhead := not_blank_of_next? hnext hblank
      obtain ⟨text, rfl, hrenders⟩ := exists_renders htaken hhead hend
      obtain ⟨run', hleaves, hpasses⟩ := passes_renders hrenders (accepts_of_taken htaken hready)
        (quoteAhead_of_taken htaken)
      obtain ⟨run'', hrest⟩ := ih hmore (readyFor_of_taken htaken hleaves)
      exact ⟨run'', hpasses _ _ hrest⟩

/-- The escapes of a value's tokens that hold where the value is written: every backslash escapes a
character of its own token, and behind an escaped mark a blank is not taken for one that separates
nothing. -/
structure HoldsEscapes (property : String) (tokens : List Token) : Prop where
  closed : ∀ t ∈ tokens, endsInEscape (ownText t) = false
  spaced : tokens.IsChain fun t u =>
    u = .whitespace → ∀ verbatim, endsOpen property verbatim t = false

/-- A space is left out behind an opening mark, or in front of a closing one. -/
lemma needsNoSpace_cases (h : needsNoSpace written t = true) :
    (∀ u, needsNoSpace written u = true) ∨ t = .rightParen ∨ t = .comma := by
  unfold needsNoSpace at h ⊢
  simp only [Bool.or_eq_true, beq_iff_eq] at h ⊢
  tauto

/-- Over the space in front of a token that the name before it goes well with. -/
lemma exists_passes_spacing {pending : Bool} (htaken : Taken cs t rest)
    (hready : pending = false → ReadyFor run cs)
    (hopen : pending = true → (∀ u, needsNoSpace written u = true) → run = []) :
    ∃ run', Accepts run' t ∧
      Passes (free run) (spacing written pending t) [] (free run') := by
  unfold spacing
  split
  · refine ⟨[], accepts_nil t, passes_blanks (by simp; decide) (by simp) (.inr ?_)⟩
    exact fun c hc => (head_space c hc).1
  · rename_i hspace
    refine ⟨run, ?_, .nil _⟩
    cases pending with
    | false => exact accepts_of_taken htaken (hready rfl)
    | true =>
      rcases needsNoSpace_cases (by simpa using hspace) with hall | rfl | rfl
      · rw [hopen rfl hall]
        exact accepts_nil t
      · trivial
      · trivial

lemma leaves_of_not_isOpenEnded (h : isOpenEnded t = false) (hleaves : Leaves t run) :
    run = [] := by
  cases t with
  | ident | hash | number | dimension => cases h
  | delim c =>
    have hdash : c ≠ '-' := by
      rintro rfl
      cases h
    simpa [Leaves, hdash] using hleaves
  | _ => exact hleaves

lemma spell_rewriteTokens_cons (hblank : t ≠ .whitespace) {pending : Bool} {scopes : List Bool} :
    spell (rewriteTokens property written pending scopes (t :: tokens)) =
      spacing written pending t ++ (tokenText property (scopes.any id) t ++
        spell (rewriteTokens property
          (written ++ spacing written pending t ++ tokenText property (scopes.any id) t) false
          (scopesAfter scopes t) tokens)) := by
  rw [rewriteTokens_cons hblank, ← spell_blanks, ← spelling_rewritten]
  unfold spell
  rw [List.flatMap_append, List.flatMap_cons]

/-- What is written for the tokens exposes what they do. -/
lemma passes_rewriteTokens (h : Lexed cs tokens) (hholds : HoldsEscapes property tokens)
    {pending : Bool} {scopes : List Bool} (hready : pending = false → ReadyFor run cs)
    (hopen : pending = true ∨ tokens.head? = some .whitespace →
      (∀ u, needsNoSpace written u = true) → run = []) :
    ∃ run', Passes (free run) (spell (rewriteTokens property written pending scopes tokens))
      (tokens.flatMap exposedIn) (free run') := by
  induction h generalizing run written pending scopes with
  | nil => exact ⟨run, .nil _⟩
  | @cons cs rest t tokens hnext htail ih =>
    obtain ⟨hend, hclosed⟩ := List.forall_mem_cons.1 hholds.closed
    obtain ⟨happart, hspaced⟩ := List.isChain_cons.1 hholds.spaced
    have htaken := taken_of_next? hnext
    by_cases hblank : t = .whitespace
    · subst hblank
      exact ih ⟨hclosed, hspaced⟩ nofun fun _ => hopen (.inr rfl)
    · have hhead := not_blank_of_next? hnext hblank
      have hrenders : Renders t (tokenText property (scopes.any id) t) :=
        renders_tokenText htaken hhead hend property _
      obtain ⟨run₁, haccepts, hspace⟩ :=
        exists_passes_spacing htaken hready fun hpending => hopen (.inl hpending)
      rw [spell_rewriteTokens_cons hblank]
      generalize hbefore : written ++ spacing written pending t = before
      have hquote : ∀ name, t = .function name → isUrlName name = true →
          quoteAhead (spell (rewriteTokens property (before ++ tokenText property (scopes.any id) t)
            false (scopesAfter scopes t) tokens)) = true := by
        rintro name rfl hurl
        exact quoteAhead_rewriteTokens htail (quoteAhead_of_taken htaken name rfl hurl)
          (needsNoSpace_append_open before name (.inl rfl))
      obtain ⟨run₂, hleaves, hpasses⟩ := passes_renders hrenders haccepts hquote
      -- a blank behind the token is dropped only if the token leaves no name
      have hdropped : tokens.head? = some .whitespace →
          (∀ u, needsNoSpace (before ++ tokenText property (scopes.any id) t) u = true) →
            run₂ = [] := by
        intro hfollows hall
        have hlast := happart _ hfollows rfl (scopes.any id)
        by_cases hended : isOpenEnded t = true
        · have hclosing := closing_of_needsNoSpace (tokenText_ne_nil (formed_of_taken htaken))
            hlast hended (hall .whitespace)
          rcases hclosing with hclosing | hclosing <;> cases hclosing
        · exact leaves_of_not_isOpenEnded (Bool.eq_false_iff.2 hended) hleaves
      obtain ⟨run₃, hrest⟩ := @ih run₂ (before ++ tokenText property (scopes.any id) t)
        ⟨hclosed, hspaced⟩ false (scopesAfter scopes t)
        (fun _ => readyFor_of_taken htaken hleaves)
        fun hfollows => hdropped (hfollows.resolve_left Bool.false_ne_true)
      exact ⟨run₃, hspace.append (hpasses _ _ hrest)⟩

/-- A text that exposes nothing and leaves nothing open. -/
def IsWhole (text : List Char) : Prop :=
  ∃ run, Passes (free []) text [] (free run)

lemma isIdle_of_blank {c : Char} (h : isBlank c = true) : IsIdle c := by
  intro hmem
  simp only [List.mem_cons, List.not_mem_nil, or_false] at hmem
  rcases hmem with rfl | rfl | rfl | rfl | rfl | rfl | rfl <;> cases h

lemma isIdle_of_word {word : List Char} (h : lower word = importantMark.tail) :
    ∀ c ∈ word, IsIdle c := by
  have hspecial : ∀ c ∈ ['\\', '"', '\'', '(', ';', '\x7b', '\x7d'],
      c.toLower ∉ importantMark.tail := by decide
  intro c hc hmem
  refine hspecial c hmem ?_
  rw [← h]
  exact List.mem_map_of_mem hc

/-- A value is its body between blanks, with at most a mark behind it. -/
lemma exists_bodyOf (raw : List Char) : ∃ front behind, raw = front ++ (bodyOf raw ++ behind) ∧
    (∀ c ∈ front, isBlank c = true) ∧ ∀ c ∈ behind, IsIdle c := by
  obtain ⟨blanks, htrim, hblanks⟩ := trimEnd_append (trimStart raw)
  have hraw : raw = raw.takeWhile isBlank ++ (trim raw ++ blanks) := by
    conv_lhs => rw [← List.takeWhile_append_dropWhile (p := isBlank) (l := raw)]
    exact congrArg _ htrim
  have hidle : ∀ c ∈ blanks, IsIdle c := fun c hc => isIdle_of_blank (hblanks c hc)
  have hfront : ∀ c ∈ raw.takeWhile isBlank, isBlank c = true := fun c hc =>
    List.all_eq_true.1 List.all_takeWhile c hc
  unfold bodyOf
  rcases splitImportant_cases (trim raw) with hself | ⟨body, inner, word, heq, hinner, hword⟩
  · rw [hself]
    exact ⟨_, blanks, hraw, hfront, hidle⟩
  · obtain ⟨ends, hbody, hends⟩ := trimEnd_append body
    rw [heq, splitImportant_mark body hinner hword]
    refine ⟨raw.takeWhile isBlank, ends ++ '!' :: (inner ++ word) ++ blanks, ?_, hfront, ?_⟩
    · conv_lhs => rw [hraw, heq]
      conv_lhs => rw [hbody]
      simp
    · intro c hc
      simp only [List.mem_append, List.mem_cons] at hc
      rcases hc with (hc | rfl | hc | hc) | hc
      · exact isIdle_of_blank (hends c hc)
      · decide
      · exact isIdle_of_blank (hinner c hc)
      · exact isIdle_of_word hword c hc
      · exact hidle c hc

lemma passes_front (h : ∀ c ∈ text, isBlank c = true) : Passes (free []) text [] (free []) := by
  rcases eq_or_ne text [] with rfl | hne
  · exact .nil _
  · exact passes_blanks h hne (.inl rfl)

/-- Behind a text that leads to a free spot, idle characters make no difference. -/
lemma Passes.append_idle (h : Passes (free []) text found (free run))
    (hidle : ∀ c ∈ rest, IsIdle c) : ∃ run', Passes (free []) (text ++ rest) found (free run') := by
  obtain ⟨run', hrest⟩ := passes_idle hidle run
  refine ⟨run', ?_⟩
  have hall := h.append hrest
  rwa [List.append_nil] at hall

/-- The value exposes what its tokens do. -/
lemma exposed_raw {raw : List Char} (h : tokenize (bodyOf raw) = .ok tokens)
    (hholds : HoldsEscapes property tokens) :
    exposed (free []) raw = tokens.flatMap exposedIn := by
  obtain ⟨front, behind, hraw, hfront, hbehind⟩ := exists_bodyOf raw
  obtain ⟨run, hbody⟩ := passes_lexed (tokenize_eq_ok.1 h).1 hholds.closed (.inl rfl)
  obtain ⟨run', hrest⟩ := hbody.append_idle hbehind
  rw [hraw]
  exact ((passes_front hfront).append hrest).exposes

lemma isIdle_mark {mark : List Char} (h : mark ∈ [importantMark, []]) :
    ∀ c ∈ mark, IsIdle c := by
  simp only [List.mem_cons, List.not_mem_nil, or_false] at h
  rcases h with rfl | rfl
  · decide
  · exact List.forall_mem_nil _

/-- The escapes of a value hold where it is written, unless it is quoted as a whole. -/
def EscapesHold (property : String) (raw : List Char) : Prop :=
  ¬IsPlainContent property raw →
    ∀ tokens, tokenize (bodyOf raw) = .ok tokens → HoldsEscapes property tokens

lemma bodyText_escaped (text : List Char) : BodyText '"' (Value.escaped text) := by
  induction text with
  | nil => exact .nil
  | cons c cs ih =>
    unfold Value.escaped
    split
    · exact .escape c ih
    · rename_i hc
      rw [not_or] at hc
      exact .char hc.2 hc.1 ih

/-- What is exposed in the normal form of a value: what the value exposes, or nothing if it is
quoted as a whole. -/
def exposedOf (property : String) (raw : List Char) : List Char :=
  if property == "content" && !isCssContent (bodyOf raw) then [] else exposed (free []) raw

lemma passes_normalizeText {raw : List Char} (h : normalizeText property raw = .ok text)
    (hescapes : EscapesHold property raw) :
    ∃ run, Passes (free []) text (exposedOf property raw) (free run) := by
  obtain ⟨mark, hmark, ⟨hplain, rfl⟩ | ⟨hplain, tokens, htokens, rfl⟩⟩ := normalizeText_cases h
  · have hquoted : Passes (free []) (quoted (bodyOf raw)) [] (free []) :=
      passes_string (.inl rfl) (bodyText_escaped _) (.inr ⟨[], rfl⟩)
    have hnone : exposedOf property raw = [] := if_pos hplain
    rw [hnone]
    exact hquoted.append_idle (isIdle_mark hmark)
  · have hholds := hescapes hplain tokens htokens
    have hstart : (∀ u, needsNoSpace [] u = true) → ([] : List Char) = [] := fun _ => rfl
    obtain ⟨run, hwritten⟩ := passes_rewriteTokens (tokenize_eq_ok.1 htokens).1 hholds
      (fun _ => .inl rfl) fun _ => hstart
    have hall : exposedOf property raw = exposed (free []) raw := if_neg hplain
    rw [hall, exposed_raw htokens hholds, writeTokens_eq_spell, List.nil_append]
    exact hwritten.append_idle (isIdle_mark hmark)

/-- The pieces of a block between its exposed semicolons. -/
def pieces : Spot → List Char → List (List Char)
  | _, [] => [[]]
  | p, c :: cs =>
    if p.isFree && c == ';' then [] :: pieces (p.next c) cs
    else (pieces (p.next c) cs).modifyHead (c :: ·)

/-- The declarations of a block. A piece without text is none. -/
def declarationsOf (block : List Char) : List (List Char) :=
  (pieces (free []) block).filter (! List.isEmpty ·)

lemma pieces_append {p q : Spot} (h : Passes p text [] q) (rest : List Char) :
    pieces p (text ++ rest) = (pieces q rest).modifyHead (text ++ ·) := by
  induction text generalizing p with
  | nil =>
    obtain rfl : p = q := h.ends
    rw [List.nil_append]
    cases pieces p rest <;> rfl
  | cons c cs ih =>
    have hexposes := h.exposes
    rw [exposed] at hexposes
    obtain ⟨hfirst, hrest⟩ := List.append_eq_nil_iff.1 hexposes
    have hkept : (p.isFree && c == ';') = false := by
      by_contra hsemicolon
      rw [Bool.not_eq_false, Bool.and_eq_true, beq_iff_eq] at hsemicolon
      obtain ⟨hfree, rfl⟩ := hsemicolon
      rw [hfree] at hfirst
      cases hfirst
    have hbehind : Passes (p.next c) cs [] q := ⟨hrest, h.ends⟩
    rw [List.cons_append, pieces, hkept, ih hbehind]
    cases pieces q rest <;> rfl

/-- Texts that are whole are found again between semicolons. -/
lemma pieces_intercalate {texts : List (List Char)} (h : ∀ text ∈ texts, IsWhole text)
    (hne : texts ≠ []) : pieces (free []) ([';'].intercalate texts) = texts := by
  induction texts with
  | nil => exact (hne rfl).elim
  | cons text texts ih =>
    obtain ⟨⟨run, htext⟩, htexts⟩ := List.forall_mem_cons.1 h
    cases texts with
    | nil =>
      have hsingle := pieces_append htext []
      rw [List.append_nil] at hsingle
      rw [List.intercalate_singleton, hsingle]
      simp [pieces]
    | cons other others =>
      rw [List.intercalate_cons_cons, List.append_assoc, pieces_append htext, List.singleton_append,
        pieces]
      have hname : isNameChar ';' = false := by decide
      have hnext : (free run).next ';' = free [] := by simp [next, hname]
      rw [hnext, ih htexts (List.cons_ne_nil _ _)]
      simp [isFree]

end

instance (property : String) (tokens : List Token) : Decidable (HoldsEscapes property tokens) :=
  decidable_of_iff ((∀ t ∈ tokens, endsInEscape (ownText t) = false) ∧
    tokens.IsChain fun t u => u = .whitespace → ∀ verbatim, endsOpen property verbatim t = false)
    ⟨fun h => ⟨h.1, h.2⟩, fun h => ⟨h.closed, h.spaced⟩⟩

lemma isWhole_of_idle {text : List Char} (h : ∀ c ∈ text, IsIdle c) : IsWhole text :=
  passes_idle h []

/-- A declaration is whole if its property and its value are. -/
lemma isWhole_declaration {property value : String} (hproperty : IsWhole property.toList)
    (hvalue : IsWhole value.toList) : IsWhole (property ++ ":" ++ value).toList := by
  obtain ⟨run, hproperty⟩ := hproperty
  obtain ⟨run', hvalue⟩ := hvalue
  have hname : isNameChar ':' = false := by decide
  have hcolon : Passes (free run) [':'] [] (free []) :=
    (Passes.nil _).cons (by simp [next, hname]) rfl
  refine ⟨run', ?_⟩
  rw [String.toList_append, String.toList_append]
  exact (hproperty.append hcolon).append hvalue

lemma toList_declarationBlock {config : Config} {property : String} {values : List String}
    (hvendor : ∀ u ∈ values, config.vendorPrefixed property u = none) :
    (Entry.declarationBlock config property values).toList =
      [';'].intercalate (values.map fun u => (property ++ ":" ++ u).toList) := by
  have hplain : values.flatMap (fun value =>
      (config.vendorPrefixed property value).toList ++ [property ++ ":" ++ value]) =
      values.map fun u => property ++ ":" ++ u := by
    rw [List.map_eq_flatMap]
    exact List.flatMap_congr fun u hu => by rw [hvendor u hu]; rfl
  unfold Entry.declarationBlock
  rw [hplain, String.toList_intercalate, List.map_map]
  rfl

lemma declarationsOf_intercalate {texts : List (List Char)} (h : ∀ text ∈ texts, IsWhole text)
    (hne : ∀ text ∈ texts, text ≠ []) : declarationsOf ([';'].intercalate texts) = texts := by
  unfold declarationsOf
  cases texts with
  | nil => rfl
  | cons text texts =>
    rw [pieces_intercalate h (List.cons_ne_nil _ _)]
    exact List.filter_eq_self.2 fun text htext => by simpa using hne text htext

/-- The normal form of a value exposes the semicolons and braces that the value exposes, and no
others, as long as the value's escapes hold where it is written. So where values expose none, the
block of their normal forms has exactly one declaration for each of them. -/
theorem declarations_of_normal_values {config : Config} {property : String} {vs us : List String}
    (hnormal : List.Forall₂ (fun v u => normalizeScalar property (.text v) = .ok u) vs us)
    (hescapes : ∀ v ∈ vs, EscapesHold property v.toList) :
    List.Forall₂ (fun v u => ∃ run, Passes (free []) u.toList (exposedOf property v.toList)
        (free run)) vs us ∧
      ((∀ v ∈ vs, exposedOf property v.toList = []) → IsWhole property.toList →
        (∀ u ∈ us, config.vendorPrefixed property u = none) →
          declarationsOf (Entry.declarationBlock config property us).toList =
            us.map fun u => (property ++ ":" ++ u).toList) := by
  have hpasses : List.Forall₂ (fun v u => ∃ run, Passes (free []) u.toList
      (exposedOf property v.toList) (free run)) vs us := by
    induction hnormal with
    | nil => exact .nil
    | cons hvalue _ ih =>
      obtain ⟨hescape, hmore⟩ := List.forall_mem_cons.1 hescapes
      obtain ⟨text, htext, rfl⟩ := map_eq_ok hvalue
      refine .cons ?_ (ih hmore)
      rw [String.toList_ofList]
      exact passes_normalizeText htext hescape
  refine ⟨hpasses, fun hnone hproperty hvendor => ?_⟩
  have hwhole : ∀ u ∈ us, IsWhole u.toList := by
    intro u hu
    obtain ⟨v, hv, run, hu⟩ := exists_of_forall₂ hpasses hu
    rw [hnone v hv] at hu
    exact ⟨run, hu⟩
  rw [toList_declarationBlock hvendor]
  refine declarationsOf_intercalate ?_ ?_
  · exact List.forall_mem_map.2 fun u hu => isWhole_declaration hproperty (hwhole u hu)
  · exact List.forall_mem_map.2 fun u _ => by simp

theorem declarations_of_normal_values_urls :
    List.Forall₂ (fun v u => normalizeScalar "background" (.text v) = .ok u)
        [" url( a;b.png )", "url(';') !important"] ["url(a;b.png)", "url(';')!important"] ∧
      exposed (free []) " url( a;b.png )".toList = [] ∧
      declarationsOf (Entry.declarationBlock {} "background"
        ["url(a;b.png)", "url(';')!important"]).toList =
          ["background:url(a;b.png)".toList, "background:url(';')!important".toList] := by
  have hnormal : List.Forall₂ (fun v u => normalizeScalar "background" (.text v) = .ok u)
      [" url( a;b.png )", "url(';') !important"] ["url(a;b.png)", "url(';')!important"] := by
    have hfirst : normalizeScalar "background" (.text " url( a;b.png )") = .ok "url(a;b.png)" := by
      decide +kernel
    have hsecond : normalizeScalar "background" (.text "url(';') !important") =
        .ok "url(';')!important" := by decide +kernel
    exact .cons hfirst (.cons hsecond .nil)
  have hescapes : ∀ v ∈ [" url( a;b.png )", "url(';') !important"],
      EscapesHold "background" v.toList := by
    have htokens : ∀ v ∈ [" url( a;b.png )", "url(';') !important"],
        (tokenize (bodyOf v.toList)).toOption.all fun tokens =>
          decide (HoldsEscapes "background" tokens) := by decide +kernel
    intro v hv _ tokens heq
    have hholds := htokens v hv
    rw [heq] at hholds
    exact of_decide_eq_true hholds
  have hnone : ∀ v ∈ [" url( a;b.png )", "url(';') !important"],
      exposedOf "background" v.toList = [] := by decide +kernel
  refine ⟨hnormal, by decide +kernel, ?_⟩
  obtain ⟨_, hblock⟩ := @declarations_of_normal_values {} "background" _ _ hnormal hescapes
  rw [hblock hnone (isWhole_of_idle (by decide +kernel)) (fun _ _ => rfl)]
  decide +kernel

/-- Nothing keeps a value from ending its declaration. -/
theorem declarations_of_semicolon :
    normalizeScalar "color" (.text "red;margin:0") = .ok "red;margin:0" ∧
      exposed (free []) "red;margin:0".toList = [';'] ∧
      declarationsOf (Entry.declarationBlock {} "color" ["red;margin:0"]).toList =
        ["color:red".toList, "margin:0".toList] := by
  decide +kernel

end AtomicCss.Proofs
