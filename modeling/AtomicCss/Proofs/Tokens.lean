import AtomicCss.Proofs.Processing
import AtomicCss.Proofs.Sealed
import AtomicCss.Token.Scan

/-!
# What tokens are made of

The characters of a token come from the text it is read from, up to some printable ones that
spellings put in. Strings close the quotes that they open, and numbers hold nothing but digits,
signs, points and exponents.
-/

namespace AtomicCss.Proofs

open Token Cursor

/-- The ways in which a token is taken off a text. -/
inductive Taken : List Char → Token → List Char → Prop
  | whitespace {c : Char} (cs : List Char) : Text.isBlank c = true →
    Taken (c :: cs) .whitespace (cs.dropWhile Text.isBlank)
  | comma (cs : List Char) : Taken (',' :: cs) .comma cs
  | leftParen (cs : List Char) : Taken ('(' :: cs) .leftParen cs
  | rightParen (cs : List Char) : Taken (')' :: cs) .rightParen cs
  | string {quote : Char} {cs raw rest : List Char} : quote = '"' ∨ quote = '\'' →
    stringBody? quote cs = some (raw, rest) → Taken (quote :: cs) (.string quote raw) rest
  | hash (cs : List Char) : Taken ('#' :: cs) (.hash (nameSpan cs).1) (nameSpan cs).2
  | number {cs : List Char} : startsNumber cs = true →
    (Decimal.read? (numberSpan cs).1).isSome = true →
    (∀ c ∈ (numberSpan cs).2.head?, c ≠ '%' ∧ isNameStart c = false) →
    Taken cs (.number (numberSpan cs).1) (numberSpan cs).2
  | percentage {cs rest : List Char} : startsNumber cs = true →
    (Decimal.read? (numberSpan cs).1).isSome = true → (numberSpan cs).2 = '%' :: rest →
    Taken cs (.percentage (numberSpan cs).1) rest
  | dimension {cs : List Char} {c : Char} {tail : List Char} : startsNumber cs = true →
    (Decimal.read? (numberSpan cs).1).isSome = true → (numberSpan cs).2 = c :: tail →
    isNameStart c = true → Taken cs (.dimension (numberSpan cs).1 (nameSpan (numberSpan cs).2).1)
      (nameSpan (numberSpan cs).2).2
  | url {cs inner raw rest : List Char} : startsName cs = true →
    Text.equalsIgnoringCase (nameSpan cs).1 ['u', 'r', 'l'] = true →
    (nameSpan cs).2 = '(' :: inner → quoteAhead inner = false →
    urlBody? (inner.dropWhile Text.isBlank) = some (raw, rest) →
    Taken cs (.url (Text.trimEnd raw)) rest
  | function {cs inner : List Char} : startsName cs = true → (nameSpan cs).2 = '(' :: inner →
    (Text.equalsIgnoringCase (nameSpan cs).1 ['u', 'r', 'l'] = true → quoteAhead inner = true) →
    Taken cs (.function (nameSpan cs).1) inner
  | ident {cs : List Char} : startsName cs = true → (nameSpan cs).2.head? ≠ some '(' →
    Taken cs (.ident (nameSpan cs).1) (nameSpan cs).2
  | delim {c : Char} {cs : List Char} : Text.isBlank c = false →
    c ∉ [',', '(', ')', '"', '\'', '#'] → startsNumber (c :: cs) = false →
    startsName (c :: cs) = false → Taken (c :: cs) (.delim c) cs

lemma taken_of_readNumber {cs rest : List Char} {t : Token} (hs : startsNumber cs = true)
    (h : readNumber cs = .ok (t, rest)) : Taken cs t rest := by
  unfold readNumber at h
  dsimp only at h
  split at h
  · cases h
  · rename_i hread
    have hsome : (Decimal.read? (numberSpan cs).1).isSome = true := by
      simpa [Option.isSome_iff_ne_none] using hread
    split at h
    · rename_i hnil
      cases h
      refine hnil ▸ .number hs hsome ?_
      simp [hnil]
    · rename_i c tail hcons
      split at h
      · rename_i hpercent
        cases h
        exact .percentage hs hsome (hpercent ▸ hcons)
      · rename_i hpercent
        split at h
        · rename_i hstart
          cases h
          exact hcons ▸ .dimension hs hsome hcons hstart
        · rename_i hstart
          cases h
          refine .number hs hsome ?_
          simp [hcons, hpercent, hstart]

lemma taken_of_readNamed {cs rest : List Char} {t : Token} (hs : startsName cs = true)
    (h : readNamed cs = .ok (t, rest)) : Taken cs t rest := by
  unfold readNamed at h
  dsimp only at h
  split at h
  · rename_i inner hopen
    split at h
    · rename_i hurl
      obtain ⟨hname, hquote⟩ := Bool.and_eq_true_iff.1 hurl
      rw [Bool.not_eq_true'] at hquote
      split at h
      · rename_i hbody
        cases h
        exact .url hs hname hopen hquote hbody
      · cases h
    · rename_i hurl
      cases h
      refine .function hs hopen fun hname => ?_
      simpa [hname] using hurl
  · rename_i hopen
    cases h
    refine .ident hs fun hhead => ?_
    obtain ⟨inner, hinner⟩ := List.head?_eq_some_iff.1 hhead
    exact hopen inner hinner

lemma taken_of_next? {cs rest : List Char} {t : Token} (h : next? cs = .ok (some (t, rest))) :
    Taken cs t rest := by
  cases cs with
  | nil => cases h
  | cons c cs =>
    rw [next?] at h
    by_cases hblank : Text.isBlank c = true
    · rw [if_pos hblank] at h
      cases h
      exact .whitespace cs hblank
    rw [if_neg hblank] at h
    by_cases hcomma : c = ','
    · rw [if_pos hcomma] at h
      cases h
      exact hcomma ▸ .comma rest
    rw [if_neg hcomma] at h
    by_cases hopen : c = '('
    · rw [if_pos hopen] at h
      cases h
      exact hopen ▸ .leftParen rest
    rw [if_neg hopen] at h
    by_cases hclose : c = ')'
    · rw [if_pos hclose] at h
      cases h
      exact hclose ▸ .rightParen rest
    rw [if_neg hclose] at h
    by_cases hquote : c = '"' ∨ c = '\''
    · rw [if_pos hquote] at h
      cases hbody : stringBody? c cs with
      | none =>
        rw [hbody] at h
        cases h
      | some pair =>
        rw [hbody] at h
        cases h
        exact .string hquote hbody
    rw [if_neg hquote] at h
    by_cases hhash : c = '#'
    · rw [if_pos hhash] at h
      cases h
      exact hhash ▸ .hash cs
    rw [if_neg hhash] at h
    by_cases hnumber : startsNumber (c :: cs) = true
    · rw [if_pos hnumber] at h
      obtain ⟨pair, hr, hpair⟩ := map_eq_ok h
      cases hpair
      exact taken_of_readNumber hnumber hr
    rw [if_neg hnumber] at h
    by_cases hname : startsName (c :: cs) = true
    · rw [if_pos hname] at h
      obtain ⟨pair, hr, hpair⟩ := map_eq_ok h
      cases hpair
      exact taken_of_readNamed hname hr
    rw [if_neg hname] at h
    cases h
    refine .delim (Bool.eq_false_iff.2 hblank) ?_ (Bool.eq_false_iff.2 hnumber)
      (Bool.eq_false_iff.2 hname)
    simp only [List.mem_cons, List.not_mem_nil, or_false]
    tauto

/-- But for blanks and addresses, a token is taken off as it is spelled. -/
lemma spelling_of_taken {cs rest : List Char} {t : Token} (h : Taken cs t rest)
    (hblank : t ≠ .whitespace) : t.spelling ++ rest = cs ∨ ∃ raw, t = .url raw := by
  cases h with
  | whitespace => exact (hblank rfl).elim
  | comma | leftParen | rightParen | delim => exact .inl rfl
  | string _ hb =>
    left
    rw [spelling, stringBody?_append hb]
    simp
  | hash cs => exact .inl (congrArg ('#' :: ·) (nameSpan_append cs))
  | number => exact .inl (numberSpan_append cs)
  | percentage _ _ hrest =>
    left
    rw [spelling, List.append_assoc, List.singleton_append, ← hrest]
    exact numberSpan_append cs
  | dimension =>
    left
    rw [spelling, List.append_assoc, nameSpan_append]
    exact numberSpan_append cs
  | url => exact .inr ⟨_, rfl⟩
  | function _ hopen =>
    left
    rw [spelling, List.append_assoc, List.singleton_append, ← hopen]
    exact nameSpan_append cs
  | ident => exact .inl (nameSpan_append cs)

/-- The part of a token that may hold any characters, if it is not a string. -/
def ownText : Token → List Char
  | .ident name | .function name | .hash name => name
  | .url raw => raw
  | .dimension _ unit => unit
  | .delim c => [c]
  | _ => []

/-- The characters of a token that stand in the text it is taken off. -/
def writtenText : Token → List Char
  | .string quote raw => quote :: raw
  | .number text | .percentage text => text
  | .dimension text unit => text ++ unit
  | t => ownText t

lemma ownText_subset_writtenText (t : Token) : ownText t ⊆ writtenText t := by
  cases t with
  | dimension text unit => exact List.subset_append_right text unit
  | string | number | percentage => exact List.nil_subset _
  | _ => exact List.Subset.refl _

/-- Spellings put in no more than these. -/
lemma mem_spelling {t : Token} {c : Char} (h : c ∈ t.spelling) :
    c ∈ writtenText t ∨ c ∈ [' ', ',', '(', ')', '#', '%', 'u', 'r', 'l'] := by
  cases t <;> simp only [spelling, writtenText, ownText, List.mem_cons, List.mem_append,
    List.not_mem_nil, or_false] at h ⊢ <;> tauto

lemma nameSpan_subset (cs : List Char) : (nameSpan cs).1 ⊆ cs ∧ (nameSpan cs).2 ⊆ cs := by
  have h := nameSpan_append cs
  exact ⟨fun c hc => h ▸ List.mem_append_left _ hc, fun c hc => h ▸ List.mem_append_right _ hc⟩

lemma numberSpan_subset (cs : List Char) : (numberSpan cs).1 ⊆ cs ∧ (numberSpan cs).2 ⊆ cs := by
  have h := numberSpan_append cs
  exact ⟨fun c hc => h ▸ List.mem_append_left _ hc, fun c hc => h ▸ List.mem_append_right _ hc⟩

lemma stringBody?_subset {quote : Char} {cs raw rest : List Char}
    (h : stringBody? quote cs = some (raw, rest)) : raw ⊆ cs ∧ rest ⊆ cs := by
  have happend := stringBody?_append h
  refine ⟨fun c hc => happend ▸ List.mem_append_left _ hc, fun c hc => ?_⟩
  rw [happend]
  exact List.mem_append_right _ (List.mem_cons_of_mem _ hc)

lemma trimEnd_append (text : List Char) :
    ∃ blanks, text = Text.trimEnd text ++ blanks ∧ ∀ c ∈ blanks, Text.isBlank c = true := by
  refine ⟨(text.reverse.takeWhile Text.isBlank).reverse, ?_, ?_⟩
  · unfold Text.trimEnd
    rw [← List.reverse_append, List.takeWhile_append_dropWhile, List.reverse_reverse]
  · intro c hc
    exact List.all_eq_true.1 List.all_takeWhile c (List.mem_reverse.1 hc)

lemma trimEnd_subset (cs : List Char) : Text.trimEnd cs ⊆ cs := by
  intro c hc
  unfold Text.trimEnd at hc
  exact List.mem_reverse.1 ((List.dropWhile_sublist _).subset (List.mem_reverse.1 hc))

lemma trim_subset (cs : List Char) : Text.trim cs ⊆ cs :=
  List.Subset.trans (trimEnd_subset _) (List.dropWhile_sublist _).subset

/-- What is taken off a text, and what is left of it, consists of its characters. -/
lemma writtenText_of_taken {cs rest : List Char} {t : Token} (h : Taken cs t rest) :
    writtenText t ⊆ cs ∧ rest ⊆ cs := by
  cases h with
  | whitespace cs =>
    exact ⟨List.nil_subset _, List.subset_cons_of_subset _ (List.dropWhile_sublist _).subset⟩
  | comma | leftParen | rightParen => exact ⟨List.nil_subset _, List.subset_cons_self _ _⟩
  | delim =>
    exact ⟨List.cons_subset_cons _ (List.nil_subset _), List.subset_cons_self _ _⟩
  | string _ hb =>
    obtain ⟨hraw, hrest⟩ := stringBody?_subset hb
    exact ⟨List.cons_subset_cons _ hraw, List.subset_cons_of_subset _ hrest⟩
  | hash cs =>
    obtain ⟨hname, hrest⟩ := nameSpan_subset cs
    exact ⟨List.subset_cons_of_subset _ hname, List.subset_cons_of_subset _ hrest⟩
  | number => exact numberSpan_subset cs
  | percentage _ _ hp =>
    obtain ⟨hnumber, hrest⟩ := numberSpan_subset cs
    rw [hp] at hrest
    exact ⟨hnumber, List.subset_of_cons_subset hrest⟩
  | dimension =>
    obtain ⟨hnumber, hrest⟩ := numberSpan_subset cs
    obtain ⟨hunit, hend⟩ := nameSpan_subset (numberSpan cs).2
    exact ⟨List.append_subset.2 ⟨hnumber, List.Subset.trans hunit hrest⟩,
      List.Subset.trans hend hrest⟩
  | @url _ inner raw _ _ _ hopen _ hb =>
    obtain ⟨_, hinner⟩ := nameSpan_subset cs
    rw [hopen] at hinner
    obtain ⟨hraw, hrest⟩ := stringBody?_subset hb
    have hdrop : inner.dropWhile Text.isBlank ⊆ cs :=
      List.Subset.trans (List.dropWhile_sublist _).subset (List.subset_of_cons_subset hinner)
    have hbody : raw ⊆ cs := List.Subset.trans hraw hdrop
    exact ⟨List.Subset.trans (trimEnd_subset raw) hbody, List.Subset.trans hrest hdrop⟩
  | function _ hopen =>
    obtain ⟨hname, hinner⟩ := nameSpan_subset cs
    rw [hopen] at hinner
    exact ⟨hname, List.subset_of_cons_subset hinner⟩
  | ident => exact nameSpan_subset cs

/-- The characters of which numbers are written. -/
def IsNumeric (c : Char) : Prop :=
  c.isDigit = true ∨ c = '+' ∨ c = '-' ∨ c = '.' ∨ c = 'e' ∨ c = 'E'

/-- Strings are closed, numbers are numeric, and no name begins with a space. -/
def Formed : Token → Prop
  | .string quote raw => Level (quote :: (raw ++ [quote]))
  | .number text | .percentage text | .dimension text _ => text ≠ [] ∧ ∀ c ∈ text, IsNumeric c
  | .ident name | .function name => ∃ c cs, name = c :: cs ∧ c ≠ ' '
  | .delim c => c ≠ ' '
  | _ => True

/-- A token whose own text leaves nothing open. The text of an address stands in parentheses. -/
def Contained : Token → Prop
  | .url raw => Enclosed raw
  | t => Balanced (ownText t)

lemma contained_of_balanced {t : Token} (h : Balanced (ownText t)) : Contained t := by
  cases t with
  | url raw => exact h.enclosed
  | _ => exact h

lemma Quote.char_ne_backslash (q : Quote) : q.char ≠ '\\' := by
  cases q <;> decide

lemma over?_stringBody {q : Quote} {cs raw rest : List Char}
    (h : stringBody? q.char cs = some (raw, rest)) :
    (⟨0, .quoted q⟩ : Cursor).over? raw = some ⟨0, .quoted q⟩ := by
  fun_induction stringBody? q.char cs generalizing raw rest with
  | case1 => cases h
  | case2 cs =>
    cases h
    rfl
  | case3 => cases h
  | case4 d ds _ ih =>
    obtain ⟨⟨raw', rest'⟩, hrest, heq⟩ := Option.map_eq_some_iff.1 h
    cases heq
    have hescape : (⟨0, .quoted q⟩ : Cursor).step? '\\' = some ⟨0, .escaped (some q)⟩ := rfl
    rw [over?_cons, hescape]
    exact ih hrest
  | case5 c cs hne hbackslash ih =>
    obtain ⟨⟨raw', rest'⟩, hrest, heq⟩ := Option.map_eq_some_iff.1 h
    cases heq
    have hstep : (⟨0, .quoted q⟩ : Cursor).step? c = some ⟨0, .quoted q⟩ := by
      simp [step?, hne, hbackslash]
    rw [over?_cons, hstep]
    exact ih hrest

lemma level_of_stringBody {q : Quote} {cs raw rest : List Char}
    (h : stringBody? q.char cs = some (raw, rest)) : Level (q.char :: (raw ++ [q.char])) := by
  have hopen : (⟨0, .comma⟩ : Cursor).step? q.char = some ⟨0, .quoted q⟩ := by
    cases q <;> rfl
  have hclose : (⟨0, .quoted q⟩ : Cursor).step? q.char = some start := by
    simp [step?, q.char_ne_backslash, start]
  unfold Level
  rw [over?_cons, hopen, Option.bind_some, over?_append_of_eq (over?_stringBody h),
    over?_cons, hclose]
  rfl

lemma numeric_of_digitSpan {cs : List Char} {c : Char} (hc : c ∈ (digitSpan cs).1) :
    IsNumeric c :=
  .inl (List.all_eq_true.1 List.all_takeWhile c hc)

lemma numeric_of_signSpan {cs : List Char} {c : Char} (hc : c ∈ (signSpan cs).1) :
    IsNumeric c := by
  unfold signSpan at hc
  split at hc
  · rename_i d _
    by_cases hd : d = '+' ∨ d = '-'
    · rw [if_pos hd] at hc
      obtain rfl := List.mem_singleton.1 hc
      exact .inr (hd.imp_right .inl)
    · rw [if_neg hd] at hc
      cases hc
  · cases hc

lemma numeric_of_fractionSpan {cs : List Char} {c : Char} (hc : c ∈ (fractionSpan cs).1) :
    IsNumeric c := by
  unfold fractionSpan at hc
  split at hc
  · split at hc
    · rcases List.mem_cons.1 hc with rfl | hc
      · exact .inr (.inr (.inr (.inl rfl)))
      · exact numeric_of_digitSpan hc
    · cases hc
  · cases hc

lemma numeric_of_exponentSpan {cs : List Char} {c : Char} (hc : c ∈ (exponentSpan cs).1) :
    IsNumeric c := by
  unfold exponentSpan at hc
  split at hc
  · dsimp only at hc
    split at hc
    · rename_i hexponent
      rcases List.mem_cons.1 hc with rfl | hc
      · exact .inr (.inr (.inr (.inr hexponent.1)))
      · rcases List.mem_append.1 hc with hc | hc
        · exact numeric_of_signSpan hc
        · exact numeric_of_digitSpan hc
    · cases hc
  · cases hc

lemma numeric_of_numberSpan {cs : List Char} {c : Char} (hc : c ∈ (numberSpan cs).1) :
    IsNumeric c := by
  unfold numberSpan at hc
  simp only [List.mem_append] at hc
  rcases hc with ((hc | hc) | hc) | hc
  · exact numeric_of_signSpan hc
  · exact numeric_of_digitSpan hc
  · exact numeric_of_fractionSpan hc
  · exact numeric_of_exponentSpan hc

lemma name_of_startsName {cs : List Char} (h : startsName cs = true) :
    ∃ c rest, (nameSpan cs).1 = c :: rest ∧ c ≠ ' ' := by
  cases hn : (nameSpan cs).1 with
  | nil => exact (nameSpan_ne_nil h hn).elim
  | cons c rest =>
    refine ⟨c, rest, rfl, ?_⟩
    rintro rfl
    have happend := nameSpan_append cs
    rw [hn] at happend
    rw [← happend] at h
    simp [startsName, isNameStart] at h

lemma formed_of_taken {cs rest : List Char} {t : Token} (h : Taken cs t rest) : Formed t := by
  cases h with
  | string hq hb =>
    rcases hq with rfl | rfl
    · exact level_of_stringBody (q := .double) hb
    · exact level_of_stringBody (q := .single) hb
  | number hs => exact ⟨numberSpan_ne_nil hs, fun c hc => numeric_of_numberSpan hc⟩
  | percentage hs => exact ⟨numberSpan_ne_nil hs, fun c hc => numeric_of_numberSpan hc⟩
  | dimension hs => exact ⟨numberSpan_ne_nil hs, fun c hc => numeric_of_numberSpan hc⟩
  | function hs => exact name_of_startsName hs
  | ident hs => exact name_of_startsName hs
  | delim hblank =>
    rintro rfl
    exact absurd hblank (by decide)
  | _ => trivial

/-- What one step takes off a text, and leaves behind, all steps do. -/
lemma lexemes_forall {P : List Char → Prop} {Q : Token → Prop}
    (hstep : ∀ cs t rest, Taken cs t rest → P cs → Q t ∧ P rest) {cs : List Char} (hcs : P cs) :
    ∀ item ∈ (lexemes cs).1, Q item.1 := by
  fun_induction lexemes cs with
  | case1 => simp
  | case2 => simp
  | case3 cs t rest hnext more outcome hrest ih =>
    obtain ⟨ht, htail⟩ := hstep cs t rest (taken_of_next? hnext) hcs
    intro item hitem
    rcases List.mem_cons.1 hitem with rfl | hitem
    · exact ht
    · exact ih htail item (hrest ▸ hitem)

lemma map_snd_placed_tokens (location : Location) (items : List (Token × List Char)) :
    (placed location items).1.map Prod.snd = items.map Prod.fst := by
  induction items generalizing location with
  | nil => rfl
  | cons item rest ih => exact congrArg (item.1 :: ·) (ih _)

/-- The tokens of a value are those of its text, and their parentheses balance. -/
lemma located_of_tokenize {cs : List Char} {tokens : List Token} (h : tokenize cs = .ok tokens) :
    ∃ located : List (Location × Token), tokens = located.map Prod.snd ∧
      openDepth 0 located = .ok 0 ∧ tokens = (lexemes cs).1.map Prod.fst := by
  unfold tokenize at h
  dsimp only at h
  split at h
  · cases h
  · rename_i depth hdepth
    split at h
    · cases h
    · by_cases hzero : depth = 0
      · rw [if_pos hzero] at h
        cases h
        exact ⟨_, rfl, hzero ▸ hdepth, map_snd_placed_tokens _ _⟩
      · rw [if_neg hzero] at h
        cases h

lemma formed_of_tokenize {cs : List Char} {tokens : List Token} (h : tokenize cs = .ok tokens) :
    ∀ t ∈ tokens, Formed t := by
  obtain ⟨_, _, _, rfl⟩ := located_of_tokenize h
  intro t ht
  obtain ⟨item, hitem, rfl⟩ := List.mem_map.1 ht
  exact lexemes_forall (P := fun _ => True)
    (fun _ _ _ htaken _ => ⟨formed_of_taken htaken, trivial⟩) trivial item hitem

lemma writtenText_of_tokenize {cs : List Char} {tokens : List Token}
    (h : tokenize cs = .ok tokens) :
    ∀ t ∈ tokens, writtenText t ⊆ cs := by
  obtain ⟨_, _, _, rfl⟩ := located_of_tokenize h
  intro t ht
  obtain ⟨item, hitem, rfl⟩ := List.mem_map.1 ht
  refine lexemes_forall (P := fun rest => rest ⊆ cs) (Q := fun t => writtenText t ⊆ cs) ?_
    (List.Subset.refl cs) item hitem
  intro rest t rest' htaken hrest
  obtain ⟨hwritten, hleft⟩ := writtenText_of_taken htaken
  exact ⟨List.Subset.trans hwritten hrest, List.Subset.trans hleft hrest⟩

/-- Printable ASCII characters but the backslash. -/
def IsCommon (c : Char) : Prop :=
  32 ≤ c.toNat ∧ c.toNat < 127 ∧ c ≠ '\\'

instance (c : Char) : Decidable (IsCommon c) :=
  inferInstanceAs (Decidable (_ ∧ _))

/-- Holds of all common characters. -/
def Common (P : Char → Prop) : Prop :=
  ∀ c, IsCommon c → P c

lemma Common.forall_mem {P : Char → Prop} (hP : Common P) {text : List Char}
    (h : ∀ c ∈ text, IsCommon c) : ∀ c ∈ text, P c :=
  fun c hc => hP c (h c hc)

lemma spelling_of_tokenize {P : Char → Prop} (hP : Common P) {cs : List Char}
    (hcs : ∀ c ∈ cs, P c) {tokens : List Token} (h : tokenize cs = .ok tokens) :
    ∀ t ∈ tokens, ∀ c ∈ t.spelling, P c := by
  intro t ht c hc
  rcases mem_spelling hc with hc | hc
  · exact hcs c (writtenText_of_tokenize h t ht hc)
  · exact hP.forall_mem (by decide) c hc

/-- A text of quiet characters makes contained tokens. -/
lemma contained_of_quiet {cs : List Char} (hcs : ∀ c ∈ cs, IsQuiet c) {tokens : List Token}
    (h : tokenize cs = .ok tokens) : ∀ t ∈ tokens, Contained t := by
  intro t ht
  apply contained_of_balanced
  apply balanced_of_quiet
  intro c hc
  exact hcs c (writtenText_of_tokenize h t ht (ownText_subset_writtenText t hc))

end AtomicCss.Proofs
