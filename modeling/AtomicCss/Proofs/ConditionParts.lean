import AtomicCss.Proofs.ConditionText
import AtomicCss.Proofs.Idempotence

/-!
# The two parts of a composed condition

A condition that is composed from plain keys has its at-rules in front and its suffix behind the
first colon outside parentheses. Reading it takes it apart there and changes nothing but blanks. So
a pseudo-element can be put between the parts, before or after keys are composed.
-/

namespace AtomicCss.Proofs

open Condition Declaration Text

/-- At-rules: balanced, and without a colon outside parentheses. -/
structure IsRules (cs : List Char) : Prop where
  opens : cs = [] ∨ cs.head? = some '@'
  balanced : imbalance? 0 cs = none
  noColon : splitSuffix? 0 cs = some (cs, [])

/-- What stands behind the at-rules: balanced, from a colon on. -/
structure IsSuffix (cs : List Char) : Prop where
  opens : cs = [] ∨ cs.head? = some ':'
  balanced : imbalance? 0 cs = none

/-- A text that begins with at-rules and ends in a suffix. -/
structure Parts (text rules suffix : List Char) : Prop where
  eq : text = rules ++ suffix
  rules : IsRules rules
  suffix : IsSuffix suffix

/-- A key without surprises: the default, a pseudo-class or pseudo-element, or an at-rule. -/
inductive PlainKey : String → Prop
  | default : PlainKey defaultKey
  | pseudo {key : String} : key.toList.head? = some ':' → imbalance? 0 key.toList = none →
    PlainKey key
  | rule {key : String} : key.toList.head? = some '@' → imbalance? 0 key.toList = none →
    splitSuffix? 0 key.toList = some (key.toList, []) → PlainKey key

/-- The text of a part, if it is not empty. -/
def textOf? (cs : List Char) : Option String :=
  if cs.isEmpty then none else some (String.ofList cs)

lemma toList_textOf? (cs : List Char) : ((textOf? cs).getD "").toList = cs := by
  unfold textOf?
  cases cs <;> simp

/-- The characters that are no blanks. -/
def inked (cs : List Char) : List Char :=
  cs.filter fun c => !isBlank c

section

variable {cs a b rules suffix text : List Char} {depth : Nat}

lemma ne_paren_of_isBlank {c : Char} (h : isBlank c = true) : c ≠ '(' ∧ c ≠ ')' ∧ c ≠ ':' := by
  refine ⟨?_, ?_, ?_⟩ <;> rintro rfl <;> revert h <;> decide

lemma inked_blank {c : Char} (hc : isBlank c = true) (cs : List Char) :
    inked (c :: cs) = inked cs :=
  List.filter_cons_of_neg (by simp [hc])

lemma inked_cons {c : Char} (hc : isBlank c = false) (cs : List Char) :
    inked (c :: cs) = c :: inked cs :=
  List.filter_cons_of_pos (by simp [hc])

lemma imbalance?_inked (cs : List Char) : ∀ depth,
    imbalance? depth (inked cs) = imbalance? depth cs := by
  induction cs with
  | nil => exact fun _ => rfl
  | cons c cs ih =>
    intro depth
    cases hc : isBlank c with
    | true =>
      obtain ⟨hopen, hclose, _⟩ := ne_paren_of_isBlank hc
      rw [inked_blank hc, imbalance?, if_neg hopen, if_neg hclose]
      exact ih depth
    | false =>
      rw [inked_cons hc, imbalance?, imbalance?]
      simp only [ih]

lemma map_keep_iff {c : Char} {r : Option (List Char × List Char)} :
    r.map (fun parts => (c :: parts.1, parts.2)) = some (c :: cs, []) ↔ r = some (cs, []) := by
  cases r <;> simp [Prod.ext_iff]

lemma noColon_inked (cs : List Char) : ∀ depth,
    splitSuffix? depth (inked cs) = some (inked cs, []) ↔
      splitSuffix? depth cs = some (cs, []) := by
  induction cs with
  | nil => exact fun _ => Iff.rfl
  | cons c cs ih =>
    intro depth
    cases hc : isBlank c with
    | true =>
      obtain ⟨hopen, hclose, hcolon⟩ := ne_paren_of_isBlank hc
      rw [inked_blank hc, ih]
      simp only [splitSuffix?, hopen, hclose, hcolon, false_and, if_false, map_keep_iff]
    | false =>
      rw [inked_cons hc]
      unfold splitSuffix?
      dsimp only
      split
      · rw [map_keep_iff, map_keep_iff, ih]
      · split
        · split
          · simp
          · rw [map_keep_iff, map_keep_iff, ih]
        · split
          · simp
          · rw [map_keep_iff, map_keep_iff, ih]

lemma imbalance?_append (h : imbalance? depth a = none) (b : List Char) :
    imbalance? depth (a ++ b) = imbalance? 0 b := by
  induction a generalizing depth with
  | nil =>
    obtain rfl : depth = 0 := by simpa [imbalance?] using h
    rfl
  | cons c a ih =>
    rw [imbalance?] at h
    rw [List.cons_append, imbalance?]
    split
    · rename_i hopen
      rw [if_pos hopen] at h
      exact ih h
    · rename_i hopen
      rw [if_neg hopen] at h
      split
      · rename_i hclose
        rw [if_pos hclose] at h
        split
        · rename_i hdepth
          simp [hdepth] at h
        · rename_i hdepth
          rw [if_neg hdepth] at h
          exact ih h
      · rename_i hclose
        rw [if_neg hclose] at h
        exact ih h

/-- Behind balanced text without a colon, the first colon is looked for as at the beginning. -/
lemma splitSuffix?_append (hbalanced : imbalance? depth a = none)
    (hcolon : splitSuffix? depth a = some (a, [])) (b : List Char) :
    splitSuffix? depth (a ++ b) =
      (splitSuffix? 0 b).map fun parts => (a ++ parts.1, parts.2) := by
  induction a generalizing depth with
  | nil =>
    obtain rfl : depth = 0 := by simpa [imbalance?] using hbalanced
    simp
  | cons c a ih =>
    rw [imbalance?] at hbalanced
    rw [splitSuffix?] at hcolon
    rw [List.cons_append, splitSuffix?]
    split
    · rename_i hopen
      rw [if_pos hopen] at hbalanced hcolon
      rw [ih hbalanced (map_keep_iff.1 hcolon), Option.map_map]
      rfl
    · rename_i hopen
      rw [if_neg hopen] at hbalanced hcolon
      split
      · rename_i hclose
        rw [if_pos hclose] at hbalanced hcolon
        split
        · rename_i hdepth
          simp [hdepth] at hbalanced
        · rename_i hdepth
          rw [if_neg hdepth] at hbalanced hcolon
          rw [ih hbalanced (map_keep_iff.1 hcolon), Option.map_map]
          rfl
      · rename_i hclose
        rw [if_neg hclose] at hbalanced hcolon
        split
        · rename_i htop
          simp [htop] at hcolon
        · rename_i htop
          rw [if_neg htop] at hcolon
          rw [ih hbalanced (map_keep_iff.1 hcolon), Option.map_map]
          rfl

lemma splitSuffix?_suffix (h : IsSuffix suffix) : splitSuffix? 0 suffix = some ([], suffix) := by
  rcases h.opens with rfl | hhead
  · rfl
  · obtain ⟨rest, rfl⟩ := List.head?_eq_some_iff.1 hhead
    rfl

/-- A text has only one such beginning. -/
lemma Parts.split (h : Parts text rules suffix) : splitSuffix? 0 text = some (rules, suffix) := by
  rw [h.eq, splitSuffix?_append h.rules.balanced h.rules.noColon, splitSuffix?_suffix h.suffix]
  simp

lemma isRules_nil : IsRules [] :=
  ⟨.inl rfl, rfl, rfl⟩

lemma isSuffix_nil : IsSuffix [] :=
  ⟨.inl rfl, rfl⟩

lemma IsRules.append (ha : IsRules a) (hb : IsRules b) : IsRules (a ++ b) where
  opens := by
    rcases ha.opens with rfl | hhead
    · exact hb.opens
    · exact .inr (by rw [List.head?_append, hhead, Option.some_or])
  balanced := by rw [imbalance?_append ha.balanced, hb.balanced]
  noColon := by rw [splitSuffix?_append ha.balanced ha.noColon, hb.noColon]; rfl

lemma IsSuffix.append (ha : IsSuffix a) (hb : IsSuffix b) : IsSuffix (a ++ b) where
  opens := by
    rcases ha.opens with rfl | hhead
    · exact hb.opens
    · exact .inr (by rw [List.head?_append, hhead, Option.some_or])
  balanced := by rw [imbalance?_append ha.balanced, hb.balanced]

/-- Only the inked characters and the first one matter for at-rules. -/
lemma IsRules.of_inked (h : IsRules a) (hinked : inked b = inked a)
    (hopens : b = [] ∨ b.head? = some '@') : IsRules b where
  opens := hopens
  balanced := by rw [← imbalance?_inked, hinked, imbalance?_inked, h.balanced]
  noColon := by rw [← noColon_inked, hinked, noColon_inked, h.noColon]

lemma inked_append (a b : List Char) : inked (a ++ b) = inked a ++ inked b :=
  List.filter_append ..

lemma inked_of_blanks (h : ∀ c ∈ a, isBlank c = true) : inked a = [] := by
  simpa [inked] using h

lemma inked_trimEnd (cs : List Char) : inked (trimEnd cs) = inked cs := by
  obtain ⟨blanks, heq, hblanks⟩ := trimEnd_append cs
  conv_rhs => rw [heq]
  rw [inked_append, inked_of_blanks hblanks, List.append_nil]

lemma inked_trim (cs : List Char) : inked (trim cs) = inked cs := by
  rw [trim, inked_trimEnd, trimStart]
  conv_rhs => rw [← List.takeWhile_append_dropWhile (p := isBlank) (l := cs)]
  rw [inked_append, inked_of_blanks fun c hc => List.all_eq_true.1 List.all_takeWhile c hc]
  rfl

lemma inked_writeTight (cs : List Char) : ∀ (written : List Char) (pending : Bool),
    inked (writeTight written pending cs) = inked written ++ inked cs := by
  have hspace : inked [' '] = [] := rfl
  induction cs with
  | nil => simp [writeTight, inked]
  | cons c cs ih =>
    intro written pending
    unfold writeTight
    split
    · rename_i hblank
      rw [ih, inked_blank hblank]
    · rename_i hblank
      have hcons := inked_cons (by simpa using hblank) cs
      have hone : inked [c] = [c] := inked_cons (by simpa using hblank) []
      split
      · rw [ih, inked_append, ← List.singleton_append, inked_append, hspace, hone, hcons]
        simp
      · rw [ih, inked_append, hone, hcons]
        simp

lemma inked_tightened (cs : List Char) : inked (tightened cs) = inked cs := by
  rw [tightened, inked_writeTight, inked_trim]
  rfl

lemma isRules_tightened (h : IsRules cs) : IsRules (tightened cs) := by
  refine h.of_inked (inked_tightened cs) ?_
  rcases h.opens with rfl | hhead
  · exact .inl rfl
  · exact .inr (head_tightened hhead)

lemma trimEnd_trimEnd (cs : List Char) : trimEnd (trimEnd cs) = trimEnd cs :=
  trimEnd_of_not_endsBlank (not_endsBlank_trimEnd cs)

lemma trimEnd_append_of_nil (h : trimEnd b = []) (a : List Char) :
    trimEnd (a ++ b) = trimEnd a := by
  have hb : b.reverse.dropWhile isBlank = [] := by simpa [trimEnd] using h
  rw [trimEnd, List.reverse_append, List.dropWhile_append, hb]
  rfl

lemma trimEnd_append_of_ne_nil (h : trimEnd b ≠ []) (a : List Char) :
    trimEnd (a ++ b) = a ++ trimEnd b := by
  have hb : b.reverse.dropWhile isBlank ≠ [] := by simpa [trimEnd] using h
  rw [trimEnd, List.reverse_append, List.dropWhile_append, if_neg (by simpa using hb),
    List.reverse_append, List.reverse_reverse, trimEnd]

lemma trimStart_of_head {c : Char} (hc : isBlank c = false) (h : cs.head? = some c) :
    trimStart cs = cs := by
  obtain ⟨rest, rfl⟩ := List.head?_eq_some_iff.1 h
  exact List.dropWhile_cons_of_neg (by simp [hc])

lemma head_trimEnd {c : Char} (hc : isBlank c = false) (h : cs.head? = some c) :
    (trimEnd cs).head? = some c := by
  obtain ⟨rest, rfl⟩ := List.head?_eq_some_iff.1 h
  have htrim := head_trim hc rest
  rwa [trim, trimStart_of_head hc rfl] at htrim

lemma isSuffix_trimEnd (h : IsSuffix cs) : IsSuffix (trimEnd cs) where
  opens := by
    rcases h.opens with rfl | hhead
    · exact .inl rfl
    · exact .inr (head_trimEnd (by decide) hhead)
  balanced := by rw [← imbalance?_inked, inked_trimEnd, imbalance?_inked, h.balanced]

lemma isRules_trimEnd (h : IsRules cs) : IsRules (trimEnd cs) := by
  refine h.of_inked (inked_trimEnd cs) ?_
  rcases h.opens with rfl | hhead
  · exact .inl rfl
  · exact .inr (head_trimEnd (by decide) hhead)

lemma tightened_trimEnd (h : IsRules cs) : tightened (trimEnd cs) = tightened cs := by
  rcases h.opens with rfl | hhead
  · rfl
  · have hat : isBlank '@' = false := by decide
    unfold tightened trim
    rw [trimStart_of_head hat (head_trimEnd hat hhead), trimStart_of_head hat hhead,
      trimEnd_trimEnd]

/-- Trimming takes blanks off the last part. -/
lemma Parts.trim (h : Parts text rules suffix) :
    ∃ rules', Parts (trim text) rules' (trimEnd suffix) ∧ tightened rules' = tightened rules ∧
      (rules' = [] ↔ rules = []) := by
  have hstart : trimStart text = text := by
    have hopens : text = [] ∨ text.head? = some '@' ∨ text.head? = some ':' := by
      rw [h.eq]
      rcases h.rules.opens with hnil | hhead
      · rw [hnil]
        exact h.suffix.opens.imp_right .inr
      · exact .inr (.inl (by rw [List.head?_append, hhead, Option.some_or]))
    rcases hopens with hnil | hhead | hhead
    · rw [hnil]
      rfl
    · exact trimStart_of_head (by decide) hhead
    · exact trimStart_of_head (by decide) hhead
  rw [Text.trim, hstart, h.eq]
  by_cases hend : trimEnd suffix = []
  · refine ⟨trimEnd rules, ⟨?_, isRules_trimEnd h.rules, isSuffix_trimEnd h.suffix⟩,
      tightened_trimEnd h.rules, ?_⟩
    · rw [trimEnd_append_of_nil hend, hend, List.append_nil]
    · rcases h.rules.opens with rfl | hhead
      · exact Iff.rfl
      · have htrim := head_trimEnd (by decide) hhead
        refine iff_of_false ?_ ?_ <;> rintro hnil
        · rw [hnil] at htrim
          cases htrim
        · rw [hnil] at hhead
          cases hhead
  · exact ⟨rules, ⟨trimEnd_append_of_ne_nil hend rules, h.rules, isSuffix_trimEnd h.suffix⟩, rfl,
      Iff.rfl⟩

lemma checkBalanced_eq_ok (h : imbalance? 0 cs = none) : checkBalanced cs = .ok () := by
  unfold checkBalanced
  rw [h]

lemma parseText_of_parts (h : Parts (Text.trim text) rules suffix) {c : Condition} :
    parseText text = .ok c ↔ (rules = [] ∨ 1 < (tightened rules).length) ∧
      c = ⟨textOf? suffix, textOf? (tightened rules)⟩ := by
  have hsplit := h.split
  unfold parseText
  split
  · rename_i hnil
    obtain ⟨rfl, rfl⟩ := List.append_eq_nil_iff.1 (h.eq.symm.trans hnil)
    exact ⟨fun hok => ⟨.inl rfl, (Except.ok.inj hok).symm⟩, fun hc => congrArg Except.ok hc.2.symm⟩
  · rename_i rest hat
    rw [hat] at hsplit
    have hrules : rules.head? = some '@' := head_splitSuffix? hsplit
    have hne : rules ≠ [] := by
      rintro rfl
      cases hrules
    have htight : (tightened rules).isEmpty = false := by
      cases htight : tightened rules with
      | nil =>
        have hhead := head_tightened hrules
        rw [htight] at hhead
        cases hhead
      | cons => rfl
    dsimp only
    rw [hsplit]
    dsimp only [bind, Except.bind]
    rw [checkBalanced_eq_ok h.rules.balanced, checkBalanced_eq_ok h.suffix.balanced]
    dsimp only
    split
    · rename_i hshort
      simp [hne, Nat.not_lt.2 hshort]
    · rename_i hlong
      have hrule : textOf? (tightened rules) = some (String.ofList (tightened rules)) := by
        unfold textOf?
        rw [htight]
        rfl
      rw [hrule]
      exact ⟨fun hok => ⟨.inr (Nat.not_le.1 hlong), (Except.ok.inj hok).symm⟩,
        fun hc => congrArg Except.ok hc.2.symm⟩
  · rename_i hnil hat
    have hrules : rules = [] := by
      refine h.rules.opens.resolve_right fun hhead => ?_
      obtain ⟨rest, hrest⟩ := List.head?_eq_some_iff.1 hhead
      exact hat (rest ++ suffix) (by rw [h.eq, hrest]; rfl)
    have hsuffix : Text.trim text = suffix := by rw [h.eq, hrules]; rfl
    have hread : textOf? suffix = some (String.ofList suffix) := by
      unfold textOf?
      rw [if_neg (by simpa [← hsuffix] using hnil)]
    rw [hsuffix, hread, hrules]
    dsimp only [bind, Except.bind]
    rw [checkBalanced_eq_ok h.suffix.balanced]
    exact ⟨fun hok => ⟨.inl rfl, (Except.ok.inj hok).symm⟩, fun hc => congrArg Except.ok hc.2.symm⟩

end

/-- A condition in two parts is read as these, up to blanks; a bare `@` is no rule. -/
lemma parse_of_parts {written : String} {rules suffix : List Char}
    (h : Parts written.toList rules suffix) {c : Condition} :
    parse written = .ok c ↔ (rules = [] ∨ 1 < (tightened rules).length) ∧
      c = ⟨textOf? (trimEnd suffix), textOf? (tightened rules)⟩ := by
  obtain ⟨rules', hparts, htight, hnil⟩ := h.trim
  unfold parse
  rw [parseText_of_parts hparts, htight, hnil]

/-- A text that can be taken apart. -/
def IsParted (text : String) : Prop :=
  ∃ rules suffix, Parts text.toList rules suffix

/-- A pseudo-element as a text: balanced, with no blanks behind it. -/
structure IsPseudo (pseudo : List Char) : Prop where
  opens : pseudo.head? = some ':'
  balanced : imbalance? 0 pseudo = none
  trimmed : trimEnd pseudo = pseudo

/-- The condition with a pseudo-element between its at-rules and its suffix. -/
def withPseudo (pseudo text : String) : String :=
  match splitSuffix? 0 text.toList with
  | some (rules, suffix) => String.ofList (rules ++ (pseudo.toList ++ suffix))
  | none => text

section

variable {pseudo text parent key : String} {rules suffix : List Char}

lemma toList_withPseudo (h : Parts text.toList rules suffix) :
    (withPseudo pseudo text).toList = rules ++ (pseudo.toList ++ suffix) := by
  unfold withPseudo
  rw [h.split, String.toList_ofList]

lemma withPseudo_eq_of_toList {other : String} (h : Parts text.toList rules suffix)
    (hother : other.toList = rules ++ (pseudo.toList ++ suffix)) : other = withPseudo pseudo text :=
  String.toList_injective (hother.trans (toList_withPseudo h).symm)

lemma isParted_empty : IsParted "" :=
  ⟨[], [], rfl, isRules_nil, isSuffix_nil⟩

lemma withPseudo_empty (pseudo : String) : withPseudo pseudo "" = pseudo := by
  unfold withPseudo
  simp [splitSuffix?]

variable (hpseudo : IsPseudo pseudo.toList)

include hpseudo

lemma isSuffix_pseudo_append (h : IsSuffix suffix) : IsSuffix (pseudo.toList ++ suffix) :=
  IsSuffix.append ⟨.inr hpseudo.opens, hpseudo.balanced⟩ h

lemma Parts.withPseudo (h : Parts text.toList rules suffix) :
    Parts (withPseudo pseudo text).toList rules (pseudo.toList ++ suffix) :=
  ⟨toList_withPseudo h, h.rules, isSuffix_pseudo_append hpseudo h.suffix⟩

lemma trimEnd_pseudo_append (suffix : List Char) :
    trimEnd (pseudo.toList ++ suffix) = pseudo.toList ++ trimEnd suffix := by
  by_cases hend : trimEnd suffix = []
  · rw [trimEnd_append_of_nil hend, hend, hpseudo.trimmed, List.append_nil]
  · rw [trimEnd_append_of_ne_nil hend]

/-- Both parts can be told from the whole, so the whole tells the text that it was made from. -/
lemma withPseudo_inj {other : String} (htext : IsParted text) (hother : IsParted other)
    (h : AtomicCss.Proofs.withPseudo pseudo text = AtomicCss.Proofs.withPseudo pseudo other) :
    text = other := by
  obtain ⟨rules, suffix, htext⟩ := htext
  obtain ⟨rules', suffix', hother⟩ := hother
  have hsplit := (htext.withPseudo hpseudo).split
  rw [h, (hother.withPseudo hpseudo).split] at hsplit
  obtain ⟨rfl, hsuffix⟩ := Prod.mk.inj (Option.some.inj hsplit)
  obtain rfl := List.append_cancel_left hsuffix
  exact String.toList_injective (htext.eq.trans hother.eq.symm)

/-- Reading a condition with a pseudo-element in it gives the same at-rules, and the suffix behind
the pseudo-element. Canonical texts are related as the written ones are. -/
lemma parse_withPseudo (htext : IsParted text) {c : Condition} (h : parse text = .ok c) :
    ∃ d, parse (withPseudo pseudo text) = .ok d ∧ d.atRule = c.atRule ∧
      suffixBehind (some pseudo) c.suffix = d.suffix ∧ IsParted c.key ∧
      d.key = withPseudo pseudo c.key := by
  obtain ⟨rules, suffix, htext⟩ := htext
  obtain ⟨hlong, rfl⟩ := (parse_of_parts htext).1 h
  refine ⟨_, (parse_of_parts (htext.withPseudo hpseudo)).2 ⟨hlong, rfl⟩, rfl, ?_, ?_⟩
  · rw [trimEnd_pseudo_append hpseudo]
    unfold textOf?
    have hne : pseudo.toList ≠ [] := by
      intro hnil
      have hopens := hpseudo.opens
      rw [hnil] at hopens
      cases hopens
    cases hend : trimEnd suffix <;> simp [suffixBehind, hne, String.ofList_append]
  · have hkey : ∀ s : List Char, (Condition.key ⟨textOf? s, textOf? (tightened rules)⟩).toList =
        tightened rules ++ s := by
      intro s
      rw [Condition.key, String.toList_append, toList_textOf?, toList_textOf?]
    have hparts : Parts (Condition.key ⟨textOf? (trimEnd suffix),
        textOf? (tightened rules)⟩).toList (tightened rules) (trimEnd suffix) :=
      ⟨hkey _, isRules_tightened htext.rules, isSuffix_trimEnd htext.suffix⟩
    refine ⟨⟨_, _, hparts⟩, withPseudo_eq_of_toList hparts ?_⟩
    rw [hkey, trimEnd_pseudo_append hpseudo]

omit hpseudo in
lemma join_of_head {c : Char} (hc : c ≠ 'd') (h : key.toList.head? = some c) (parent : String) :
    join parent key = parent ++ key := by
  unfold join
  refine if_neg ?_
  rintro rfl
  exact hc (Option.some.inj h).symm

omit hpseudo in
/-- An at-rule is put between the parts of what it is composed with. -/
lemma compose_rule (hparent : Parts parent.toList rules suffix) (h : key.toList.head? = some '@')
    {condition : String} : compose parent key = .ok condition ↔
      (rules = [] ∨ 1 < (tightened rules).length) ∧
        condition.toList = tightened rules ++ key.toList ++ trimEnd suffix := by
  have htext : ∀ result : String, result.toList = tightened rules ++ key.toList ++ trimEnd suffix →
      (condition = result ↔
        condition.toList = tightened rules ++ key.toList ++ trimEnd suffix) := by
    intro result hresult
    rw [← hresult, String.toList_inj]
  unfold compose
  by_cases hempty : parent = ""
  · subst hempty
    obtain ⟨rfl, rfl⟩ := List.append_eq_nil_iff.1 hparent.eq.symm
    rw [if_neg (by simp), join_of_head (by decide) h]
    rw [← htext ("" ++ key) (by simp [tightened, trim, trimStart, trimEnd, writeTight])]
    simp [eq_comm]
  · rw [if_pos (by simp [h, hempty])]
    constructor
    · intro hcompose
      obtain ⟨c, hparse, rfl⟩ := map_eq_ok hcompose
      obtain ⟨hlong, rfl⟩ := (parse_of_parts hparent).1 hparse
      refine ⟨hlong, ?_⟩
      simp only [String.toList_append, toList_textOf?]
    · rintro ⟨hlong, hcondition⟩
      rw [(parse_of_parts hparent).2 ⟨hlong, rfl⟩]
      refine congrArg Except.ok (String.toList_injective ?_)
      simp only [String.toList_append, toList_textOf?, hcondition]

/-- Composing a plain key gives the same condition with the pseudo-element as without it. -/
lemma compose_withPseudo (hparent : IsParted parent) (hkey : PlainKey key) {condition : String}
    (h : compose parent key = .ok condition) :
    IsParted condition ∧
      compose (withPseudo pseudo parent) key = .ok (withPseudo pseudo condition) := by
  obtain ⟨rules, suffix, hparent⟩ := hparent
  have hnormal : key.toList.head? ≠ some '@' →
      ∀ parent, compose parent key = .ok (join parent key) := by
    intro hhead parent
    unfold compose
    rw [if_neg (by simp [hhead])]
  cases hkey with
  | default =>
    rw [hnormal (by decide)] at h ⊢
    cases h
    exact ⟨⟨rules, suffix, hparent⟩, rfl⟩
  | pseudo hhead hbalanced =>
    have hjoin : ∀ parent, join parent key = parent ++ key := join_of_head (by decide) hhead
    rw [hnormal (by simp [hhead]), hjoin] at h ⊢
    cases h
    have hparts : Parts (parent ++ key).toList rules (suffix ++ key.toList) :=
      ⟨by rw [String.toList_append, hparent.eq, List.append_assoc], hparent.rules,
        hparent.suffix.append ⟨.inr hhead, hbalanced⟩⟩
    refine ⟨⟨_, _, hparts⟩, congrArg Except.ok (withPseudo_eq_of_toList hparts ?_)⟩
    rw [String.toList_append, toList_withPseudo hparent]
    simp
  | rule hhead hbalanced hcolon =>
    obtain ⟨hlong, hcondition⟩ := (compose_rule hparent hhead).1 h
    have hparts : Parts condition.toList (tightened rules ++ key.toList) (trimEnd suffix) :=
      ⟨hcondition, (isRules_tightened hparent.rules).append ⟨.inr hhead, hbalanced, hcolon⟩,
        isSuffix_trimEnd hparent.suffix⟩
    refine ⟨⟨_, _, hparts⟩, (compose_rule (hparent.withPseudo hpseudo) hhead).2 ⟨hlong, ?_⟩⟩
    rw [toList_withPseudo hparts, trimEnd_pseudo_append hpseudo]

end

end AtomicCss.Proofs
