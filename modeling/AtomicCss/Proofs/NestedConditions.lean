import AtomicCss.Proofs.PseudoElementScope
import AtomicCss.Proofs.TightRules

/-!
# Conditions nested in each other

A path of keys composes to one condition. Its at-rules are those of the keys in nesting order. Its
suffix begins with the suffixes of the keys that have at-rules of their own, the innermost first,
because such a key is put in front as a whole; behind them stand the other suffixes in nesting order.
-/

namespace AtomicCss.Proofs

open Condition Declaration Text

/-- A key that means a condition: the default, a pseudo-class or pseudo-element, or at-rules that
may have a suffix. A bare `@` is refused. -/
structure IsConditionKey (key : String) : Prop where
  kind : (ConditionKind.ofKey? key).isSome
  trimmed : trim key.toList = key.toList
  balanced : imbalance? 0 key.toList = none
  named : parse key ≠ .error (.invalidSelector key .emptyAtRule)

instance : DecidablePred IsConditionKey := fun key =>
  decidable_of_iff ((ConditionKind.ofKey? key).isSome ∧ trim key.toList = key.toList ∧
      imbalance? 0 key.toList = none ∧ parse key ≠ .error (.invalidSelector key .emptyAtRule))
    ⟨fun ⟨hkind, htrim, hbalanced, hnamed⟩ => ⟨hkind, htrim, hbalanced, hnamed⟩,
      fun h => ⟨h.kind, h.trimmed, h.balanced, h.named⟩⟩

/-- The condition that a key means on its own; the default key means none. -/
def ownCondition (key : String) : Condition :=
  if key = defaultKey then ⟨none, none⟩ else (parse key).toOption.getD ⟨none, none⟩

def ruleText (key : String) : List Char :=
  ((ownCondition key).atRule.getD "").toList

def suffixText (key : String) : List Char :=
  ((ownCondition key).suffix.getD "").toList

def hasRules (key : String) : Bool :=
  (ownCondition key).atRule.isSome

/-- The at-rules of the keys, the outermost first. -/
def rulesOf (path : List String) : List Char :=
  path.flatMap ruleText

/-- The suffixes of the keys, the outermost first. -/
def suffixesOf (path : List String) : List Char :=
  path.flatMap suffixText

/-- The suffixes as they are composed: those that come with at-rules in front, the innermost
first. -/
def nestedSuffix (path : List String) : List Char :=
  suffixesOf (path.filter hasRules).reverse ++ suffixesOf (path.filter (!hasRules ·))

/-- No key with at-rules and a suffix is nested in a suffix. -/
def KeepsOrder (path : List String) : Prop :=
  path.Pairwise fun outer inner =>
    suffixText outer = [] ∨ hasRules inner = false ∨ suffixText inner = []

/-- A text that is read as these at-rules with this suffix. -/
structure Stands (text : String) (rules suffix : List Char) : Prop where
  parts : ∃ written, Parts text.toList written suffix ∧ tightened written = rules ∧
    (written = [] ∨ 1 < rules.length)
  trimmed : trimEnd suffix = suffix

section

variable {key parent text condition : String} {path : List String}
variable {rules suffix cs : List Char}

/-- Balanced text is balanced in front of its first colon outside parentheses. -/
lemma exists_split_of_balanced {depth : Nat} (h : imbalance? depth cs = none) :
    ∃ front back, splitSuffix? depth cs = some (front, back) ∧ cs = front ++ back ∧
      splitSuffix? depth front = some (front, []) ∧ imbalance? depth front = none ∧
      (back = [] ∨ back.head? = some ':') := by
  induction cs generalizing depth with
  | nil => exact ⟨[], [], rfl, rfl, rfl, h, .inl rfl⟩
  | cons c cs ih =>
    -- unless the text is split here, the character is kept and the scan goes on at some depth
    have hkeep : ∀ inner : Nat, (∀ rest, imbalance? depth (c :: rest) = imbalance? inner rest) →
        (∀ rest, splitSuffix? depth (c :: rest) =
          (splitSuffix? inner rest).map fun parts => (c :: parts.1, parts.2)) →
        ∃ front back, splitSuffix? depth (c :: cs) = some (front, back) ∧
          c :: cs = front ++ back ∧ splitSuffix? depth front = some (front, []) ∧
          imbalance? depth front = none ∧ (back = [] ∨ back.head? = some ':') := by
      intro inner hbalance hsplit
      obtain ⟨front, back, hfound, rfl, hfront, hbalanced, hback⟩ := ih ((hbalance cs).symm.trans h)
      refine ⟨c :: front, back, ?_, rfl, ?_, ?_, hback⟩
      · rw [hsplit, hfound]
        rfl
      · rw [hsplit, hfront]
        rfl
      · rw [hbalance, hbalanced]
    by_cases hopen : c = '('
    · exact hkeep (depth + 1) (fun _ => by rw [imbalance?, if_pos hopen])
        fun _ => by rw [splitSuffix?, if_pos hopen]
    by_cases hclose : c = ')'
    · by_cases hdepth : depth = 0
      · rw [imbalance?, if_neg hopen, if_pos hclose, if_pos hdepth] at h
        cases h
      · exact hkeep (depth - 1)
          (fun _ => by rw [imbalance?, if_neg hopen, if_pos hclose, if_neg hdepth])
          fun _ => by rw [splitSuffix?, if_neg hopen, if_pos hclose, if_neg hdepth]
    by_cases htop : c = ':' ∧ depth = 0
    · refine ⟨[], c :: cs, ?_, rfl, ?_, ?_, .inr (congrArg some htop.1)⟩
      · rw [splitSuffix?, if_neg hopen, if_neg hclose, if_pos htop]
      · rfl
      · rw [htop.2]
        rfl
    · exact hkeep depth (fun _ => by rw [imbalance?, if_neg hopen, if_neg hclose])
        fun _ => by rw [splitSuffix?, if_neg hopen, if_neg hclose, if_neg htop]

lemma head_of_kind (hkind : (ConditionKind.ofKey? key).isSome) (hne : key ≠ defaultKey) :
    key.toList.head? = some ':' ∨ key.toList.head? = some '@' := by
  unfold ConditionKind.ofKey? at hkind
  rw [if_neg hne] at hkind
  split at hkind
  · rename_i heq
    exact .inl (by rw [heq]; rfl)
  · rename_i heq
    exact .inl (by rw [heq]; rfl)
  · rename_i heq
    exact .inr (by rw [heq]; rfl)
  · cases hkind

/-- A balanced text that begins a condition can be taken apart. -/
lemma exists_parts_of_balanced (hopens : cs.head? = some ':' ∨ cs.head? = some '@')
    (h : imbalance? 0 cs = none) : ∃ rules suffix, Parts cs rules suffix := by
  rcases hopens with hhead | hhead
  · exact ⟨[], cs, rfl, isRules_nil, .inr hhead, h⟩
  · obtain ⟨rules, suffix, hsplit, heq, hcolon, hbalanced, hback⟩ := exists_split_of_balanced h
    obtain ⟨rest, rfl⟩ := List.head?_eq_some_iff.1 hhead
    refine ⟨rules, suffix, heq, ⟨.inr (head_splitSuffix? hsplit), hbalanced, hcolon⟩, hback, ?_⟩
    rw [← h, heq, imbalance?_append hbalanced]

/-- The only fault of a text in two parts is that its at-rule is a bare `@`. -/
lemma parse_of_bare (h : Parts text.toList rules suffix) (htrim : trim text.toList = text.toList)
    (hne : rules ≠ []) (hbare : (tightened rules).length ≤ 1) :
    parse text = .error (.invalidSelector text .emptyAtRule) := by
  have hhead : text.toList.head? = some '@' := by
    rw [h.eq, List.head?_append, h.rules.opens.resolve_left hne, Option.some_or]
  have hsplit := h.split
  unfold parse parseText
  rw [htrim]
  split
  · rename_i hnil
    rw [hnil] at hhead
    cases hhead
  · rename_i rest hrest
    rw [hrest] at hsplit
    dsimp only
    rw [hsplit]
    dsimp only [bind, Except.bind]
    rw [checkBalanced_eq_ok h.rules.balanced, checkBalanced_eq_ok h.suffix.balanced]
    dsimp only
    rw [if_pos hbare, ← hrest, String.ofList_toList]
  · rename_i hat
    obtain ⟨rest, hrest⟩ := List.head?_eq_some_iff.1 hhead
    exact (hat rest hrest).elim

lemma Stands.parse (h : Stands text rules suffix) :
    Condition.parse text = .ok ⟨textOf? suffix, textOf? rules⟩ := by
  obtain ⟨written, hparts, rfl, hlong⟩ := h.parts
  rw [(parse_of_parts hparts).2 ⟨hlong, rfl⟩, h.trimmed]

lemma stands_empty : Stands "" [] [] :=
  ⟨⟨[], ⟨rfl, isRules_nil, isSuffix_nil⟩, rfl, .inl rfl⟩, rfl⟩

lemma Parts.trimEnd_suffix (h : Parts cs rules suffix) (htrim : Text.trim cs = cs) :
    trimEnd suffix = suffix := by
  by_cases hnil : suffix = []
  · rw [hnil]
    rfl
  · refine trimEnd_of_not_endsBlank fun ⟨d, hd, hblank⟩ => ?_
    have hend : EndsBlank (Text.trim cs) :=
      ⟨d, by rwa [htrim, h.eq, List.getLast?_append_of_ne_nil rules hnil], hblank⟩
    exact not_endsBlank_trimEnd _ hend

/-- The written parts of a key other than the default. -/
lemma IsConditionKey.parts (h : IsConditionKey key) (hne : key ≠ defaultKey) :
    ∃ written, Parts key.toList written (suffixText key) ∧ tightened written = ruleText key ∧
      trimEnd (suffixText key) = suffixText key ∧ (hasRules key = true ↔ written ≠ []) ∧
      (written = [] ∨ 1 < (ruleText key).length) := by
  obtain ⟨rules, suffix, hparts⟩ := exists_parts_of_balanced (head_of_kind h.kind hne) h.balanced
  have hlong : rules = [] ∨ 1 < (tightened rules).length := by
    by_contra hbare
    obtain ⟨hnil, hbare⟩ := not_or.1 hbare
    exact h.named (parse_of_bare hparts h.trimmed hnil (Nat.not_lt.1 hbare))
  have hlast := hparts.trimEnd_suffix h.trimmed
  have hown : ownCondition key = ⟨textOf? suffix, textOf? (tightened rules)⟩ := by
    unfold ownCondition
    rw [if_neg hne, (parse_of_parts hparts).2 ⟨hlong, rfl⟩, hlast]
    rfl
  have hrule : ruleText key = tightened rules := by rw [ruleText, hown, toList_textOf?]
  have hsuffix : suffixText key = suffix := by rw [suffixText, hown, toList_textOf?]
  have hhas : hasRules key = true ↔ rules ≠ [] := by
    unfold hasRules
    rw [hown]
    rcases hlong with rfl | hlong
    · exact iff_of_false Bool.false_ne_true (by simp)
    · have hne : tightened rules ≠ [] := List.ne_nil_of_length_pos (by omega)
      refine iff_of_true (by simp [textOf?, hne]) ?_
      rintro rfl
      exact hne rfl
  rw [hrule, hsuffix]
  exact ⟨rules, hparts, rfl, hlast, hhas, hlong⟩

lemma default_texts : ruleText defaultKey = [] ∧ suffixText defaultKey = [] ∧
    hasRules defaultKey = false := by
  decide

lemma trimEnd_append_of_trimmed (ha : trimEnd suffix = suffix) (hb : trimEnd cs = cs) :
    trimEnd (suffix ++ cs) = suffix ++ cs := by
  by_cases hnil : cs = []
  · rw [hnil, List.append_nil, ha]
  · rw [trimEnd_append_of_ne_nil (by rwa [hb]), hb]

/-- A pseudo key goes behind the suffix. -/
lemma Stands.compose_pseudo (h : Stands parent rules suffix) (hhead : key.toList.head? = some ':')
    (hkey : IsSuffix key.toList) (htrim : trimEnd key.toList = key.toList) :
    compose parent key = .ok (parent ++ key) ∧
      Stands (parent ++ key) rules (suffix ++ key.toList) := by
  obtain ⟨written, hparts, htight, hlong⟩ := h.parts
  refine ⟨?_, ⟨written, ⟨?_, hparts.rules, hparts.suffix.append hkey⟩, htight, hlong⟩,
    trimEnd_append_of_trimmed h.trimmed htrim⟩
  · unfold compose
    rw [if_neg (by simp [hhead]), join_of_head (by decide) hhead]
  · rw [String.toList_append, hparts.eq, List.append_assoc]

/-- A key with at-rules goes between the at-rules and the suffix, as a whole. -/
lemma Stands.compose_rules (h : Stands parent rules suffix) {written own : List Char}
    (hkey : Parts key.toList written own) (hne : written ≠ [])
    (hnamed : 1 < (tightened written).length) (htrim : trimEnd own = own) :
    ∃ condition, compose parent key = .ok condition ∧
      Stands condition (rules ++ tightened written) (own ++ suffix) := by
  obtain ⟨outer, hparts, rfl, hlong⟩ := h.parts
  have hhead : written.head? = some '@' := hkey.rules.opens.resolve_left hne
  have hkeyHead : key.toList.head? = some '@' := by
    rw [hkey.eq, List.head?_append, hhead, Option.some_or]
  obtain ⟨condition, hcondition⟩ : ∃ condition : String,
      condition.toList = tightened outer ++ key.toList ++ trimEnd suffix :=
    ⟨String.ofList _, String.toList_ofList⟩
  refine ⟨condition, (compose_rule hparts hkeyHead).2 ⟨hlong, hcondition⟩,
    ⟨tightened outer ++ written, ⟨?_, (isRules_tightened hparts.rules).append hkey.rules,
      hkey.suffix.append hparts.suffix⟩, tightened_append hparts.rules.opens hhead, ?_⟩,
    trimEnd_append_of_trimmed htrim h.trimmed⟩
  · rw [hcondition, hkey.eq, h.trimmed]
    simp only [List.append_assoc]
  · rw [List.length_append]
    omega

/-- What a key adds to a condition: at-rules behind the at-rules, and its suffix in front of the
suffix if it has at-rules, behind it if not. -/
lemma Stands.compose (h : Stands parent rules suffix) (hkey : IsConditionKey key) :
    ∃ condition, Declaration.compose parent key = .ok condition ∧
      Stands condition (rules ++ ruleText key)
        (if hasRules key then suffixText key ++ suffix else suffix ++ suffixText key) := by
  by_cases hdefault : key = defaultKey
  · subst hdefault
    obtain ⟨hrule, hsuffix, hhas⟩ := default_texts
    refine ⟨parent, rfl, ?_⟩
    rw [hrule, hsuffix, hhas, if_neg (by decide), List.append_nil, List.append_nil]
    exact h
  · obtain ⟨written, hown, hrule, hlast, hhas, hnamed⟩ := hkey.parts hdefault
    rw [← hrule] at hnamed ⊢
    by_cases hnil : written = []
    · subst hnil
      have heq : key.toList = suffixText key := hown.eq
      have hhead : key.toList.head? = some ':' := by
        refine (head_of_kind hkey.kind hdefault).resolve_right fun hat => ?_
        rw [heq] at hat
        rcases hown.suffix.opens with hempty | hcolon
        · rw [hempty] at hat
          cases hat
        · rw [hcolon] at hat
          cases hat
      have hnone : rules ++ tightened [] = rules := List.append_nil rules
      rw [if_neg (by simp [hhas]), hnone, ← heq]
      rw [← heq] at hlast
      exact ⟨_, h.compose_pseudo hhead (heq ▸ hown.suffix) hlast⟩
    · rw [if_pos (hhas.2 hnil)]
      exact h.compose_rules hown hnil (hnamed.resolve_left hnil) hlast

lemma suffixesOf_cons (key : String) (path : List String) :
    suffixesOf (key :: path) = suffixText key ++ suffixesOf path :=
  List.flatMap_cons

lemma suffixesOf_append (path more : List String) :
    suffixesOf (path ++ more) = suffixesOf path ++ suffixesOf more :=
  List.flatMap_append

/-- Composing a path puts its parts around those of the parent. -/
lemma Stands.composed (h : Stands parent rules suffix) (hpath : ∀ key ∈ path, IsConditionKey key) :
    ∃ condition, Proofs.composed parent path = .ok condition ∧
      Stands condition (rules ++ rulesOf path) (suffixesOf (path.filter hasRules).reverse ++
        (suffix ++ suffixesOf (path.filter (!hasRules ·)))) := by
  induction path generalizing parent rules suffix with
  | nil =>
    refine ⟨parent, rfl, ?_⟩
    simpa [rulesOf, suffixesOf] using h
  | cons key path ih =>
    obtain ⟨deeper, hcompose, hdeeper⟩ := h.compose (hpath key List.mem_cons_self)
    obtain ⟨condition, hcomposed, hstands⟩ := ih hdeeper fun other hother =>
      hpath other (List.mem_cons_of_mem _ hother)
    refine ⟨condition, by rw [composed_cons_of_eq hcompose, hcomposed], ?_⟩
    have hrules : rules ++ rulesOf (key :: path) = rules ++ ruleText key ++ rulesOf path := by
      rw [rulesOf, List.flatMap_cons, List.append_assoc]
      rfl
    rw [hrules]
    cases hhas : hasRules key with
    | true =>
      rw [hhas, if_pos rfl] at hstands
      rw [List.filter_cons_of_pos hhas, List.filter_cons_of_neg (by simp [hhas]),
        List.reverse_cons, suffixesOf_append, suffixesOf_cons]
      simpa [suffixesOf] using hstands
    | false =>
      rw [hhas, if_neg (by decide)] at hstands
      rw [List.filter_cons_of_neg (by simp [hhas]), List.filter_cons_of_pos (by simp [hhas]),
        suffixesOf_cons]
      simpa using hstands

lemma KeepsOrder.nestedSuffix_eq (h : KeepsOrder path) : nestedSuffix path = suffixesOf path := by
  induction path with
  | nil => rfl
  | cons key path ih =>
    obtain ⟨hkey, hpath⟩ := List.pairwise_cons.1 h
    have hrest := ih hpath
    unfold nestedSuffix at hrest ⊢
    rw [suffixesOf_cons, ← hrest]
    -- the key or what is put in front of it has no suffix
    have hfront : suffixText key = [] ∨ suffixesOf (path.filter hasRules).reverse = [] := by
      refine or_iff_not_imp_left.2 fun hne => List.flatMap_eq_nil_iff.2 fun inner hinner => ?_
      obtain ⟨hmem, hrules⟩ := List.mem_filter.1 (List.mem_reverse.1 hinner)
      rcases (hkey inner hmem).resolve_left hne with hnone | hnone
      · rw [hrules] at hnone
        cases hnone
      · exact hnone
    cases hhas : hasRules key with
    | true =>
      rw [List.filter_cons_of_pos hhas, List.filter_cons_of_neg (by simp [hhas]),
        List.reverse_cons, suffixesOf_append, suffixesOf_cons, List.append_assoc]
      rcases hfront with hnil | hnil
      · rw [hnil]
        rfl
      · rw [hnil, suffixesOf, List.flatMap_nil, List.append_nil]
        rfl
    | false =>
      rw [List.filter_cons_of_neg (by simp [hhas]), List.filter_cons_of_pos (by simp [hhas]),
        suffixesOf_cons]
      rcases hfront with hnil | hnil <;> rw [hnil] <;> rfl

/-- The leaf at the end of a path has the at-rules and the suffixes of its keys. -/
def Composes (path : List String) (condition : String) : Prop :=
  composed "" path = .ok condition ∧
    parse condition = .ok ⟨textOf? (nestedSuffix path), textOf? (rulesOf path)⟩

lemma exists_composes (hpath : ∀ key ∈ path, IsConditionKey key) :
    ∃ condition, Composes path condition := by
  obtain ⟨condition, hcomposed, hstands⟩ := stands_empty.composed hpath
  exact ⟨condition, hcomposed, hstands.parse⟩

end

mutual

/-- A value that is none, or a set of conditions with nothing but such values. -/
def NestsValue : Value → Prop
  | .map entries => isConditionMap entries = true ∧ NestsConditions entries
  | _ => True

/-- A map whose keys are conditions, at every depth. -/
def NestsConditions : List (String × Value) → Prop
  | [] => True
  | (key, value) :: rest => IsConditionKey key ∧ NestsValue value ∧ NestsConditions rest

end

section

variable {parent condition : String} {rules suffix : List Char} {value : Value}
variable {map : List (String × Value)}

-- the induction is on the nested maps
mutual

lemma nestsValue_spec : ∀ {value : Value} {condition : String} {rules suffix : List Char},
    Stands condition rules suffix → NestsValue value →
    FitsUnder condition value ∧ ∀ leaf ∈ leafPaths value, ∀ key ∈ leaf.1, IsConditionKey key
  | .map entries, condition, rules, suffix, hstands, h => by
    obtain ⟨hmap, hentries⟩ := h
    obtain ⟨hflattens, hkeys⟩ := nestsConditions_spec hstands hentries
    exact ⟨⟨hmap, hflattens⟩, hkeys⟩
  | .unset, condition, rules, suffix, hstands, _
  | .scalar _, condition, rules, suffix, hstands, _
  | .fallback _, condition, rules, suffix, hstands, _
  | .firstThatWorks _, condition, rules, suffix, hstands, _ => by
    refine ⟨⟨_, hstands.parse⟩, fun leaf hleaf => ?_⟩
    rw [List.mem_singleton.1 hleaf]
    exact List.forall_mem_nil _

lemma nestsConditions_spec : ∀ {map : List (String × Value)} {parent : String}
    {rules suffix : List Char}, Stands parent rules suffix → NestsConditions map →
    Flattens parent map ∧ ∀ leaf ∈ leafPathsIn map, ∀ key ∈ leaf.1, IsConditionKey key
  | [], parent, rules, suffix, hstands, _ =>
    ⟨flattens_iff.2 (List.forall_mem_nil _), List.forall_mem_nil _⟩
  | (key, value) :: rest, parent, rules, suffix, hstands, h => by
    obtain ⟨hkey, hvalue, hrest⟩ := h
    obtain ⟨hflattens, hkeys⟩ := nestsConditions_spec hstands hrest
    obtain ⟨condition, hcompose, hdeeper⟩ := hstands.compose hkey
    obtain ⟨hfits, hbelow⟩ := nestsValue_spec hdeeper hvalue
    refine ⟨flattens_iff.2 (List.forall_mem_cons.2
      ⟨⟨hkey.kind, condition, hcompose, hfits⟩, flattens_iff.1 hflattens⟩), fun leaf hleaf => ?_⟩
    rw [leafPathsIn] at hleaf
    rcases List.mem_append.1 hleaf with hleaf | hleaf
    · obtain ⟨below, hmem, rfl⟩ := List.mem_map.1 hleaf
      exact List.forall_mem_cons.2 ⟨hkey, hbelow below hmem⟩
    · exact hkeys leaf hleaf

end

/-- A map of conditions flattens. What is found at the end of a path stands under the condition of
its keys; of leaves under one condition the last is kept. -/
lemma flatten_of_nests (definition property : String) (h : NestsConditions map) :
    ∃ found : List (String × Leaf), List.Forall₂
        (fun leaf item => item.2.value = leaf.2 ∧ Composes leaf.1 item.2.condition)
        (leafPathsIn map) found ∧
      flatten definition property map = .ok ((lastOfEach found).map Prod.snd) := by
  obtain ⟨hflattens, hkeys⟩ := nestsConditions_spec stands_empty h
  have hok : ∃ leaves, flatten definition property map = .ok leaves :=
    exists_flatten_iff.2 hflattens
  obtain ⟨leaves, hleaves⟩ := hok
  obtain ⟨found, hfound, rfl⟩ := found_of_flatten hleaves
  refine ⟨found, ?_, hleaves⟩
  refine ((List.forall₂_and_left _ _).2 ⟨hkeys, hfound⟩).imp fun leaf item hitem => ?_
  obtain ⟨hpath, condition, c, hcomposed, _, rfl⟩ := hitem
  obtain ⟨condition', hcomposes⟩ := exists_composes hpath
  obtain rfl := Except.ok.inj (hcomposed.symm.trans hcomposes.1)
  exact ⟨rfl, hcomposes⟩

variable {key rule suffix : String}

/-- A key with an at-rule and a suffix, against the at-rule with the suffix nested in it: the
conditions are one text exactly if it does not matter which suffix comes first. -/
lemma composed_nested_iff (hkey : IsConditionKey key) (hrule : rule.toList.head? = some '@')
    (hsuffix : suffix.toList.head? = some ':') :
    ∃ whole nested, composed "" [key, rule ++ suffix] = .ok whole ∧
      composed "" [key, rule, suffix] = .ok nested ∧ (whole = nested ↔
        suffix.toList ++ suffixText key = suffixText key ++ suffix.toList) := by
  obtain ⟨outer, houter, hstands⟩ := stands_empty.compose hkey
  have hown : (if hasRules key then suffixText key ++ [] else [] ++ suffixText key) =
      suffixText key := by
    simp
  rw [hown] at hstands
  obtain ⟨written, hparts, htight, hlong⟩ := hstands.parts
  rw [← htight] at hlong
  have hrules : ∀ inner : String, inner.toList.head? = some '@' → ∃ condition,
      compose outer inner = .ok condition ∧
        condition.toList = tightened written ++ inner.toList ++ suffixText key := by
    intro inner hinner
    refine ⟨String.ofList (tightened written ++ inner.toList ++ suffixText key),
      (compose_rule hparts hinner).2 ⟨hlong, ?_⟩, String.toList_ofList⟩
    rw [String.toList_ofList, hstands.trimmed]
  have hboth : (rule ++ suffix).toList.head? = some '@' := by
    rw [String.toList_append, List.head?_append, hrule, Option.some_or]
  obtain ⟨whole, hwhole, hwholeText⟩ := hrules _ hboth
  obtain ⟨middle, hmiddle, hmiddleText⟩ := hrules _ hrule
  have hnested : compose middle suffix = .ok (middle ++ suffix) := by
    unfold compose
    rw [if_neg (by simp [hsuffix]), join_of_head (by decide) hsuffix]
  refine ⟨whole, middle ++ suffix, ?_, ?_, ?_⟩
  · rw [composed_cons_of_eq houter, composed_cons_of_eq hwhole]
    rfl
  · rw [composed_cons_of_eq houter, composed_cons_of_eq hmiddle, composed_cons_of_eq hnested]
    rfl
  · rw [← String.toList_inj, String.toList_append, hwholeText, hmiddleText, String.toList_append]
    simp only [List.append_assoc, List.append_cancel_left_eq]

lemma kind_of_head (h : key.toList.head? = some ':' ∨ key.toList.head? = some '@') :
    (ConditionKind.ofKey? key).isSome := by
  unfold ConditionKind.ofKey?
  split
  · rfl
  · rcases h with hhead | hhead <;> obtain ⟨rest, hrest⟩ := List.head?_eq_some_iff.1 hhead
    · rw [hrest]
      split
      · rfl
      · rfl
      · rfl
      · rename_i hcolon _
        exact (hcolon rest rfl).elim
    · rw [hrest]
      rfl

lemma isConditionMap_single (h : key.toList.head? = some ':' ∨ key.toList.head? = some '@')
    (value : Value) : isConditionMap [(key, value)] = true := by
  unfold isConditionMap
  rcases h with hhead | hhead <;> obtain ⟨rest, hrest⟩ := List.head?_eq_some_iff.1 hhead <;>
    simp [hrest]

lemma leavesIn_single {definition property : String} (hkind : (ConditionKind.ofKey? key).isSome)
    (hcompose : compose parent key = .ok condition) (value : Value) :
    leavesIn definition property parent [(key, value)] =
      leavesOf definition property key condition value := by
  rw [leavesIn, if_neg (by simpa [Option.isSome_iff_ne_none] using hkind), hcompose]
  dsimp only
  cases leavesOf definition property key condition value with
  | error => rfl
  | ok found => simp [leavesIn, Bind.bind, Except.bind]

lemma leavesOf_map {definition property : String} (hmap : isConditionMap map = true) :
    leavesOf definition property key condition (.map map) =
      leavesIn definition property condition map := by
  rw [leavesOf, if_pos hmap]

/-- The nested form flattens to the same leaf if the conditions are one text. -/
lemma flatten_nested {definition property : String} {whole : String} (hkey : IsConditionKey key)
    (hrule : rule.toList.head? = some '@') (hsuffix : suffix.toList.head? = some ':')
    (hwhole : composed "" [key, rule ++ suffix] = .ok whole)
    (hnested : composed "" [key, rule, suffix] = .ok whole)
    (hvalue : ∀ entries, value ≠ .map entries) :
    flatten definition property [(key, .map [(rule ++ suffix, value)])] =
      flatten definition property [(key, .map [(rule, .map [(suffix, value)])])] := by
  have hboth : (rule ++ suffix).toList.head? = some '@' := by
    rw [String.toList_append, List.head?_append, hrule, Option.some_or]
  have hleaf : ∀ key key' condition, leavesOf definition property key condition value =
      leavesOf definition property key' condition value := by
    intro key key' condition
    cases value with
    | map entries => exact (hvalue entries rfl).elim
    | unset | scalar | fallback | firstThatWorks => rfl
  obtain ⟨outer, houter, hwhole⟩ := bind_eq_ok hwhole
  obtain ⟨outer', houter', hnested⟩ := bind_eq_ok hnested
  obtain rfl := Except.ok.inj (houter.symm.trans houter')
  obtain ⟨whole', hinner, hwhole⟩ := bind_eq_ok hwhole
  obtain rfl := Except.ok.inj hwhole
  obtain ⟨middle, hmiddle, hnested⟩ := bind_eq_ok hnested
  obtain ⟨nested, hlast, hnested⟩ := bind_eq_ok hnested
  obtain rfl := Except.ok.inj hnested
  rw [flatten_eq, flatten_eq, leavesIn_single hkey.kind houter, leavesIn_single hkey.kind houter,
    leavesOf_map (isConditionMap_single (.inr hboth) _),
    leavesOf_map (isConditionMap_single (.inr hrule) _),
    leavesIn_single (kind_of_head (.inr hboth)) hinner,
    leavesIn_single (kind_of_head (.inr hrule)) hmiddle,
    leavesOf_map (isConditionMap_single (.inl hsuffix) _),
    leavesIn_single (kind_of_head (.inl hsuffix)) hlast, hleaf _ suffix]

end

/-- A map of conditions flattens to its leaves, in written order. The condition of a leaf has the
at-rules of all keys of its path in nesting order. Its suffix is that of the keys in nesting order
unless a key with an at-rule and a suffix is nested in a suffix; such a key goes to the front as a
whole. So a key with both gives the same entries as the nested form where the order of its suffix
and the one around it does not matter. -/
theorem nested_conditions {map : List (String × Value)} (hmap : NestsConditions map)
    (setting : Setting) (property : String) :
    (∃ found : List (String × Leaf), List.Forall₂
        (fun leaf item => item.2.value = leaf.2 ∧ Composes leaf.1 item.2.condition)
        (leafPathsIn map) found ∧
      flatten setting.definition property map = .ok ((lastOfEach found).map Prod.snd)) ∧
    (∀ leaf ∈ leafPathsIn map, KeepsOrder leaf.1 → nestedSuffix leaf.1 = suffixesOf leaf.1) ∧
    ∀ key rule suffix : String, IsConditionKey key → rule.toList.head? = some '@' →
      suffix.toList.head? = some ':' → ∃ whole nested,
        composed "" [key, rule ++ suffix] = .ok whole ∧
        composed "" [key, rule, suffix] = .ok nested ∧
        (whole = nested ↔ suffix.toList ++ suffixText key = suffixText key ++ suffix.toList) ∧
        (whole = nested → ∀ scope value, (∀ entries, value ≠ .map entries) →
          conditional setting property scope [(key, .map [(rule ++ suffix, value)])] =
            conditional setting property scope
              [(key, .map [(rule, .map [(suffix, value)])])]) := by
  refine ⟨flatten_of_nests setting.definition property hmap,
    fun leaf _ horder => horder.nestedSuffix_eq, ?_⟩
  intro key rule suffix hkey hrule hsuffix
  obtain ⟨whole, nested, hwhole, hnested, hiff⟩ := composed_nested_iff hkey hrule hsuffix
  refine ⟨whole, nested, hwhole, hnested, hiff, ?_⟩
  rintro rfl scope value hvalue
  unfold conditional
  rw [flatten_nested hkey hrule hsuffix hwhole hnested hvalue]

/-- Two levels of conditions, with a pseudo-class around at-rules. -/
def printedFocus : List (String × Value) :=
  [("@media print", .map [(":focus", .map [("@supports (gap:1px)", .scalar (.text "red"))]),
    ("default", .scalar (.text "blue"))])]

theorem nested_conditions_printedFocus :
    leafPathsIn printedFocus = [(["@media print", ":focus", "@supports (gap:1px)"],
      .scalar (.text "red")), (["@media print", "default"], .scalar (.text "blue"))] ∧
    (∃ found : List (String × Leaf), List.Forall₂
        (fun leaf item => item.2.value = leaf.2 ∧ Composes leaf.1 item.2.condition)
        (leafPathsIn printedFocus) found ∧
      flatten "card" "color" printedFocus = .ok ((lastOfEach found).map Prod.snd)) ∧
    ∃ condition, composed "" ["@media screen", "@media print" ++ "::before"] = .ok condition ∧
      conditional ⟨{}, "card"⟩ "color" none
          [("@media screen", .map [("@media print" ++ "::before", .scalar (.text "red"))])] =
        conditional ⟨{}, "card"⟩ "color" none [("@media screen",
          .map [("@media print", .map [("::before", .scalar (.text "red"))])])] := by
  have hkeys : IsConditionKey "@media print" ∧ IsConditionKey ":focus" ∧
      IsConditionKey "@supports (gap:1px)" ∧ IsConditionKey "default" ∧
      IsConditionKey "@media screen" := by
    decide +kernel
  obtain ⟨hprint, hfocus, hsupports, hdefault, hscreen⟩ := hkeys
  have hmap : NestsConditions printedFocus :=
    ⟨hprint, ⟨rfl, hfocus, ⟨rfl, hsupports, trivial, trivial⟩, hdefault, trivial, trivial⟩, trivial⟩
  obtain ⟨hleaves, _, hforms⟩ := nested_conditions hmap ⟨{}, "card"⟩ "color"
  refine ⟨rfl, hleaves, ?_⟩
  obtain ⟨whole, nested, hwhole, _, hiff, hsame⟩ :=
    hforms "@media screen" "@media print" "::before" hscreen rfl rfl
  exact ⟨whole, hwhole, hsame (hiff.2 (by decide +kernel)) none _ nofun⟩

/-- Printed and hovered, the pseudo-element of the inner key comes in front of the outer
pseudo-class, unless it is nested in the at-rule. -/
theorem conditions_reordered :
    IsConditionKey ":hover" ∧ IsConditionKey "@media print::before" ∧
    composed "" [":hover", "@media print::before"] = .ok "@media print::before:hover" ∧
    parse "@media print::before:hover" = .ok ⟨some "::before:hover", some "@media print"⟩ ∧
    suffixesOf [":hover", "@media print::before"] = ":hover::before".toList ∧
    composed "" [":hover", "@media print", "::before"] = .ok "@media print:hover::before" := by
  decide +kernel

end AtomicCss.Proofs
