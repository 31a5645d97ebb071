import AtomicCss.Proofs.Alternatives
import AtomicCss.Proofs.NumberParts

/-!
# The first alternative that works

The alternatives of a value are written in the order of preference, the first one last. Where the
first run of variables begins, they are folded into one value with the alternative behind them. A
variable comes to its fallback only if its property is not defined, so the folded value comes to the
first of these alternatives that works.
-/

namespace AtomicCss.Proofs

open Value

/-- A text without the blank in front of it. -/
def dropBlank : List Char → List Char
  | ' ' :: cs => cs
  | cs => cs

/-- The property that a variable refers to, and the text of its fallback. The name goes up to the
first comma, the fallback from there to the last parenthesis. -/
def reference? (text : List Char) : Option (List Char × Option (List Char)) :=
  (varArgument? text).bind fun argument =>
    let (name, rest) : List Char × Option (List Char) :=
      match Text.splitOnce? ',' argument with
      | some (name, rest) => (name, some (dropBlank rest))
      | none => (argument, none)
    if Property.isCustomText name && !name.any fun c => c == '(' || c == ')' || c == ' ' then
      some (name, rest)
    else none

/-- What a value comes to: the value of a property, a text, or nothing that is valid. -/
inductive ComputedValue
  | variable (name : List Char)
  | literal (text : List Char)
  | invalid
  deriving DecidableEq, Repr

lemma length_dropBlank (cs : List Char) : (dropBlank cs).length ≤ cs.length := by
  unfold dropBlank
  split
  · exact Nat.le_succ _
  · exact Nat.le_refl _

/-- A fallback is shorter than the variable that it belongs to. -/
lemma length_of_reference? {text name rest : List Char}
    (h : reference? text = some (name, some rest)) : rest.length < text.length := by
  obtain ⟨argument, hargument, h⟩ := Option.bind_eq_some_iff.1 h
  rw [eq_of_varArgument? hargument]
  split at h
  rename_i name' rest' hparts
  split at h
  · cases h
    split at hparts
    · rename_i before after hsplit
      cases hparts
      have hlength := length_dropBlank after
      rw [(splitOnce?_eq_some hsplit).1]
      simp only [List.length_append, List.length_cons]
      omega
    · cases hparts
  · cases h

/-- What a value comes to where some properties are defined. -/
def evaluate (defined : List Char → Bool) (text : List Char) : ComputedValue :=
  match _h : reference? text with
  | none => .literal text
  | some (name, none) => if defined name then .variable name else .invalid
  | some (name, some rest) =>
    if defined name then .variable name else evaluate defined rest
  termination_by text.length
  decreasing_by exact length_of_reference? _h

/-- The name in a variable without a fallback. -/
def referredName (var : String) : List Char :=
  (varArgument? var.toList).getD var.toList

/-- The first of the variables that is defined, or what comes behind them. -/
def firstDefined (defined : List Char → Bool) (vars : List String)
    (otherwise : ComputedValue) : ComputedValue :=
  match vars.find? fun v => defined (referredName v) with
  | some v => .variable (referredName v)
  | none => otherwise

/-- Where the first variable stands; behind all alternatives if there is none. -/
def varsStart (texts : List String) : Nat :=
  texts.findIdx isPlainVar

/-- Where the first alternative stands that is not a variable, from the first variable on. -/
def varsEnd (texts : List String) : Nat :=
  varsStart texts + (texts.drop (varsStart texts)).findIdx (!isPlainVar ·)

/-- The first run of variables. -/
def firstVars (texts : List String) : List String :=
  (texts.take (varsEnd texts)).drop (varsStart texts)

/-- The alternative behind the first variables. -/
def behindVars? (texts : List String) : Option String :=
  texts[varsEnd texts]?

/-- The first variables, with the alternative behind them as the innermost fallback. -/
def foldedVars (texts : List String) : String :=
  nestVars (firstVars texts ++ (behindVars? texts).toList)

/-- The values of alternatives whose first variables are folded, the most preferred last. No
alternative is lost, and the folded value comes to the first one in it that works. It closes what it
opens if they do, so that its last parenthesis is that of the outermost variable. -/
structure FoldsVars (texts values : List String) : Prop where
  order : values = (texts.take (varsStart texts) ++
    foldedVars texts :: texts.drop (varsEnd texts + 1)).reverse
  whole : texts.take (varsStart texts) ++ (firstVars texts ++ (behindVars? texts).toList) ++
    texts.drop (varsEnd texts + 1) = texts
  before : ∀ v ∈ texts.take (varsStart texts), isPlainVar v = false
  vars : firstVars texts ≠ [] ∧ ∀ v ∈ firstVars texts, isPlainVar v = true
  behind : ∀ w ∈ behindVars? texts, isPlainVar w = false
  comes : ∀ defined, evaluate defined (foldedVars texts).toList =
    firstDefined defined (firstVars texts)
      ((behindVars? texts).elim .invalid fun w => evaluate defined w.toList)
  closed : (∀ v ∈ texts, Sealed v.toList) → Sealed (foldedVars texts).toList

section

variable {defined : List Char → Bool} {v w : String} {vars texts : List String}

lemma varArgument?_append (argument : List Char) :
    varArgument? (['v', 'a', 'r', '('] ++ (argument ++ [')'])) = some argument := by
  unfold varArgument?
  rw [List.isPrefixOf?_eq_some_iff_append_eq.2 rfl, Option.bind_some]
  exact List.isSuffixOf?_eq_some_iff_append_eq.2 rfl

/-- The name in a plain variable is the name of a property and nothing else. -/
lemma plainVar_parts (h : isPlainVar v = true) :
    v.toList = ['v', 'a', 'r', '('] ++ (referredName v ++ [')']) ∧ ',' ∉ referredName v ∧
      (Property.isCustomText (referredName v) &&
        !(referredName v).any fun c => c == '(' || c == ')' || c == ' ') = true := by
  unfold isPlainVar isPlainVarText at h
  split at h
  · rename_i name hname
    have hvar : referredName v = name := by rw [referredName, hname, Option.getD_some]
    simp only [Bool.and_eq_true, Bool.not_eq_true', List.any_eq_false, Bool.or_eq_true,
      beq_iff_eq, not_or] at h ⊢
    rw [hvar]
    refine ⟨eq_of_varArgument? hname, fun hc => (h.2 _ hc).1.1.1 rfl, h.1, fun c hc => ?_⟩
    obtain ⟨⟨⟨_, hopen⟩, hclose⟩, hblank⟩ := h.2 c hc
    exact ⟨⟨hopen, hclose⟩, hblank⟩
  · cases h

lemma reference?_plain (h : isPlainVar v = true) :
    reference? v.toList = some (referredName v, none) := by
  obtain ⟨heq, hcomma, hname⟩ := plainVar_parts h
  unfold reference?
  rw [heq, varArgument?_append, Option.bind_some, splitOnce?_of_not_mem hcomma]
  exact if_pos hname

lemma reference?_withFallback (h : isPlainVar v = true) (w : String) :
    reference? (withFallback v w).toList = some (referredName v, some w.toList) := by
  obtain ⟨_, hcomma, hname⟩ := plainVar_parts h
  have hlist : (withFallback v w).toList =
      ['v', 'a', 'r', '('] ++ ((referredName v ++ ',' :: ' ' :: w.toList) ++ [')']) := by
    unfold withFallback
    simp [referredName]
  unfold reference?
  rw [hlist, varArgument?_append, Option.bind_some, splitOnce?_append hcomma]
  exact if_pos hname

lemma evaluate_plain (h : isPlainVar v = true) : evaluate defined v.toList =
    if defined (referredName v) then .variable (referredName v) else .invalid := by
  rw [evaluate]
  split <;> rename_i heq <;> rw [reference?_plain h] at heq <;> cases heq
  rfl

/-- A variable comes to its fallback if its property is not defined. -/
lemma evaluate_withFallback (h : isPlainVar v = true) (w : String) :
    evaluate defined (withFallback v w).toList =
      if defined (referredName v) then .variable (referredName v) else evaluate defined w.toList := by
  rw [evaluate]
  split <;> rename_i heq <;> rw [reference?_withFallback h] at heq <;> cases heq
  rfl

lemma evaluate_literal {text : List Char} (h : reference? text = none) :
    evaluate defined text = .literal text := by
  rw [evaluate]
  split <;> rename_i heq <;> rw [h] at heq <;> cases heq

lemma firstDefined_cons (v : String) (vars : List String) (otherwise : ComputedValue) :
    firstDefined defined (v :: vars) otherwise =
      if defined (referredName v) then .variable (referredName v)
      else firstDefined defined vars otherwise := by
  unfold firstDefined
  rw [List.find?_cons]
  cases defined (referredName v) <;> rfl

/-- Nested variables come to the first that is defined, or else to what is nested innermost. -/
lemma evaluate_nestVars (hne : vars ≠ []) (hvars : ∀ v ∈ vars, isPlainVar v = true)
    (last : Option String) : evaluate defined (nestVars (vars ++ last.toList)).toList =
      firstDefined defined vars (last.elim .invalid fun w => evaluate defined w.toList) := by
  induction vars with
  | nil => exact (hne rfl).elim
  | cons v vars ih =>
    obtain ⟨hv, hrest⟩ := List.forall_mem_cons.1 hvars
    rw [firstDefined_cons]
    cases hmore : vars ++ last.toList with
    | nil =>
      obtain ⟨rfl, hlast⟩ := List.append_eq_nil_iff.1 hmore
      obtain rfl : last = none := by simpa using hlast
      exact evaluate_plain hv
    | cons u more =>
      have hnest : nestVars (v :: vars ++ last.toList) =
          withFallback v (nestVars (vars ++ last.toList)) := by
        rw [List.cons_append, hmore]
        rfl
      rw [hnest, evaluate_withFallback hv]
      refine if_congr Iff.rfl rfl ?_
      by_cases hnil : vars = []
      · subst hnil
        obtain ⟨w, rfl⟩ : ∃ w, last = some w := by
          cases last with
          | none => cases hmore
          | some w => exact ⟨w, rfl⟩
        rfl
      · exact ih hnil hrest

lemma varsStart_le (texts : List String) : varsStart texts ≤ texts.length :=
  List.findIdx_le_length

/-- The alternatives around the first variables. -/
lemma around_firstVars (texts : List String) :
    texts.takeWhile (!isPlainVar ·) = texts.take (varsStart texts) ∧
      texts.dropWhile (!isPlainVar ·) = texts.drop (varsStart texts) ∧
      (texts.drop (varsStart texts)).takeWhile isPlainVar = firstVars texts ∧
      (texts.drop (varsStart texts)).dropWhile isPlainVar = texts.drop (varsEnd texts) := by
  refine ⟨?_, ?_, ?_, ?_⟩
  · rw [List.takeWhile_eq_take_findIdx_not]
    simp only [Bool.not_not]
    rfl
  · rw [List.dropWhile_eq_drop_findIdx_not]
    simp only [Bool.not_not]
    rfl
  · rw [List.takeWhile_eq_take_findIdx_not, firstVars, List.drop_take, varsEnd,
      Nat.add_sub_cancel_left]
  · rw [List.dropWhile_eq_drop_findIdx_not, List.drop_drop]
    rfl

lemma take_one_varsEnd (texts : List String) :
    (texts.drop (varsEnd texts)).take 1 = (behindVars? texts).toList := by
  rw [List.take_one, List.head?_drop]
  rfl

/-- Preferences are folded from the first variable up to the alternative behind the variables. -/
lemma foldVars_eq (texts : List String) : foldVars texts =
    if varsStart texts = texts.length then texts
    else texts.take (varsStart texts) ++
      foldedVars texts :: texts.drop (varsEnd texts + 1) := by
  obtain ⟨hbefore, hrest, hvars, hafter⟩ := around_firstVars texts
  have hempty : (texts.drop (varsStart texts)).isEmpty = true ↔
      varsStart texts = texts.length := by
    have hle := varsStart_le texts
    rw [List.isEmpty_iff, List.drop_eq_nil_iff]
    omega
  unfold foldVars
  rw [hbefore, hrest]
  dsimp only
  rw [hvars, hafter, take_one_varsEnd, List.drop_drop]
  exact if_congr hempty rfl rfl

lemma sealed_nestVars (hne : vars ≠ []) (hvars : ∀ v ∈ vars, isPlainVar v = true)
    {last : Option String} (hsealed : ∀ v ∈ vars ++ last.toList, Sealed v.toList) :
    Sealed (nestVars (vars ++ last.toList)).toList := by
  refine nestVars_forall (fun _ _ => sealed_withFallback)
    (List.append_ne_nil_of_left_ne_nil hne _) (fun v hv => ?_) hsealed
  cases last with
  | none =>
    rw [Option.toList_none, List.append_nil] at hv
    exact hvars v (List.dropLast_subset _ hv)
  | some w =>
    rw [Option.toList_some, List.dropLast_concat] at hv
    exact hvars v hv

lemma foldsVars (hsome : varsStart texts < texts.length) :
    FoldsVars texts (foldVars texts).reverse := by
  obtain ⟨hbefore, _, hvars, hafter⟩ := around_firstVars texts
  have hplain : ∀ v ∈ firstVars texts, isPlainVar v = true := by
    rw [← hvars]
    exact List.all_eq_true.1 List.all_takeWhile
  have hfirst : firstVars texts ≠ [] := by
    have hhead : isPlainVar texts[varsStart texts] = true := List.findIdx_getElem
    rw [← hvars, List.drop_eq_getElem_cons hsome, List.takeWhile_cons_of_pos hhead]
    exact List.cons_ne_nil _ _
  have hwhole : texts.take (varsStart texts) ++ (firstVars texts ++ (behindVars? texts).toList) ++
      texts.drop (varsEnd texts + 1) = texts := by
    have hbehind : (behindVars? texts).toList ++ texts.drop (varsEnd texts + 1) =
        texts.drop (varsEnd texts) := by
      rw [← take_one_varsEnd, ← List.drop_drop, List.take_append_drop]
    rw [List.append_assoc, List.append_assoc, hbehind, ← hvars, ← hafter,
      List.takeWhile_append_dropWhile, List.take_append_drop]
  refine ⟨by rw [foldVars_eq, if_neg (Nat.ne_of_lt hsome)], hwhole, ?_, ⟨hfirst, hplain⟩, ?_,
    fun defined => evaluate_nestVars hfirst hplain _, fun hsealed => ?_⟩
  · intro v hv
    rw [← hbefore] at hv
    simpa using List.all_eq_true.1 List.all_takeWhile v hv
  · intro w hw
    have hhead := List.head?_dropWhile_not isPlainVar (texts.drop (varsStart texts))
    have hbehind : texts[varsEnd texts]? = some w := hw
    rw [hafter, List.head?_drop, hbehind] at hhead
    exact hhead
  · refine sealed_nestVars hfirst hplain fun v hv => hsealed v ?_
    rw [← hwhole]
    exact List.mem_append_left _ (List.mem_append_right _ hv)

end

lemma isSome_single? (v : Normalized) : v.single?.isSome = true ↔ v.values.length = 1 := by
  unfold Normalized.single?
  split
  · rename_i heq
    simp [heq]
  · rename_i hmany
    refine iff_of_false Bool.false_ne_true fun hone => ?_
    obtain ⟨text, heq⟩ := List.length_eq_one_iff.1 hone
    exact hmany text heq

lemma length_foldVars (texts : List String) (hne : texts ≠ []) : (foldVars texts).length = 1 ↔
    texts.length = 1 ∨ varsStart texts = 0 ∧ texts.length ≤ varsEnd texts + 1 := by
  have hpos := List.length_pos_iff.2 hne
  rw [foldVars_eq]
  split
  · omega
  · have hle := varsStart_le texts
    have hend : varsStart texts ≤ varsEnd texts := Nat.le_add_right _ _
    rw [List.length_append, List.length_take, List.length_cons, List.length_drop]
    omega

/-- The first of some alternatives that works is written as the last of their values. -/
theorem normalizeLeaf_firstThatWorks {property : String} {values : List Scalar}
    {texts : List String} (h : normalizeList property values = .ok texts) :
    ∃ normalized, normalizeLeaf property (.firstThatWorks values) = .ok normalized ∧
      ((∀ v ∈ texts, isPlainVar v = false) ∧ normalized.values = texts.reverse ∨
        FoldsVars texts normalized.values) ∧
      (normalized.single?.isSome = true ↔
        texts.length = 1 ∨ varsStart texts = 0 ∧ texts.length ≤ varsEnd texts + 1) ∧
      ∀ (defined : List Char → Bool) (w : String), reference? w.toList = none →
        evaluate defined w.toList = .literal w.toList := by
  refine ⟨⟨(foldVars texts).reverse⟩, by rw [normalizeLeaf, h]; rfl, ?_, ?_,
    fun defined w hw => evaluate_literal hw⟩
  · rcases Nat.lt_or_eq_of_le (varsStart_le texts) with hsome | hnone
    · exact .inr (foldsVars hsome)
    · refine .inl ⟨?_, by rw [foldVars_eq, if_pos hnone]⟩
      have hall := List.findIdx_eq_length.1 hnone
      simpa using hall
  · have hne : texts ≠ [] := by
      rintro rfl
      unfold normalizeList at h
      split at h
      · cases h
      · rename_i hsome
        cases mapM_eq_ok h
        exact hsome rfl
    rw [isSome_single?, List.length_reverse, length_foldVars texts hne]

/-- Two variables and a literal, between alternatives that stay for themselves. -/
def colors : List Scalar :=
  [.text "inherit", .text "var( --a )", .text "var(--b)", .text "red", .text "blue"]

def colorTexts : List String :=
  ["inherit", "var(--a)", "var(--b)", "red", "blue"]

theorem normalizeLeaf_firstThatWorks_colors :
    normalizeList "color" colors = .ok colorTexts ∧
      ∃ normalized, normalizeLeaf "color" (.firstThatWorks colors) = .ok normalized ∧
        ((∀ v ∈ colorTexts, isPlainVar v = false) ∧ normalized.values = colorTexts.reverse ∨
          FoldsVars colorTexts normalized.values) ∧
        (normalized.single?.isSome = true ↔ colorTexts.length = 1 ∨
          varsStart colorTexts = 0 ∧ colorTexts.length ≤ varsEnd colorTexts + 1) ∧
        ∀ (defined : List Char → Bool) (w : String), reference? w.toList = none →
          evaluate defined w.toList = .literal w.toList := by
  have hnormal : normalizeList "color" colors = .ok colorTexts := by decide +kernel
  exact ⟨hnormal, normalizeLeaf_firstThatWorks hnormal⟩

example : foldedVars colorTexts = "var(--a, var(--b, red))" := by decide +kernel

end AtomicCss.Proofs
