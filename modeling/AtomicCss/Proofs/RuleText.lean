import AtomicCss.Proofs.Cascade
import AtomicCss.Proofs.ConditionText

/-!
# What the text of a rule shows

The text of an atomic rule begins with an `@` if the rule stands in at-rules, and with the dot of
its class otherwise. So entries of one text, property and suffix have one rule: what else a rule has
can be read off these.
-/

namespace AtomicCss.Proofs

open Entry Stylesheet

/-- The first of the at-rules of a text that begins with an `@` begins with it, too. -/
lemma head_atRulesFrom (cs : List Char) : ∀ (depth : Nat) (current : List Char),
    ∃ first rest, Condition.atRulesFrom depth ('@' :: current) cs = first :: rest ∧
      first.head? = some '@' := by
  have hhead : ∀ current, (Text.trim ('@' :: current)).head? = some '@' :=
    head_trim (by decide)
  induction cs with
  | nil =>
    intro depth current
    refine ⟨_, [], ?_, hhead current⟩
    have hne : (Text.trim ('@' :: current)).isEmpty = false := by
      cases htrim : Text.trim ('@' :: current) with
      | nil =>
        have hcurrent := hhead current
        rw [htrim] at hcurrent
        cases hcurrent
      | cons _ _ => rfl
    rw [Condition.atRulesFrom, hne]
    rfl
  | cons c cs ih =>
    intro depth current
    rw [Condition.atRulesFrom]
    split
    · exact ⟨_, _, rfl, hhead current⟩
    · exact ih _ _

lemma head_braced {head : String} {c : Char} (h : head.toList.head? = some c) (body : String) :
    (braced head body).toList.head? = some c := by
  simp only [braced, String.toList_append, List.head?_append, h, Option.some_or]

lemma head_wrapAtRules {text : String} (h : text.toList.head? = some '@') (rule : String) :
    (wrapAtRules (some text) rule).toList.head? = some '@' := by
  obtain ⟨cs, hcs⟩ := List.head?_eq_some_iff.1 h
  obtain ⟨first, rest, hrules, hfirst⟩ := head_atRulesFrom cs 0 []
  have hsplit : Condition.atRules text = String.ofList first :: rest.map String.ofList := by
    have hopen : Condition.atRulesFrom 0 [] ('@' :: cs) = Condition.atRulesFrom 0 ['@'] cs := rfl
    rw [Condition.atRules, hcs, hopen, hrules, List.map_cons]
  have hwrap : wrapAtRules (some text) rule = (Condition.atRules text).foldr braced rule := rfl
  rw [hwrap, hsplit, List.foldr_cons]
  exact head_braced (by rwa [String.toList_ofList]) _

lemma head_selectorText (config : Config) (className : String) (suffix : Option String) :
    (selectorText config className suffix none).toList.head? = some '.' := by
  have honce : selectorText config className suffix none = "." ++ className ++ suffix.getD "" := rfl
  rw [honce, String.toList_append, String.toList_append, List.head?_append, List.head?_append]
  rfl

/-- What the text of a rule begins with. -/
def mark (e : Entry) : Char :=
  if e.atRule.isSome then '@' else '.'

lemma head_ltr {config : Config} {e : Entry} (h : Built config e) :
    e.ltr.toList.head? = some (mark e) := by
  obtain ⟨property, value, suffix, atRule, rfl, hread⟩ := h
  have hltr : (Entry.build config property value suffix atRule).ltr =
      wrapAtRules (nonempty? atRule) (braced ("" ++ selectorText config
        (Naming.atomicClass config.classStart property value.identity (nonempty? suffix)
          (pseudoElementOf? (nonempty? suffix)) (nonempty? atRule))
        (nonempty? suffix) (nonempty? atRule))
        (declarationBlock config property (value.values.map (Direction.ltr property)))) := rfl
  have hrule : (Entry.build config property value suffix atRule).atRule = nonempty? atRule := rfl
  rw [hltr, mark, hrule]
  cases hgiven : nonempty? atRule with
  | none =>
    rw [String.empty_append]
    exact head_braced (head_selectorText _ _ _) _
  | some text =>
    obtain ⟨written, condition, hparse, hrule⟩ := hread text (Option.filter_eq_some_iff.1 hgiven).1
    exact head_wrapAtRules (head_of_parse hparse hrule) _

/-- Two entries whose rules have the same texts, property and suffix. -/
structure Alike (e f : Entry) : Prop where
  ltr : e.ltr = f.ltr
  rtl : e.rtl = f.rtl
  property : e.property = f.property
  suffix : e.suffix = f.suffix

instance : DecidableRel Alike :=
  fun e f => decidable_of_iff
    (e.ltr = f.ltr ∧ e.rtl = f.rtl ∧ e.property = f.property ∧ e.suffix = f.suffix)
    ⟨fun ⟨hltr, hrtl, hproperty, hsuffix⟩ => ⟨hltr, hrtl, hproperty, hsuffix⟩,
      fun h => ⟨h.ltr, h.rtl, h.property, h.suffix⟩⟩

/-- The priority and the layer of a rule are settled by its texts, property and suffix. -/
lemma ofEntry_eq_of_alike {config : Config} {e f : Entry} (he : Built config e)
    (hf : Built config f) (h : Alike e f) : Rule.ofEntry e = Rule.ofEntry f := by
  have hatRule : e.atRule.isSome = f.atRule.isSome := by
    have hmark : mark e = mark f := by
      apply Option.some.inj
      rw [← head_ltr he, ← head_ltr hf, h.ltr]
    revert hmark
    unfold mark
    cases e.atRule.isSome <;> cases f.atRule.isSome <;> decide
  have hpriority : e.priority = f.priority := by
    rw [packed_of_built he, packed_of_built hf, h.property, h.suffix, hatRule]
  unfold Rule.ofEntry Entry.selector
  rw [h.ltr, h.rtl, hpriority, h.property, h.suffix, hatRule]

end AtomicCss.Proofs
