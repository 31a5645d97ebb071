import AtomicCss.Class.Direction
import AtomicCss.Proofs.Idempotence
import Mathlib.Data.List.ModifyLast

/-!
# Parts of a value with a mark behind it

An important mark behind a value that ends in no blank belongs to its last part, unless nothing or a
separator is in front of the mark: then the mark is a part of its own. So what rewrites the words of
a value keeps the mark behind it just in case it treats the last word alike with the mark and
without.
-/

namespace AtomicCss.Proofs

open Text Direction

section

variable {sep : Char} {text tail current : List Char} {quote : Option Char}
  {parts parts' : List (List Char)}

/-- Characters that go on with the part in front of them. -/
def IsGlue (sep c : Char) : Prop :=
  c ∉ [sep, '"', '\'', '(', ')'] ∧ isBlank c = false

instance (sep c : Char) : Decidable (IsGlue sep c) :=
  inferInstanceAs (Decidable (_ ∧ _))

lemma topLevelFrom_glue (htail : ∀ c ∈ tail, IsGlue sep c)
    (hquote : ∀ q ∈ quote, q = '"' ∨ q = '\'') (depth : ℕ) (current : List Char) :
    topLevelFrom sep depth quote current tail =
      topLevelFrom sep depth quote (current ++ tail) [] := by
  induction tail generalizing current with
  | nil => rw [List.append_nil]
  | cons c cs ih =>
    obtain ⟨⟨hc, _⟩, hcs⟩ := List.forall_mem_cons.1 htail
    simp only [List.mem_cons, List.not_mem_nil, or_false, not_or] at hc
    obtain ⟨hsep, hdouble, hsingle, hopen, hclose⟩ := hc
    have hstep : topLevelFrom sep depth quote current (c :: cs) =
        topLevelFrom sep depth quote (current ++ [c]) cs := by
      cases quote with
      | none => simp [topLevelFrom, hsep, hdouble, hsingle, hopen, hclose]
      | some q =>
        have hq : c ≠ q := by
          rcases hquote q rfl with rfl | rfl
          · exact hdouble
          · exact hsingle
        simp [topLevelFrom, hq]
    rw [hstep, ih hcs, List.append_assoc, List.singleton_append]

lemma not_endsBlank_of_glue (htail : ∀ c ∈ tail, IsGlue sep c) : ¬EndsBlank tail := by
  rintro ⟨c, hc, hblank⟩
  rw [(htail c (List.mem_of_mem_getLast? hc)).2] at hblank
  cases hblank

lemma trim_of_not_endsBlank (h : ¬EndsBlank text) : trim text = trimStart text := by
  refine trimEnd_of_not_endsBlank fun hblank => h ?_
  have hne : trimStart text ≠ [] := by
    intro hnil
    obtain ⟨c, hc, _⟩ := hblank
    rw [hnil] at hc
    cases hc
  have happend : text.takeWhile isBlank ++ trimStart text = text := List.takeWhile_append_dropWhile
  rw [← happend]
  exact (endsBlank_append hne).2 hblank

lemma trim_append_glue (htail : ∀ c ∈ tail, IsGlue sep c) (hne : tail ≠ [])
    (h : ¬EndsBlank current) : trim (current ++ tail) = trim current ++ tail := by
  have hall : ¬EndsBlank (current ++ tail) := fun hblank =>
    not_endsBlank_of_glue htail ((endsBlank_append hne).1 hblank)
  have htrim : trimStart tail = tail := by
    cases tail with
    | nil => rfl
    | cons c cs => exact List.dropWhile_cons_of_neg (by simp [(htail c List.mem_cons_self).2])
  rw [trim_of_not_endsBlank hall, trim_of_not_endsBlank h]
  unfold trimStart at htrim ⊢
  rw [List.dropWhile_append, htrim]
  split
  · rename_i hnil
    rw [List.isEmpty_iff.1 hnil, List.nil_append]
  · rfl

/-- How a tail is glued to the parts of a text: to the last one, or as one of its own. -/
inductive GluedTo (sep : Char) (tail text : List Char) :
    List (List Char) → List (List Char) → Prop
  | last (front : List (List Char)) {last : List Char} : last ≠ [] → ¬EndsBlank last →
    GluedTo sep tail text (front ++ [last]) (front ++ [last ++ tail])
  | alone (parts : List (List Char)) : text = [] ∨ text.getLast? = some sep →
    GluedTo sep tail text parts (parts ++ [tail])

lemma GluedTo.cons (h : GluedTo sep tail text parts parts') (part : List Char) :
    GluedTo sep tail text (part :: parts) (part :: parts') := by
  cases h with
  | last front hne hblank => exact .last (part :: front) hne hblank
  | alone _ htext => exact .alone (part :: parts) htext

lemma GluedTo.behind (h : GluedTo sep tail text parts parts') (front : List Char) :
    GluedTo sep tail (front ++ sep :: text) parts parts' := by
  cases h with
  | last front hne hblank => exact .last front hne hblank
  | alone _ htext =>
    refine .alone parts (.inr ?_)
    rw [List.getLast?_append_of_ne_nil _ (List.cons_ne_nil _ _), List.getLast?_cons]
    rcases htext with rfl | hsep
    · rfl
    · rw [hsep]
      rfl

lemma topLevelFrom_nil (depth : ℕ) (h : trim current ≠ []) :
    topLevelFrom sep depth quote current [] = [trim current] := by
  rw [topLevelFrom, if_neg (by simpa using h)]

lemma trim_ne_nil (h : ¬EndsBlank text) (hne : text ≠ []) : trim text ≠ [] := by
  rw [trim_of_not_endsBlank h]
  intro hnil
  refine h ⟨text.getLast hne, List.getLast?_eq_getLast_of_ne_nil hne, ?_⟩
  exact List.dropWhile_eq_nil_iff.1 hnil _ (List.getLast_mem hne)

lemma gluedTo_topLevelFrom (htail : ∀ c ∈ tail, IsGlue sep c) (hne : tail ≠ []) {depth : ℕ}
    (hquote : ∀ q ∈ quote, q = '"' ∨ q = '\'') (h : ¬EndsBlank (current ++ text)) :
    GluedTo sep tail (current ++ text) (topLevelFrom sep depth quote current text)
      (topLevelFrom sep depth quote current (text ++ tail)) := by
  induction text generalizing depth quote current with
  | nil =>
    rw [List.append_nil] at h ⊢
    have hglued := trim_append_glue htail hne h
    have hmarked : trim (current ++ tail) ≠ [] := by simp [hglued, hne]
    rw [List.nil_append, topLevelFrom_glue htail hquote, topLevelFrom_nil depth hmarked, hglued]
    by_cases hcurrent : current = []
    · subst hcurrent
      exact .alone [] (.inl rfl)
    · rw [topLevelFrom_nil depth (trim_ne_nil h hcurrent)]
      exact .last [] (trim_ne_nil h hcurrent) (not_endsBlank_trimEnd _)
  | cons c cs ih =>
    have hnext : ∀ {depth : ℕ} {quote : Option Char}, (∀ q ∈ quote, q = '"' ∨ q = '\'') →
        GluedTo sep tail (current ++ c :: cs) (topLevelFrom sep depth quote (current ++ [c]) cs)
          (topLevelFrom sep depth quote (current ++ [c]) (cs ++ tail)) := by
      intro depth quote hquote
      rw [List.append_cons] at h ⊢
      exact ih hquote h
    have hnone : ∀ q ∈ (none : Option Char), q = '"' ∨ q = '\'' := nofun
    rw [List.cons_append]
    unfold topLevelFrom
    cases quote with
    | some q =>
      refine hnext ?_
      split
      · exact hnone
      · exact hquote
    | none =>
      dsimp only
      split
      · rename_i hc
        exact hnext fun q hq => Option.some.inj hq ▸ hc
      split
      · exact hnext hnone
      split
      · exact hnext hnone
      split
      · rename_i hsep
        obtain ⟨rfl, _⟩ := hsep
        have hrest : GluedTo c tail ([] ++ cs) (topLevelFrom c 0 none [] cs)
            (topLevelFrom c 0 none [] (cs ++ tail)) := by
          refine ih hnone ?_
          rintro ⟨d, hd, hblank⟩
          have hcs : cs ≠ [] := by
            rintro rfl
            cases hd
          rw [List.append_cons, endsBlank_append hcs] at h
          exact h ⟨d, hd, hblank⟩
        split
        · exact hrest.behind current
        · exact (hrest.cons _).behind current
      · exact hnext hnone

/-- The parts of a text that ends in no blank, without the tail and with it. -/
lemma gluedTo_splitTopLevel (htail : ∀ c ∈ tail, IsGlue sep c) (hne : tail ≠ [])
    (h : ¬EndsBlank text) :
    GluedTo sep tail text (splitTopLevel sep text) (splitTopLevel sep (text ++ tail)) :=
  @gluedTo_topLevelFrom sep text tail [] none htail hne 0 (fun _ hq => nomatch hq) h

end

section

variable {value : List Char} {change : List (List Char) → List (List Char)}

lemma joinWith_concat_of_ne_nil {front : List (List Char)} (h : front ≠ []) (sep : Char)
    (part : List Char) : joinWith sep (front ++ [part]) = joinWith sep front ++ sep :: part := by
  unfold joinWith
  induction front with
  | nil => exact (h rfl).elim
  | cons first rest ih =>
    cases rest with
    | nil => simp
    | cons second rest =>
      rw [List.cons_append, List.cons_append, List.intercalate_cons_cons,
        List.intercalate_cons_cons, ← List.cons_append, ih (List.cons_ne_nil _ _)]
      simp

/-- What is joined in front of the last part does not depend on it. -/
lemma joinWith_concat (sep : Char) (front : List (List Char)) :
    ∃ before, ∀ part, joinWith sep (front ++ [part]) = before ++ part := by
  rcases eq_or_ne front [] with rfl | hne
  · exact ⟨[], fun part => by simp [joinWith]⟩
  · refine ⟨joinWith sep front ++ [sep], fun part => ?_⟩
    rw [joinWith_concat_of_ne_nil hne, List.append_assoc, List.singleton_append]

/-- The words of the last layer of a value. -/
def lastWords (value : List Char) : List (List Char) :=
  ((splitTopLevel ',' value).getLast?.map (splitTopLevel ' ')).getD []

/-- A mark behind the value is a part of its own, behind a comma. -/
def BehindComma (value : List Char) : Prop :=
  splitTopLevel ',' (value ++ important) = splitTopLevel ',' value ++ [important]

instance (value : List Char) : Decidable (BehindComma value) :=
  inferInstanceAs (Decidable (_ = _))

lemma glue_important : ∀ sep ∈ [' ', ','], ∀ c ∈ important, IsGlue sep c := by
  decide +kernel

lemma important_ne_nil : important ≠ [] := by decide

/-- The last word of a text takes the mark. -/
lemma words_append_important (h : ¬EndsBlank value) (hne : value ≠ []) :
    ∃ front word, splitTopLevel ' ' value = front ++ [word] ∧
      splitTopLevel ' ' (value ++ important) = front ++ [word ++ important] := by
  have hglued := gluedTo_splitTopLevel (glue_important ' ' (by simp)) important_ne_nil h
  generalize hparts : splitTopLevel ' ' value = parts at hglued
  generalize hmarked : splitTopLevel ' ' (value ++ important) = marked at hglued
  cases hglued with
  | last front => exact ⟨front, _, rfl, rfl⟩
  | alone _ hend =>
    rcases hend with rfl | hspace
    · exact (hne rfl).elim
    · exact (h ⟨' ', hspace, rfl⟩).elim

/-- The last word of the last layer takes the mark. -/
structure TakesMark (value : List Char) (front : List (List Char)) (layer : List Char)
    (words : List (List Char)) (word : List Char) : Prop where
  layers : splitTopLevel ',' value = front ++ [layer]
  markedLayers : splitTopLevel ',' (value ++ important) = front ++ [layer ++ important]
  inLayer : splitTopLevel ' ' layer = words ++ [word]
  inMarkedLayer : splitTopLevel ' ' (layer ++ important) = words ++ [word ++ important]

namespace TakesMark

variable {front words : List (List Char)} {layer word : List Char}

lemma lastWords (h : TakesMark value front layer words word) :
    lastWords value = words ++ [word] := by
  simp [Proofs.lastWords, h.layers, h.inLayer]

lemma not_behindComma (h : TakesMark value front layer words word) : ¬BehindComma value := by
  intro hbehind
  have hlength := congrArg List.length hbehind
  rw [h.markedLayers, h.layers] at hlength
  simp at hlength

end TakesMark

lemma takesMark_or_behindComma (h : ¬EndsBlank value) :
    (∃ front layer words word, TakesMark value front layer words word) ∨ BehindComma value := by
  have hglued := gluedTo_splitTopLevel (glue_important ',' (by simp)) important_ne_nil h
  unfold BehindComma
  generalize hparts : splitTopLevel ',' value = parts at hglued ⊢
  generalize hmarked : splitTopLevel ',' (value ++ important) = marked at hglued ⊢
  cases hglued with
  | last front hne hblank =>
    obtain ⟨words, word, hwords, hword⟩ := words_append_important hblank hne
    exact .inl ⟨front, _, words, word, hparts, hmarked, hwords, hword⟩
  | alone => exact .inr rfl

/-- The rewriting leaves a mark behind the value where it is. -/
def MarkStays (rewrite : List Char → List Char) (value : List Char) : Prop :=
  rewrite (value ++ important) = rewrite value ++ important

/-- Rewrites the words of every layer. -/
def layerwise (change : List (List Char) → List (List Char)) (value : List Char) : List Char :=
  joinWith ',' ((splitTopLevel ',' value).map fun layer =>
    joinWith ' ' (change (splitTopLevel ' ' layer)))

/-- The words in front of the last are changed whatever the last one is. -/
def ActsApart (change : List (List Char) → List (List Char)) : Prop :=
  ∀ words, ∃ (front : List (List Char)) (last : List Char → List Char),
    ∀ word, change (words ++ [word]) = front ++ [last word]

/-- Of these words the last is changed alike with a mark and without. -/
def KeepsLast (change : List (List Char) → List (List Char)) (words : List (List Char)) : Prop :=
  change (words.modifyLast (· ++ important)) = (change words).modifyLast (· ++ important)

lemma layerwise_takesMark {front words : List (List Char)} {layer word : List Char}
    (h : TakesMark value front layer words word) (hchange : ActsApart change) :
    MarkStays (layerwise change) value ↔ KeepsLast change (lastWords value) := by
  obtain ⟨kept, last, hkept⟩ := hchange words
  let joined := front.map fun layer => joinWith ' ' (change (splitTopLevel ' ' layer))
  obtain ⟨before, hbefore⟩ := joinWith_concat ',' joined
  obtain ⟨inner, hinner⟩ := joinWith_concat ' ' kept
  have hwith : layerwise change (value ++ important) =
      before ++ (inner ++ last (word ++ important)) := by
    simp [layerwise, h.markedLayers, h.inMarkedLayer, hkept, hinner, ← hbefore, joined]
  have hwithout : layerwise change value = before ++ (inner ++ last word) := by
    simp [layerwise, h.layers, h.inLayer, hkept, hinner, ← hbefore, joined]
  rw [MarkStays, hwith, hwithout, KeepsLast, h.lastWords, List.modifyLast_concat, hkept, hkept,
    List.modifyLast_concat]
  simp

lemma layerwise_behindComma (h : BehindComma value)
    (himportant : change [important] = [important]) :
    MarkStays (layerwise change) value ↔ splitTopLevel ',' value = [] := by
  have halone : splitTopLevel ' ' important = [important] := by decide +kernel
  have hsingle : joinWith ' ' [important] = important := by simp [joinWith]
  have hwith : layerwise change (value ++ important) =
      joinWith ',' ((splitTopLevel ',' value).map (fun layer =>
        joinWith ' ' (change (splitTopLevel ' ' layer))) ++ [important]) := by
    rw [layerwise, h, List.map_append, List.map_singleton, halone, himportant, hsingle]
  rw [MarkStays, hwith, layerwise]
  constructor
  · intro heq
    by_contra hne
    rw [joinWith_concat_of_ne_nil (by simpa using hne)] at heq
    have hlength := congrArg List.length heq
    simp at hlength
  · intro hnil
    rw [hnil]
    simp [joinWith]

/-- A rewriting of words keeps the mark behind a value just in case it treats the last word alike
with the mark and without, and no comma stands in front of the mark. -/
lemma markStays_layerwise (h : ¬EndsBlank value) (hchange : ActsApart change)
    (himportant : change [important] = [important]) (hnil : change [] = []) :
    MarkStays (layerwise change) value ↔
      (BehindComma value → splitTopLevel ',' value = []) ∧
        KeepsLast change (lastWords value) := by
  rcases takesMark_or_behindComma h with ⟨front, layer, words, word, htakes⟩ | hbehind
  · rw [layerwise_takesMark htakes hchange]
    exact ⟨fun hkeeps => ⟨fun hbehind => (htakes.not_behindComma hbehind).elim, hkeeps⟩, And.right⟩
  · rw [layerwise_behindComma hbehind himportant]
    refine ⟨fun hempty => ⟨fun _ => hempty, ?_⟩, fun h => h.1 hbehind⟩
    rw [lastWords, hempty]
    change change [] = (change []).modifyLast _
    rw [hnil]
    rfl

end

end AtomicCss.Proofs
