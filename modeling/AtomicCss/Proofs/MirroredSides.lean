import AtomicCss.Proofs.Expanding
import AtomicCss.Proofs.MarkTransparency
import AtomicCss.Proofs.Parentheses
import AtomicCss.Proofs.SpacedWords

/-!
# Mirroring edges and corners

The values of four edges or corners are swapped in the shorthand, the names of the longhands in its
expansion. Both are the same exchange of places, which undoes itself. So a shorthand may be mirrored
before it is expanded or after.
-/

namespace AtomicCss.Proofs

open Text Direction Expansion

/-- The declaration with its physical sides swapped, which is the declaration itself if it reads the
same in both directions. -/
def mirrored (property value : String) : String × String :=
  (rtl? true property value).getD (property, value)

/-- A word that is balanced, with blanks only inside parentheses, and without quotes, slashes, marks
and variables. -/
@[mk_iff]
structure PlainWord (word : List Char) : Prop where
  ne_nil : word ≠ []
  balanced : IsBalanced word
  blanks : Hides isBlank word
  plain : ∀ c ∈ word, c ∉ ['"', '\'', '/', '!']
  fixed : ¬"var(".toList <:+: word

instance (word : List Char) : Decidable (PlainWord word) :=
  decidable_of_iff (_ ∧ _) (plainWord_iff word).symm

/-- Four places with those for left and right exchanged. -/
def exchanged {α : Type} (corners : Bool) : List α → List α
  | [first, second, third, fourth] =>
    if corners then [second, first, fourth, third] else [first, fourth, third, second]
  | others => others

/-- A property with no keywords for a direction in its values. -/
def IsUndirected (property : String) : Prop :=
  isPlaced property = false ∧ isBackground property = false ∧
    property ∉ ["box-shadow", "text-shadow", "cursor", "text-align"]

instance (property : String) : Decidable (IsUndirected property) :=
  inferInstanceAs (Decidable (_ ∧ _))

/-- Without quotes, a text closes what it opens if its parentheses are balanced. -/
lemma closesFrom_of_balanced {barred : Char → Bool} {cs : List Char} : ∀ {depth : ℕ},
    (∀ c ∈ cs, c ≠ '"' ∧ c ≠ '\'') → Condition.imbalance? depth cs = none →
    (∀ front c back, cs = front ++ c :: back → barred c = true →
      Condition.imbalance? depth front ≠ none) →
    closesFrom barred depth none cs = true := by
  induction cs with
  | nil =>
    intro depth _ hbalanced _
    have hdepth : depth = 0 := by simpa [Condition.imbalance?] using hbalanced
    rw [closesFrom, hdepth]
    rfl
  | cons c cs ih =>
    intro depth hquotes hbalanced hhides
    obtain ⟨hc, hcs⟩ := List.forall_mem_cons.1 hquotes
    have hrest : ∀ {depth'}, (∀ front, Condition.imbalance? depth (c :: front) =
        Condition.imbalance? depth' front) → closesFrom barred depth' none cs = true := by
      intro depth' hstep
      rw [hstep] at hbalanced
      refine ih hcs hbalanced fun front d back heq hd => ?_
      rw [← hstep]
      exact hhides (c :: front) d back (by rw [heq]; rfl) hd
    rw [closesFrom, if_neg (by simpa using hc)]
    by_cases hopen : c = '('
    · rw [if_pos hopen]
      exact hrest fun front => by rw [Condition.imbalance?, if_pos hopen]
    rw [if_neg hopen]
    by_cases hclose : c = ')'
    · have hdepth : depth ≠ 0 := by
        rintro rfl
        rw [Condition.imbalance?, if_neg hopen, if_pos hclose, if_pos rfl] at hbalanced
        cases hbalanced
      rw [if_pos hclose, bne_iff_ne.2 hdepth, Bool.true_and]
      exact hrest fun front => by
        rw [Condition.imbalance?, if_neg hopen, if_pos hclose, if_neg hdepth]
    · have hfree : (barred c && depth == 0) = false := by
        rw [← Bool.not_eq_true, Bool.and_eq_true, beq_iff_eq]
        rintro ⟨hbarred, rfl⟩
        exact hhides [] c cs rfl hbarred rfl
      rw [if_neg hclose, hfree, Bool.not_false, Bool.true_and]
      exact hrest fun front => by rw [Condition.imbalance?, if_neg hopen, if_neg hclose]

lemma PlainWord.single {word : List Char} (h : PlainWord word) : SingleWord word where
  ne_nil := h.ne_nil
  closes := by
    refine closesFrom_of_balanced (fun c hc => ?_) (isBalanced_iff.1 h.balanced) ?_
    · have hplain := h.plain c hc
      simp only [List.mem_cons, List.not_mem_nil, or_false, not_or] at hplain
      exact ⟨hplain.1, hplain.2.1⟩
    · exact fun front c back heq hblank hfront =>
        h.blanks front c back heq hblank (isBalanced_iff.2 hfront)

section

variable {α β : Type} {corners : Bool}

lemma exchanged_perm (corners : Bool) (xs : List α) : (exchanged corners xs).Perm xs := by
  unfold exchanged
  split
  · rename_i first second third fourth
    split
    · exact (List.Perm.swap _ _ _).trans (((List.Perm.swap _ _ _).cons _).cons _)
    · refine List.Perm.cons _ ?_
      exact (List.reverse_perm [second, third, fourth])
  · exact List.Perm.refl _

lemma exchanged_map (corners : Bool) (f : α → β) (xs : List α) :
    exchanged corners (xs.map f) = (exchanged corners xs).map f := by
  match xs with
  | [_, _, _, _] => cases corners <;> rfl
  | [] | [_] | [_, _] | [_, _, _] | _ :: _ :: _ :: _ :: _ :: _ => rfl

/-- Exchanging the names gives the same pairs as exchanging the values. -/
lemma exchanged_zip {xs : List α} {ys : List β} (hx : xs.length = 4) (hy : ys.length = 4) :
    (exchanged corners xs).zip ys = exchanged corners (xs.zip (exchanged corners ys)) := by
  match xs, ys with
  | [_, _, _, _], [_, _, _, _] => cases corners <;> rfl

end

section

variable {property : String} {value : String} {words : List (List Char)} {text : List Char}

lemma expand?_sides {targets : List String} (hform : form? property = some .sides)
    (htargets : targets? property = some targets) (h : Spaced words value.toList)
    (hwords : ∀ w ∈ words, PlainWord w) :
    expand? property value =
      (sides? words).map fun values => targets.zip (values.map String.ofList) := by
  have hnone : ∀ c ∈ ['/', '!'], c ∉ value.toList := by
    intro c hc hmem
    rcases h.mem hmem with rfl | ⟨w, hw, hin⟩
    · revert hc
      decide
    · refine (hwords w hw).plain c hin ?_
      revert hc
      simp only [List.mem_cons, List.not_mem_nil, or_false]
      tauto
  have hvar : occursIn "var(".toList value.toList = false := by
    rw [Bool.eq_false_iff, Ne, occursIn_iff]
    intro hvar
    obtain ⟨w, hw, hin⟩ := h.infix (by decide) hvar
    exact (hwords w hw).fixed hin
  have hmark : ¬Direction.important <:+ value.toList := fun hmark =>
    hnone '!' (by simp) (hmark.subset List.mem_cons_self)
  have hslash : value.toList.contains '/' = false := by simpa using hnone '/' (by simp)
  have hvalues : values? .sides value.toList = sides? words := by
    unfold values?
    rw [hslash, splitTopLevel_spaced h fun w hw => (hwords w hw).single]
    rfl
  rw [expand?_unmarked hform htargets hvar hmark, hvalues]

lemma mirrored_undirected (h : IsUndirected property) (value : String) :
    mirrored property value =
      (flipProperty property, String.ofList (flipPhysical property value.toList)) := by
  obtain ⟨hplaced, hbackground, hnone⟩ := h
  simp only [List.mem_cons, List.not_mem_nil, or_false, not_or] at hnone
  obtain ⟨hbox, htext, hcursor, halign⟩ := hnone
  have hltr : ltrText property value.toList = value.toList := by
    simp [ltrText, hplaced, hbackground]
  have hflipped : flippedText property value.toList = value.toList := by
    simp [flippedText, flipped?, hplaced, hbackground, hbox, htext, hcursor]
  have hrtl : rtlText true property value.toList = flipPhysical property value.toList := by
    simp [rtlText, hflipped]
  rw [mirrored, rtl?_eq, hltr, hrtl, if_pos rfl]
  by_cases hsame : flipProperty property = property ∧
      flipPhysical property value.toList = value.toList
  · rw [if_pos hsame, hsame.1, hsame.2, String.ofList_toList]
    rfl
  · rw [if_neg hsame]
    rfl

lemma flipEdges_spaced (h : Spaced words text) (hwords : ∀ w ∈ words, SingleWord w) :
    ∃ others, Spaced others (flipEdges text) ∧ others ⊆ words ∧
      sides? others = (sides? words).map (exchanged false) := by
  unfold flipEdges
  rw [splitTopLevel_spaced h hwords]
  split
  · rename_i top right bottom left
    exact ⟨_, spaced_joinWith (List.cons_ne_nil _ _), by simp, rfl⟩
  · rename_i hfour
    refine ⟨words, h, List.Subset.refl _, ?_⟩
    match words with
    | [_, _, _, _] => exact (hfour _ _ _ _ rfl).elim
    | [] | [_] | [_, _] | [_, _, _] | _ :: _ :: _ :: _ :: _ :: _ => rfl

lemma flipCorners_spaced (h : Spaced words text) (hwords : ∀ w ∈ words, SingleWord w) :
    ∃ others, Spaced others (flipCorners text) ∧ others ⊆ words ∧
      sides? others = (sides? words).map (exchanged true) := by
  unfold flipCorners
  rw [splitTopLevel_spaced h hwords]
  split
  iterate 3 exact ⟨_, spaced_joinWith (List.cons_ne_nil _ _), by simp, rfl⟩
  · rename_i hfour hthree htwo
    refine ⟨words, h, List.Subset.refl _, ?_⟩
    match words with
    | [_, _, _, _] => exact (hfour _ _ _ _ rfl).elim
    | [_, _, _] => exact (hthree _ _ _ rfl).elim
    | [_, _] => exact (htwo _ _ rfl).elim
    | [] | [_] | _ :: _ :: _ :: _ :: _ :: _ => rfl

/-- In a row for four sides the names of the longhands are exchanged, whose values stay; the
shorthand keeps its name and has its values exchanged. -/
@[mk_iff]
structure ExchangesSides (property : String) (targets : List String) : Prop where
  four : targets.length = 4
  distinct : targets.Nodup
  undirected : IsUndirected property
  unnamed : flipProperty property = property
  listed : property ≠ "border-radius" → property ∈ edgeProperties
  longhands : ∀ l ∈ targets,
    IsUndirected l ∧ l ∉ edgeProperties ∧ l ≠ "border-radius"
  names : targets.map flipProperty = exchanged (property == "border-radius") targets

instance (property : String) (targets : List String) :
    Decidable (ExchangesSides property targets) :=
  decidable_of_iff (_ ∧ _) (exchangesSides_iff property targets).symm

lemma exists_sides (hne : words ≠ []) (hcount : words.length ≤ 4) :
    ∃ values, sides? words = some values ∧ values.length = 4 := by
  match words with
  | [_] | [_, _] | [_, _, _] | [_, _, _, _] => exact ⟨_, rfl, rfl⟩
  | [] => exact (hne rfl).elim
  | _ :: _ :: _ :: _ :: _ :: _ =>
    simp only [List.length_cons] at hcount
    omega

lemma exchangesSides {targets : List String} (hform : form? property = some .sides)
    (htargets : targets? property = some targets) : ExchangesSides property targets := by
  have htable : ∀ e ∈ expansions, e.2.1 = .sides → ExchangesSides e.1 e.2.2 := by
    decide +kernel
  exact htable _ (row_mem_expansions hform htargets) rfl

namespace ExchangesSides

variable {targets : List String}

/-- A longhand keeps its value, and has the name of the opposite side. -/
lemma mirrored_longhand (h : ExchangesSides property targets) {l : String} (hl : l ∈ targets)
    (value : String) : mirrored l value = (flipProperty l, value) := by
  obtain ⟨hundirected, hlisted, hcorners⟩ := h.longhands l hl
  have halign : l ≠ "text-align" := fun heq => hundirected.2.2 (by simp [heq])
  have hvalue : flipPhysical l value.toList = value.toList := by
    simp [flipPhysical, hundirected.1, hundirected.2.1, halign, hlisted, hcorners]
  rw [mirrored_undirected hundirected, hvalue, String.ofList_toList]

/-- The shorthand keeps its name, and has its values exchanged. -/
lemma mirrored_shorthand (h : ExchangesSides property targets) (hvalue : Spaced words value.toList)
    (hwords : ∀ w ∈ words, SingleWord w) :
    ∃ flipped others, mirrored property value = (property, flipped) ∧
      Spaced others flipped.toList ∧ others ⊆ words ∧
      sides? others = (sides? words).map (exchanged (property == "border-radius")) := by
  have halign : property ≠ "text-align" := fun heq => h.undirected.2.2 (by simp [heq])
  have hplain : isPlaced property = false ∧ isBackground property = false :=
    ⟨h.undirected.1, h.undirected.2.1⟩
  have hmirrored := mirrored_undirected h.undirected value
  rw [h.unnamed] at hmirrored
  by_cases hcorners : property = "border-radius"
  · have hphysical : flipPhysical property value.toList = flipCorners value.toList := by
      subst hcorners
      rfl
    obtain ⟨others, hspaced, hsub, hsides⟩ := flipCorners_spaced hvalue hwords
    refine ⟨_, others, hmirrored, ?_, hsub, ?_⟩
    · rwa [hphysical, String.toList_ofList]
    · rw [hsides, hcorners]
      rfl
  · have hphysical : flipPhysical property value.toList = flipEdges value.toList := by
      simp [flipPhysical, hplain, halign, h.listed hcorners]
    obtain ⟨others, hspaced, hsub, hsides⟩ := flipEdges_spaced hvalue hwords
    refine ⟨_, others, hmirrored, ?_, hsub, ?_⟩
    · rwa [hphysical, String.toList_ofList]
    · rw [hsides, beq_false_of_ne hcorners]

/-- Pairs that are mirrored one by one are those of the exchanged values, in another order. -/
lemma zip_perm (h : ExchangesSides property targets) {values : List String}
    (hvalues : values.length = 4) :
    (targets.zip (exchanged (property == "border-radius") values)).Perm
      ((targets.zip values).map fun part => mirrored part.1 part.2) := by
  have hnames : (targets.zip values).map (fun part => mirrored part.1 part.2) =
      (targets.map flipProperty).zip values := by
    rw [List.zip_map_left]
    refine List.map_congr_left fun part hpart => ?_
    exact h.mirrored_longhand (List.of_mem_zip hpart).1 part.2
  rw [hnames, h.names, exchanged_zip h.four hvalues]
  exact (exchanged_perm _ _).symm

end ExchangesSides

end

/-- A shorthand for four edges or corners may be mirrored before it is expanded or after: mirrored
as a whole and expanded, it gives the same declarations as each longhand of its expansion mirrored
on its own, with one value for each. -/
theorem expand?_mirrored {property value : String} {words : List (List Char)}
    (hform : form? property = some .sides) (hvalue : Spaced words value.toList)
    (hcount : words.length ≤ 4) (hwords : ∀ w ∈ words, PlainWord w) :
    ∃ parts flipped, expand? property value = some parts ∧
      (mirrored property value).1 = property ∧
      expand? property (mirrored property value).2 = some flipped ∧
      (flipped.map Prod.fst).Nodup ∧
      flipped.Perm (parts.map fun part => mirrored part.1 part.2) := by
  obtain ⟨targets, htargets⟩ := exists_targets hform
  have hexchanges := exchangesSides hform htargets
  obtain ⟨text, others, hmirrored, hspaced, hsub, hsides⟩ :=
    hexchanges.mirrored_shorthand hvalue fun w hw => (hwords w hw).single
  obtain ⟨values, hvalues, hlength⟩ := exists_sides hvalue.ne_nil hcount
  have hflipped := expand?_sides hform htargets hspaced fun w hw => hwords w (hsub hw)
  rw [hsides, hvalues, Option.map_some, Option.map_some, ← exchanged_map] at hflipped
  rw [expand?_sides hform htargets hvalue hwords, hvalues, hmirrored]
  refine ⟨_, _, rfl, rfl, hflipped, ?_, hexchanges.zip_perm (by rw [List.length_map, hlength])⟩
  rw [List.map_fst_zip]
  · exact hexchanges.distinct
  · rw [(exchanged_perm _ _).length_eq, List.length_map, hlength, hexchanges.four]

/-- Four edges, one of them with blanks in parentheses. -/
theorem expand?_mirrored_padding :
    mirrored "padding" "1px calc(1px + 2px) 3px 4px" =
        ("padding", "1px 4px 3px calc(1px + 2px)") ∧
      ∃ parts flipped, expand? "padding" "1px calc(1px + 2px) 3px 4px" = some parts ∧
        expand? "padding" (mirrored "padding" "1px calc(1px + 2px) 3px 4px").2 = some flipped ∧
        flipped.Perm (parts.map fun part => mirrored part.1 part.2) := by
  have hspaced : Spaced ["1px".toList, "calc(1px + 2px)".toList, "3px".toList, "4px".toList]
      "1px calc(1px + 2px) 3px 4px".toList :=
    .cons _ 0 (.cons _ 0 (.cons _ 0 (.last _)))
  have hwords : ∀ w ∈ ["1px".toList, "calc(1px + 2px)".toList, "3px".toList, "4px".toList],
      PlainWord w := by
    decide +kernel
  have hform : form? "padding" = some .sides := rfl
  obtain ⟨parts, flipped, hparts, _, hflipped, _, hperm⟩ :=
    expand?_mirrored hform hspaced (by decide) hwords
  exact ⟨by decide +kernel, parts, flipped, hparts, hflipped, hperm⟩

end AtomicCss.Proofs
