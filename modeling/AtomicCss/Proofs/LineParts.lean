import AtomicCss.Proofs.ExpansionTargets
import AtomicCss.Proofs.LineWidths

/-!
# The parts of lines

The words of a line are put in their places one by one, which does not depend on their order. So
every longhand gets its part of the line, whatever the order of the parts, as long as the words are
taken for what they are.
-/

namespace AtomicCss.Proofs

open Text Expansion

/-- What a longhand of a line sets. -/
inductive LinePart
  | width
  | style
  | color
  deriving DecidableEq

/-- The name of a longhand ends in what it sets. -/
def linePartOf (longhand : String) : LinePart :=
  if "-width".toList.isSuffixOf longhand.toList then .width
  else if "-style".toList.isSuffixOf longhand.toList then .style
  else .color

/-- The value of a part, which is the initial one where the line has none. -/
def linePart (width style color : Option (List Char)) : LinePart → List Char
  | .width => width.getD "medium".toList
  | .style => style.getD "none".toList
  | .color => color.getD "currentcolor".toList

/-- The declarations that a line stands for: every longhand with its part. -/
def lineDeclarations (property : String) (width style color : Option (List Char)) :
    List (String × String) :=
  ((targets? property).getD []).map fun longhand =>
    (longhand, String.ofList (linePart width style color (linePartOf longhand)))

/-- Words that are a width, a style and a color in some order, or some of these. -/
structure LineWords (width style color : Option (List Char)) (words : List (List Char)) :
    Prop where
  widths : ∀ w ∈ width, IsLineWidth w
  styles : ∀ s ∈ style, isLineStyle s = true
  colors : ∀ c ∈ color, ¬IsLineWidth c ∧ isLineStyle c = false
  parts : words.Perm (width.toList ++ (style.toList ++ color.toList))
  single : ∀ w ∈ words, SingleWord w

section

variable {width style color : Option (List Char)} {words others : List (List Char)} {line : Line}

lemma lineFrom?_append (line : Line) (words others : List (List Char)) :
    lineFrom? line (words ++ others) =
      (lineFrom? line words).bind fun line => lineFrom? line others := by
  induction words generalizing line with
  | nil => rfl
  | cons word words ih =>
    simp only [List.cons_append, lineFrom?]
    split_ifs <;> first | rfl | exact ih _

/-- Two words find their places in either order. -/
lemma lineFrom?_swap (line : Line) (first second : List Char) :
    lineFrom? line [first, second] = lineFrom? line [second, first] := by
  obtain ⟨width, style, color⟩ := line
  simp only [lineFrom?]
  cases isLineStyle first <;> cases isLineStyle second <;> cases isLineWidth first <;>
    cases isLineWidth second <;> cases width <;> cases style <;> cases color <;> simp

lemma lineFrom?_perm (h : words.Perm others) (line : Line) :
    lineFrom? line words = lineFrom? line others := by
  induction h generalizing line with
  | nil => rfl
  | cons word _ ih =>
    have hfront : ∀ rest, lineFrom? line (word :: rest) =
        (lineFrom? line [word]).bind fun line => lineFrom? line rest :=
      lineFrom?_append line [word]
    rw [hfront, funext ih]
    exact (hfront _).symm
  | swap first second rest =>
    have hfront : ∀ a b : List Char, a :: b :: rest = [a, b] ++ rest := fun _ _ => rfl
    rw [hfront, hfront, lineFrom?_append, lineFrom?_append, lineFrom?_swap]
  | trans _ _ ih ih' => exact (ih line).trans (ih' line)

/-- The values of a line, with initial ones for what it lacks. -/
def lineValues (width style color : Option (List Char)) : List (List Char) :=
  [linePart width style color .width, linePart width style color .style,
    linePart width style color .color]

/-- The word `none` by itself is no exception: as a style it leaves all else initial. -/
lemma line?_eq (hne : words ≠ []) (hcount : words.length ≤ 3) :
    line? words = (lineFrom? ⟨none, none, none⟩ words).map fun line =>
      lineValues line.width line.style line.color := by
  unfold line?
  dsimp only
  rw [if_neg (by simpa [hne] using hcount)]
  split
  · rename_i hnone
    rw [hnone]
    rfl
  · rfl

/-- The words are taken for what they are if widths, and only they, are taken for widths. -/
lemma LineWords.line?_iff (h : LineWords width style color words) (hne : words ≠ []) :
    line? words = some (lineValues width style color) ↔
      (∀ w ∈ width, isLineWidth w = true) ∧ ∀ c ∈ color, isLineWidth c = false := by
  have hlength := h.parts.length_eq
  have hcount : words.length ≤ 3 := by
    rw [hlength]
    cases width <;> cases style <;> cases color <;> simp
  have hmedium : isLineWidth "medium".toList = true := by decide +kernel
  have hkeyword : IsLineWidth "medium".toList := .keyword (by decide)
  rw [line?_eq hne hcount, lineFrom?_perm h.parts]
  have hstyle := h.styles
  have hwidth : ∀ w ∈ width, isLineStyle w = false := fun w hw => (h.widths w hw).not_style
  have hcolor : ∀ c ∈ color, isLineStyle c = false ∧ c ≠ "medium".toList := fun c hc =>
    ⟨(h.colors c hc).2, fun heq => (h.colors c hc).1 (heq ▸ hkeyword)⟩
  have happart : ∀ w ∈ width, ∀ c ∈ color, w ≠ c := fun w hw c hc heq =>
    (h.colors c hc).1 (heq ▸ h.widths w hw)
  clear h hne hlength hcount
  cases width with
  | none =>
    cases color with
    | none => cases style <;> simp_all [lineFrom?, lineValues, linePart]
    | some c =>
      obtain ⟨hplain, hother⟩ := hcolor c rfl
      cases hc : isLineWidth c <;> cases style <;>
        simp_all [lineFrom?, lineValues, linePart]
  | some w =>
    have hplain := hwidth w rfl
    have hmedium' : isLineWidth w = false → "medium".toList ≠ w := by
      rintro hw rfl
      rw [hmedium] at hw
      cases hw
    cases color with
    | none =>
      cases hw : isLineWidth w <;> cases style <;> simp_all [lineFrom?, lineValues, linePart]
    | some c =>
      have hother := (hcolor c rfl).1
      have hne := happart w rfl c rfl
      cases hw : isLineWidth w <;> cases hc : isLineWidth c <;> cases style <;>
        simp_all [lineFrom?, lineValues, linePart]

/-- The longhands of a line are its width, its style and its color, those of a border four of
each. -/
lemma parts_of_targets {property : String} {form : Form} {targets : List String}
    (hform : form? property = some form) (htargets : targets? property = some targets) :
    (form = .line → targets.map linePartOf = [.width, .style, .color]) ∧
      (form = .border → targets.map linePartOf =
        [LinePart.width, .style, .color].flatMap (List.replicate 4)) := by
  have htable : ∀ e ∈ expansions,
      (e.2.1 = .line → e.2.2.map linePartOf = [.width, .style, .color]) ∧
        (e.2.1 = .border → e.2.2.map linePartOf =
          [LinePart.width, .style, .color].flatMap (List.replicate 4)) := by
    decide +kernel
  exact htable _ (row_mem_expansions hform htargets)

lemma flatMap_replicate_inj {parts others : List (List Char)} (hparts : parts.length = 3)
    (hothers : others.length = 3)
    (h : parts.flatMap (List.replicate 4) = others.flatMap (List.replicate 4)) :
    parts = others := by
  obtain ⟨a, b, c, rfl⟩ := List.length_eq_three.1 hparts
  obtain ⟨a', b', c', rfl⟩ := List.length_eq_three.1 hothers
  simp_all [List.replicate]

/-- Every longhand gets its part just in case the words are taken for what they are. -/
lemma LineWords.values?_iff {property : String} {form : Form} {targets : List String}
    {body : List Char} (h : LineWords width style color words) (hbody : Spaced words body)
    (hkind : form = .line ∨ form = .border) (hform : form? property = some form)
    (htargets : targets? property = some targets) :
    values? form body =
        some (targets.map fun longhand => linePart width style color (linePartOf longhand)) ↔
      (∀ w ∈ width, isLineWidth w = true) ∧ ∀ c ∈ color, isLineWidth c = false := by
  have hsplit := splitTopLevel_spaced hbody h.single
  obtain ⟨hline, hborder⟩ := parts_of_targets hform htargets
  have hmap : (targets.map fun longhand => linePart width style color (linePartOf longhand)) =
      (targets.map linePartOf).map (linePart width style color) := by
    rw [List.map_map]
    rfl
  rw [← h.line?_iff hbody.ne_nil, hmap]
  rcases hkind with rfl | rfl
  · rw [hline rfl, values?, hsplit]
    rfl
  · have hvalues : values? .border body =
        (line? words).map fun parts => parts.flatMap (List.replicate 4) := by
      rw [values?, hsplit]
    have hfour : ([LinePart.width, .style, .color].flatMap (List.replicate 4)).map
        (linePart width style color) = (lineValues width style color).flatMap (List.replicate 4) :=
      rfl
    rw [hborder rfl, hvalues, hfour]
    constructor
    · intro heq
      obtain ⟨parts, hparts, heq⟩ := Option.map_eq_some_iff.1 heq
      rw [hparts, flatMap_replicate_inj (length_line? hparts) rfl heq]
    · intro heq
      rw [heq]
      rfl

lemma expand?_of_variable {property value : String}
    (h : occursIn "var(".toList value.toList = true) : expand? property value = none := by
  unfold expand?
  simp only [h, if_true]
  cases form? property <;> rfl

/-- A marked value gives each longhand the mark, but no style ends in one. -/
lemma LineWords.not_marked {targets : List String} {values : List (List Char)}
    (h : LineWords width style color words) (hstyle : LinePart.style ∈ targets.map linePartOf)
    (heq : (targets.map fun longhand =>
        String.ofList (linePart width style color (linePartOf longhand))) =
      values.map fun v => String.ofList (v ++ important)) : False := by
  obtain ⟨longhand, hmem, hpart⟩ := List.mem_map.1 hstyle
  have hvalue : String.ofList (style.getD "none".toList) ∈
      values.map fun v => String.ofList (v ++ important) := by
    rw [← heq]
    exact List.mem_map.2 ⟨longhand, hmem, by rw [hpart]; rfl⟩
  obtain ⟨v, _, hv⟩ := List.mem_map.1 hvalue
  have hbang : '!' ∈ style.getD "none".toList := by
    rw [← String.ofList_injective hv]
    exact List.mem_append_right _ List.mem_cons_self
  cases style with
  | none => exact absurd hbang (by decide)
  | some s =>
    have hnone : isLineStyle s = false := isLineStyle_of_not_isAlpha hbang rfl
    rw [h.styles s rfl] at hnone
    cases hnone

/-- The words are taken for what they are just in case math calls are written as `calc`, and no
color looks like a width. -/
lemma LineWords.taken_iff (h : LineWords width style color words) :
    ((∀ w ∈ width, isLineWidth w = true) ∧ ∀ c ∈ color, isLineWidth c = false) ↔
      (∀ w ∈ width, IsMathCall w → "calc(".toList <+: w) ∧ ∀ c ∈ color, isWidth c = false := by
  refine and_congr (forall₂_congr fun w hw => (h.widths w hw).isLineWidth_iff)
    (forall₂_congr fun c hc => ?_)
  have hkeyword : widthKeywords.contains (String.ofList c) = false := by
    rw [List.contains_eq_mem, decide_eq_false_iff_not]
    exact fun hmem => (h.colors c hc).1 (.keyword hmem)
  rw [isLineWidth, hkeyword, Bool.or_false]

end

/-- A line gives every longhand its part, and the initial value where it lacks this part, whatever
the order of the parts. This holds of a value without variables and without a mark, exactly if a
math call is written as `calc` and the color does not look like a width. -/
theorem expand?_line_iff {property value : String} {width style color : Option (List Char)}
    {words : List (List Char)}
    (hform : form? property = some .line ∨ form? property = some .border)
    (hwords : LineWords width style color words) (hvalue : Spaced words value.toList) :
    expand? property value = some (lineDeclarations property width style color) ↔
      occursIn "var(".toList value.toList = false ∧ ¬important <:+ value.toList ∧
        (∀ w ∈ width, IsMathCall w → "calc(".toList <+: w) ∧ ∀ c ∈ color, isWidth c = false := by
  obtain ⟨form, hform, hkind⟩ : ∃ form, form? property = some form ∧
      (form = .line ∨ form = .border) := by
    rcases hform with hform | hform
    · exact ⟨_, hform, .inl rfl⟩
    · exact ⟨_, hform, .inr rfl⟩
  obtain ⟨targets, htargets⟩ := exists_targets hform
  have hdeclarations : lineDeclarations property width style color = targets.zip
      ((targets.map fun longhand => linePart width style color (linePartOf longhand)).map
        String.ofList) := by
    rw [lineDeclarations, htargets, List.map_map]
    exact List.map_prod_left_eq_zip
  rw [← hwords.taken_iff]
  constructor
  · intro hexpand
    have hvar : occursIn "var(".toList value.toList = false := by
      rw [Bool.eq_false_iff]
      intro hvar
      rw [expand?_of_variable hvar] at hexpand
      cases hexpand
    obtain ⟨other, body, mark, values, longhands, hother, hvalues, hlonghands, hbody, heq⟩ :=
      expand?_zip hexpand
    obtain rfl := Option.some.inj (hform.symm.trans hother)
    obtain rfl := Option.some.inj (htargets.symm.trans hlonghands)
    have hparts := congrArg (List.map Prod.snd) (hdeclarations.symm.trans heq)
    have hlength : values.length = targets.length := by
      rw [length_values? hvalues, (row_of_targets hform htargets).1]
    rw [List.map_snd_zip (by simp), List.map_snd_zip (by simp [hlength])] at hparts
    rcases hbody with ⟨rfl, hmark, rfl⟩ | ⟨front, hfront, rfl, rfl⟩
    · refine ⟨hvar, hmark, (hwords.values?_iff hvalue hkind hform htargets).1 ?_⟩
      simp only [List.append_nil] at hparts
      rw [hvalues, List.map_injective_iff.2 (fun _ _ => String.ofList_injective) hparts]
    · have hstyle : LinePart.style ∈ targets.map linePartOf := by
        obtain ⟨hline, hborder⟩ := parts_of_targets hform htargets
        rcases hkind with rfl | rfl
        · rw [hline rfl]
          decide
        · rw [hborder rfl]
          decide
      rw [List.map_map] at hparts
      exact (hwords.not_marked hstyle hparts).elim
  · rintro ⟨hvar, hmark, htaken⟩
    have hvalues := (hwords.values?_iff hvalue hkind hform htargets).2 htaken
    rw [expand?_unmarked hform htargets hvar hmark, hvalues, hdeclarations]
    rfl

/-- A math call, a style and a color. -/
lemma lineWords_solid_red {word : List Char} {words : List (List Char)} (h : IsMathCall word)
    (hword : SingleWord word) (hparts : words.Perm [word, "solid".toList, "red".toList]) :
    LineWords (some word) (some "solid".toList) (some "red".toList) words where
  widths w hw := Option.some.inj hw ▸ .math h
  styles s hs := Option.some.inj hs ▸ (by decide)
  colors c hc := Option.some.inj hc ▸
    ⟨not_isLineWidth_of_letters (by decide) (by decide), by decide⟩
  parts := hparts
  single w hw := by
    have hall : ∀ w ∈ [word, "solid".toList, "red".toList], SingleWord w :=
      List.forall_mem_cons.2 ⟨hword, by decide⟩
    exact hall w (hparts.mem_iff.1 hw)

/-- A border with its width in the middle. -/
theorem expand?_line_iff_border :
    expand? "border" "solid calc(1px + 2px) red" =
      some (lineDeclarations "border" (some "calc(1px + 2px)".toList) (some "solid".toList)
        (some "red".toList)) := by
  have hcalc : IsMathCall "calc(1px + 2px)".toList :=
    ⟨"calc".toList, "1px + 2px".toList, rfl, by decide, by decide⟩
  have hwords : LineWords (some "calc(1px + 2px)".toList) (some "solid".toList)
      (some "red".toList) ["solid".toList, "calc(1px + 2px)".toList, "red".toList] :=
    lineWords_solid_red hcalc (by decide) (.swap _ _ _)
  have hspaced : Spaced ["solid".toList, "calc(1px + 2px)".toList, "red".toList]
      "solid calc(1px + 2px) red".toList :=
    .cons _ 0 (.cons _ 0 (.last _))
  refine (expand?_line_iff (.inr rfl) hwords hspaced).2 ⟨by decide, by decide, ?_, ?_⟩
  · exact fun w hw _ => Option.some.inj hw ▸ List.isPrefixOf_iff_prefix.1 (by decide)
  · exact fun c hc => Option.some.inj hc ▸ (by decide)

/-- The least of two widths is a width, but it is taken for a color. -/
theorem line_with_min :
    LineWords (some "min(1px,2px)".toList) (some "solid".toList) (some "red".toList)
        ["min(1px,2px)".toList, "solid".toList, "red".toList] ∧
      Spaced ["min(1px,2px)".toList, "solid".toList, "red".toList]
        "min(1px,2px) solid red".toList ∧
      expand? "border-top" "min(1px,2px) solid red" = none := by
  have hmin : IsMathCall "min(1px,2px)".toList :=
    ⟨"min".toList, "1px,2px".toList, rfl, by decide, by decide⟩
  have hwords : LineWords (some "min(1px,2px)".toList) (some "solid".toList)
      (some "red".toList) ["min(1px,2px)".toList, "solid".toList, "red".toList] :=
    lineWords_solid_red hmin (by decide) (.refl _)
  exact ⟨hwords, .cons _ 0 (.cons _ 0 (.last _)), by decide +kernel⟩

end AtomicCss.Proofs
