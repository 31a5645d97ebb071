import AtomicCss.Class.Expansion
import AtomicCss.Proofs.Alternatives
import AtomicCss.Proofs.MarkStays

/-!
# Important values in both directions

An important mark behind a value makes no difference to how a shorthand is expanded: it goes to each
part. For which values it makes none to the text for either direction is stated exactly.
-/

namespace AtomicCss.Proofs

open Text Direction

section

variable {property : String} {value : List Char}

/-- A shorthand's mark goes to each of its parts. -/
lemma expand?_append_important {property v : String} (hend : ¬EndsBlank v.toList)
    (hmark : ¬important <:+ v.toList) :
    Expansion.expand? property (v ++ "!important") = (Expansion.expand? property v).map
      fun parts => parts.map fun part => (part.1, part.2 ++ "!important") := by
  have hwith : Expansion.important.isSuffixOf? (v.toList ++ important) = some v.toList :=
    isSuffixOf?_append_important
  have hwithout : Expansion.important.isSuffixOf? v.toList = none :=
    isSuffixOf?_eq_none hmark
  have hlist : (v ++ "!important").toList = v.toList ++ important := String.toList_append
  unfold Expansion.expand?
  cases Expansion.form? property with
  | none => rfl
  | some form =>
    simp only [hlist, occursIn_var_append_important, hwith, hwithout,
      trimEnd_of_not_endsBlank hend, Option.bind_eq_bind, Option.bind_some]
    split
    · rfl
    · cases Expansion.values? form v.toList with
      | none => rfl
      | some values =>
        cases Expansion.targets? property with
        | none => rfl
        | some targets =>
          simp only [Option.bind_some, Option.map_some, List.append_nil, List.zip_map_right,
            List.map_map]
          refine congrArg some (List.map_congr_left fun item _ => ?_)
          exact congrArg _ (String.ofList_append ..)

/-- The value for right-to-left text as far as it does not depend on physical sides. Shadows that
cannot be flipped are left alone. -/
def flippedText (property : String) (value : List Char) : List Char :=
  (flipped? property value).getD value

/-- The value for right-to-left text. -/
def rtlText (flipsPhysical : Bool) (property : String) (value : List Char) : List Char :=
  if flipsPhysical && flippedText property value == value then flipPhysical property value
  else flippedText property value

lemma flipped?_eq_none (h : flipped? property value = none) :
    property ∈ ["box-shadow", "text-shadow"] := by
  unfold flipped? at h
  split at h
  · cases h
  split at h
  · cases h
  split at h
  · rename_i hshadow
    simpa using hshadow
  split at h
  all_goals cases h

/-- Of shadows neither the property nor the value has physical sides. -/
lemma noSides_of_shadow (h : property ∈ ["box-shadow", "text-shadow"]) :
    flipProperty property = property ∧
      ∀ text, flipPhysical property text = text ∧ ltrText property text = text := by
  simp only [List.mem_cons, List.not_mem_nil, or_false] at h
  rcases h with rfl | rfl
  · exact ⟨rfl, fun _ => ⟨rfl, rfl⟩⟩
  · exact ⟨rfl, fun _ => ⟨rfl, rfl⟩⟩

lemma rtl?_eq (flipsPhysical : Bool) (property value : String) :
    rtl? flipsPhysical property value =
      if (if flipsPhysical then flipProperty property else property) = property ∧
          rtlText flipsPhysical property value.toList = ltrText property value.toList then none
      else some (if flipsPhysical then flipProperty property else property,
        String.ofList (rtlText flipsPhysical property value.toList)) := by
  unfold rtl?
  cases hflipped : flipped? property value.toList with
  | some flipped => simp [rtlText, flippedText, hflipped]
  | none =>
    obtain ⟨hproperty, htexts⟩ := noSides_of_shadow (flipped?_eq_none hflipped)
    simp [rtlText, flippedText, hflipped, hproperty, htexts]

/-- With the mark, the declaration for right-to-left text is the same just in case its text is. -/
lemma rtl?_append_important {v : String} (hltr : MarkStays (ltrText property) v.toList)
    (flipsPhysical : Bool) :
    rtl? flipsPhysical property (v ++ "!important") =
        (rtl? flipsPhysical property v).map (fun twin => (twin.1, twin.2 ++ "!important")) ↔
      MarkStays (rtlText flipsPhysical property) v.toList := by
  have hlist : (v ++ "!important").toList = v.toList ++ important := String.toList_append
  unfold MarkStays at hltr ⊢
  rw [rtl?_eq, rtl?_eq, hlist, hltr]
  generalize rtlText flipsPhysical property v.toList = text
  generalize rtlText flipsPhysical property (v.toList ++ important) = marked
  generalize ltrText property v.toList = ltrText
  generalize (if flipsPhysical then flipProperty property else property) = name
  have hmark : String.ofList text ++ "!important" = String.ofList (text ++ important) :=
    (String.ofList_append ..).symm
  by_cases hsame : name = property ∧ text = ltrText
  · rw [if_pos hsame]
    obtain ⟨rfl, rfl⟩ := hsame
    simp
  · rw [if_neg hsame]
    by_cases hmarked : name = property ∧ marked = ltrText ++ important
    · rw [if_pos hmarked]
      refine iff_of_false nofun fun heq => hsame ⟨hmarked.1, ?_⟩
      exact List.append_cancel_right (heq.symm.trans hmarked.2)
    · rw [if_neg hmarked, Option.map_some, hmark, Option.some_inj, Prod.mk_right_inj,
        String.ofList_inj]

/-- A mark stays in the text for each direction. -/
@[mk_iff]
structure StaysInBoth (property : String) (value : List Char) : Prop where
  ltr : MarkStays (ltrText property) value
  flipped : MarkStays (flippedText property) value
  physical : flippedText property value = value → MarkStays (flipPhysical property) value

lemma markStays_rtlText : (∀ flipsPhysical, MarkStays (rtlText flipsPhysical property) value) ↔
    MarkStays (flippedText property) value ∧
      (flippedText property value = value → MarkStays (flipPhysical property) value) := by
  have hlogical : rtlText false property = flippedText property := rfl
  constructor
  · intro h
    have hflipped := h false
    rw [hlogical] at hflipped
    refine ⟨hflipped, fun hself => ?_⟩
    have hphysical := h true
    unfold MarkStays rtlText at hphysical
    unfold MarkStays at hflipped
    rw [hflipped, hself] at hphysical
    simpa [MarkStays] using hphysical
  · rintro ⟨hflipped, hphysical⟩ flipsPhysical
    cases flipsPhysical with
    | false => exact hflipped
    | true =>
      unfold MarkStays rtlText
      unfold MarkStays at hflipped
      rw [hflipped]
      by_cases hself : flippedText property value = value
      · have := hphysical hself
        unfold MarkStays at this
        simp [hself, this]
      · simp [hself]

/-- The values of a property that are written alike with an important mark and without. The last
word of a position is replaced by none, the horizontal offset of a shadow is no zero in front of the
mark, and edges or corners that are swapped leave the last word where it is. -/
def KeepsMark (property : String) (value : List Char) : Prop :=
  if isBackground property then
    JoinsMark value ∧ replaced? logicalToLtr (lastWord value) = none ∧
      (mapWords logicalToRtl value = value → replaced? swappedSides (lastWord value) = none)
  else if property == "box-shadow" || property == "text-shadow" then
    IsLeft value ∨ JoinsMark value ∧ ¬ZeroOffsetLast value
  else if edgeProperties.contains property then (splitTopLevel ' ' value).length ≠ 4
  else if property == "border-radius" then (splitTopLevel ' ' value).length ∉ [2, 4]
  else True

lemma staysInBoth_background (hproperty : isBackground property = true) (h : ¬EndsBlank value) :
    StaysInBoth property value ↔ JoinsMark value ∧ replaced? logicalToLtr (lastWord value) = none ∧
      (mapWords logicalToRtl value = value →
        replaced? swappedSides (lastWord value) = none) := by
  have hltr := markStays_mapWords (by decide +kernel : IsProper logicalToLtr) h
  have hrtl := markStays_mapWords (by decide +kernel : IsProper logicalToRtl) h
  have hsides := markStays_mapWords (by decide +kernel : IsProper swappedSides) h
  have hkeys : replaced? logicalToRtl (lastWord value) = none ↔
      replaced? logicalToLtr (lastWord value) = none := by
    simp [replaced?, List.lookup_eq_none_iff, logicalToRtl, logicalToLtr]
  have hmaps : ltrText property = mapWords logicalToLtr ∧
      flippedText property = mapWords logicalToRtl ∧
      flipPhysical property = mapWords swappedSides := by
    simp only [isBackground, Bool.or_eq_true, beq_iff_eq] at hproperty
    rcases hproperty with rfl | rfl
    · exact ⟨rfl, rfl, rfl⟩
    · exact ⟨rfl, rfl, rfl⟩
  rw [staysInBoth_iff, hmaps.1, hmaps.2.1, hmaps.2.2, hltr, hrtl, hsides, hkeys]
  constructor
  · rintro ⟨hlogical, _, hphysical⟩
    exact ⟨hlogical.1, hlogical.2, fun hself => (hphysical hself).2⟩
  · rintro ⟨hjoins, hnone, hphysical⟩
    exact ⟨⟨hjoins, hnone⟩, ⟨hjoins, hnone⟩, fun hself => ⟨hjoins, hphysical hself⟩⟩

lemma staysInBoth_shadow
    (hproperty : (property == "box-shadow" || property == "text-shadow") = true)
    (h : ¬EndsBlank value) :
    StaysInBoth property value ↔ IsLeft value ∨ JoinsMark value ∧ ¬ZeroOffsetLast value := by
  rw [← markStays_flipShadows h]
  simp only [Bool.or_eq_true, beq_iff_eq] at hproperty
  rcases hproperty with rfl | rfl
  · exact ⟨StaysInBoth.flipped, fun hflipped => ⟨rfl, hflipped, fun _ => rfl⟩⟩
  · exact ⟨StaysInBoth.flipped, fun hflipped => ⟨rfl, hflipped, fun _ => rfl⟩⟩

/-- Only the physical sides of edges and corners are swapped. -/
lemma staysInBoth_swapped {swap : List Char → List Char}
    (hltr : ltrText property = id) (hflipped : flippedText property = id)
    (hphysical : flipPhysical property = swap) :
    StaysInBoth property value ↔ MarkStays swap value := by
  rw [staysInBoth_iff, hltr, hflipped, hphysical]
  exact ⟨fun h => h.2.2 rfl, fun h => ⟨rfl, rfl, fun _ => h⟩⟩

lemma staysInBoth_other (hbackground : ¬isBackground property = true)
    (hshadow : ¬(property == "box-shadow" || property == "text-shadow") = true)
    (hedges : ¬edgeProperties.contains property = true)
    (hcorners : ¬(property == "border-radius") = true) (hmark : ¬important <:+ value) :
    StaysInBoth property value := by
  have hkeyword : ∀ {words : WordMap}, MarkStays (mapKeyword words) value :=
    markStays_mapKeyword hmark
  refine ⟨?_, ?_, fun _ => ?_⟩
  · unfold MarkStays ltrText
    simp only [if_neg hbackground]
    split
    · exact hkeyword
    · rfl
  · unfold MarkStays flippedText flipped?
    simp only [if_neg hbackground, if_neg hshadow]
    split
    · exact hkeyword
    split
    · exact hkeyword
    · rfl
  · unfold MarkStays flipPhysical
    simp only [if_neg hbackground, if_neg hedges, if_neg hcorners]
    split
    · exact hkeyword
    · rfl

lemma staysInBoth_iff_keepsMark (hend : ¬EndsBlank value) (hmark : ¬important <:+ value) :
    StaysInBoth property value ↔ KeepsMark property value := by
  unfold KeepsMark
  split
  · rename_i hbackground
    exact staysInBoth_background hbackground hend
  split
  · rename_i hshadow
    exact staysInBoth_shadow hshadow hend
  split
  · rename_i hedges
    have hmaps : ltrText property = id ∧ flippedText property = id ∧
        flipPhysical property = flipEdges := by
      have hmem : property ∈ edgeProperties := List.contains_iff_mem.1 hedges
      simp only [edgeProperties, List.mem_cons, List.not_mem_nil, or_false] at hmem
      rcases hmem with rfl | rfl | rfl | rfl | rfl | rfl | rfl | rfl <;> exact ⟨rfl, rfl, rfl⟩
    rw [staysInBoth_swapped hmaps.1 hmaps.2.1 hmaps.2.2, markStays_flipEdges hend]
  split
  · rename_i hcorners
    obtain rfl := eq_of_beq hcorners
    rw [@staysInBoth_swapped _ _ flipCorners rfl rfl rfl, markStays_flipCorners hend]
  · rename_i hbackground hshadow hedges hcorners
    exact iff_of_true (staysInBoth_other hbackground hshadow hedges hcorners hmark) trivial

lemma not_endsBlank_of_plain (h : ∀ c ∈ value, IsPlain c) : ¬EndsBlank value := by
  rintro ⟨c, hc, hblank⟩
  exact not_mark_of_plain (h c (List.mem_of_mem_getLast? hc)) (.inl hblank)

lemma not_endsBlank_concat {c : Char} (hc : isBlank c = false) (text : List Char) :
    ¬EndsBlank (text ++ [c]) := by
  rw [endsBlank_concat, hc]
  exact Bool.false_ne_true

lemma not_endsBlank_normalizeText {raw : List Char}
    (h : Value.normalizeText property raw = .ok value) : ¬EndsBlank value := by
  obtain ⟨mark, hmark, hbody⟩ := normalizeText_cases h
  have hmarked : ∀ {body : List Char}, ¬EndsBlank body → ¬EndsBlank (body ++ mark) := by
    intro body hlast
    simp only [List.mem_cons, List.not_mem_nil, or_false] at hmark
    rcases hmark with rfl | rfl
    · rw [endsBlank_append (by decide)]
      exact not_endsBlank_concat (by decide : isBlank 't' = false) Value.importantMark.dropLast
    · rwa [List.append_nil]
  have hlast := not_endsBlank_bodyOf raw
  rcases hbody with ⟨_, rfl⟩ | ⟨_, tokens, htokens, rfl⟩
  · exact hmarked (not_endsBlank_concat (by decide) ('"' :: Value.escaped (bodyOf raw)))
  · exact hmarked fun hblank => hlast ((endsLike_body property htokens hlast).blank hblank)

/-- Normalized values end in no blank. -/
lemma not_endsBlank_normalizeLeaf {leaf : Value} {normalized : Normalized}
    (h : Value.normalizeLeaf property leaf = .ok normalized) :
    ∀ v ∈ normalized.values, ¬EndsBlank v.toList := by
  refine (normalizeLeaf_forall h (fun v w _ _ _ => ?_) fun scalar _ text htext => ?_).2
  · unfold withFallback
    rw [String.toList_append]
    exact not_endsBlank_concat (by decide) _
  · cases scalar with
    | text raw =>
      obtain ⟨cs, hcs, rfl⟩ := map_eq_ok htext
      rw [String.toList_ofList]
      exact not_endsBlank_normalizeText hcs
    | number x =>
      obtain ⟨cs, hcs, rfl⟩ := map_eq_ok htext
      rw [String.toList_ofList]
      rcases normalizeNumber_cases hcs with hplain | ⟨raw, _, hraw⟩
      · exact not_endsBlank_of_plain hplain
      · exact not_endsBlank_normalizeText hraw
    | ref target => cases htext

/-- An important mark behind a normalized value without one goes to every part of its expansion. In
both directions the declaration is the one for the value, with the mark behind its text, exactly for
the values that keep their mark. -/
theorem mark_transparent_iff {source property v : String} {leaf : Value} {normalized : Normalized}
    (h : Value.normalizeLeaf source leaf = .ok normalized) (hv : v ∈ normalized.values)
    (hmark : ¬important <:+ v.toList) :
    Expansion.expand? property (v ++ "!important") = (Expansion.expand? property v).map
        (fun parts => parts.map fun part => (part.1, part.2 ++ "!important")) ∧
      (ltr property (v ++ "!important") = ltr property v ++ "!important" ∧
          (∀ flipsPhysical, rtl? flipsPhysical property (v ++ "!important") =
            (rtl? flipsPhysical property v).map
              fun twin => (twin.1, twin.2 ++ "!important")) ↔
        KeepsMark property v.toList) := by
  have hend := not_endsBlank_normalizeLeaf h v hv
  have hltr : ltr property (v ++ "!important") = ltr property v ++ "!important" ↔
      MarkStays (ltrText property) v.toList := by
    unfold ltr MarkStays
    rw [String.toList_append, ← String.ofList_inj, String.ofList_append]
    rfl
  refine ⟨expand?_append_important hend hmark, ?_⟩
  rw [← staysInBoth_iff_keepsMark hend hmark, staysInBoth_iff, ← markStays_rtlText, hltr]
  refine and_congr_right fun hstays => ?_
  exact forall_congr' fun flipsPhysical => rtl?_append_important hstays flipsPhysical

/-- The mark stays behind three corners, of which the last is not swapped. -/
theorem mark_transparent_iff_corners :
    Value.normalizeLeaf "border-radius" (.scalar (.text "1px  2px 3px")) = .ok ⟨["1px 2px 3px"]⟩ ∧
      ¬important <:+ "1px 2px 3px".toList ∧ KeepsMark "border-radius" "1px 2px 3px".toList ∧
      Expansion.expand? "border-radius" "1px 2px 3px!important" =
        some [("border-top-left-radius", "1px!important"),
          ("border-top-right-radius", "2px!important"),
          ("border-bottom-right-radius", "3px!important"),
          ("border-bottom-left-radius", "2px!important")] ∧
      rtl? true "border-radius" "1px 2px 3px!important" =
        some ("border-radius", "2px 1px 2px 3px!important") := by
  have hnormal : Value.normalizeLeaf "border-radius" (.scalar (.text "1px  2px 3px")) =
      .ok ⟨["1px 2px 3px"]⟩ := by decide +kernel
  have hmark : ¬important <:+ "1px 2px 3px".toList := by decide +kernel
  have hkeeps : KeepsMark "border-radius" "1px 2px 3px".toList := by
    change (splitTopLevel ' ' "1px 2px 3px".toList).length ∉ [2, 4]
    decide +kernel
  obtain ⟨hexpanded, hmirrored⟩ := @mark_transparent_iff "border-radius" "border-radius"
    "1px 2px 3px" _ _ hnormal List.mem_cons_self hmark
  refine ⟨hnormal, hmark, hkeeps, hexpanded.trans (by decide +kernel), ?_⟩
  exact ((hmirrored.2 hkeeps).2 true).trans (by decide +kernel)

/-- Of four edges the last is swapped with the second, and takes the mark along. -/
theorem mark_moved_in_padding :
    Value.normalizeLeaf "padding" (.scalar (.text "1px 2px 3px 4px")) =
        .ok ⟨["1px 2px 3px 4px"]⟩ ∧
      ¬important <:+ "1px 2px 3px 4px".toList ∧
      rtl? true "padding" "1px 2px 3px 4px" = some ("padding", "1px 4px 3px 2px") ∧
      rtl? true "padding" ("1px 2px 3px 4px" ++ "!important") =
        some ("padding", "1px 4px!important 3px 2px") := by
  decide +kernel

end

end AtomicCss.Proofs
