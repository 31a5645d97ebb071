import AtomicCss.Proofs.Layers
import AtomicCss.Proofs.LineWidths
import AtomicCss.Proofs.MarkTransparency

/-!
# The offsets of shadows

Each layer of a shadow has lengths among its keywords and colors, of which the first is the
horizontal offset. For right-to-left text the first word that begins like a number is taken for it.
So the horizontal offset is passed over where it is a call of a math function or has a plus sign,
and the next length changes its sign in its place.
-/

namespace AtomicCss.Proofs

open Text Direction Token

/-- A number without a unit, and nothing behind it. -/
def IsNumberWord (word : List Char) : Prop :=
  ∃ text, next? word = .ok (some (.number text, []))

/-- The lengths of a shadow. -/
inductive IsLength : List Char → Prop
  | number {word : List Char} : IsNumberWord word → IsLength word
  | dimension {word : List Char} : IsDimension word → IsLength word
  | math {word : List Char} : IsMathCall word → IsLength word

/-- A number or a dimension, without a plus sign. -/
structure IsPlainLength (word : List Char) : Prop where
  written : ¬IsMathCall word
  unsigned : word.head? ≠ some '+'

/-- The keywords and colors of a shadow: names, hashes and calls of other functions. -/
structure IsNamed (word : List Char) : Prop where
  name : ∃ (dashes : ℕ) (c : Char) (cs : List Char), word = List.replicate dashes '-' ++ c :: cs ∧
    (isNameStart c = true ∨ c = '\\' ∨ c = '#')
  other : ¬IsMathCall word

/-- A shadow: its horizontal offset among keywords and colors, and any number of other lengths
behind it. -/
structure Shadow where
  front : List (List Char)
  offset : List Char
  rest : List (List Char)
  front_named : ∀ w ∈ front, IsNamed w
  offset_length : IsLength offset
  rest_written : ∀ w ∈ rest, IsLength w ∨ IsNamed w
  words_layer : ∀ w ∈ front ++ offset :: rest, LayerWord w

namespace Shadow

def words (s : Shadow) : List (List Char) :=
  s.front ++ s.offset :: s.rest

/-- These are the words of the shadow, with some word in place of its offset. -/
def OffsetOnly (s : Shadow) (words : List (List Char)) : Prop :=
  ∃ offset, LayerWord offset ∧ words = s.front ++ offset :: s.rest

/-- The horizontal offset is plain, or the first other length that is has no sign to change. -/
def OffsetFound (s : Shadow) : Prop :=
  IsPlainLength s.offset ∨ ∀ front w back, s.rest = front ++ w :: back → IsLength w →
    IsPlainLength w → (∀ u ∈ front, IsLength u → ¬IsPlainLength u) → negated w = w

end Shadow

section

variable {word : List Char}

/-- Numbers and dimensions from the sign on. -/
lemma digits_of_length (h : IsLength word) (hwritten : ¬IsMathCall word) :
    ∃ sign d ds, isSign sign ∧ (d.isDigit = true ∨ d = '.') ∧ word = sign ++ d :: ds := by
  cases h with
  | math h => exact (hwritten h).elim
  | dimension h =>
    obtain ⟨sign, d, ds, hsign, hd, _, hword⟩ := digits_of_dimension h
    exact ⟨sign, d, ds, hsign, hd, hword⟩
  | number h =>
    obtain ⟨text, h⟩ := h
    generalize htoken : Token.number text = t at h
    generalize hnil : ([] : List Char) = rest at h
    cases taken_of_next? h with
    | number hstarts hread hend =>
      obtain ⟨p, htext, _⟩ := parts_of_startsNumber hstarts
      obtain ⟨d, ds, hdigits, hd⟩ := head_digits p p.exponent
      refine ⟨p.sign, d, ds, p.sign_ok, hd, ?_⟩
      rw [← hdigits, ← numberSpan_append word, htext, ← hnil, NumberParts.text]
      simp
    | _ => cases htoken

/-- Of the lengths exactly the plain ones begin like a number. -/
lemma startsNumeric_iff (h : IsLength word) : startsNumeric word = true ↔ IsPlainLength word := by
  by_cases hmath : IsMathCall word
  · obtain ⟨c, cs, rfl, hc, _⟩ := mathCall_parts hmath
    refine iff_of_false ?_ fun hplain => hplain.written hmath
    have hdash : c ≠ '-' := by
      rintro rfl
      exact absurd hc (by decide)
    have hnumeric : ¬(c.isDigit = true ∨ c = '.') := by
      intro hnumeric
      rw [not_isAlpha_of_digit hnumeric] at hc
      cases hc
    simpa [startsNumeric, hdash] using hnumeric
  · obtain ⟨sign, d, ds, hsign, hd, rfl⟩ := digits_of_length h hmath
    have hdash : d ≠ '-' ∧ d ≠ '+' := by
      rcases hd with hd | rfl
      · exact (ne_sign_of_isDigit hd).symm
      · decide
    have hnumeric : startsNumeric (d :: ds) = true := by
      simpa [startsNumeric, hdash] using hd
    rcases hsign with rfl | rfl | rfl
    · exact iff_of_true hnumeric ⟨hmath, by simpa using hdash.2⟩
    · exact iff_of_false (by simp [startsNumeric]) fun hplain => hplain.unsigned rfl
    · exact iff_of_true hnumeric ⟨hmath, by simp⟩

lemma not_numeric_of_nameStart {c : Char} (h : isNameStart c = true) :
    c ≠ '-' ∧ ¬(c.isDigit = true ∨ c = '.') := by
  refine ⟨?_, ?_⟩
  · rintro rfl
    cases h
  · rintro (hdigit | rfl)
    · have hrange := Char.isDigit_iff_toNat.1 hdigit
      unfold isNameStart at h
      rw [not_isAlpha_of_digit (.inl hdigit), Bool.false_or, Bool.or_eq_true, beq_iff_eq,
        decide_eq_true_eq] at h
      have hnine : '9'.toNat = 57 := rfl
      rcases h with rfl | hlarge
      · cases hdigit
      · omega
    · cases h

lemma not_startsNumeric_of_named (h : IsNamed word) : startsNumeric word = false := by
  obtain ⟨dashes, c, cs, rfl, hc⟩ := h.name
  have hplain : c ≠ '-' ∧ ¬(c.isDigit = true ∨ c = '.') := by
    rcases hc with hc | rfl | rfl
    · exact not_numeric_of_nameStart hc
    · decide
    · decide
  have hdashes : ∀ d ∈ List.replicate dashes '-', (d == '-') = true := by
    intro d hd
    rw [List.eq_of_mem_replicate hd]
    rfl
  unfold startsNumeric
  rw [List.dropWhile_append_of_pos hdashes, List.dropWhile_cons_of_neg (by simp [hplain.1])]
  simpa using hplain.2

/-- A length with the other sign is a word again. -/
lemma layerWord_negated (hword : LayerWord word) (h : startsNumeric word = true) :
    LayerWord (negated word) := by
  by_cases hminus : word.head? = some '-'
  · obtain ⟨positive, rfl⟩ := List.head?_eq_some_iff.1 hminus
    refine ⟨?_, hword.closes⟩
    rintro rfl
    cases h
  · rw [negated_unsigned hminus]
    split
    · exact hword
    · exact ⟨List.cons_ne_nil _ _, hword.closes⟩

end

section

variable {p : List Char → Bool} {change : List Char → List Char} {front rest : List (List Char)}

lemma changeFirst_append (hfront : ∀ w ∈ front, p w = false) :
    changeFirst p change (front ++ rest) = front ++ changeFirst p change rest := by
  induction front with
  | nil => rfl
  | cons w front ih =>
    obtain ⟨hw, hfront⟩ := List.forall_mem_cons.1 hfront
    rw [List.cons_append, changeFirst, if_neg (by simp [hw]), ih hfront, List.cons_append]

/-- Nothing changes if and only if the first word in question stays the same. -/
lemma changeFirst_eq_self_iff : changeFirst p change rest = rest ↔
    ∀ front w back, rest = front ++ w :: back → p w = true → (∀ u ∈ front, p u = false) →
      change w = w := by
  constructor
  · rintro h front w back rfl hw hfront
    rw [changeFirst_append hfront, List.append_cancel_left_eq, changeFirst, if_pos hw] at h
    exact (List.cons.inj h).1
  · intro h
    induction rest with
    | nil => rfl
    | cons word rest ih =>
      rw [changeFirst]
      split
      · rename_i hword
        rw [h [] word rest rfl hword (by simp)]
      · rename_i hword
        rw [ih]
        rintro front w back rfl hw hfront
        apply h (word :: front) w back rfl hw
        exact List.forall_mem_cons.2 ⟨by simpa using hword, hfront⟩

lemma mem_changeFirst {w : List Char} (h : w ∈ changeFirst p change rest) :
    w ∈ rest ∨ ∃ u ∈ rest, p u = true ∧ w = change u := by
  induction rest with
  | nil => cases h
  | cons word rest ih =>
    rw [changeFirst] at h
    split at h
    · rename_i hword
      rcases List.mem_cons.1 h with rfl | h
      · exact .inr ⟨word, List.mem_cons_self, hword, rfl⟩
      · exact .inl (List.mem_cons_of_mem _ h)
    · rcases List.mem_cons.1 h with rfl | h
      · exact .inl List.mem_cons_self
      · rcases ih h with h | ⟨u, hu, hp, rfl⟩
        · exact .inl (List.mem_cons_of_mem _ h)
        · exact .inr ⟨u, List.mem_cons_of_mem _ hu, hp, rfl⟩

end

namespace Shadow

/-- The words of the shadow in the other direction. -/
def flipped (s : Shadow) : List (List Char) :=
  changeFirst startsNumeric negated s.words

variable {s : Shadow}

lemma flipped_eq (s : Shadow) :
    s.flipped = s.front ++ changeFirst startsNumeric negated (s.offset :: s.rest) :=
  changeFirst_append fun w hw => not_startsNumeric_of_named (s.front_named w hw)

lemma layerWord_flipped (s : Shadow) : ∀ w ∈ s.flipped, LayerWord w := by
  intro w hw
  rcases mem_changeFirst hw with hw | ⟨u, hu, hnumeric, rfl⟩
  · exact s.words_layer w hw
  · exact layerWord_negated (s.words_layer u hu) hnumeric

lemma flipped_ne_nil (s : Shadow) : s.flipped ≠ [] := by
  rw [s.flipped_eq, changeFirst]
  split <;> simp

lemma offsetOnly_words (s : Shadow) : s.OffsetOnly s.words :=
  ⟨s.offset, s.words_layer _ (by simp), rfl⟩

lemma OffsetOnly.layerWord {words : List (List Char)} (h : s.OffsetOnly words) :
    ∀ w ∈ words, LayerWord w := by
  obtain ⟨offset, hoffset, rfl⟩ := h
  intro w hw
  rcases List.mem_append.1 hw with hw | hw
  · exact s.words_layer w (List.mem_append_left _ hw)
  · rcases List.mem_cons.1 hw with rfl | hw
    · exact hoffset
    · exact s.words_layer w (List.mem_append_right _ (List.mem_cons_of_mem _ hw))

/-- Among the words behind the offset, those that begin like a number are the plain lengths. -/
lemma startsNumeric_rest (s : Shadow) {w : List Char} (hw : w ∈ s.rest) :
    startsNumeric w = true ↔ IsLength w ∧ IsPlainLength w := by
  rcases s.rest_written w hw with hlength | hnamed
  · rw [startsNumeric_iff hlength]
    exact ⟨fun hplain => ⟨hlength, hplain⟩, And.right⟩
  · refine iff_of_false (by simp [not_startsNumeric_of_named hnamed]) ?_
    rintro ⟨hlength, hplain⟩
    have hnumeric := (startsNumeric_iff hlength).2 hplain
    rw [not_startsNumeric_of_named hnamed] at hnumeric
    cases hnumeric

/-- Only the offset changes if and only if it is found. -/
lemma offsetOnly_flipped_iff (s : Shadow) : s.OffsetOnly s.flipped ↔ s.OffsetFound := by
  rw [s.flipped_eq, changeFirst]
  by_cases hnumeric : startsNumeric s.offset = true
  · rw [if_pos hnumeric]
    have hoffset : LayerWord s.offset := s.words_layer _ (by simp)
    exact iff_of_true ⟨_, layerWord_negated hoffset hnumeric, rfl⟩
      (.inl ((startsNumeric_iff s.offset_length).1 hnumeric))
  · have hplain : ¬IsPlainLength s.offset := (startsNumeric_iff s.offset_length).not.1 hnumeric
    have honly : s.OffsetOnly (s.front ++ s.offset :: changeFirst startsNumeric negated s.rest) ↔
        changeFirst startsNumeric negated s.rest = s.rest := by
      constructor
      · rintro ⟨offset, _, heq⟩
        exact (List.cons.inj (List.append_cancel_left heq)).2
      · intro heq
        rw [heq]
        exact s.offsetOnly_words
    rw [if_neg hnumeric, honly, changeFirst_eq_self_iff, OffsetFound, or_iff_right hplain]
    constructor
    · intro h front w back hrest hlength hw hfront
      have hmem : ∀ u ∈ front ++ w :: back, u ∈ s.rest := fun u hu => hrest ▸ hu
      refine h front w back hrest ((s.startsNumeric_rest (hmem w (by simp))).2 ⟨hlength, hw⟩) ?_
      intro u hu
      rw [← Bool.not_eq_true, s.startsNumeric_rest (hmem u (List.mem_append_left _ hu)), not_and]
      exact hfront u hu
    · intro h front w back hrest hw hfront
      have hmem : ∀ u ∈ front ++ w :: back, u ∈ s.rest := fun u hu => hrest ▸ hu
      obtain ⟨hlength, hplain⟩ := (s.startsNumeric_rest (hmem w (by simp))).1 hw
      refine h front w back hrest hlength hplain fun u hu hulength huplain => ?_
      have hnumeric := (s.startsNumeric_rest (hmem u (List.mem_append_left _ hu))).2
        ⟨hulength, huplain⟩
      rw [hfront u hu] at hnumeric
      cases hnumeric

end Shadow

section

variable {property value : String} {shadows : List Shadow}

/-- The declaration of shadows for right-to-left text. -/
lemma rtl?_shadows (hproperty : property ∈ ["box-shadow", "text-shadow"])
    (hvalue : ¬IsLeft value.toList) (flipsPhysical : Bool) :
    rtl? flipsPhysical property value =
      if layerwise (changeFirst startsNumeric negated) value.toList = value.toList then none
      else some (property,
        String.ofList (layerwise (changeFirst startsNumeric negated) value.toList)) := by
  obtain ⟨hname, htexts⟩ := noSides_of_shadow hproperty
  have hflipped : flippedText property value.toList =
      layerwise (changeFirst startsNumeric negated) value.toList := by
    have hkind : flipped? property value.toList = flipShadows? value.toList := by
      simp only [List.mem_cons, List.not_mem_nil, or_false] at hproperty
      rcases hproperty with rfl | rfl <;> rfl
    rw [flippedText, hkind, flipShadows?_of_not_isLeft hvalue]
    rfl
  have hrtl : rtlText flipsPhysical property value.toList =
      layerwise (changeFirst startsNumeric negated) value.toList := by
    unfold rtlText
    rw [hflipped, (htexts _).1]
    split
    · rename_i hsame
      exact (beq_iff_eq.1 (Bool.and_eq_true_iff.1 hsame).2).symm
    · rfl
  rw [rtl?_eq, hrtl, hname, ite_self, (htexts _).2]
  simp

/-- The text with the shadows in the other direction. -/
lemma layered_flipped {text : List Char} (h : Layered (shadows.map Shadow.words) text) :
    Layered (shadows.map Shadow.flipped) (layerwise (changeFirst startsNumeric negated) text) := by
  have hwords : ∀ words ∈ shadows.map Shadow.words, ∀ w ∈ words, LayerWord w := by
    intro words hwords
    obtain ⟨s, _, rfl⟩ := List.mem_map.1 hwords
    exact s.words_layer
  have hmap : (shadows.map Shadow.words).map (changeFirst startsNumeric negated) =
      shadows.map Shadow.flipped := by
    rw [List.map_map]
    rfl
  rw [layerwise_layered h hwords, hmap]
  apply layered_joinWith
  · simpa using h.ne_nil
  · intro words hwords
    obtain ⟨s, _, rfl⟩ := List.mem_map.1 hwords
    exact s.flipped_ne_nil

/-- The text with the shadows in the other direction has no other shadows. -/
lemma offsetOnly_iff {text : List Char} (h : Layered (shadows.map Shadow.words) text) :
    (∃ layers, List.Forall₂ Shadow.OffsetOnly shadows layers ∧
      Layered layers (layerwise (changeFirst startsNumeric negated) text)) ↔
      ∀ s ∈ shadows, s.OffsetFound := by
  have hflipped : List.Forall₂ Shadow.OffsetOnly shadows (shadows.map Shadow.flipped) ↔
      ∀ s ∈ shadows, s.OffsetFound := by
    rw [List.forall₂_map_right_iff, List.forall₂_same]
    exact forall₂_congr fun s _ => s.offsetOnly_flipped_iff
  rw [← hflipped]
  constructor
  · rintro ⟨layers, hsame, hlayers⟩
    have hread := layersOf_layered hlayers fun words hwords => by
      obtain ⟨s, _, hs⟩ := exists_of_forall₂ hsame hwords
      exact hs.layerWord
    rw [layersOf_layered (layered_flipped h) fun words hwords => by
      obtain ⟨s, _, rfl⟩ := List.mem_map.1 hwords
      exact s.layerWord_flipped] at hread
    rwa [hread]
  · exact fun hsame => ⟨_, hsame, layered_flipped h⟩

/-- For right-to-left text the shadows of a value keep all their words up to their horizontal
offsets, exactly if in each shadow the offset is a number or a dimension without a plus sign, or
there is no other one, or the first of these is a zero. -/
theorem shadows_keep_words_iff {flipsPhysical : Bool}
    (hproperty : property ∈ ["box-shadow", "text-shadow"]) (hvalue : ¬IsLeft value.toList)
    (hshadows : Layered (shadows.map Shadow.words) value.toList) :
    (rtl? flipsPhysical property value = none ∨ ∃ mirrored layers,
      rtl? flipsPhysical property value = some (property, mirrored) ∧
        List.Forall₂ Shadow.OffsetOnly shadows layers ∧ Layered layers mirrored.toList) ↔
      ∀ s ∈ shadows, s.OffsetFound := by
  rw [rtl?_shadows hproperty hvalue, ← offsetOnly_iff hshadows]
  constructor
  · rintro (hnone | ⟨mirrored, layers, hsome, hsame, hlayers⟩)
    · split at hnone
      · rename_i hkept
        -- nothing is changed, so each shadow has the words that it had
        refine ⟨shadows.map Shadow.words, ?_, by rwa [hkept]⟩
        rw [List.forall₂_map_right_iff, List.forall₂_same]
        exact fun s _ => s.offsetOnly_words
      · cases hnone
    · split at hsome
      · cases hsome
      · cases hsome
        rw [String.toList_ofList] at hlayers
        exact ⟨layers, hsame, hlayers⟩
  · rintro ⟨layers, hsame, hlayers⟩
    split
    · exact .inl rfl
    · exact .inr ⟨_, layers, rfl, hsame, by rwa [String.toList_ofList]⟩

end

lemma not_mathCall {word : List Char} (h : '(' ∉ word) : ¬IsMathCall word := by
  intro hmath
  obtain ⟨c, cs, rfl, _, hopen⟩ := mathCall_parts hmath
  exact h (List.mem_cons_of_mem _ hopen)

lemma isNamed_of_head {c : Char} {cs : List Char}
    (hc : isNameStart c = true ∨ c = '\\' ∨ c = '#') (h : '(' ∉ c :: cs) : IsNamed (c :: cs) :=
  ⟨⟨0, c, cs, rfl, hc⟩, not_mathCall h⟩

/-- A red shadow whose other lengths are in pixels. -/
def redShadow (offset : List Char) (hoffset : IsLength offset) (hword : LayerWord offset) :
    Shadow where
  front := []
  offset := offset
  rest := ["2px".toList, "red".toList]
  front_named := nofun
  offset_length := hoffset
  rest_written := List.forall_mem_cons.2 ⟨.inl (.dimension ⟨['2'], ['p', 'x'], by decide +kernel⟩),
    List.forall_mem_cons.2 ⟨.inr (isNamed_of_head (.inl (by decide)) (by decide)), nofun⟩⟩
  words_layer := List.forall_mem_cons.2 ⟨hword, by decide +kernel⟩

/-- An inner shadow to the left. -/
def innerShadow : Shadow where
  front := ["inset".toList]
  offset := "-4px".toList
  rest := ["0".toList, "#000".toList]
  front_named := List.forall_mem_singleton.2 (isNamed_of_head (.inl (by decide)) (by decide))
  offset_length := .dimension ⟨"-4".toList, "px".toList, by decide +kernel⟩
  rest_written := List.forall_mem_cons.2 ⟨.inl (.number ⟨['0'], by decide +kernel⟩),
    List.forall_mem_cons.2
      ⟨.inr (isNamed_of_head (.inr (.inr rfl)) (by decide)), nofun⟩⟩
  words_layer := by decide +kernel

theorem shadows_keep_words_iff_inset : ∃ s : Shadow, s.offset = "1px".toList ∧
    ∃ mirrored layers,
      rtl? false "box-shadow" "1px 2px red,inset -4px 0 #000" = some ("box-shadow", mirrored) ∧
        List.Forall₂ Shadow.OffsetOnly [s, innerShadow] layers ∧
        Layered layers mirrored.toList := by
  have hoffset : IsLength "1px".toList :=
    .dimension ⟨"1".toList, "px".toList, by decide +kernel⟩
  let s := redShadow "1px".toList hoffset (by decide +kernel)
  have hlayered : Layered ([s, innerShadow].map Shadow.words)
      "1px 2px red,inset -4px 0 #000".toList :=
    .cons 0 0 (.cons _ 0 (.cons _ 0 (.last _)))
      (.last 0 0 (.cons _ 0 (.cons _ 0 (.cons _ 0 (.last _)))))
  have hleft : ¬IsLeft "1px 2px red,inset -4px 0 #000".toList := by
    unfold IsLeft
    decide +kernel
  have hplain : ∀ offset ∈ ["1px".toList, "-4px".toList], IsPlainLength offset := by
    intro offset hoffset
    refine ⟨not_mathCall ?_, ?_⟩ <;> revert offset <;> decide +kernel
  have hfound : ∀ shadow ∈ [s, innerShadow], shadow.OffsetFound :=
    List.forall_mem_cons.2 ⟨.inl (hplain _ List.mem_cons_self),
      List.forall_mem_singleton.2 (.inl (hplain _ (List.mem_cons_of_mem _ List.mem_cons_self)))⟩
  refine ⟨s, rfl, ((shadows_keep_words_iff (by decide) hleft hlayered).2 hfound).resolve_left ?_⟩
  decide +kernel

/-- The horizontal offset is passed over where it is a call, and the vertical one changes. -/
theorem vertical_offset_changes : ∃ s : Shadow, s.offset = "calc(0px)".toList ∧
    s.words = ["calc(0px)".toList, "2px".toList, "red".toList] ∧
    ¬IsLeft "calc(0px) 2px red".toList ∧ Layered [s.words] "calc(0px) 2px red".toList ∧
    rtl? false "box-shadow" "calc(0px) 2px red" = some ("box-shadow", "calc(0px) -2px red") ∧
    ¬∃ layers, List.Forall₂ Shadow.OffsetOnly [s] layers ∧
      Layered layers "calc(0px) -2px red".toList := by
  have hoffset : IsLength "calc(0px)".toList :=
    .math ⟨"calc".toList, "0px".toList, rfl, by decide, by decide⟩
  refine ⟨redShadow "calc(0px)".toList hoffset (by decide +kernel), rfl, rfl, ?_,
    .last 0 0 (.cons _ 0 (.cons _ 0 (.last _))), by decide +kernel, ?_⟩
  · unfold IsLeft
    decide +kernel
  · rintro ⟨layers, hsame, hlayers⟩
    have hread := layersOf_layered hlayers fun words h => by
      obtain ⟨s, _, hs⟩ := exists_of_forall₂ hsame h
      exact hs.layerWord
    have hwords : layersOf "calc(0px) -2px red".toList =
        [["calc(0px)".toList, "-2px".toList, "red".toList]] := by
      decide +kernel
    rw [← hread, hwords] at hsame
    cases hsame with
    | cons honly _ =>
      obtain ⟨offset, _, heq⟩ := honly
      have hvertical := (List.cons.inj (List.cons.inj heq).2).1
      revert hvertical
      decide

end AtomicCss.Proofs
