import AtomicCss.Proofs.Affixes
import AtomicCss.Proofs.MarkedParts

/-!
# Where a mark stays

Each way to rewrite a value for a direction, with an important mark behind the value. Keywords are
read without their mark. Where the words of a value are replaced, or lengths change their sign, the
mark stands with the last word and hides it. Where words are swapped, the mark moves with the last.
-/

namespace AtomicCss.Proofs

open Text Direction

section

variable {value word : List Char} {words : WordMap}

lemma occursIn_var_append_important :
    occursIn "var(".toList (value ++ important) = occursIn "var(".toList value := by
  have hopen : '(' ∉ important := by decide
  exact occursIn_append hopen ['v', 'a', 'r']

lemma isSuffixOf?_append_important : important.isSuffixOf? (value ++ important) = some value :=
  List.isSuffixOf?_eq_some_iff_append_eq.2 rfl

/-- Keywords keep their mark. -/
lemma markStays_mapKeyword (h : ¬important <:+ value) : MarkStays (mapKeyword words) value := by
  unfold MarkStays mapKeyword
  rw [isSuffixOf?_append_important, isSuffixOf?_eq_none h]
  cases hword : replaced? words value <;> simp [hword]

/-- Maps of words that replace none by itself, and none that holds an exclamation mark. -/
def IsProper (words : WordMap) : Prop :=
  ∀ item ∈ words, item.1.toList ≠ [] ∧ '!' ∉ item.1.toList ∧ item.1 ≠ item.2

instance (words : WordMap) : Decidable (IsProper words) :=
  inferInstanceAs (Decidable (∀ item ∈ words, _))

lemma mem_of_replaced? {other : List Char} (h : replaced? words word = some other) :
    (String.ofList word, String.ofList other) ∈ words := by
  obtain ⟨text, htext, rfl⟩ := Option.map_eq_some_iff.1 h
  obtain ⟨before, behind, rfl, _⟩ := List.lookup_eq_some_iff.1 htext
  simp

lemma replaced?_append_important (h : IsProper words) (word : List Char) :
    replaced? words (word ++ important) = none := by
  cases hother : replaced? words (word ++ important) with
  | none => rfl
  | some other =>
    obtain ⟨_, hmark, _⟩ := h _ (mem_of_replaced? hother)
    refine (hmark ?_).elim
    rw [String.toList_ofList]
    exact List.mem_append_right _ List.mem_cons_self

lemma replaced?_ne_self (h : IsProper words) : replaced? words word ≠ some word :=
  fun hself => (h _ (mem_of_replaced? hself)).2.2 rfl

lemma replaced?_nil (h : IsProper words) : replaced? words [] = none := by
  cases hother : replaced? words [] with
  | none => rfl
  | some other => exact ((h _ (mem_of_replaced? hother)).1 rfl).elim

/-- The last word of a value. -/
def lastWord (value : List Char) : List Char :=
  (lastWords value).getLast?.getD []

/-- No comma stands in front of a mark behind the value, unless there is nothing but commas. -/
def JoinsMark (value : List Char) : Prop :=
  BehindComma value → splitTopLevel ',' value = []

instance (value : List Char) : Decidable (JoinsMark value) :=
  inferInstanceAs (Decidable (_ → _))

/-- Where words are replaced, a mark keeps the last one from being so. -/
lemma markStays_mapWords (hwords : IsProper words) (h : ¬EndsBlank value) :
    MarkStays (mapWords words) value ↔
      JoinsMark value ∧ replaced? words (lastWord value) = none := by
  have hacts : ActsApart (List.map fun word => (replaced? words word).getD word) := fun _ =>
    ⟨_, fun word => (replaced? words word).getD word, fun _ => List.map_append⟩
  have himportant : replaced? words important = none := replaced?_append_important hwords []
  refine (markStays_layerwise h hacts (by simp [himportant]) rfl).trans ?_
  refine and_congr_right fun _ => ?_
  unfold lastWord KeepsLast
  rcases List.eq_nil_or_concat (lastWords value) with hnil | ⟨front, word, hconcat⟩
  · simp [hnil, replaced?_nil hwords]
    rfl
  · rw [hconcat, List.concat_eq_append, List.modifyLast_concat, List.map_append, List.map_append,
      List.map_singleton, List.map_singleton, List.modifyLast_concat,
      replaced?_append_important hwords]
    cases hother : replaced? words word with
    | none => simp [hother]
    | some other =>
      have hne : word ≠ other := by
        rintro rfl
        exact replaced?_ne_self hwords hother
      simp [hother, hne]

end

section

variable {value word : List Char}

lemma mem_dropWhile {p : Char → Bool} {c : Char} {cs : List Char} (hc : p c = false)
    (h : c ∈ cs) : c ∈ cs.dropWhile p := by
  rw [← @List.takeWhile_append_dropWhile _ p cs] at h
  rcases List.mem_append.1 h with h | h
  · rw [List.mem_takeWhile_imp h] at hc
    cases hc
  · exact h

lemma exponent?_of_bang {cs : List Char} (h : '!' ∈ cs) : Decimal.exponent? cs = none := by
  have hdigits : ∀ {ds : List Char}, '!' ∈ ds → ds.all Char.isDigit = false := fun hds =>
    List.all_eq_false.2 ⟨'!', hds, by decide⟩
  unfold Decimal.exponent?
  split
  · simp [hdigits ((List.mem_cons.1 h).resolve_left (by decide))]
  · simp [hdigits ((List.mem_cons.1 h).resolve_left (by decide))]
  · simp [hdigits h]

lemma unsigned?_of_bang {cs : List Char} (h : '!' ∈ cs) : Decimal.unsigned? cs = none := by
  have hbang : Char.isDigit '!' = false := by decide
  have hrest := mem_dropWhile hbang h
  have hexponent : ∀ {c : Char} {after : List Char}, '!' ≠ c → '!' ∈ c :: after →
      Decimal.exponent? after = none := fun hc hmem =>
    exponent?_of_bang ((List.mem_cons.1 hmem).resolve_left hc)
  unfold Decimal.unsigned?
  dsimp only
  generalize cs.dropWhile Char.isDigit = rest at hrest
  split
  · have hbehind := mem_dropWhile hbang ((List.mem_cons.1 hrest).resolve_left (by decide))
    dsimp only
    split
    · rfl
    · split
      · rename_i hnil
        rw [hnil] at hbehind
        cases hbehind
      · rename_i hafter
        rw [hafter] at hbehind
        rw [hexponent (by decide) hbehind]
        rfl
      · rename_i hafter
        rw [hafter] at hbehind
        rw [hexponent (by decide) hbehind]
        rfl
      · rfl
  · dsimp only
    split
    · rfl
    · split
      · cases hrest
      · rw [hexponent (by decide) hrest]
        rfl
      · rw [hexponent (by decide) hrest]
        rfl
      · rfl

/-- An exclamation mark is in no number. -/
lemma read?_of_bang {cs : List Char} (h : '!' ∈ cs) : Decimal.read? cs = none := by
  have hnamed : ∀ {ds : List Char}, '!' ∈ ds → Decimal.named? ds = none := by
    intro ds hds
    have hlower : '!' ∈ lower ds := List.mem_map.2 ⟨'!', hds, by decide⟩
    unfold Decimal.named?
    dsimp only
    rw [if_neg, if_neg]
    · intro heq
      rw [heq] at hlower
      revert hlower
      decide
    · rintro (heq | heq) <;> rw [heq] at hlower <;> revert hlower <;> decide
  have hmagnitude : ∀ {ds : List Char}, '!' ∈ ds →
      (Decimal.named? ds <|> Decimal.unsigned? ds) = none := fun hds => by
    rw [hnamed hds, unsigned?_of_bang hds]
    rfl
  unfold Decimal.read?
  dsimp only
  split
  · rw [hmagnitude ((List.mem_cons.1 h).resolve_left (by decide))]
    rfl
  · exact hmagnitude ((List.mem_cons.1 h).resolve_left (by decide))
  · exact hmagnitude h

lemma startsNumeric_append_important (word : List Char) :
    startsNumeric (word ++ important) = startsNumeric word := by
  unfold startsNumeric
  rw [List.dropWhile_append]
  cases word.dropWhile (· == '-') <;> rfl

/-- A length without a sign gets one, unless it is zero. -/
lemma negated_unsigned {length : List Char} (h : length.head? ≠ some '-') :
    negated length =
      if (Decimal.read? (length.reverse.dropWhile Char.isAlpha).reverse).any (· == 0.0) then length
      else '-' :: length := by
  unfold negated
  split
  · exact (h rfl).elim
  · dsimp only
    cases Decimal.read? (length.reverse.dropWhile Char.isAlpha).reverse <;> rfl

lemma negated_append_important (h : word.head? ≠ some '-') :
    negated (word ++ important) = '-' :: word ++ important := by
  have hhead : (word ++ important).head? ≠ some '-' := by
    cases word with
    | nil => decide
    | cons c cs => exact h
  have halpha : Char.isAlpha '!' = false := by decide
  have hmem : '!' ∈ (word ++ important).reverse :=
    List.mem_reverse.2 (List.mem_append_right _ List.mem_cons_self)
  have hbang : '!' ∈ ((word ++ important).reverse.dropWhile Char.isAlpha).reverse :=
    List.mem_reverse.2 (mem_dropWhile halpha hmem)
  rw [negated_unsigned hhead, read?_of_bang hbang]
  rfl

/-- A zero length takes no sign, but one with a mark is not known for zero. -/
lemma markStays_negated (word : List Char) : MarkStays negated word ↔ negated word ≠ word := by
  unfold MarkStays
  by_cases hminus : word.head? = some '-'
  · obtain ⟨positive, rfl⟩ := List.head?_eq_some_iff.1 hminus
    have hne : positive ≠ '-' :: positive := fun heq => by
      have hlength := congrArg List.length heq
      simp at hlength
    exact ⟨fun _ => hne, fun _ => rfl⟩
  · rw [negated_append_important hminus, negated_unsigned hminus]
    split <;> simp

lemma changeFirst_concat (p : List Char → Bool) (change : List Char → List Char)
    (front : List (List Char)) (word : List Char) :
    changeFirst p change (front ++ [word]) =
      if front.any p then changeFirst p change front ++ [word]
      else front ++ [if p word then change word else word] := by
  induction front with
  | nil => cases hp : p word <;> simp [changeFirst, hp]
  | cons first rest ih =>
    cases hp : p first with
    | true => simp [changeFirst, hp]
    | false =>
      rw [List.cons_append, changeFirst, ih]
      simp only [hp, changeFirst, List.any_cons, Bool.false_or, Bool.false_eq_true, if_false]
      split <;> rfl

/-- The horizontal offset of the last shadow is its last word, and takes no sign. -/
@[mk_iff]
structure ZeroOffsetLast (value : List Char) : Prop where
  first : (lastWords value).dropLast.any startsNumeric = false
  numeric : startsNumeric (lastWord value) = true
  zero : negated (lastWord value) = lastWord value

/-- Where the horizontal offset changes its sign, a mark stays unless it stands at a zero. -/
lemma markStays_offsets (h : ¬EndsBlank value) :
    MarkStays (layerwise (changeFirst startsNumeric negated)) value ↔
      JoinsMark value ∧ ¬ZeroOffsetLast value := by
  have hacts : ActsApart (changeFirst startsNumeric negated) := fun words => by
    by_cases hany : words.any startsNumeric = true
    · exact ⟨_, id, fun word => by rw [changeFirst_concat, if_pos hany]; rfl⟩
    · exact ⟨words, fun word => if startsNumeric word then negated word else word, fun word => by
        rw [changeFirst_concat, if_neg hany]⟩
  refine (markStays_layerwise h hacts rfl rfl).trans (and_congr_right fun _ => ?_)
  unfold KeepsLast
  rcases List.eq_nil_or_concat (lastWords value) with hnil | ⟨front, word, hconcat⟩
  · have hlast : ¬ZeroOffsetLast value := fun hzero => by
      have hnumeric := hzero.numeric
      rw [lastWord, hnil] at hnumeric
      cases hnumeric
    rw [hnil]
    exact iff_of_true rfl hlast
  · rw [List.concat_eq_append] at hconcat
    have hword : lastWord value = word := by simp [lastWord, hconcat]
    rw [zeroOffsetLast_iff, hword, hconcat, List.dropLast_concat, List.modifyLast_concat,
      changeFirst_concat, changeFirst_concat, startsNumeric_append_important]
    cases front.any startsNumeric with
    | true => simp [List.modifyLast_concat]
    | false =>
      cases startsNumeric word with
      | true => simpa [List.modifyLast_concat, MarkStays] using markStays_negated word
      | false => simp [List.modifyLast_concat]

/-- Shadows that are not flipped: none, and those with variables. -/
def IsLeft (value : List Char) : Prop :=
  value = "none".toList ∨ occursIn "var(".toList value = true

lemma flipShadows?_of_isLeft (h : IsLeft value) : flipShadows? value = none := by
  unfold IsLeft at h
  unfold flipShadows?
  rw [if_pos (by simpa using h)]

lemma flipShadows?_of_not_isLeft (h : ¬IsLeft value) :
    flipShadows? value = some (layerwise (changeFirst startsNumeric negated) value) := by
  unfold IsLeft at h
  unfold flipShadows?
  rw [if_neg (by simpa using h)]
  rfl

lemma isLeft_append_important :
    IsLeft (value ++ important) ↔ occursIn "var(".toList value = true := by
  unfold IsLeft
  rw [occursIn_var_append_important, or_iff_right]
  intro heq
  have hmem : '!' ∈ value ++ important := List.mem_append_right _ List.mem_cons_self
  rw [heq] at hmem
  revert hmem
  decide

lemma markStays_flipShadows (h : ¬EndsBlank value) :
    MarkStays (fun value => (flipShadows? value).getD value) value ↔
      IsLeft value ∨ JoinsMark value ∧ ¬ZeroOffsetLast value := by
  by_cases hleft : IsLeft value
  · refine iff_of_true ?_ (.inl hleft)
    rcases hleft with rfl | hvar
    · unfold MarkStays
      decide +kernel
    · unfold MarkStays
      dsimp only
      rw [flipShadows?_of_isLeft (.inr hvar),
        flipShadows?_of_isLeft (isLeft_append_important.2 hvar)]
      rfl
  · have hmarked : ¬IsLeft (value ++ important) := fun hvar =>
      hleft (.inr (isLeft_append_important.1 hvar))
    rw [or_iff_right hleft, ← markStays_offsets h]
    unfold MarkStays
    dsimp only
    rw [flipShadows?_of_not_isLeft hleft, flipShadows?_of_not_isLeft hmarked]
    rfl

/-- A mark that moves with its word is not behind the value any more. -/
lemma moved_ne_behind {moved kept front rest : List Char}
    (hmoved : moved = front ++ (important ++ ' ' :: rest)) (hkept : kept = front ++ ' ' :: rest) :
    moved ≠ kept ++ important := by
  rintro rfl
  rw [hkept, List.append_assoc] at hmoved
  cases List.append_cancel_left hmoved

lemma length_words_append_important (h : ¬EndsBlank value) (hne : value ≠ []) :
    (splitTopLevel ' ' (value ++ important)).length = (splitTopLevel ' ' value).length := by
  obtain ⟨front, word, hwords, hmarked⟩ := words_append_important h hne
  rw [hwords, hmarked, List.length_append, List.length_append]
  rfl

lemma flipEdges_of_length (h : (splitTopLevel ' ' value).length ≠ 4) : flipEdges value = value := by
  unfold flipEdges
  split
  · rename_i hwords
    rw [hwords] at h
    exact (h rfl).elim
  · rfl

/-- Of four edges the last one is moved, and the mark with it. -/
lemma markStays_flipEdges (h : ¬EndsBlank value) :
    MarkStays flipEdges value ↔ (splitTopLevel ' ' value).length ≠ 4 := by
  rcases eq_or_ne value [] with rfl | hne
  · exact iff_of_true rfl (by decide)
  unfold MarkStays
  by_cases hlength : (splitTopLevel ' ' value).length = 4
  · refine iff_of_false ?_ (not_not_intro hlength)
    obtain ⟨front, left, hwords, hmarked⟩ := words_append_important h hne
    obtain ⟨top, right, bottom, rfl⟩ := List.length_eq_three.1
      (by simpa [hwords] using hlength : front.length = 3)
    unfold flipEdges
    rw [hwords, hmarked]
    exact @moved_ne_behind _ _ (top ++ ' ' :: left) (bottom ++ ' ' :: right)
      (by simp [joinWith]) (by simp [joinWith])
  · refine iff_of_true ?_ hlength
    rw [flipEdges_of_length hlength, flipEdges_of_length]
    rwa [length_words_append_important h hne]

lemma flipCorners_of_length (h : (splitTopLevel ' ' value).length ∉ [2, 3, 4]) :
    flipCorners value = value := by
  unfold flipCorners
  split
  iterate 3
    rename_i hwords
    rw [hwords] at h
    exact (h (by simp)).elim
  · rfl

/-- Of two or four corners the last one is moved, and the mark with it; of three it stays last. -/
lemma markStays_flipCorners (h : ¬EndsBlank value) :
    MarkStays flipCorners value ↔ (splitTopLevel ' ' value).length ∉ [2, 4] := by
  rcases eq_or_ne value [] with rfl | hne
  · exact iff_of_true rfl (by decide)
  unfold MarkStays
  by_cases hlength : (splitTopLevel ' ' value).length ∈ [2, 3, 4]
  · obtain ⟨front, last, hwords, hmarked⟩ := words_append_important h hne
    have hfront : front.length = 1 ∨ front.length = 2 ∨ front.length = 3 := by
      simpa [hwords] using hlength
    unfold flipCorners
    rw [hwords, hmarked]
    rcases hfront with hone | htwo | hthree
    · obtain ⟨first, rfl⟩ := List.length_eq_one_iff.1 hone
      refine iff_of_false ?_ (by simp)
      exact @moved_ne_behind _ _ last first (by simp [joinWith]) (by simp [joinWith])
    · obtain ⟨topLeft, other, rfl⟩ := List.length_eq_two.1 htwo
      exact iff_of_true (by simp [joinWith]) (by simp)
    · obtain ⟨topLeft, topRight, bottomRight, rfl⟩ := List.length_eq_three.1 hthree
      refine iff_of_false ?_ (by simp)
      exact @moved_ne_behind _ _ (topRight ++ ' ' :: topLeft ++ ' ' :: last) bottomRight
        (by simp [joinWith]) (by simp [joinWith])
  · refine iff_of_true ?_ fun hmem => hlength ?_
    · rw [flipCorners_of_length hlength, flipCorners_of_length]
      rwa [length_words_append_important h hne]
    · revert hmem
      simp only [List.mem_cons, List.not_mem_nil, or_false]
      omega

end

end AtomicCss.Proofs
