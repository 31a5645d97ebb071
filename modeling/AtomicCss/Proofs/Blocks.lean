import AtomicCss.Class.Rule
import AtomicCss.Proofs.Sealed

/-!
# Values read back from blocks

The text that joins the values of an entry does not tell where each of them ends, and neither does
its block of declarations. Both together do: their separators begin with different characters.
-/

namespace AtomicCss.Proofs

/-- What stands behind a text begins with the given character, or nothing stands there. -/
def GoesOnWith (c : Char) (text : List Char) : Prop :=
  ∀ x ∈ text.head?, x = c

lemma goesOnWith_flatMap (c : Char) (rest : List Char) (texts : List (List Char)) :
    GoesOnWith c (texts.flatMap (c :: rest ++ ·)) := by
  intro x hx
  cases texts with
  | nil => cases hx
  | cons text texts =>
    simp only [List.flatMap_cons, List.cons_append, List.head?_cons, Option.mem_def,
      Option.some.injEq] at hx
    exact hx.symm

/-- Two texts that are cut at the same place, whichever of two characters follows, are equal. -/
lemma eq_of_goesOnWith {c d : Char} (hcd : c ≠ d) {s t a b a' b' : List Char}
    (ha : GoesOnWith c a) (hb : GoesOnWith c b) (ha' : GoesOnWith d a') (hb' : GoesOnWith d b')
    (h : s ++ a = t ++ b) (h' : s ++ a' = t ++ b') : s = t := by
  induction s generalizing t with
  | nil =>
    cases t with
    | nil => rfl
    | cons x t =>
      -- the longer text would go on with both characters
      have hc : x = c := ha x (by rw [← List.nil_append a, h]; rfl)
      have hd : x = d := ha' x (by rw [← List.nil_append a', h']; rfl)
      exact (hcd (hc.symm.trans hd)).elim
  | cons x s ih =>
    cases t with
    | nil =>
      have hc : x = c := hb x (by rw [← List.nil_append b, ← h]; rfl)
      have hd : x = d := hb' x (by rw [← List.nil_append b', ← h']; rfl)
      exact (hcd (hc.symm.trans hd)).elim
    | cons y t =>
      obtain ⟨rfl, htail⟩ := List.cons.inj h
      obtain ⟨_, htail'⟩ := List.cons.inj h'
      rw [ih htail htail']

/-- Texts that read alike behind either of two separators are the same texts. -/
lemma flatMap_inj {c d : Char} (hcd : c ≠ d) {p q : List Char} {us vs : List (List Char)}
    (h : us.flatMap (c :: p ++ ·) = vs.flatMap (c :: p ++ ·))
    (h' : us.flatMap (d :: q ++ ·) = vs.flatMap (d :: q ++ ·)) : us = vs := by
  induction us generalizing vs with
  | nil =>
    cases vs with
    | nil => rfl
    | cons v vs => cases h
  | cons u us ih =>
    cases vs with
    | nil => cases h
    | cons v vs =>
      rw [List.flatMap_cons, List.flatMap_cons, List.append_assoc, List.append_assoc] at h h'
      have hrest := List.append_cancel_left h
      have hrest' := List.append_cancel_left h'
      obtain rfl : u = v :=
        eq_of_goesOnWith hcd (goesOnWith_flatMap c p us) (goesOnWith_flatMap c p vs)
          (goesOnWith_flatMap d q us) (goesOnWith_flatMap d q vs) hrest hrest'
      rw [ih (List.append_cancel_left hrest) (List.append_cancel_left hrest')]

lemma append_intercalate {separator : List Char} {texts : List (List Char)} (hne : texts ≠ []) :
    separator ++ separator.intercalate texts = texts.flatMap (separator ++ ·) := by
  induction texts with
  | nil => exact (hne rfl).elim
  | cons s texts ih =>
    cases texts with
    | nil => simp [List.intercalate]
    | cons t texts =>
      have hsplit : separator.intercalate (s :: t :: texts) =
          s ++ (separator ++ separator.intercalate (t :: texts)) := by
        simp [List.intercalate]
      calc
        separator ++ separator.intercalate (s :: t :: texts) =
            separator ++ s ++ (t :: texts).flatMap (separator ++ ·) := by
          rw [hsplit, ih (List.cons_ne_nil t texts), List.append_assoc]
        _ = (s :: t :: texts).flatMap (separator ++ ·) := rfl

lemma eq_of_map_toList {texts others : List String}
    (h : texts.map String.toList = others.map String.toList) : texts = others :=
  List.map_injective_iff.2 (fun _ _ => String.toList_inj.1) h

lemma normalized_ext {v w : Normalized} (h : v.values = w.values) : v = w := by
  cases v
  cases w
  exact congrArg Normalized.mk h

lemma toList_identity (v : Normalized) :
    v.identity.toList = joined (v.values.map String.toList) := by
  unfold Normalized.identity
  rw [String.toList_intercalate]
  rfl

lemma toList_declarations (v : Normalized) (property : String) :
    (v.declarations property).toList =
      [';'].intercalate ((v.values.map String.toList).map (property.toList ++ ':' :: ·)) := by
  unfold Normalized.declarations
  rw [String.toList_intercalate, List.map_map, List.map_map]
  congr 1
  apply List.map_congr_left
  intro value _
  simp

lemma append_identity {v : Normalized} (hv : v.values ≠ []) :
    [',', ' '] ++ v.identity.toList =
      (v.values.map String.toList).flatMap (',' :: [' '] ++ ·) := by
  rw [toList_identity, joined]
  exact append_intercalate fun hnil => hv (List.map_eq_nil_iff.1 hnil)

lemma append_declarations {v : Normalized} (hv : v.values ≠ []) (property : String) :
    [';'] ++ (v.declarations property).toList =
      (v.values.map String.toList).flatMap (';' :: (property.toList ++ [':']) ++ ·) := by
  have hne : (v.values.map String.toList).map (property.toList ++ ':' :: ·) ≠ [] :=
    fun hnil => hv (List.map_eq_nil_iff.1 (List.map_eq_nil_iff.1 hnil))
  rw [toList_declarations, append_intercalate hne]
  generalize v.values.map String.toList = texts
  rw [List.flatMap_map]
  congr 1
  funext text
  simp

/-- The block of a list of values and the text that joins them determine the list. -/
theorem declarations_inj {property : String} {v w : Normalized} (hv : v.values ≠ [])
    (hw : w.values ≠ []) (hidentity : v.identity = w.identity)
    (h : v.declarations property = w.declarations property) : v = w := by
  have hcommas := append_identity hv
  rw [hidentity, append_identity hw] at hcommas
  have hblocks := append_declarations hv property
  rw [h, append_declarations hw] at hblocks
  have hcomma : ',' ≠ ';' := by decide
  have hvalues := eq_of_map_toList (flatMap_inj hcomma hcommas hblocks)
  exact normalized_ext hvalues.symm

lemma braced_inj {head body other : String} (h : braced head body = braced head other) :
    body = other := by
  have hlists := congrArg String.toList h
  unfold braced at hlists
  simp only [String.toList_append, List.append_assoc] at hlists
  have hbody := List.append_cancel_left (List.append_cancel_left hlists)
  exact String.toList_inj.1 (List.append_cancel_right hbody)

lemma wrapAtRules_inj {atRule : Option String} {rule other : String}
    (h : wrapAtRules atRule rule = wrapAtRules atRule other) : rule = other := by
  cases atRule with
  | none => exact h
  | some text =>
    unfold wrapAtRules at h
    simp only at h
    generalize Condition.atRules text = heads at h
    induction heads with
    | nil => exact h
    | cons head heads ih => exact ih (braced_inj h)

/-- The values of the property stand in its rules as they are: nothing is added for vendors, and no
word is replaced for left-to-right text. -/
def PrintedAsGiven (config : Config) (property : String) : Prop :=
  (∀ value, config.vendorPrefixed property value = none) ∧
    Direction.isPlaced property = false ∧ Direction.isBackground property = false

lemma declarationBlock_eq {config : Config} {property : String}
    (hprinted : PrintedAsGiven config property) (v : Normalized) :
    Entry.declarationBlock config property (v.values.map (Direction.ltr property)) =
      v.declarations property := by
  obtain ⟨hvendor, hplaced, hbackground⟩ := hprinted
  have hltr : ∀ value, Direction.ltr property value = value := by
    intro value
    unfold Direction.ltr Direction.ltrText
    rw [if_neg (by rw [hplaced]; decide), if_neg (by rw [hbackground]; decide),
      String.ofList_toList]
  unfold Entry.declarationBlock Normalized.declarations
  congr 1
  induction v.values with
  | nil => rfl
  | cons value values ih =>
    rw [List.map_cons, List.flatMap_cons, ih, hvendor, hltr]
    rfl

/-- Entries that are built alike from values that read the same when joined are equal only if the
values are. -/
theorem build_inj {config : Config} {property : String} {v w : Normalized}
    {suffix atRule : Option String} (hprinted : PrintedAsGiven config property)
    (hv : v.values ≠ []) (hw : w.values ≠ []) (hidentity : v.identity = w.identity)
    (h : Entry.build config property v suffix atRule =
      Entry.build config property w suffix atRule) : v = w := by
  have hltr := congrArg Entry.ltr h
  unfold Entry.build at hltr
  simp only at hltr
  rw [hidentity] at hltr
  have hblock := braced_inj (wrapAtRules_inj hltr)
  rw [declarationBlock_eq hprinted, declarationBlock_eq hprinted] at hblock
  exact declarations_inj hv hw hidentity hblock

end AtomicCss.Proofs
