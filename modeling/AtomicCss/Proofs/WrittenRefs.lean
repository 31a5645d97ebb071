import AtomicCss.CommandLine
import AtomicCss.Proofs.Parentheses
import AtomicCss.Proofs.Spellings

/-!
# Class references read back

References are written as names, as names with arguments in parentheses, or as themes, with commas
between them. The scan for commas passes over whatever is closed again before it ends, so it splits
such a list between its references and nowhere else, and the arguments of a reference in the same
way. Each part is read as the reference that it was written for.
-/

namespace AtomicCss.Proofs

open CommandLine Text

/-- The scan for commas goes over a text inside `depth` parentheses without splitting it, and leaves
as many open. -/
def IsUnsplit (depth : ℕ) (cs : List Char) : Prop :=
  ∀ current rest, partsFrom depth current (cs ++ rest) = partsFrom depth (current ++ cs) rest

section

variable {a b cs : List Char} {depth : ℕ}

lemma IsUnsplit.append (ha : IsUnsplit depth a) (hb : IsUnsplit depth b) :
    IsUnsplit depth (a ++ b) := by
  intro current rest
  rw [List.append_assoc, ha, hb, List.append_assoc]

/-- What stands in parentheses is passed over if its inside is. -/
lemma IsUnsplit.parenthesized (h : IsUnsplit (depth + 1) cs) :
    IsUnsplit depth ('(' :: (cs ++ [')'])) := by
  intro current rest
  have hopen : depthAfter depth '(' = depth + 1 := rfl
  have hclose : depthAfter (depth + 1) ')' = depth := rfl
  have hsplit : '(' :: (cs ++ [')']) ++ rest = '(' :: (cs ++ ')' :: rest) := by simp
  rw [hsplit, partsFrom, if_neg (by simp), hopen, h, partsFrom, if_neg (by simp), hclose]
  simp

/-- Behind the front of a balanced text, as many parentheses are open as the front leaves. -/
lemma partsFrom_behind {front back : List Char} (hbalanced : IsBalanced (front ++ back))
    (hcommas : depth = 0 → Hides (· == ',') (front ++ back)) (current rest : List Char) :
    partsFrom (depth + (front.count '(' - front.count ')')) current (back ++ rest) =
      partsFrom depth (current ++ back) rest := by
  induction back generalizing front current with
  | nil =>
    rw [List.append_nil] at hbalanced
    rw [hbalanced.total, Nat.sub_self, List.nil_append, List.append_nil]
    rfl
  | cons c back ih =>
    have hstays : ¬(c = ',' ∧ depth + (front.count '(' - front.count ')') = 0) := by
      rintro ⟨rfl, hzero⟩
      -- a comma outside all parentheses would have balanced text in front of it
      exact hcommas (by omega) front ',' back rfl rfl (hbalanced.of_front (by omega))
    have hassoc : front ++ c :: back = (front ++ [c]) ++ back := by simp
    rw [hassoc] at hbalanced hcommas
    have hdepth := depthAfter_front hbalanced depth
    rw [List.cons_append, partsFrom, if_neg hstays, hdepth, ih hbalanced hcommas]
    simp

/-- Balanced text is passed over, outside parentheses only if it hides its commas in its own. -/
lemma unsplit_of_isBalanced (hbalanced : IsBalanced cs)
    (hcommas : depth = 0 → Hides (· == ',') cs) : IsUnsplit depth cs :=
  @partsFrom_behind depth [] cs hbalanced hcommas

/-- Text without parentheses and commas is passed over anywhere. -/
lemma unsplit_of_plain (h : ∀ c ∈ ['(', ')', ','], c ∉ cs) : IsUnsplit depth cs := by
  have hbalanced : IsBalanced cs := isBalanced_of_notMem (h '(' (by simp)) (h ')' (by simp))
  refine unsplit_of_isBalanced hbalanced fun _ front c back heq hcomma => ?_
  obtain rfl : c = ',' := by simpa using hcomma
  exact (h ',' (by simp) (heq ▸ by simp)).elim

end

/-- Inside parentheses, a list is passed over if its parts are. -/
lemma unsplit_intercalate {depth : ℕ} {parts : List (List Char)}
    (h : ∀ part ∈ parts, IsUnsplit (depth + 1) part) :
    IsUnsplit (depth + 1) ([',', ' '].intercalate parts) := by
  have hbetween : IsUnsplit (depth + 1) [',', ' '] := fun current rest => by
    simp [partsFrom, depthAfter]
  induction parts with
  | nil => exact fun current rest => by simp
  | cons part parts ih =>
    obtain ⟨hpart, hparts⟩ := List.forall_mem_cons.1 h
    by_cases hnil : parts = []
    · simpa [hnil] using hpart
    · rw [List.intercalate_cons_of_ne_nil hnil]
      exact (hpart.append hbetween).append (ih hparts)

/-- A list of parts without blanks at their ends is split into them again. -/
lemma partsFrom_intercalate {parts : List (List Char)} (hne : parts ≠ [])
    (h : ∀ part ∈ parts, IsUnsplit 0 part ∧ Trimmed part) {blanks : List Char}
    (hblanks : ∀ c ∈ blanks, isBlank c = true) :
    partsFrom 0 blanks ([',', ' '].intercalate parts) = parts := by
  induction parts generalizing blanks with
  | nil => exact (hne rfl).elim
  | cons part parts ih =>
    obtain ⟨⟨hunsplit, htrimmed⟩, hparts⟩ := List.forall_mem_cons.1 h
    have htrim : trim (blanks ++ part) = part := by
      rw [trim_blanks_append hblanks, trim_of_trimmed htrimmed]
    by_cases hnil : parts = []
    · have hend := hunsplit blanks []
      rw [List.append_nil] at hend
      rw [hnil, List.intercalate_singleton, hend, partsFrom, htrim]
    · -- the blank behind the comma is read as the front of the next part
      have hspace : ∀ c ∈ [' '], isBlank c = true := by decide
      rw [List.intercalate_cons_of_ne_nil hnil, List.append_assoc, hunsplit]
      change trim (blanks ++ part) :: partsFrom 0 [' '] ([',', ' '].intercalate parts) = _
      rw [htrim, ih hnil hparts hspace]

/-- The name of a class, which looks like nothing else. -/
@[mk_iff]
structure IsClassName (name : List Char) : Prop where
  ne_nil : name ≠ []
  plain : ∀ c ∈ ['(', ')', ','], c ∉ name
  trimmed : Trimmed name
  notTheme : ¬themeStart <+: name

instance (name : List Char) : Decidable (IsClassName name) :=
  decidable_of_iff _ (isClassName_iff name).symm

/-- The text of an argument that is neither split nor read as a number. -/
@[mk_iff]
structure IsArgument (text : List Char) : Prop where
  balanced : IsBalanced text
  commas : Hides (· == ',') text
  trimmed : Trimmed text
  notNumber : Decimal.read? text = none

instance (text : List Char) : Decidable (IsArgument text) :=
  decidable_of_iff _ (isArgument_iff text).symm

/-- A reference that can be written: a class, a class with arguments, or a theme. -/
inductive Writable : ClassRef → Prop
  | staticClass {name : String} : IsClassName name.toList → Writable (.staticClass name)
  | dynamic {name : String} {texts : List String} : IsClassName name.toList → texts ≠ [] →
    (∀ text ∈ texts, IsArgument text.toList) → Writable (.dynamic name (texts.map .text))
  | theme {space name : String} : '.' ∉ space.toList →
    (∀ c ∈ ['(', ')', ','], c ∉ space.toList ∧ c ∉ name.toList) → ¬EndsBlank name.toList →
    Writable (.theme space name)

/-- What a reference is written as is split off as a whole and read as that reference. -/
structure IsWritten (ref : ClassRef) (text : List Char) : Prop where
  ne_nil : text ≠ []
  unsplit : IsUnsplit 0 text
  trimmed : Trimmed text
  read : readRef text = .ok ref

lemma themeStart_eq : themeStart = ['t', 'h', 'e', 'm', 'e', ':'] := rfl

/-- What stands behind a parenthesis does not make a name look like a theme. -/
lemma not_themeStart_open {name : List Char} (h : ¬themeStart <+: name) (rest : List Char) :
    ¬themeStart <+: name ++ '(' :: rest := by
  intro hstart
  rcases List.prefix_or_prefix_of_prefix hstart (List.prefix_append name _) with hname | hname
  · exact h hname
  · obtain ⟨behind, hbehind⟩ := hname
    rw [← hbehind, List.prefix_append_right_inj] at hstart
    cases behind with
    | nil => exact h (by rw [← hbehind, List.append_nil])
    | cons c cs =>
      obtain rfl := (List.cons_prefix_cons.1 hstart).1
      have hmem : '(' ∈ themeStart := hbehind ▸ by simp
      rw [themeStart_eq] at hmem
      exact absurd hmem (by decide)

lemma isWritten_staticClass {name : String} (h : IsClassName name.toList) :
    IsWritten (.staticClass name) (writeRef (.staticClass name)) where
  ne_nil := h.ne_nil
  unsplit := unsplit_of_plain h.plain
  trimmed := h.trimmed
  read := by
    have hopen : '(' ∉ name.toList := h.plain '(' (by simp)
    unfold readRef writeRef
    rw [isPrefixOf?_eq_none h.notTheme]
    dsimp only
    rw [splitOnce?_of_not_mem hopen]
    dsimp only
    rw [String.ofList_toList]

lemma readArgument_text {text : String} (h : Decimal.read? text.toList = none) :
    readArgument text.toList = .text text := by
  unfold readArgument
  rw [h]
  dsimp only
  rw [String.ofList_toList]

/-- The arguments are passed over inside their parentheses, and split once these are gone. -/
lemma isWritten_dynamic {name : String} {texts : List String} (h : IsClassName name.toList)
    (hne : texts ≠ []) (hargs : ∀ text ∈ texts, IsArgument text.toList) :
    IsWritten (.dynamic name (texts.map .text)) (writeRef (.dynamic name (texts.map .text))) := by
  have hwritten : writeRef (.dynamic name (texts.map .text)) = name.toList ++
      '(' :: ([',', ' '].intercalate (texts.map String.toList) ++ [')']) := by
    rw [writeRef, List.map_map]
    rfl
  have hunsplit : IsUnsplit 1 ([',', ' '].intercalate (texts.map String.toList)) := by
    apply unsplit_intercalate
    rw [List.forall_mem_map]
    exact fun text htext => unsplit_of_isBalanced (hargs text htext).balanced nofun
  rw [hwritten]
  constructor
  · simp
  · exact (unsplit_of_plain h.plain).append hunsplit.parenthesized
  · refine ⟨?_, ?_⟩
    · rw [List.head?_append_of_ne_nil _ h.ne_nil]
      exact h.trimmed.head
    · rw [← List.cons_append, ← List.append_assoc, endsBlank_concat]
      decide
  · have hopen : '(' ∉ name.toList := h.plain '(' (by simp)
    have hparts : partsFrom 0 [] ([',', ' '].intercalate (texts.map String.toList)) =
        texts.map String.toList := by
      refine partsFrom_intercalate (by simpa using hne) ?_ (List.forall_mem_nil _)
      rw [List.forall_mem_map]
      intro text htext
      have harg := hargs text htext
      exact ⟨unsplit_of_isBalanced harg.balanced fun _ => harg.commas, harg.trimmed⟩
    have hread : (texts.map String.toList).map readArgument = texts.map .text := by
      rw [List.map_map]
      exact List.map_congr_left fun text htext => readArgument_text (hargs text htext).notNumber
    unfold readRef
    rw [isPrefixOf?_eq_none (not_themeStart_open h.notTheme _)]
    dsimp only
    rw [splitOnce?_append hopen]
    dsimp only
    rw [List.isSuffixOf?_eq_some_iff_append_eq.2 rfl]
    dsimp only
    rw [trim_of_trimmed h.trimmed, hparts, hread, String.ofList_toList]

lemma isWritten_theme {space name : String} (hpoint : '.' ∉ space.toList)
    (hplain : ∀ c ∈ ['(', ')', ','], c ∉ space.toList ∧ c ∉ name.toList)
    (hend : ¬EndsBlank name.toList) :
    IsWritten (.theme space name) (writeRef (.theme space name)) := by
  have hwritten : writeRef (.theme space name) =
      themeStart ++ (space.toList ++ '.' :: name.toList) := by
    rw [writeRef, toList_qualified]
  rw [hwritten]
  constructor
  · simp [themeStart_eq]
  · apply unsplit_of_plain
    intro c hc
    have hstart : c ∉ themeStart ∧ c ≠ '.' := by
      revert c
      rw [themeStart_eq]
      decide
    simp [hstart, hplain c hc]
  · refine ⟨?_, ?_⟩
    · rw [themeStart_eq]
      rintro c ⟨⟩
      rfl
    · rw [endsBlank_append (by simp), endsBlank_append (by simp)]
      by_cases hname : name.toList = []
      · rw [hname]
        exact mt (@endsBlank_concat [] '.').1 (by decide)
      · rwa [← List.singleton_append, endsBlank_append hname]
  · unfold readRef
    rw [List.isPrefixOf?_eq_some_iff_append_eq.2 rfl]
    dsimp only
    rw [splitOnce?_append hpoint]
    dsimp only
    rw [String.ofList_toList, String.ofList_toList]

lemma Writable.isWritten {ref : ClassRef} (h : Writable ref) : IsWritten ref (writeRef ref) := by
  cases h with
  | staticClass hname => exact isWritten_staticClass hname
  | dynamic hname hne hargs => exact isWritten_dynamic hname hne hargs
  | theme hpoint hplain hend => exact isWritten_theme hpoint hplain hend

/-- A list of references is read back as it was written. -/
theorem readRefs_writeRefs {refs : List ClassRef} (h : ∀ ref ∈ refs, Writable ref) :
    readRefs (writeRefs refs) = .ok refs := by
  have hwritten : ∀ ref ∈ refs, IsWritten ref (writeRef ref) := fun ref href => (h ref href).isWritten
  unfold readRefs writeRefs
  rw [String.toList_ofList]
  by_cases hnil : refs = []
  · rw [hnil]
    rfl
  · have hparts : partsFrom 0 [] ([',', ' '].intercalate (refs.map writeRef)) =
        refs.map writeRef := by
      refine partsFrom_intercalate (by simpa using hnil) ?_ (List.forall_mem_nil _)
      rw [List.forall_mem_map]
      exact fun ref href => ⟨(hwritten ref href).unsplit, (hwritten ref href).trimmed⟩
    have hkept : (refs.map writeRef).filter (fun part => !part.isEmpty) = refs.map writeRef := by
      rw [List.filter_eq_self, List.forall_mem_map]
      exact fun ref href => by simpa using (hwritten ref href).ne_nil
    rw [hparts, hkept]
    apply mapM_of_forall₂
    rw [List.forall₂_map_left_iff, List.forall₂_same]
    exact fun ref href => (hwritten ref href).read

/-- A class, one with an argument that has commas of its own, and a theme. -/
def mixedRefs : List ClassRef :=
  [.staticClass "button", .dynamic "fade" (["rgb(0, 0, 0)", "slow"].map .text),
    .theme "colors" "dark"]

theorem readRefs_writeRefs_mixed :
    (∀ ref ∈ mixedRefs, Writable ref) ∧
      writeRefs mixedRefs = "button, fade(rgb(0, 0, 0), slow), theme:colors.dark" ∧
      readRefs (writeRefs mixedRefs) = .ok mixedRefs := by
  have hnames : IsClassName "button".toList ∧ IsClassName "fade".toList := by decide +kernel
  have harguments : ∀ text ∈ ["rgb(0, 0, 0)", "slow"], IsArgument text.toList := by
    decide +kernel
  have htheme : Writable (.theme "colors" "dark") :=
    .theme (by decide) (by decide +kernel) (by decide +kernel)
  have hwritable : ∀ ref ∈ mixedRefs, Writable ref :=
    List.forall_mem_cons.2 ⟨.staticClass hnames.1, List.forall_mem_cons.2
      ⟨.dynamic hnames.2 (by decide) harguments, List.forall_mem_singleton.2 htheme⟩⟩
  exact ⟨hwritable, by decide +kernel, readRefs_writeRefs hwritable⟩

end AtomicCss.Proofs
