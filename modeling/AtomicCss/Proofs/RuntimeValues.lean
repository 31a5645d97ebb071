import AtomicCss.Proofs.Affixes
import AtomicCss.Proofs.EmittedClasses

/-!
# Values that arrive with the references

A dynamic class reads custom properties. Merging sets each of them inline, to what the last binding
of the last reference that binds it is given, and the parameter of a binding is always among those
that arguments are given for. So no class reads a custom property that is not set.
-/

namespace AtomicCss.Proofs

open Keyed Merged

/-- The bindings of the class that a reference gives arguments to. -/
def bindingsOf (styles : Styles) : ClassRef → List Binding
  | .dynamic name _ => ((get? styles.dynamics name).map DynamicClass.bindings).getD []
  | _ => []

/-- Whether a reference binds a custom property. -/
def binds (styles : Styles) (custom : String) (r : ClassRef) : Bool :=
  (bindingsOf styles r).any fun b => b.customProperty = custom

def isDynamic : ClassRef → Bool
  | .dynamic _ _ => true
  | _ => false

/-- What the last of the bindings of a custom property gives it: the text of the argument in the
place of its parameter. -/
def bound? (parameters : List String) (arguments : List Scalar) (bindings : List Binding)
    (custom : String) : Option String :=
  (bindings.reverse.find? fun b => b.customProperty = custom).bind fun b =>
    arguments[parameters.idxOf b.parameter]?.bind (argumentText? b.property)

def boundBy? (styles : Styles) (custom : String) : ClassRef → Option String
  | .dynamic name arguments =>
    (get? styles.dynamics name).bind fun d => bound? d.parameters arguments d.bindings custom
  | _ => none

/-- What the last reference that binds a custom property gives it. -/
def inlineOf? (styles : Styles) (refs : List ClassRef) (custom : String) : Option String :=
  (refs.reverse.find? (binds styles custom)).bind (boundBy? styles custom)

/-- The inline values hold every custom property that is bound exactly once, with what the last
reference that binds it gives it, and nothing else. -/
structure SetInline (styles : Styles) (refs : List ClassRef) (inline : Keyed String String) :
    Prop where
  once : ∀ r ∈ refs, ∀ b ∈ bindingsOf styles r, ∃ text,
    inlineOf? styles refs b.customProperty = some text ∧
      inline.filter (fun item => item.1 = b.customProperty) = [(b.customProperty, text)]
  bound : ∀ item ∈ inline, ∃ r ∈ refs, binds styles item.1 r = true

/-- The rule of an entry sets its property to a custom property. -/
structure ReadsCustom (config : Config) (custom : String) (e : Entry) : Prop where
  value : e.value = "var(" ++ custom ++ ")"
  rule : ∃ name, e.className = some name ∧
    e.ltr = braced ("." ++ name) (Entry.declarationBlock config e.property [e.value])

lemma argumentFor?_eq {parameter : String} {parameters : List String}
    (h : parameter ∈ parameters) (arguments : List Scalar) :
    argumentFor? parameter parameters arguments = arguments[parameters.idxOf parameter]? := by
  induction parameters generalizing arguments with
  | nil => cases h
  | cons p ps ih =>
    cases arguments with
    | nil => rfl
    | cons a as =>
      rw [argumentFor?]
      by_cases hp : p = parameter
      · subst hp
        rw [if_pos rfl, List.idxOf_cons_self]
        rfl
      · have hrest : parameter ∈ ps := (List.mem_cons.1 h).resolve_left fun heq => hp heq.symm
        rw [if_neg hp, List.idxOf_cons_ne _ hp, ih hrest]
        rfl

section

variable {name : String} {parameters : List String} {arguments : List Scalar}
  {bindings : List Binding} {inline result : Keyed String String}

/-- A binding whose parameter is declared takes the text of an argument. -/
lemma bindArguments_cons {b : Binding} (hlength : arguments.length = parameters.length)
    (hb : b.parameter ∈ parameters)
    (h : bindArguments name parameters arguments inline (b :: bindings) = .ok result) :
    ∃ text, arguments[parameters.idxOf b.parameter]?.bind (argumentText? b.property) = some text ∧
      bindArguments name parameters arguments (inline.renew b.customProperty text) bindings =
        .ok result := by
  have hindex : parameters.idxOf b.parameter < arguments.length :=
    hlength ▸ List.idxOf_lt_length_of_mem hb
  have hargument := List.getElem?_eq_getElem hindex
  rw [bindArguments, argumentFor?_eq hb, hargument] at h
  rw [hargument]
  dsimp only at h
  split at h
  · cases h
  · rename_i text htext
    exact ⟨text, htext, h⟩

/-- The bindings of a class set what they bind, the last of them for one custom property counting,
and leave the rest. -/
lemma get?_bindArguments (hlength : arguments.length = parameters.length)
    (hdeclared : ∀ b ∈ bindings, b.parameter ∈ parameters)
    (h : bindArguments name parameters arguments inline bindings = .ok result) (custom : String) :
    get? result custom =
        (if (bindings.any fun b => b.customProperty = custom) then
          bound? parameters arguments bindings custom
        else get? inline custom) ∧
      ((bindings.any fun b => b.customProperty = custom) = true →
        (bound? parameters arguments bindings custom).isSome) := by
  induction bindings generalizing inline with
  | nil =>
    cases h
    exact ⟨rfl, nofun⟩
  | cons b bs ih =>
    obtain ⟨text, htext, h⟩ := bindArguments_cons hlength (hdeclared b List.mem_cons_self) h
    obtain ⟨hget, hsome⟩ := ih (fun b hb => hdeclared b (List.mem_cons_of_mem _ hb)) h
    rw [hget, get?_renew]
    unfold bound? at hsome ⊢
    rw [find?_reverse_cons, List.any_cons]
    by_cases hrest : (bs.any fun b => b.customProperty = custom) = true
    · have hbound := hsome hrest
      cases hfound : bs.reverse.find? fun b => b.customProperty = custom with
      | none =>
        rw [hfound] at hbound
        cases hbound
      | some last =>
        rw [hfound] at hbound
        simpa [hrest] using hbound
    · have hnone : (bs.reverse.find? fun b => b.customProperty = custom) = none := by
        simpa using hrest
      rw [hnone]
      by_cases hb : b.customProperty = custom
      · simp [hrest, hb, htext]
      · have hne : ¬custom = b.customProperty := fun heq => hb heq.symm
        simp [hrest, hb, hne]

lemma nodup_bindArguments (hinline : (keys inline).Nodup)
    (h : bindArguments name parameters arguments inline bindings = .ok result) :
    (keys result).Nodup := by
  induction bindings generalizing inline with
  | nil =>
    cases h
    exact hinline
  | cons b bs ih =>
    rw [bindArguments] at h
    split at h
    · exact ih hinline h
    · split at h
      · cases h
      · exact ih (nodup_keys_renew hinline _ _) h

end

section

variable {config : Config} {registry start : Registry} {sheet : Sheet} {styles : Styles}
  {refs : List ClassRef} {m m' result : Merged}

/-- The bindings of a compiled dynamic class take declared parameters, and every entry of the class
is that of a binding and reads its custom property. -/
structure BoundClass (config : Config) (d : DynamicClass) : Prop where
  declared : ∀ b ∈ d.bindings, b.parameter ∈ d.parameters
  entries : ∀ item ∈ d.entries, ∃ b ∈ d.bindings,
    b.customProperty = Naming.dynamicName config.classStart b.property ∧
      item.2 = .atomic (dynamicEntry config b.property)

lemma boundClass_of_gives {setting : Setting} {parameters : List String}
    {properties : List (String × String)} {d : DynamicClass}
    (h : Gives (DynamicClass.compile setting parameters properties) d) :
    BoundClass setting.config d := by
  obtain ⟨bound, hbound, hparameters, hbindings, hentries⟩ := dynamic_bound h
  have hpair : ∀ pair ∈ bound, pair.1.parameter ∈ parameters ∧
      pair.1.customProperty = Naming.dynamicName setting.config.classStart pair.1.property ∧
      pair.2 = dynamicEntry setting.config pair.1.property := by
    intro pair hpair
    obtain ⟨item, _, hgives⟩ := gives_mapM_mem hbound hpair
    obtain ⟨hb, hdeclared, he⟩ := bound_of_gives hgives
    rw [hb] at he ⊢
    exact ⟨hdeclared, rfl, he⟩
  constructor
  · rw [hbindings, hparameters]
    intro b hb
    obtain ⟨pair, hmem, rfl⟩ := List.mem_map.1 hb
    exact (hpair pair hmem).1
  · rw [hbindings, hentries]
    intro item hitem
    obtain ⟨pair, hmem, rfl⟩ := List.mem_map.1 ((mem_putAll hitem).resolve_left nofun)
    obtain ⟨_, hcustom, he⟩ := hpair pair hmem
    exact ⟨pair.1, List.mem_map_of_mem hmem, hcustom, congrArg Slot.atomic he⟩

lemma Compiled.boundClass (hc : Compiled config registry styles) {name : String}
    {d : DynamicClass} (hget : get? styles.dynamics name = some d) : BoundClass config d := by
  obtain ⟨parameters, properties, hgives⟩ := (hc.dynamics hget).1
  exact boundClass_of_gives hgives

/-- What one reference does to the inline values, when it is merged without an error. -/
structure InlineStep (styles : Styles) (r : ClassRef) (m m' : Merged) : Prop where
  values : ∀ custom, get? m'.inline custom =
    if binds styles custom r then boundBy? styles custom r else get? m.inline custom
  given : ∀ custom, binds styles custom r = true → (boundBy? styles custom r).isSome
  distinct : (keys m.inline).Nodup → (keys m'.inline).Nodup

/-- A reference that binds nothing leaves the inline values as they are. -/
lemma InlineStep.of_unbound {r : ClassRef} (hbindings : bindingsOf styles r = [])
    (hinline : m'.inline = m.inline) : InlineStep styles r m m' := by
  have hbinds : ∀ custom, binds styles custom r = false := by
    intro custom
    rw [binds, hbindings]
    rfl
  refine ⟨fun custom => ?_, fun custom hb => ?_, fun hm => hinline ▸ hm⟩
  · rw [hbinds, hinline]
    rfl
  · rw [hbinds] at hb
    cases hb

/-- A dynamic class that is given an argument for every parameter sets what it binds. -/
lemma InlineStep.of_arguments {name : String} {arguments : List Scalar} {d : DynamicClass}
    (hget : get? styles.dynamics name = some d) (hlength : arguments.length = d.parameters.length)
    (hd : BoundClass config d)
    (h : bindArguments name d.parameters arguments m.inline d.bindings = .ok m'.inline) :
    InlineStep styles (.dynamic name arguments) m m' := by
  have hset := get?_bindArguments hlength hd.declared h
  have hbinds : ∀ custom, binds styles custom (.dynamic name arguments) =
      d.bindings.any fun b => b.customProperty = custom := by
    intro custom
    rw [binds, bindingsOf, hget]
    rfl
  have hbound : ∀ custom, boundBy? styles custom (.dynamic name arguments) =
      bound? d.parameters arguments d.bindings custom := by
    intro custom
    rw [boundBy?, hget]
    rfl
  refine ⟨fun custom => ?_, fun custom hb => ?_, fun hm => nodup_bindArguments hm h⟩
  · rw [hbinds, hbound]
    exact (hset custom).1
  · rw [hbinds] at hb
    rw [hbound]
    exact (hset custom).2 hb

lemma inlineStep_of_apply (hc : Compiled config registry styles) {r : ClassRef}
    (h : Merged.apply styles m r = .ok m') : InlineStep styles r m m' := by
  unfold Merged.apply at h
  split at h
  · cases h
    exact .of_unbound rfl rfl
  · split at h
    · cases h
      exact .of_unbound rfl rfl
    · cases h
  · split at h
    · cases h
    · rename_i d hget
      split at h
      · cases h
      · rename_i hlength
        obtain ⟨inline, hinline, rfl⟩ := map_eq_ok h
        exact .of_arguments hget (not_not.1 hlength) (hc.boundClass hget) hinline
  · dsimp only at h
    split at h
    · cases h
    · cases h
      exact .of_unbound rfl rfl

lemma nodup_inline_run (hc : Compiled config registry styles)
    (h : refs.foldlM (Merged.apply styles) {} = .ok m) : (keys m.inline).Nodup := by
  apply foldlM_invariant (P := fun m : Merged => (keys m.inline).Nodup) h List.nodup_nil
  intro m r m' _ hm hr
  exact (inlineStep_of_apply hc hr).distinct hm

lemma inline_run (hc : Compiled config registry styles)
    (h : refs.foldlM (Merged.apply styles) {} = .ok m) (custom : String) :
    get? m.inline custom = inlineOf? styles refs custom := by
  have hrun := observed_run (fun m => get? m.inline custom) (binds styles custom)
    (boundBy? styles custom) (fun r m m' hr => (inlineStep_of_apply hc hr).values custom) h
  rw [hrun, inlineOf?]
  cases refs.reverse.find? (binds styles custom) <;> rfl

lemma boundBy?_isSome_of_mem (hc : Compiled config registry styles)
    (h : refs.foldlM (Merged.apply styles) m = .ok result) {r : ClassRef} (hr : r ∈ refs)
    {custom : String} (hbinds : binds styles custom r = true) :
    (boundBy? styles custom r).isSome := by
  induction refs generalizing m with
  | nil => cases hr
  | cons head rest ih =>
    rw [List.foldlM_cons] at h
    obtain ⟨m', hhead, h⟩ := bind_eq_ok h
    rcases List.mem_cons.1 hr with rfl | hr
    · exact (inlineStep_of_apply hc hhead).given custom hbinds
    · exact ih h hr

lemma inlineOf?_isSome (hc : Compiled config registry styles)
    (h : refs.foldlM (Merged.apply styles) {} = .ok m) {r : ClassRef} (hr : r ∈ refs)
    {custom : String} (hbinds : binds styles custom r = true) :
    (inlineOf? styles refs custom).isSome := by
  have hfound : (refs.reverse.find? (binds styles custom)).isSome := by
    rw [List.find?_isSome]
    exact ⟨r, List.mem_reverse.2 hr, hbinds⟩
  obtain ⟨last, hlast⟩ := Option.isSome_iff_exists.1 hfound
  rw [inlineOf?, hlast, Option.bind_some]
  have hmem := List.mem_reverse.1 (List.mem_of_find?_eq_some hlast)
  exact boundBy?_isSome_of_mem hc h hmem (List.find?_some hlast)

lemma setInline_run (hc : Compiled config registry styles)
    (h : refs.foldlM (Merged.apply styles) {} = .ok m) : SetInline styles refs m.inline := by
  have hnodup := nodup_inline_run hc h
  constructor
  · intro r hr b hb
    have hbinds : binds styles b.customProperty r = true :=
      List.any_eq_true.2 ⟨b, hb, decide_eq_true rfl⟩
    obtain ⟨text, htext⟩ := Option.isSome_iff_exists.1 (inlineOf?_isSome hc h hr hbinds)
    refine ⟨text, htext, ?_⟩
    rw [← inline_run hc h] at htext
    exact filter_key_eq_singleton hnodup htext
  · intro item hitem
    have hget := get?_of_mem hnodup hitem
    rw [inline_run hc h] at hget
    obtain ⟨r, hfound, _⟩ := Option.bind_eq_some_iff.1 hget
    exact ⟨r, List.mem_reverse.1 (List.mem_of_find?_eq_some hfound), List.find?_some hfound⟩

end

/-- A character that neither opens nor closes anything. -/
def IsFlat (c : Char) : Prop :=
  c ≠ '"' ∧ c ≠ '\'' ∧ c ≠ '(' ∧ c ≠ ')'

instance : DecidablePred IsFlat :=
  fun c => inferInstanceAs (Decidable (c ≠ '"' ∧ c ≠ '\'' ∧ c ≠ '(' ∧ c ≠ ')'))

/-- Inside parentheses no separator counts. -/
lemma topLevelFrom_flat {sep : Char} {inner : List Char} (h : ∀ c ∈ inner, IsFlat c)
    (depth : ℕ) (current rest : List Char) :
    Text.topLevelFrom sep (depth + 1) none current (inner ++ rest) =
      Text.topLevelFrom sep (depth + 1) none (current ++ inner) rest := by
  induction inner generalizing current with
  | nil => simp
  | cons c cs ih =>
    obtain ⟨hdouble, hsingle, hopen, hclose⟩ := h c List.mem_cons_self
    have hquote : ¬(c = '"' ∨ c = '\'') := not_or.2 ⟨hdouble, hsingle⟩
    have hsep : ¬(c = sep ∧ depth + 1 = 0) := fun hzero => Nat.succ_ne_zero depth hzero.2
    rw [List.cons_append, Text.topLevelFrom, if_neg hquote, if_neg hopen, if_neg hclose,
      if_neg hsep, ih (fun c hc => h c (List.mem_cons_of_mem _ hc)), List.append_assoc]
    rfl

/-- The text that uses a custom property. -/
def useOf (custom : List Char) : List Char :=
  "var(".toList ++ custom ++ [')']

lemma trim_useOf (custom : List Char) : Text.trim (useOf custom) = useOf custom := by
  simp [Text.trim, Text.trimStart, Text.trimEnd, Text.isBlank, useOf]

/-- The use of a custom property is one word, whatever words are split at. -/
lemma splitTopLevel_useOf {sep : Char} (hsep : sep = ',' ∨ sep = ' ') {custom : List Char}
    (h : ∀ c ∈ custom, IsFlat c) : Text.splitTopLevel sep (useOf custom) = [useOf custom] := by
  have hopened : Text.splitTopLevel sep (useOf custom) =
      Text.topLevelFrom sep 1 none "var(".toList (custom ++ [')']) := by
    rcases hsep with rfl | rfl <;> simp [Text.splitTopLevel, Text.topLevelFrom, useOf]
  have hclosed : Text.topLevelFrom sep 1 none ("var(".toList ++ custom) [')'] =
      Text.topLevelFrom sep 0 none (useOf custom) [] := rfl
  rw [hopened, topLevelFrom_flat h, hclosed, Text.topLevelFrom, trim_useOf]
  rfl

lemma replaced?_useOf (custom : List Char) :
    Direction.replaced? Direction.logicalToLtr (useOf custom) = none := by
  have hhead : (useOf custom).head? = some 'v' := by simp [useOf]
  have hfree : ∀ word : String, word.toList.head? ≠ some 'v' →
      (String.ofList (useOf custom) == word) = false := by
    intro word hword
    rw [beq_eq_false_iff_ne]
    rintro rfl
    rw [String.toList_ofList] at hword
    exact hword hhead
  unfold Direction.replaced? Direction.logicalToLtr
  simp only [List.lookup_cons, List.lookup_nil, hfree "start" (by decide),
    hfree "inline-start" (by decide), hfree "end" (by decide), hfree "inline-end" (by decide),
    Option.map_none]

lemma getLast?_important : Direction.important.getLast? = some 't' := by
  decide

/-- A text that ends in another character does not end in the mark. -/
lemma not_suffix_important {text : List Char} (h : text.getLast? ≠ some 't') :
    ¬Direction.important <:+ text := by
  rintro ⟨body, rfl⟩
  rw [List.getLast?_append, getLast?_important] at h
  exact h rfl

lemma mapKeyword_useOf (custom : List Char) :
    Direction.mapKeyword Direction.logicalToLtr (useOf custom) = useOf custom := by
  have hlast : (useOf custom).getLast? = some ')' := List.getLast?_concat
  have hne : (useOf custom).getLast? ≠ some 't' := by simp [hlast]
  unfold Direction.mapKeyword
  rw [isSuffixOf?_eq_none (not_suffix_important hne)]
  dsimp only
  rw [replaced?_useOf]

lemma mapWords_useOf {custom : List Char} (h : ∀ c ∈ custom, IsFlat c) :
    Direction.mapWords Direction.logicalToLtr (useOf custom) = useOf custom := by
  unfold Direction.mapWords
  rw [splitTopLevel_useOf (.inl rfl) h, List.map_singleton, splitTopLevel_useOf (.inr rfl) h,
    List.map_singleton, replaced?_useOf]
  simp [Text.joinWith]

/-- The use of a custom property reads the same in left-to-right text. -/
lemma ltr_useOf {property : String} {custom : List Char}
    (h : Direction.isBackground property = true → ∀ c ∈ custom, IsFlat c) :
    Direction.ltr property (String.ofList (useOf custom)) = String.ofList (useOf custom) := by
  unfold Direction.ltr Direction.ltrText
  rw [String.toList_ofList]
  split
  · rw [mapKeyword_useOf]
  · split
    · rename_i hbackground
      rw [mapWords_useOf (h hbackground)]
    · rfl

lemma isFlat_of_start {c : Char} (h : (c.isAlphanum || c == '_' || c == '-') = true) :
    IsFlat c := by
  refine ⟨?_, ?_, ?_, ?_⟩ <;>
  · rintro rfl
    revert h
    decide

lemma isFlat_dynamicName {config : Config} (h : config.validate = .ok ()) {property : String}
    (hproperty : ∀ c ∈ property.toList, IsFlat c) :
    ∀ c ∈ (Naming.dynamicName config.classStart property).toList, IsFlat c := by
  have hdash : IsFlat '-' := by decide
  have hstart := (classStart_of_validate h).2
  intro c hc
  simp only [Naming.dynamicName, String.toList_append, List.mem_append] at hc
  rcases hc with ((hc | hc) | hc) | hc
  · obtain rfl : c = '-' := by simpa using hc
    exact hdash
  · exact isFlat_of_start (hstart c hc)
  · obtain rfl : c = '-' := by simpa using hc
    exact hdash
  · exact hproperty c hc

/-- The entry of a dynamic property reads the custom property that arguments are bound to. -/
lemma readsCustom_dynamicEntry {config : Config} (h : config.validate = .ok ())
    (property : String) :
    ReadsCustom config (Naming.dynamicName config.classStart property)
      (dynamicEntry config property) := by
  have hflat : Direction.isBackground property = true →
      ∀ c ∈ (Naming.dynamicName config.classStart property).toList, IsFlat c := by
    intro hbackground
    have hproperty : property = "background-position" ∨ property = "background-position-x" := by
      simpa [Direction.isBackground] using hbackground
    apply isFlat_dynamicName h
    rcases hproperty with rfl | rfl <;> decide
  have huse : "var(" ++ Naming.dynamicName config.classStart property ++ ")" =
      String.ofList (useOf (Naming.dynamicName config.classStart property).toList) := by
    rw [← String.toList_inj]
    simp [useOf]
  have hltr := ltr_useOf hflat
  rw [← huse] at hltr
  have hvalue : (dynamicEntry config property).value =
      "var(" ++ Naming.dynamicName config.classStart property ++ ")" := by
    simp [dynamicEntry, Entry.build, Normalized.identity]
  refine ⟨hvalue, _, rfl, ?_⟩
  rw [hvalue]
  simp only [dynamicEntry, Entry.build, List.map_singleton, hltr]
  simp [nonempty?, wrapAtRules, Entry.selectorText]

/-- What an entry of a dynamic class reads is bound by every reference to the class. -/
lemma readsBound_of_supplied {config : Config} {registry : Registry} {styles : Styles}
    (hvalid : config.validate = .ok ()) (hc : Compiled config registry styles)
    {key condition : String} {r : ClassRef} {e : Entry} (hdynamic : isDynamic r = true)
    (h : suppliedAt? styles key condition r = some e) :
    ∃ custom, binds styles custom r = true ∧ ReadsCustom config custom e := by
  obtain ⟨slot, hslot, hsupplied⟩ := Option.bind_eq_some_iff.1 h
  cases r with
  | dynamic name arguments =>
    rw [slotsOf] at hslot
    cases hget : get? styles.dynamics name with
    | none =>
      rw [hget] at hslot
      cases hslot
    | some d =>
      rw [hget] at hslot
      obtain ⟨b, hb, hcustom, hentry⟩ := (hc.boundClass hget).entries _ (mem_of_get? hslot)
      dsimp only at hentry
      subst hentry
      obtain rfl := List.mem_singleton.1 (mem_entries_of_supplied hsupplied)
      refine ⟨b.customProperty, ?_, hcustom ▸ readsCustom_dynamicEntry hvalid b.property⟩
      rw [binds, bindingsOf, hget]
      exact List.any_eq_true.2 ⟨b, hb, decide_eq_true rfl⟩
  | _ => cases hdynamic

/-- Every dynamic class finds its values: merging sets all custom properties that the references
bind, and an entry that a dynamic reference decides reads one of them. -/
theorem dynamic_values_set {config : Config} {start registry : Registry} {sheet : Sheet}
    {styles : Styles} {refs : List ClassRef} {result : Resolved}
    (h : sheet.compileInto config start = (registry, .ok styles))
    (hresolve : styles.resolve refs = .ok result) :
    ∃ m, refs.foldlM (Merged.apply styles) {} = .ok m ∧ result = m.resolved ∧
      SetInline styles refs m.inline ∧
      ∀ e ∈ m.slots.entries, ∃ key condition r,
        refs.reverse.find? (touchesAt styles key condition) = some r ∧
        suppliedAt? styles key condition r = some e ∧
        (isDynamic r = true → ∃ custom ∈ keys m.inline, ReadsCustom config custom e) := by
  obtain ⟨hcheck, _⟩ := compileInto_eq_ok_iff.1 h
  obtain ⟨hvalid, _⟩ := check_eq_ok_iff.1 hcheck
  obtain ⟨_, hcompiled⟩ := compiled_of_compileInto h
  obtain ⟨m, hm, rfl⟩ := map_eq_ok hresolve
  refine ⟨m, hm, rfl, setInline_run hcompiled hm, fun e he => ?_⟩
  rw [← map_snd_survivors] at he
  obtain ⟨p, hp, rfl⟩ := List.mem_map.1 he
  obtain ⟨hdecided, _⟩ := supplied_of_survivor hcompiled hm hp
  obtain ⟨r, hfound, hsupplied⟩ := Option.bind_eq_some_iff.1 hdecided
  refine ⟨p.1.1, p.1.2, r, hfound, hsupplied, fun hdynamic => ?_⟩
  obtain ⟨custom, hbinds, hreads⟩ := readsBound_of_supplied hvalid hcompiled hdynamic hsupplied
  have hr : r ∈ refs := List.mem_reverse.1 (List.mem_of_find?_eq_some hfound)
  have hset := inlineOf?_isSome hcompiled hm hr hbinds
  rw [← inline_run hcompiled hm, get?_isSome_iff] at hset
  exact ⟨custom, hset, hreads⟩

/-- A class that binds one property twice, one that binds it again, and a plain class. -/
def resized : Sheet :=
  Sheet.empty
    |>.define (.dynamicClass "sized" ["w", "h", "o"]
      [("width", "w"), ("opacity", "o"), ("width", "h")])
    |>.define (.dynamicClass "wide" ["w"] [("width", "w")])
    |>.define (.staticClass "opaque" [.property "opacity" (.scalar (.text "1"))])

def resizing : List ClassRef :=
  [.dynamic "wide" [.text "50%"], .dynamic "sized" [.text "1px", .text " 2px ", .text "0.5"],
    .staticClass "opaque"]

theorem dynamic_values_set_resized :
    ∃ registry styles result, resized.compileInto {} .empty = (registry, .ok styles) ∧
      styles.resolve resizing = .ok result ∧
      result.style = some "--x-opacity: 0.5; --x-width: 2px" ∧
      ∃ m, resizing.foldlM (Merged.apply styles) {} = .ok m ∧ result = m.resolved ∧
        SetInline styles resizing m.inline ∧
        ∀ e ∈ m.slots.entries, ∃ key condition r,
          resizing.reverse.find? (touchesAt styles key condition) = some r ∧
          suppliedAt? styles key condition r = some e ∧
          (isDynamic r = true → ∃ custom ∈ keys m.inline, ReadsCustom {} custom e) := by
  have hstyle : ((resized.compileInto {} .empty).2 >>= fun styles => styles.resolve resizing).map
      Resolved.style = .ok (some "--x-opacity: 0.5; --x-width: 2px") := by decide +kernel
  obtain ⟨result, hok, hstyle⟩ := map_eq_ok hstyle
  obtain ⟨styles, hstyles, hresolve⟩ := bind_eq_ok hok
  have hcompiles : resized.compileInto {} .empty = (_, .ok styles) := Prod.ext rfl hstyles
  exact ⟨_, styles, result, hcompiles, hresolve, hstyle, dynamic_values_set hcompiles hresolve⟩

end AtomicCss.Proofs
