import AtomicCss.Proofs.ConditionText
import AtomicCss.Proofs.Expanding

/-!
# What entries are built from

Every entry with a class name is built from a property, normalized values and the parts of a
condition. None of these texts holds the delimiter of digested texts if no declared text does, and
the values are sealed if the declared ones are contained.
-/

namespace AtomicCss.Proofs

open Declaration

mutual

/-- The value texts below a value. -/
def textsOf : Value → List String
  | .map entries => textsIn entries
  | value => leafTexts value

def textsIn : List (String × Value) → List String
  | [] => []
  | (_, value) :: rest => textsOf value ++ textsIn rest

end

mutual

/-- The keys below a value. -/
def keysOf : Value → List String
  | .map entries => keysIn entries
  | _ => []

def keysIn : List (String × Value) → List String
  | [] => []
  | (key, value) :: rest => key :: (keysOf value ++ keysIn rest)

end

mutual

/-- Whether no value below is a list of alternatives. -/
def isSimple : Value → Bool
  | .map entries => areSimple entries
  | .fallback _ | .firstThatWorks _ => false
  | _ => true

def areSimple : List (String × Value) → Bool
  | [] => true
  | (_, value) :: rest => isSimple value && areSimple rest

end

/-- No text without the delimiter can be mistaken for the end of a field. -/
def Undelimited (text : String) : Prop :=
  Naming.delimiter ∉ text.toList

/-- What a class is made from: declarations, or parameters with the properties that they set. -/
inductive Source
  | declared (declarations : Declarations)
  | dynamic (parameters : List String) (properties : List (String × String))

namespace Source

/-- No written text holds the delimiter. -/
def Undelimited : Source → Prop
  | declared declarations => ∀ text ∈ keysIn declarations ++ textsIn declarations,
      Proofs.Undelimited text
  | dynamic _ properties => ∀ item ∈ properties, Proofs.Undelimited item.1

/-- No property has alternatives. -/
def Simple : Source → Prop
  | declared declarations => areSimple declarations = true
  | dynamic _ _ => True

/-- Whatever the written texts open they close, outside their strings. Shorthands that are expanded
have no backslashes either. -/
def Contained (config : Config) : Source → Prop
  | declared declarations => ∀ property scope value, Declares declarations property scope value →
      ∀ text ∈ textsOf value, ContainedText property text.toList ∧
        (config.shorthands = .flatten → Property.isShorthand property = true →
          '\\' ∉ text.toList)
  | dynamic _ properties => ∀ item ∈ properties,
      Enclosed (Naming.dynamicName config.classStart (Property.dashCase item.1)).toList

/-- The entries of the class that is made from the source. -/
inductive Builds (config : Config) : Source → Entry → Prop
  | declared {definition : String} {declarations : Declarations} {m : ClassEntries} {e : Entry} :
    Gives (classEntries ⟨config, definition⟩ declarations) m → e ∈ m.entries →
    Builds config (declared declarations) e
  | dynamic {definition : String} {parameters : List String} {properties : List (String × String)}
    {d : DynamicClass} {e : Entry} :
    Gives (DynamicClass.compile ⟨config, definition⟩ parameters properties) d →
    e ∈ d.entries.entries → Builds config (dynamic parameters properties) e

end Source

/-- What an entry is built from; none of it holds the delimiter. -/
structure Ingredients (config : Config) (e : Entry) where
  property : String
  value : Normalized
  suffix : Option String
  atRule : Option String
  built : e = .build config property value suffix atRule
  nonempty : value.values ≠ []
  undelimited_property : Undelimited property
  undelimited_values : ∀ v ∈ value.values, Undelimited v
  undelimited_suffix : ∀ s, suffix = some s → Undelimited s
  undelimited_atRule : ∀ s, atRule = some s → Undelimited s

/-- Contained sources have sealed values, and simple ones single values. -/
def Ingredients.Fits {config : Config} {e : Entry} (i : Ingredients config e) (source : Source) :
    Prop :=
  (source.Contained config → ∀ v ∈ i.value.values, Sealed v.toList) ∧
    (source.Simple → ∃ v, i.value.values = [v])

/-- Characters other than the delimiter. -/
lemma common_undelimited : Common fun c => c ≠ Naming.delimiter := by
  rintro c hc rfl
  revert hc
  decide

lemma common_unescaped : Common fun c => c ≠ '\\' :=
  fun _ h => h.2.2

lemma undelimited_iff {text : String} :
    Undelimited text ↔ ∀ c ∈ text.toList, c ≠ Naming.delimiter := by
  constructor
  · rintro h c hc rfl
    exact h hc
  · intro h hmem
    exact h _ hmem rfl

lemma leafTexts_subset (value : Value) : leafTexts value ⊆ textsOf value := by
  cases value with
  | map entries => exact List.nil_subset _
  | _ => exact List.Subset.refl _

lemma textsOf_subset {key : String} {value : Value} {map : List (String × Value)}
    (h : (key, value) ∈ map) : textsOf value ⊆ textsIn map := by
  induction map with
  | nil => cases h
  | cons item rest ih =>
    obtain ⟨key', value'⟩ := item
    rcases List.mem_cons.1 h with heq | h
    · cases heq
      exact List.subset_append_left _ _
    · exact List.Subset.trans (ih h) (List.subset_append_right _ _)

lemma key_mem_keysIn {key : String} {value : Value} {map : List (String × Value)}
    (h : (key, value) ∈ map) : key ∈ keysIn map ∧ keysOf value ⊆ keysIn map := by
  induction map with
  | nil => cases h
  | cons item rest ih =>
    obtain ⟨key', value'⟩ := item
    rcases List.mem_cons.1 h with heq | h
    · cases heq
      exact ⟨List.mem_cons_self,
        List.subset_cons_of_subset _ (List.subset_append_left _ _)⟩
    · obtain ⟨hkey, hkeys⟩ := ih h
      have hsub : keysIn rest ⊆ keysIn ((key', value') :: rest) :=
        List.subset_cons_of_subset _ (List.subset_append_right _ _)
      exact ⟨hsub hkey, List.Subset.trans hkeys hsub⟩

lemma isSimple_of_mem {key : String} {value : Value} {map : List (String × Value)}
    (hmap : areSimple map = true) (h : (key, value) ∈ map) : isSimple value = true := by
  induction map with
  | nil => cases h
  | cons item rest ih =>
    obtain ⟨key', value'⟩ := item
    obtain ⟨hvalue, hrest⟩ := Bool.and_eq_true_iff.1 hmap
    rcases List.mem_cons.1 h with heq | h
    · cases heq
      exact hvalue
    · exact ih hrest h

lemma isSimple_of_leafIn {parent : String} {map : List (String × Value)} {leaf : Leaf}
    (h : LeafIn parent map leaf) (hmap : areSimple map = true) : isSimple leaf.value = true := by
  induction h with
  | here hmem => exact isSimple_of_mem hmap hmem
  | inside hmem _ _ _ ih => exact ih (isSimple_of_mem hmap hmem)

/-- The texts of a leaf stand in its map. -/
lemma leafTexts_of_leafIn {parent : String} {map : List (String × Value)} {leaf : Leaf}
    (h : LeafIn parent map leaf) : leafTexts leaf.value ⊆ textsIn map := by
  induction h with
  | here hmem => exact List.Subset.trans (leafTexts_subset _) (textsOf_subset hmem)
  | inside hmem _ _ _ ih => exact List.Subset.trans ih (textsOf_subset hmem)

/-- The condition of a leaf consists of the keys on the way to it. -/
lemma forall_condition_of_leafIn {P : Char → Prop} (hspace : P ' ') {parent : String}
    {map : List (String × Value)} {leaf : Leaf} (h : LeafIn parent map leaf)
    (hparent : ∀ c ∈ parent.toList, P c) (hkeys : ∀ key ∈ keysIn map, ∀ c ∈ key.toList, P c) :
    ∀ c ∈ leaf.condition.toList, P c := by
  induction h with
  | here hmem _ hcompose =>
    exact forall_compose hspace hcompose hparent (hkeys _ (key_mem_keysIn hmem).1)
  | inside hmem _ hcompose _ ih =>
    obtain ⟨hkey, hinner⟩ := key_mem_keysIn hmem
    apply ih
    · exact forall_compose hspace hcompose hparent (hkeys _ hkey)
    · exact fun key hk => hkeys key (hinner hk)

lemma undelimited_dashCase {name : String} (h : Undelimited name) :
    Undelimited (Property.dashCase name) := by
  rw [undelimited_iff] at h ⊢
  intro c hc
  unfold Property.dashCase at hc
  rw [String.toList_ofList] at hc
  rcases mem_dashCaseText hc with hc | hc
  · exact h c hc
  · exact common_of_plain common_undelimited hc

lemma undelimited_ofList {cs : List Char} (h : Naming.delimiter ∉ cs) :
    Undelimited (String.ofList cs) := by
  unfold Undelimited
  rwa [String.toList_ofList]

/-- The longhands that expansions reach. -/
lemma undelimited_target {property target : String} {targets : List String}
    (h : Expansion.targets? property = some targets) (ht : target ∈ targets) :
    Undelimited target := by
  have htable : ∀ e ∈ Expansion.expansions, ∀ l ∈ e.2.2, Naming.delimiter ∉ l.toList := by
    decide +kernel
  obtain ⟨form, _, hrow⟩ := mem_expansions h
  exact htable (property, form, targets) hrow target ht

/-- The condition on a declared value under which its normalized values are sealed. -/
def ContainedValue (config : Config) (property : String) (texts : List String) : Prop :=
  ∀ text ∈ texts, ContainedText property text.toList ∧
    (config.shorthands = .flatten → Property.isShorthand property = true → '\\' ∉ text.toList)

lemma single_of_simple {property : String} {value : Value} {normalized : Normalized}
    (h : Value.normalizeLeaf property value = .ok normalized) (hsimple : isSimple value = true) :
    ∃ v, normalized.values = [v] := by
  cases value with
  | scalar value =>
    obtain ⟨text, _, rfl⟩ := map_eq_ok h
    exact ⟨text, rfl⟩
  | fallback values => cases hsimple
  | firstThatWorks values => cases hsimple
  | unset => cases h
  | map entries => cases h

lemma ingredients_of_entryOf {config : Config} {property : String} {suffix atRule : Option String}
    {value : Value} {e : Entry} (h : EntryOf config property suffix atRule value e)
    (hname : e.className.isSome) (hproperty : Undelimited property)
    (htexts : ∀ text ∈ leafTexts value, Undelimited text)
    (hsuffix : ∀ s, suffix = some s → Undelimited s)
    (hatRule : ∀ s, atRule = some s → Undelimited s) :
    ∃ i : Ingredients config e,
      (ContainedValue config property (leafTexts value) → ∀ v ∈ i.value.values, Sealed v.toList) ∧
      (isSimple value = true → ∃ v, i.value.values = [v]) := by
  cases h with
  | unset => cases hname
  | @build normalized part hnormalized hpart =>
    obtain ⟨hne, hvalues⟩ := forall_normalizeLeaf common_undelimited hnormalized
      (fun raw hraw => undelimited_iff.1 (htexts raw hraw)) fun _ => by decide
    obtain ⟨hpne, hpvalues⟩ := forall_underPolicy common_undelimited hne hvalues part hpart
    have hpproperty : Undelimited part.1 := by
      rcases underPolicy_cases hpart with rfl | ⟨_, _, _, _, _, hexpand, item, hitem, rfl⟩
      · exact hproperty
      · obtain ⟨_, _, _, _, _, _, hparts⟩ := expand?_parts hexpand
        obtain ⟨⟨targets, htargets, htarget⟩, _⟩ := hparts item hitem
        exact undelimited_target htargets htarget
    refine ⟨⟨part.1, part.2, suffix, atRule, rfl, hpne, hpproperty,
      fun v hv => undelimited_iff.2 (hpvalues v hv), hsuffix, hatRule⟩, fun hcontained => ?_,
      fun hsimple => ?_⟩
    · refine sealed_underPolicy ?_ ?_ part hpart
      · exact sealed_normalizeLeaf hnormalized fun raw hraw => (hcontained raw hraw).1
      · intro hpolicy hshorthand v hv hmem
        have hcontent : property = "content" → '\\' ≠ '\\' := by
          rintro rfl
          revert hshorthand
          decide
        obtain ⟨_, hnone⟩ := forall_normalizeLeaf common_unescaped hnormalized
          (fun raw hraw c hc heq => (hcontained raw hraw).2 hpolicy hshorthand (heq ▸ hc)) hcontent
        exact hnone v hv _ hmem rfl
    · rcases underPolicy_cases hpart with rfl | ⟨_, _, _, _, _, _, item, _, rfl⟩
      · exact single_of_simple hnormalized hsimple
      · exact ⟨item.2, rfl⟩

/-- What is declared of a property stands in the declarations. -/
lemma written_of_declares {declarations : Declarations} {property : String} {scope : Option String}
    {value : Value} (h : Declares declarations property scope value) :
    (∃ key ∈ keysIn declarations, property = Property.dashCase key) ∧
      (∀ s, scope = some s → s ∈ keysIn declarations) ∧
      textsOf value ⊆ textsIn declarations ∧ keysOf value ⊆ keysIn declarations ∧
      (areSimple declarations = true → isSimple value = true) := by
  cases h with
  | @plain key value hmem =>
    obtain ⟨hkey, hkeys⟩ := key_mem_keysIn hmem
    exact ⟨⟨key, hkey, rfl⟩, nofun, textsOf_subset hmem, hkeys, fun h => isSimple_of_mem h hmem⟩
  | @grouped key name group value hmem _ hinner =>
    obtain ⟨hkey, hkeys⟩ := key_mem_keysIn hmem
    obtain ⟨hname, hinside⟩ := key_mem_keysIn hinner
    refine ⟨⟨name, hkeys hname, rfl⟩, ?_, ?_, List.Subset.trans hinside hkeys, ?_⟩
    · intro s hs
      cases hs
      exact hkey
    · exact List.Subset.trans (textsOf_subset hinner) (textsOf_subset hmem)
    · exact fun h => isSimple_of_mem (isSimple_of_mem h hmem) hinner

lemma undelimited_append {s t : String} (hs : Undelimited s) (ht : Undelimited t) :
    Undelimited (s ++ t) := by
  unfold Undelimited
  rw [String.toList_append, List.mem_append, not_or]
  exact ⟨hs, ht⟩

lemma undelimited_suffixBehind {scope suffix : Option String}
    (hscope : ∀ s, scope = some s → Undelimited s)
    (hsuffix : ∀ s, suffix = some s → Undelimited s) :
    ∀ s, suffixBehind scope suffix = some s → Undelimited s := by
  intro s hs
  cases scope with
  | none => exact hsuffix s hs
  | some pseudo =>
    cases suffix with
    | none => exact hscope s hs
    | some rest =>
      cases hs
      exact undelimited_append (hscope pseudo rfl) (hsuffix rest rfl)

lemma ingredients_of_declared {config : Config} {definition : String} {declarations : Declarations}
    {m : ClassEntries} {e : Entry} (h : Gives (classEntries ⟨config, definition⟩ declarations) m)
    (he : e ∈ m.entries) (hname : e.className.isSome)
    (hund : (Source.declared declarations).Undelimited) :
    ∃ i : Ingredients config e, i.Fits (Source.declared declarations) := by
  obtain ⟨item, hitem, hin⟩ := List.mem_flatMap.1 he
  obtain ⟨property, scope, value, hdeclares, _, hslot⟩ := slotOf_of_mem h hitem
  obtain ⟨⟨key, hkey, hdash⟩, hscope, htexts, hkeys, hsimple⟩ := written_of_declares hdeclares
  have hproperty : Undelimited property := by
    rw [hdash]
    exact undelimited_dashCase (hund key (List.mem_append_left _ hkey))
  have hscope : ∀ s, scope = some s → Undelimited s := fun s hs =>
    hund s (List.mem_append_left _ (hscope s hs))
  have hvalue : ∀ text ∈ textsOf value, Undelimited text := fun text ht =>
    hund text (List.mem_append_right _ (htexts ht))
  cases hslot with
  | @atomic e' hentry =>
    obtain rfl : e = e' := List.mem_singleton.1 hin
    have hsub := leafTexts_subset value
    obtain ⟨i, hi⟩ := ingredients_of_entryOf hentry hname hproperty
      (fun text ht => hvalue text (hsub ht)) hscope nofun
    refine ⟨i, fun hcontained => hi.1 fun text ht => ?_, fun hdeclared => hi.2 (hsimple hdeclared)⟩
    exact hcontained property scope value hdeclares text (hsub ht)
  | @bundle definition' longhand map leaves bundle hmap hflatten hnodup hbundle =>
    subst hmap
    obtain ⟨written, hwritten, rfl⟩ := List.mem_map.1 hin
    obtain ⟨_, leaf, hleaf, condition, hparse, _, hentry⟩ := hbundle written hwritten
    have hleafIn := leafIn_of_flatten hflatten hleaf
    have hsub : leafTexts leaf.value ⊆ textsOf (.map map) := leafTexts_of_leafIn hleafIn
    have hcondition := forall_condition_of_leafIn (by decide) hleafIn nofun fun key hk =>
      undelimited_iff.1 (hund key (List.mem_append_left _ (hkeys hk)))
    obtain ⟨hsuffix, hatRule⟩ := forall_parse (by decide) hparse hcondition
    obtain ⟨i, hi⟩ := ingredients_of_entryOf hentry hname hproperty
      (fun text ht => hvalue text (hsub ht))
      (undelimited_suffixBehind hscope fun s hs => undelimited_iff.2 (hsuffix s hs))
      (fun s hs => undelimited_iff.2 (hatRule s hs))
    refine ⟨i, fun hcontained => hi.1 fun text ht => ?_, fun hdeclared => hi.2 ?_⟩
    · exact hcontained property scope _ hdeclares text (hsub ht)
    · exact isSimple_of_leafIn hleafIn (hsimple hdeclared)

lemma undelimited_var_dynamicName {start property : String} (hstart : Undelimited start)
    (hproperty : Undelimited property) :
    Undelimited ("var(" ++ Naming.dynamicName start property ++ ")") := by
  have hvar : Undelimited "var(" := undelimited_ofList (by decide)
  have hclose : Undelimited ")" := undelimited_ofList (by decide)
  have hdashes : Undelimited "--" := undelimited_ofList (by decide)
  have hdash : Undelimited "-" := undelimited_ofList (by decide)
  unfold Naming.dynamicName
  refine undelimited_append (undelimited_append hvar ?_) hclose
  exact undelimited_append (undelimited_append (undelimited_append hdashes hstart) hdash) hproperty

/-- A name that leaves nothing open can be put into the parentheses of a variable. -/
lemma sealed_var {name : String} (h : Enclosed name.toList) :
    Sealed ("var(" ++ name ++ ")").toList := by
  have hlist : ("var(" ++ name ++ ")").toList =
      ['v', 'a', 'r', '('] ++ (name.toList ++ [')']) := by
    simp
  refine ⟨Cursor.start, .inl rfl, rfl, ?_⟩
  rw [hlist]
  change (⟨1, .free⟩ : Cursor).over? (name.toList ++ [')']) = _
  rw [over?_append_of_eq h]
  rfl

lemma ingredients_of_dynamic {config : Config} (hstart : Undelimited config.classStart)
    {definition : String} {parameters : List String} {properties : List (String × String)}
    {d : DynamicClass} {e : Entry}
    (h : Gives (DynamicClass.compile ⟨config, definition⟩ parameters properties) d)
    (he : e ∈ d.entries.entries) (hund : (Source.dynamic parameters properties).Undelimited) :
    ∃ i : Ingredients config e, i.Fits (Source.dynamic parameters properties) := by
  obtain ⟨item, hitem, hin⟩ := List.mem_flatMap.1 he
  obtain ⟨p, hp, rfl⟩ := dynamic_slot h hitem
  obtain rfl := List.mem_singleton.1 hin
  have hproperty := undelimited_dashCase (hund p hp)
  refine ⟨⟨Property.dashCase p.1, _, none, none, rfl, List.cons_ne_nil _ _, hproperty,
    fun v hv => ?_, nofun, nofun⟩, fun hcontained v hv => ?_, fun _ => ⟨_, rfl⟩⟩
  · rw [List.mem_singleton.1 hv]
    exact undelimited_var_dynamicName hstart hproperty
  · rw [List.mem_singleton.1 hv]
    exact sealed_var (hcontained p hp)

/-- Entries with class names have their ingredients. -/
lemma ingredients_of_builds {config : Config} (hstart : Undelimited config.classStart)
    {source : Source} {e : Entry} (h : source.Builds config e) (hname : e.className.isSome)
    (hund : source.Undelimited) :
    ∃ i : Ingredients config e, i.Fits source := by
  cases h with
  | declared hgives he => exact ingredients_of_declared hgives he hname hund
  | dynamic hgives he => exact ingredients_of_dynamic hstart hgives he hund

end AtomicCss.Proofs
