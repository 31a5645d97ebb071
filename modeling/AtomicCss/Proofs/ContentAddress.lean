import AtomicCss.Proofs.Blocks
import AtomicCss.Proofs.Registry
import AtomicCss.Proofs.Sources

/-!
# Names as content addresses

The text whose digest names an atomic rule determines all of the rule but where its values are cut,
and it determines this too if no value holds a comma and a space that could be taken for the
separator of two values. As long as digests do not collide, registration then loses no rule.
-/

namespace AtomicCss.Proofs

open Declaration

/-- The text whose digest names the rule of an entry. -/
def digestText (e : Entry) : String :=
  Naming.atomicText e.property e.value e.suffix e.pseudoElement e.atRule

lemma eq_of_delimited {d : Char} {f g s t : List Char} (hf : d ∉ f) (hg : d ∉ g)
    (h : f ++ d :: s = g ++ d :: t) : f = g ∧ s = t := by
  induction f generalizing g with
  | nil =>
    cases g with
    | nil => exact ⟨rfl, (List.cons.inj h).2⟩
    | cons c g =>
      obtain ⟨rfl, _⟩ := List.cons.inj h
      exact (hg List.mem_cons_self).elim
  | cons c f ih =>
    cases g with
    | nil =>
      obtain ⟨rfl, _⟩ := List.cons.inj h
      exact (hf List.mem_cons_self).elim
    | cons c' g =>
      obtain ⟨rfl, htail⟩ := List.cons.inj h
      obtain ⟨rfl, rfl⟩ := ih (fun hc => hf (List.mem_cons_of_mem _ hc))
        (fun hc => hg (List.mem_cons_of_mem _ hc)) htail
      exact ⟨rfl, rfl⟩

/-- Texts that each end in a delimiter can be told apart. -/
lemma fields_inj {d : Char} {fs gs : List (List Char)} (hfs : ∀ f ∈ fs, d ∉ f)
    (hgs : ∀ g ∈ gs, d ∉ g) (h : fs.flatMap (· ++ [d]) = gs.flatMap (· ++ [d])) : fs = gs := by
  induction fs generalizing gs with
  | nil =>
    cases gs with
    | nil => rfl
    | cons g gs => simp at h
  | cons f fs ih =>
    cases gs with
    | nil => simp at h
    | cons g gs =>
      simp only [List.flatMap_cons, List.append_assoc, List.singleton_append] at h
      obtain ⟨rfl, hrest⟩ :=
        eq_of_delimited (hfs f List.mem_cons_self) (hgs g List.mem_cons_self) h
      rw [ih (fun x hx => hfs x (List.mem_cons_of_mem _ hx))
        (fun x hx => hgs x (List.mem_cons_of_mem _ hx)) hrest]

/-- The five fields of a digested text. -/
def fields (property value : String) (suffix pseudoElement atRule : Option String) :
    List String :=
  [property, value, suffix.getD "", pseudoElement.getD "", atRule.getD ""]

lemma toList_atomicText (property value : String) (suffix pseudoElement atRule : Option String) :
    (Naming.atomicText property value suffix pseudoElement atRule).toList =
      ((fields property value suffix pseudoElement atRule).map String.toList).flatMap
        (· ++ [Naming.delimiter]) := by
  unfold Naming.atomicText fields
  simp

lemma mem_joined {texts : List (List Char)} {c : Char} (h : c ∈ joined texts) :
    c = ',' ∨ c = ' ' ∨ ∃ text ∈ texts, c ∈ text := by
  induction texts with
  | nil => cases h
  | cons s texts ih =>
    cases texts with
    | nil => exact .inr (.inr ⟨s, List.mem_cons_self, by simpa [joined, List.intercalate] using h⟩)
    | cons t texts =>
      rw [joined_cons] at h
      rcases List.mem_append.1 h with h | h
      · exact .inr (.inr ⟨s, List.mem_cons_self, h⟩)
      · simp only [List.cons_append, List.nil_append, List.mem_cons] at h
        rcases h with h | h | h
        · exact .inl h
        · exact .inr (.inl h)
        · obtain h | h | ⟨text, htext, hc⟩ := ih h
          · exact .inl h
          · exact .inr (.inl h)
          · exact .inr (.inr ⟨text, List.mem_cons_of_mem _ htext, hc⟩)

lemma undelimited_getD {text : Option String} (h : ∀ s, text = some s → Undelimited s) :
    Undelimited (text.getD "") := by
  cases text with
  | none => exact List.not_mem_nil
  | some s => exact h s rfl

lemma nonempty?_eq_some {text : Option String} {s : String} (h : nonempty? text = some s) :
    text = some s ∧ s ≠ "" := by
  obtain ⟨htext, hs⟩ := Option.filter_eq_some_iff.1 h
  refine ⟨htext, ?_⟩
  rintro rfl
  revert hs
  decide

/-- Parts of a condition that are left out read as empty, and only these. -/
lemma nonempty?_inj {s t : Option String}
    (h : (nonempty? s).getD "" = (nonempty? t).getD "") : nonempty? s = nonempty? t := by
  cases hs : nonempty? s with
  | none =>
    cases ht : nonempty? t with
    | none => rfl
    | some b =>
      rw [hs, ht] at h
      exact ((nonempty?_eq_some ht).2 h.symm).elim
  | some a =>
    cases ht : nonempty? t with
    | none =>
      rw [hs, ht] at h
      exact ((nonempty?_eq_some hs).2 h).elim
    | some b =>
      rw [hs, ht] at h
      exact congrArg some h

namespace Ingredients

variable {config : Config} {e f : Entry}

lemma undelimited_identity (i : Ingredients config e) : Undelimited i.value.identity := by
  rw [undelimited_iff]
  intro c hc
  rw [toList_identity] at hc
  rcases mem_joined hc with rfl | rfl | ⟨text, htext, hc⟩
  · decide
  · decide
  · obtain ⟨v, hv, rfl⟩ := List.mem_map.1 htext
    exact undelimited_iff.1 (i.undelimited_values v hv) c hc

lemma fields_eq (i : Ingredients config e) :
    fields e.property e.value e.suffix e.pseudoElement e.atRule =
      fields i.property i.value.identity (nonempty? i.suffix)
        (pseudoElementOf? (nonempty? i.suffix)) (nonempty? i.atRule) :=
  congrArg (fun g : Entry => fields g.property g.value g.suffix g.pseudoElement g.atRule) i.built

lemma undelimited_fields (i : Ingredients config e) :
    ∀ field ∈ fields e.property e.value e.suffix e.pseudoElement e.atRule, Undelimited field := by
  have hsuffix : ∀ s, nonempty? i.suffix = some s → Undelimited s := fun s hs =>
    i.undelimited_suffix s (nonempty?_eq_some hs).1
  have hatRule : ∀ s, nonempty? i.atRule = some s → Undelimited s := fun s hs =>
    i.undelimited_atRule s (nonempty?_eq_some hs).1
  have hpseudo : ∀ s, pseudoElementOf? (nonempty? i.suffix) = some s → Undelimited s := by
    intro s hs
    obtain ⟨suffix, hsome, hsub⟩ := pseudoElementOf?_subset hs
    exact fun hmem => hsuffix suffix hsome (hsub hmem)
  intro field hfield
  rw [i.fields_eq] at hfield
  simp only [fields, List.mem_cons, List.not_mem_nil, or_false] at hfield
  rcases hfield with rfl | rfl | rfl | rfl | rfl
  · exact i.undelimited_property
  · exact i.undelimited_identity
  · exact undelimited_getD hsuffix
  · exact undelimited_getD hpseudo
  · exact undelimited_getD hatRule

/-- Equal texts come from equal ingredients, up to the way in which the values are joined. -/
lemma eq_of_digestText (i : Ingredients config e) (j : Ingredients config f)
    (h : digestText e = digestText f) :
    i.property = j.property ∧ i.value.identity = j.value.identity ∧
      nonempty? i.suffix = nonempty? j.suffix ∧ nonempty? i.atRule = nonempty? j.atRule := by
  have hlist := congrArg String.toList h
  unfold digestText at hlist
  rw [toList_atomicText, toList_atomicText] at hlist
  have htexts : ∀ {g : Entry}, Ingredients config g →
      ∀ text ∈ (fields g.property g.value g.suffix g.pseudoElement g.atRule).map String.toList,
        Naming.delimiter ∉ text := by
    intro g k text htext
    obtain ⟨field, hfield, rfl⟩ := List.mem_map.1 htext
    exact k.undelimited_fields field hfield
  have hmap := fields_inj (htexts i) (htexts j) hlist
  have hfields := eq_of_map_toList hmap
  rw [i.fields_eq, j.fields_eq] at hfields
  simp only [fields, List.cons.injEq, and_true] at hfields
  obtain ⟨hproperty, hvalue, hsuffix, _, hatRule⟩ := hfields
  exact ⟨hproperty, hvalue, nonempty?_inj hsuffix, nonempty?_inj hatRule⟩

/-- Equal texts leave no difference but in the values. -/
lemma built_alike (i : Ingredients config e) (j : Ingredients config f)
    (h : digestText e = digestText f) :
    f = .build config i.property j.value i.suffix i.atRule := by
  obtain ⟨hproperty, _, hsuffix, hatRule⟩ := eq_of_digestText i j h
  refine j.built.trans ?_
  unfold Entry.build
  rw [hproperty, hsuffix, hatRule]

/-- The values make no difference but in the CSS. -/
lemma eq_up_to_css (i : Ingredients config e) (j : Ingredients config f)
    (h : digestText e = digestText f) : { e with ltr := f.ltr, rtl := f.rtl } = f := by
  obtain ⟨_, hvalue, _, _⟩ := eq_of_digestText i j h
  have he := i.built
  have hf := built_alike i j h
  rw [he, hf]
  unfold Entry.build
  rw [hvalue]

lemma eq_of_values (i : Ingredients config e) (j : Ingredients config f)
    (h : digestText e = digestText f) (hvalues : i.value = j.value) : e = f := by
  have he := i.built
  have hf := built_alike i j h
  rw [← hvalues] at hf
  exact he.trans hf.symm

/-- Where values are printed as given, equal entries have equal values. -/
lemma values_eq (i : Ingredients config e) (j : Ingredients config f)
    (h : digestText e = digestText f) (hprinted : PrintedAsGiven config i.property)
    (heq : e = f) : i.value = j.value := by
  obtain ⟨_, hidentity, _, _⟩ := eq_of_digestText i j h
  have hbuild := i.built.symm.trans (heq.trans (built_alike i j h))
  exact build_inj hprinted i.nonempty j.nonempty hidentity hbuild

/-- Single values are determined by the text that joins them. -/
lemma eq_of_single (i : Ingredients config e) (j : Ingredients config f)
    (h : digestText e = digestText f) (hi : ∃ v, i.value.values = [v])
    (hj : ∃ v, j.value.values = [v]) : e = f := by
  obtain ⟨_, hidentity, _, _⟩ := eq_of_digestText i j h
  apply eq_of_values i j h
  obtain ⟨v, hv⟩ := hi
  obtain ⟨w, hw⟩ := hj
  unfold Normalized.identity at hidentity
  rw [hv, hw, String.intercalate_singleton, String.intercalate_singleton] at hidentity
  apply normalized_ext
  rw [hv, hw, hidentity]

/-- Sealed values are, too. -/
lemma eq_of_sealed (i : Ingredients config e) (j : Ingredients config f)
    (h : digestText e = digestText f) (hi : ∀ v ∈ i.value.values, Sealed v.toList)
    (hj : ∀ v ∈ j.value.values, Sealed v.toList) : e = f := by
  obtain ⟨_, hidentity, _, _⟩ := eq_of_digestText i j h
  apply eq_of_values i j h
  have hjoined := congrArg String.toList hidentity
  rw [toList_identity, toList_identity] at hjoined
  have hmap : ∀ {values : List String}, (∀ v ∈ values, Sealed v.toList) →
      ∀ text ∈ values.map String.toList, Sealed text := by
    intro values hvalues text htext
    obtain ⟨v, hv, rfl⟩ := List.mem_map.1 htext
    exact hvalues v hv
  have hlists := joined_inj (hmap hi) (hmap hj)
    (fun hnil => i.nonempty (List.map_eq_nil_iff.1 hnil))
    (fun hnil => j.nonempty (List.map_eq_nil_iff.1 hnil)) hjoined
  exact normalized_ext (eq_of_map_toList hlists)

lemma className_eq (i : Ingredients config e) :
    e.className = some (config.classStart ++ Digest.short (digestText e)) := by
  cases i with
  | mk property value suffix atRule built =>
    subst built
    rfl

end Ingredients

/-- A rule in the registry was there before, or is the rule of an entry that was added. -/
lemma get?_insertEntries {entries : List Entry} {r : Registry} {name : String} {rule : Rule}
    (h : (entries.foldl Registry.insertEntry r).get? .atomic name = some rule) :
    r.get? .atomic name = some rule ∨
      ∃ e ∈ entries, e.className = some name ∧ rule = .ofEntry e := by
  induction entries generalizing r with
  | nil => exact .inl h
  | cons e entries ih =>
    rcases ih h with h | ⟨f, hf, hname, hrule⟩
    · cases hc : e.className with
      | none =>
        rw [Registry.insertEntry, Registry.ruleOf?, hc] at h
        exact .inl h
      | some own =>
        rw [Registry.insertEntry, Registry.ruleOf?, hc] at h
        change (r.insert own (.ofEntry e)).get? .atomic name = some rule at h
        rw [registry_get?_insert, Option.or_eq_some_iff] at h
        rcases h with h | ⟨_, h⟩
        · exact .inl h
        · split at h
          · rename_i heq
            cases h
            exact .inr ⟨e, List.mem_cons_self, heq.2 ▸ hc, rfl⟩
          · cases h
    · exact .inr ⟨f, List.mem_cons_of_mem _ hf, hname, hrule⟩

/-- An entry that is added has a rule under its name. -/
lemma exists_get?_insertEntries {entries : List Entry} {e : Entry} {name : String}
    (he : e ∈ entries) (hname : e.className = some name) (r : Registry) :
    ∃ rule, (entries.foldl Registry.insertEntry r).get? .atomic name = some rule := by
  have hkeep : ∀ (entries : List Entry) (r : Registry) (rule : Rule),
      r.get? .atomic name = some rule →
      (entries.foldl Registry.insertEntry r).get? .atomic name = some rule := by
    intro entries
    induction entries with
    | nil => exact fun _ _ h => h
    | cons e entries ih =>
      intro r rule h
      exact ih _ rule (registry_get?_insertAll _ h)
  induction entries generalizing r with
  | nil => cases he
  | cons head entries ih =>
    rcases List.mem_cons.1 he with rfl | he
    · have hown : (Registry.insertEntry r e).contains .atomic name = true := by
        unfold Registry.insertEntry Registry.ruleOf?
        rw [hname]
        have hown : (name, Rule.ofEntry e) ∈ [(name, Rule.ofEntry e)] := List.mem_cons_self
        exact contains_insertAll hown
      obtain ⟨rule, hrule⟩ := contains_iff.1 hown
      exact ⟨rule, hkeep entries _ rule hrule⟩
    · exact ih he _

/-- Two entries that set a property under one condition, each to its own list of values. -/
def BuiltAlike (config : Config) (property : String) (v w : Normalized) (e f : Entry) : Prop :=
  ∃ suffix atRule : Option String,
    e = .build config property v suffix atRule ∧ f = .build config property w suffix atRule

/-- Entries with equal digested texts are built alike from values that read the same when joined.
They are equal for sources without alternatives and for sources that are contained. -/
lemma eq_of_digestText {config : Config} (hstart : Undelimited config.classStart) {s t : Source}
    {e f : Entry} (he : s.Builds config e) (hf : t.Builds config f) (hename : e.className.isSome)
    (hfname : f.className.isSome) (hs : s.Undelimited) (ht : t.Undelimited)
    (h : digestText e = digestText f) :
    { e with ltr := f.ltr, rtl := f.rtl } = f ∧
      (∃ property v w, BuiltAlike config property v w e f ∧ v.identity = w.identity ∧
        (PrintedAsGiven config property → (e = f ↔ v = w))) ∧
      ((s.Simple ∧ t.Simple ∨ s.Contained config ∧ t.Contained config) → e = f) := by
  obtain ⟨i, hisealed, hisingle⟩ := ingredients_of_builds hstart he hename hs
  obtain ⟨j, hjsealed, hjsingle⟩ := ingredients_of_builds hstart hf hfname ht
  obtain ⟨_, hidentity, _, _⟩ := i.eq_of_digestText j h
  have halike : BuiltAlike config i.property i.value j.value e f :=
    ⟨i.suffix, i.atRule, i.built, i.built_alike j h⟩
  refine ⟨i.eq_up_to_css j h, ⟨i.property, i.value, j.value, halike, hidentity, fun hprinted =>
    ⟨i.values_eq j h hprinted, i.eq_of_values j h⟩⟩, ?_⟩
  rintro (⟨hsimple, htsimple⟩ | ⟨hcontained, htcontained⟩)
  · exact i.eq_of_single j h (hisingle hsimple) (hjsingle htsimple)
  · exact i.eq_of_sealed j h (hisealed hcontained) (hjsealed htcontained)

/-- Atomic rules are addressed by content. Whatever declared texts two entries are built from, if
the digested texts are equal then the entries differ in their CSS at most, and where values are
printed as given they differ exactly if one joined text is cut into different lists of values. They
are equal if no property has alternatives, or if outside of strings the declared texts leave nothing
open. Then, unless digests collide, a registry holds the rule of each entry that was added. -/
theorem entries_contentAddressed {config : Config} (hstart : Undelimited config.classStart)
    {items : List (Source × Entry)} (hbuilt : ∀ i ∈ items, i.1.Builds config i.2)
    (hnamed : ∀ i ∈ items, i.2.className.isSome) (hund : ∀ i ∈ items, i.1.Undelimited) :
    (∀ i ∈ items, ∀ j ∈ items, digestText i.2 = digestText j.2 →
      { i.2 with ltr := j.2.ltr, rtl := j.2.rtl } = j.2 ∧
        (∃ property v w, BuiltAlike config property v w i.2 j.2 ∧ v.identity = w.identity ∧
          (PrintedAsGiven config property → (i.2 = j.2 ↔ v = w))) ∧
        ((i.1.Simple ∧ j.1.Simple ∨ i.1.Contained config ∧ j.1.Contained config) →
          i.2 = j.2)) ∧
    (((∀ i ∈ items, i.1.Simple) ∨ ∀ i ∈ items, i.1.Contained config) →
      (∀ i ∈ items, ∀ j ∈ items, Digest.short (digestText i.2) = Digest.short (digestText j.2) →
        digestText i.2 = digestText j.2) →
      ∀ r : Registry, (∀ name, r.get? .atomic name = none) →
      ∀ i ∈ items, ∀ name, i.2.className = some name →
        ((items.map Prod.snd).foldl Registry.insertEntry r).get? .atomic name =
          some (.ofEntry i.2)) := by
  have hpair : ∀ i ∈ items, ∀ j ∈ items, digestText i.2 = digestText j.2 →
      { i.2 with ltr := j.2.ltr, rtl := j.2.rtl } = j.2 ∧
        (∃ property v w, BuiltAlike config property v w i.2 j.2 ∧ v.identity = w.identity ∧
          (PrintedAsGiven config property → (i.2 = j.2 ↔ v = w))) ∧
        ((i.1.Simple ∧ j.1.Simple ∨ i.1.Contained config ∧ j.1.Contained config) →
          i.2 = j.2) := fun i hi j hj =>
    eq_of_digestText hstart (hbuilt i hi) (hbuilt j hj) (hnamed i hi) (hnamed j hj) (hund i hi)
      (hund j hj)
  refine ⟨hpair, fun hsources hcollide r hr i hi name hname => ?_⟩
  obtain ⟨rule, hrule⟩ := exists_get?_insertEntries (List.mem_map_of_mem hi) hname r
  rcases get?_insertEntries hrule with hold | ⟨f, hf, hfname, rfl⟩
  · rw [hr name] at hold
    cases hold
  · obtain ⟨j, hj, rfl⟩ := List.mem_map.1 hf
    -- the rule that is found has the same name, hence the same digest
    have hshort : Digest.short (digestText i.2) = Digest.short (digestText j.2) := by
      obtain ⟨k, _⟩ := ingredients_of_builds hstart (hbuilt i hi) (hnamed i hi) (hund i hi)
      obtain ⟨l, _⟩ := ingredients_of_builds hstart (hbuilt j hj) (hnamed j hj) (hund j hj)
      have hnames := Option.some.inj (k.className_eq.symm.trans
        (hname.trans (hfname.symm.trans l.className_eq)))
      have hlists := congrArg String.toList hnames
      rw [String.toList_append, String.toList_append] at hlists
      exact String.toList_inj.1 (List.append_cancel_left hlists)
    obtain ⟨_, _, hequal⟩ := hpair i hi j hj (hcollide i hi j hj hshort)
    have heq : i.2 = j.2 := by
      apply hequal
      exact hsources.imp (fun h => ⟨h i hi, h j hj⟩) fun h => ⟨h i hi, h j hj⟩
    rw [hrule, heq]

/-- One list of values, given as fallbacks and as preferences. -/
def stickyEntry : Entry :=
  .build {} "position" ⟨["fixed", "sticky"]⟩ none none

def stickySources : List (Source × Entry) :=
  [(.declared [("position", .fallback [.text "sticky", .text "fixed"])], stickyEntry),
   (.declared [("position", .firstThatWorks [.text "sticky", .text "fixed"])], stickyEntry)]

theorem entries_contentAddressed_sticky :
    ((stickySources.map Prod.snd).foldl Registry.insertEntry .empty).get? .atomic "xbcf1c04" =
      some (.ofEntry stickyEntry) := by
  have hcontained : ∀ value : Value, textsOf value = ["sticky", "fixed"] →
      (Source.declared [("position", value)]).Contained {} := by
    intro value htexts property scope other hdeclares text htext
    have hplain : ∀ text ∈ ["sticky", "fixed"], ∀ c ∈ text.toList, IsPlain c := by decide
    have hmem : text ∈ ["sticky", "fixed"] := by
      have hsub := (written_of_declares hdeclares).2.2.1 htext
      rwa [textsIn, textsIn, List.append_nil, htexts] at hsub
    exact ⟨contained_of_plain (hplain text hmem) property, nofun⟩
  have hboth : ∀ {Q : Source × Entry → Prop},
      (∀ value, keysOf value = [] → textsOf value = ["sticky", "fixed"] →
        (classEntries ⟨{}, "bar"⟩ [("position", value)]).collect.1.toOption =
          some [("position", .atomic stickyEntry)] →
        Q (.declared [("position", value)], stickyEntry)) → ∀ i ∈ stickySources, Q i := fun h =>
    List.forall_mem_cons.2 ⟨h _ rfl rfl (by decide +kernel),
      List.forall_mem_cons.2 ⟨h _ rfl rfl (by decide +kernel), nofun⟩⟩
  have hund : ∀ text ∈ ["position", "sticky", "fixed"], Undelimited text := by
    unfold Undelimited
    decide
  have hclassStart : Undelimited ({} : Config).classStart := undelimited_ofList (by decide)
  refine (@entries_contentAddressed {} hclassStart stickySources ?_ ?_ ?_).2
    (.inr ?_) ?_ .empty (fun _ => rfl) _ List.mem_cons_self "xbcf1c04" (by decide +kernel)
  · refine hboth fun value _ _ hgives => ?_
    exact .declared (gives_of_collect (eq_ok_of_toOption hgives)) List.mem_cons_self
  · exact hboth fun _ _ _ _ => rfl
  · refine hboth fun value hkeys htexts _ text htext => ?_
    rw [keysIn, keysIn, textsIn, textsIn, hkeys, htexts] at htext
    exact hund text htext
  · exact hboth fun value _ htexts _ => hcontained value htexts
  · exact hboth fun _ _ _ _ => hboth fun _ _ _ _ _ => rfl

/-- A single value that reads like two: what stands in its parentheses is not closed by its own
tokens, but by an address without quotes that holds a quote. -/
def oneAddress : Entry :=
  .build {} "background" ⟨["f(a\\,\\\"x), url(y\")"]⟩ none none

def twoAddresses : Entry :=
  .build {} "background" ⟨["f(a\\,\\\"x)", "url(y\")"]⟩ none none

/-- Alternatives whose tokens are not contained can be taken for a single value. The two rules
differ, and the one that comes second is lost. -/
theorem alternatives_conflated : ∃ s t : Source, s.Undelimited ∧ t.Undelimited ∧
    s.Builds {} oneAddress ∧ t.Builds {} twoAddresses ∧
    digestText oneAddress = digestText twoAddresses ∧ oneAddress.ltr ≠ twoAddresses.ltr ∧
    ([oneAddress, twoAddresses].foldl Registry.insertEntry .empty).get? .atomic "x9449070" =
      some (.ofEntry oneAddress) ∧
    twoAddresses.className = some "x9449070" := by
  refine ⟨.declared [("background", .scalar (.text "f(a\\, \\\"x), url(y\")"))],
    .declared [("background", .fallback [.text "url(y\")", .text "f(a\\,\\\"x)"])],
    ?_, ?_, ?_, ?_, ?_, ?_, ?_, ?_⟩
  · have hund : ∀ text ∈ ["background", "f(a\\, \\\"x), url(y\")"], Undelimited text := by
      unfold Undelimited
      decide
    exact hund
  · have hund : ∀ text ∈ ["background", "url(y\")", "f(a\\,\\\"x)"], Undelimited text := by
      unfold Undelimited
      decide
    exact hund
  · have hgives : Gives (classEntries ⟨{}, "one"⟩
        [("background", .scalar (.text "f(a\\, \\\"x), url(y\")"))])
        [("background", .atomic oneAddress)] :=
      gives_of_collect (eq_ok_of_toOption (by decide +kernel))
    exact .declared hgives List.mem_cons_self
  · have hgives : Gives (classEntries ⟨{}, "two"⟩
        [("background", .fallback [.text "url(y\")", .text "f(a\\,\\\"x)"])])
        [("background", .atomic twoAddresses)] :=
      gives_of_collect (eq_ok_of_toOption (by decide +kernel))
    exact .declared hgives List.mem_cons_self
  all_goals decide +kernel

end AtomicCss.Proofs
