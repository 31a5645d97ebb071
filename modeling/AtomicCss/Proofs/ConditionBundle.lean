import AtomicCss.Proofs.LeafPaths
import AtomicCss.Proofs.Representation
import AtomicCss.Proofs.WarningLog

/-!
# The bundle of a map of conditions

Of the leaves that stand under one canonical text the last one is kept, in its place. While
shorthands are not expanded, the kept leaves become one bundle with an entry for each, in their
order: texts with different canonical texts are different keys of the bundle.
-/

namespace AtomicCss.Proofs

open Keyed Declaration

section

variable {κ α : Type} [DecidableEq κ]

/-- The items whose key does not come again. -/
def lastOfEach : List (κ × α) → List (κ × α)
  | [] => []
  | item :: rest =>
    if item.1 ∈ keys rest then lastOfEach rest else item :: lastOfEach rest

lemma lastOfEach_sublist (items : List (κ × α)) : (lastOfEach items).Sublist items := by
  induction items with
  | nil => exact .slnil
  | cons item rest ih =>
    unfold lastOfEach
    split
    · exact ih.cons item
    · exact ih.cons_cons item

lemma mem_keys_lastOfEach {items : List (κ × α)} {key : κ} :
    key ∈ keys (lastOfEach items) ↔ key ∈ keys items := by
  induction items with
  | nil => rfl
  | cons item rest ih =>
    have hcons : ∀ more : List (κ × α),
        key ∈ keys (item :: more) ↔ key = item.1 ∨ key ∈ keys more := fun more => List.mem_cons
    unfold lastOfEach
    split
    · rename_i hagain
      rw [ih, hcons]
      exact ⟨.inr, fun h => h.elim (fun heq => heq ▸ hagain) id⟩
    · rw [hcons, hcons, ih]

lemma nodup_keys_lastOfEach (items : List (κ × α)) : (keys (lastOfEach items)).Nodup := by
  induction items with
  | nil => exact List.nodup_nil
  | cons item rest ih =>
    unfold lastOfEach
    split
    · exact ih
    · rename_i hlast
      exact List.nodup_cons.2 ⟨fun hagain => hlast (mem_keys_lastOfEach.1 hagain), ih⟩

/-- Renewing keys one after the other leaves every key at its last place. -/
lemma foldl_renew (items flat : Keyed κ α) :
    items.foldl (fun flat item => renew flat item.1 item.2) flat =
      flat.filter (fun item => item.1 ∉ keys items) ++ lastOfEach items := by
  induction items generalizing flat with
  | nil => simp [keys, lastOfEach]
  | cons item rest ih =>
    have hfilter : (remove flat item.1).filter (fun other => other.1 ∉ keys rest) =
        flat.filter fun other => other.1 ∉ keys (item :: rest) := by
      unfold remove
      rw [List.filter_filter]
      refine List.filter_congr fun other _ => ?_
      rw [← Bool.decide_and]
      exact decide_eq_decide.2 (by simp [keys, and_comm])
    rw [List.foldl_cons, ih, renew, List.filter_append, hfilter, List.append_assoc]
    rw [lastOfEach.eq_def (item :: rest)]
    by_cases hagain : item.1 ∈ keys rest <;> simp [hagain]

lemma lastOfEach_map {κ' β : Type} [DecidableEq κ'] {f : κ → κ'} {g : α → β}
    {items : Keyed κ α} (hf : KeepsApart f (keys items) (keys items)) :
    lastOfEach (items.map (Prod.map f g)) = (lastOfEach items).map (Prod.map f g) := by
  induction items with
  | nil => rfl
  | cons item rest ih =>
    have hrest : KeepsApart f (keys rest) (keys rest) := fun a ha b hb =>
      hf a (List.mem_cons_of_mem _ ha) b (List.mem_cons_of_mem _ hb)
    have hagain : f item.1 ∈ (keys rest).map f ↔ item.1 ∈ keys rest := by
      refine ⟨fun h => ?_, List.mem_map_of_mem⟩
      obtain ⟨key, hkey, heq⟩ := List.mem_map.1 h
      rwa [← hf key (List.mem_cons_of_mem _ hkey) item.1 List.mem_cons_self heq]
    rw [List.map_cons, lastOfEach, lastOfEach, ih hrest, keys_map]
    dsimp only [Prod.map_fst]
    by_cases h : item.1 ∈ keys rest
    · rw [if_pos h, if_pos (hagain.2 h)]
    · rw [if_neg h, if_neg (hagain.not.2 h), List.map_cons]

end

/-- Flattening keeps the last leaf of every canonical text. -/
lemma flatten_eq (definition property : String) (map : List (String × Value)) :
    flatten definition property map =
      (leavesIn definition property "" map).map fun found => (lastOfEach found).map Prod.snd := by
  unfold flatten
  refine congrArg (Except.map · _) (funext fun found => ?_)
  rw [foldl_renew]
  rfl

lemma exists_flatten_iff {definition property : String} {map : List (String × Value)} :
    (∃ leaves, flatten definition property map = .ok leaves) ↔ Flattens "" map := by
  have hleaves := @exists_leavesIn_iff definition property "" map
  rw [flatten_eq, ← hleaves]
  cases leavesIn definition property "" map <;> simp [Except.map]

lemma found_of_flatten {definition property : String} {map : List (String × Value)}
    {leaves : List Leaf} (h : flatten definition property map = .ok leaves) :
    ∃ found, List.Forall₂ (FoundAt "") (leafPathsIn map) found ∧
      leaves = (lastOfEach found).map Prod.snd := by
  rw [flatten_eq] at h
  obtain ⟨found, hfound, rfl⟩ := map_eq_ok h
  exact ⟨found, found_of_leavesIn map hfound, rfl⟩

/-- Items of one property fill one bundle, in their order. -/
lemma bundled_of_property {items : List (String × Entry)} {property : String} (hne : items ≠ [])
    (hproperty : ∀ item ∈ items, item.2.property = property) (hnodup : (keys items).Nodup) :
    bundled items = [(property, items)] := by
  have hfill : ∀ (rest bundle : List (String × Entry)),
      (∀ item ∈ rest, item.2.property = property) → (keys (bundle ++ rest)).Nodup →
      rest.foldl (fun bundles item => update bundles item.2.property [] fun b =>
        put b item.1 item.2) [(property, bundle)] = [(property, bundle ++ rest)] := by
    intro rest
    induction rest with
    | nil => simp
    | cons item rest ih =>
      intro bundle hrest hkeys
      have hfresh := notMem_keys_of_nodup hkeys
      have hput : update [(property, bundle)] item.2.property [] (fun b => put b item.1 item.2) =
          [(property, bundle ++ [item])] := by
        rw [hrest item List.mem_cons_self, ← put_of_notMem hfresh]
        simp [update, get?, put]
      rw [List.foldl_cons, hput, ih _ (fun other ho => hrest other (List.mem_cons_of_mem _ ho))]
      · simp
      · simpa using hkeys
  cases items with
  | nil => exact (hne rfl).elim
  | cons item rest =>
    have hfirst : update [] item.2.property [] (fun b => put b item.1 item.2) =
        [(property, [item])] := by
      rw [hproperty item List.mem_cons_self]
      rfl
    unfold bundled
    rw [List.foldl_cons, hfirst]
    exact hfill rest [item] (fun other ho => hproperty other (List.mem_cons_of_mem _ ho)) hnodup

/-- A value that can be set, or the mark that unsets. -/
def Settable (property : String) (value : Value) : Prop :=
  value = .unset ∨ ∃ normalized, Value.normalizeLeaf property value = .ok normalized

section

variable (setting : Setting) {property : String} {scope : Option String}

lemma gives_pure_self {α : Type} (a : α) : Gives (pure a) a :=
  ⟨[], rfl⟩

lemma gives_ofCss_of {α : Type} {r : Except CssFault α} {a : α} (h : r = .ok a) :
    Gives (.ofCss r) a := by
  rw [h]
  exact ⟨[], rfl⟩

/-- Vendors are only warned about. -/
lemma gives_checkVendors (property : String) (value : Normalized) :
    Gives (checkVendors setting.config setting.definition property value) () := by
  have hone : ∀ text, ∀ ws, (checkVendor setting.config setting.definition property text ws).1 =
      .ok () := by
    intro text ws
    unfold checkVendor
    cases Property.unprefixed? property with
    | none => rfl
    | some standard =>
      dsimp only
      cases setting.config.vendorPrefixed standard text with
      | none => rfl
      | some prefixed =>
        dsimp only
        split <;> rfl
  have hall : ∀ (texts : List String) ws,
      (texts.forM (checkVendor setting.config setting.definition property) ws).1 = .ok () := by
    intro texts
    induction texts with
    | nil => exact fun _ => rfl
    | cons text texts ih =>
      intro ws
      let vendor := checkVendor setting.config setting.definition property
      change (ExceptT.bindCont (fun _ => texts.forM vendor) (vendor text ws).1
        (vendor text ws).2).1 = _
      rw [hone]
      exact ih _
  exact ⟨[], hall value.values []⟩

lemma steady_checkVendors (property : String) (value : Normalized) :
    Steady (checkVendors setting.config setting.definition property value) :=
  steady_iff.2 (paired_checkVendors setting property value)

lemma steady_leafEntries (property : String) (scope : Option String) (leaf : Leaf) :
    Steady (leafEntries setting property scope leaf) :=
  steady_iff.2 (paired_leafEntries setting setting.config.isDeprecated property scope leaf)

lemma steady_conditional (property : String) (scope : Option String)
    (map : List (String × Value)) : Steady (conditional setting property scope map) :=
  steady_iff.2 (paired_conditional setting setting.config.isDeprecated property scope map)

variable {setting}

lemma gives_entries_of_normalized {value : Value} {normalized : Normalized}
    (h : Value.normalizeLeaf property value = .ok normalized) (suffix atRule : Option String) :
    Gives (entries setting property suffix atRule value)
      ((underPolicy setting.config property normalized).map fun part =>
        .build setting.config part.1 part.2 suffix atRule) := by
  have hbuilt : ∀ built : List Entry,
      Gives (checkVendors setting.config setting.definition property normalized >>=
        fun _ => pure built) built := fun built =>
    gives_bind_of (gives_checkVendors setting property normalized) (gives_pure_self built) (.pure _)
  cases value with
  | unset => cases h
  | scalar | map | fallback | firstThatWorks =>
    exact gives_bind_of (gives_ofCss_of h) (hbuilt _)
      ((steady_checkVendors setting property normalized).bind fun _ => .pure _)

/-- While shorthands are not expanded, a value gives its property one entry. -/
lemma gives_entries_single (hpolicy : setting.config.shorthands ≠ .flatten) {value : Value}
    (hvalue : Settable property value) (suffix atRule : Option String) :
    ∃ e, e.property = property ∧ Gives (entries setting property suffix atRule value) [e] := by
  rcases hvalue with rfl | ⟨normalized, hnormalized⟩
  · refine ⟨.unset property suffix atRule, rfl, [], ?_⟩
    unfold entries unsetTargets
    rw [if_neg hpolicy]
    rfl
  · refine ⟨.build setting.config property normalized suffix atRule, rfl, ?_⟩
    have hentries := @gives_entries_of_normalized setting _ _ _ hnormalized suffix atRule
    unfold underPolicy at hentries
    rwa [if_neg (by simp [hpolicy]), List.map_singleton] at hentries

lemma gives_leafEntries_single (hpolicy : setting.config.shorthands ≠ .flatten) {leaf : Leaf}
    {c : Condition} (hparse : Condition.parse leaf.condition = .ok c)
    (hvalue : Settable property leaf.value) :
    ∃ e, e.property = property ∧
      Gives (leafEntries setting property scope leaf) [(bundleKey leaf.condition, e)] := by
  obtain ⟨e, hproperty, hentries⟩ := gives_entries_single hpolicy hvalue
    (suffixBehind scope c.suffix) c.atRule
  refine ⟨e, hproperty, ?_⟩
  refine gives_bind_of (gives_ofCss_of hparse) (gives_bind_of hentries ⟨[], rfl⟩ (.pure _)) ?_
  exact (steady_entries setting _ _ _ _).bind fun _ => .pure _

end

section

variable {setting : Setting} {property : String} {scope : Option String}
  {map : List (String × Value)} {leaves : List Leaf}

lemma parse_of_flatten {definition : String} (h : flatten definition property map = .ok leaves) :
    ∀ leaf ∈ leaves, ∃ c, Condition.parse leaf.condition = .ok c := by
  obtain ⟨flat, rfl, _, hflat⟩ := flat_of_flatten h
  intro leaf hleaf
  obtain ⟨item, hitem, rfl⟩ := List.mem_map.1 hleaf
  obtain ⟨⟨c, hparse, _⟩, _⟩ := hflat item hitem
  exact ⟨c, hparse⟩

/-- Leaves that were kept side by side have different keys in their bundle. -/
lemma nodup_bundleKeys {definition : String} (h : flatten definition property map = .ok leaves) :
    (leaves.map fun leaf => bundleKey leaf.condition).Nodup := by
  have hopens : ∀ leaf ∈ leaves, OpensCondition leaf.condition := fun leaf hleaf =>
    opensCondition_of_leafIn (leafIn_of_flatten h hleaf) (.inl rfl)
  obtain ⟨flat, rfl, hnodup, hflat⟩ := flat_of_flatten h
  rw [List.map_map]
  refine List.Nodup.map_on ?_ (List.Nodup.of_map _ hnodup)
  intro a ha b hb hkeys
  have hwritten : a.2.condition = b.2.condition := by
    have hback := congrArg writtenKey hkeys
    dsimp only [Function.comp_apply] at hback
    rwa [writtenKey_bundleKey (hopens _ (List.mem_map_of_mem ha)),
      writtenKey_bundleKey (hopens _ (List.mem_map_of_mem hb))] at hback
  obtain ⟨c, hc, hka⟩ := (hflat a ha).1
  obtain ⟨d, hd, hkb⟩ := (hflat b hb).1
  rw [hwritten, hd] at hc
  obtain rfl := Except.ok.inj hc
  exact List.inj_on_of_nodup_map hnodup ha hb (hka.trans hkb.symm)

lemma ne_nil_of_flatten {definition : String} (hmap : isConditionMap map = true)
    (h : flatten definition property map = .ok leaves) : leaves ≠ [] := by
  have hpaths := leafPathsIn_ne_nil (ne_nil_of_isConditionMap hmap) (exists_flatten_iff.1 ⟨_, h⟩)
  obtain ⟨found, hfound, rfl⟩ := found_of_flatten h
  cases found with
  | nil => exact (hpaths (List.forall₂_nil_right_iff.1 hfound)).elim
  | cons item rest =>
    have hkey : item.1 ∈ keys (lastOfEach (item :: rest)) :=
      mem_keys_lastOfEach.2 List.mem_cons_self
    intro hnil
    rw [List.map_eq_nil_iff.1 hnil] at hkey
    cases hkey

/-- Leaves that can be set give one item each. -/
lemma exists_items (hpolicy : setting.config.shorthands ≠ .flatten)
    (hleaves : ∀ leaf ∈ leaves, (∃ c, Condition.parse leaf.condition = .ok c) ∧
      Settable property leaf.value) :
    ∃ items : Bundle, (∀ item ∈ items, item.2.property = property) ∧
      keys items = leaves.map (fun leaf => bundleKey leaf.condition) ∧
      List.Forall₂ (fun leaf item => Gives (leafEntries setting property scope leaf) [item])
        leaves items := by
  induction leaves with
  | nil => exact ⟨[], by simp, rfl, .nil⟩
  | cons leaf rest ih =>
    obtain ⟨items, hproperties, hkeys, hitems⟩ :=
      ih fun leaf hleaf => hleaves leaf (List.mem_cons_of_mem _ hleaf)
    obtain ⟨⟨c, hparse⟩, hvalue⟩ := hleaves leaf List.mem_cons_self
    obtain ⟨e, hproperty, he⟩ : ∃ e, e.property = property ∧
        Gives (leafEntries setting property scope leaf) [(bundleKey leaf.condition, e)] :=
      gives_leafEntries_single hpolicy hparse hvalue
    refine ⟨(bundleKey leaf.condition, e) :: items, ?_, ?_, .cons he hitems⟩
    · exact List.forall_mem_cons.2 ⟨hproperty, hproperties⟩
    · unfold keys at hkeys ⊢
      rw [List.map_cons, List.map_cons, hkeys]

/-- The kept leaves become one bundle. -/
lemma gives_conditional (hmap : isConditionMap map = true)
    (hpolicy : setting.config.shorthands ≠ .flatten)
    (h : flatten setting.definition property map = .ok leaves)
    (hvalues : ∀ leaf ∈ leaves, Settable property leaf.value) :
    ∃ bundle : Bundle, Gives (conditional setting property scope map)
        [(Naming.slotKey property scope, .bundle bundle)] ∧
      keys bundle = leaves.map (fun leaf => bundleKey leaf.condition) ∧
      List.Forall₂ (LeafEntry setting.config property scope) leaves bundle := by
  obtain ⟨items, hproperties, hkeys, hitems⟩ : ∃ items : Bundle,
      (∀ item ∈ items, item.2.property = property) ∧
        keys items = leaves.map (fun leaf => bundleKey leaf.condition) ∧
        List.Forall₂ (fun leaf item => Gives (leafEntries setting property scope leaf) [item])
          leaves items :=
    exists_items hpolicy fun leaf hleaf => ⟨parse_of_flatten h leaf hleaf, hvalues leaf hleaf⟩
  have hne : items ≠ [] := by
    rintro rfl
    exact ne_nil_of_flatten hmap h (List.forall₂_nil_right_iff.1 hitems)
  have hbundled := bundled_of_property hne hproperties (hkeys ▸ nodup_bundleKeys h)
  refine ⟨items, ?_, hkeys, hitems.imp fun leaf item hitem =>
    leafEntry_of_gives hitem (List.mem_singleton_self _)⟩
  have hmapped : Gives (leaves.mapM (leafEntries setting property scope))
      (items.map fun item => [item]) :=
    gives_mapM_of (steady_leafEntries setting property scope)
      (List.forall₂_map_right_iff.2 hitems)
  have hflat : (items.map fun item => [item]).flatten = items := by
    rw [← List.flatMap_def, List.flatMap_singleton']
  have hslots : Gives (pure ((bundled (items.map fun item => [item]).flatten).map
      fun item => (Naming.slotKey item.1 scope, Slot.bundle item.2)))
      [(Naming.slotKey property scope, .bundle items)] := by
    rw [hflat, hbundled]
    exact gives_pure_self _
  exact gives_bind_of ⟨[], h⟩ (gives_bind_of hmapped hslots (.pure _))
    ((Steady.mapM (steady_leafEntries setting property scope) leaves).bind fun _ => .pure _)

end

/-- A map of conditions flattens if its keys are conditions at every depth and the composed ones can
be parsed. Of the leaves under one canonical text the last one is kept, with its condition as it was
written and in its place. While shorthands are not expanded, each kept leaf that can be set has its
entry in the one bundle that the map is processed to. -/
theorem flatten_keeps_last {setting : Setting} {property : String} {map : List (String × Value)}
    (hmap : isConditionMap map = true) :
    ((∃ leaves, flatten setting.definition property map = .ok leaves) ↔ Flattens "" map) ∧
    ∀ leaves, flatten setting.definition property map = .ok leaves →
      (∃ found, List.Forall₂ (FoundAt "") (leafPathsIn map) found ∧
        leaves = (lastOfEach found).map Prod.snd ∧ (keys (lastOfEach found)).Nodup ∧
        ∀ key, key ∈ keys (lastOfEach found) ↔ key ∈ keys found) ∧
      (setting.config.shorthands ≠ .flatten → (∀ leaf ∈ leaves, Settable property leaf.value) →
        ∀ scope, ∃ bundle : Bundle,
          (∀ ws, (conditional setting property scope map ws).1 =
            .ok [(Naming.slotKey property scope, .bundle bundle)]) ∧
          (keys bundle).Nodup ∧ keys bundle = leaves.map (fun leaf => bundleKey leaf.condition) ∧
          List.Forall₂ (LeafEntry setting.config property scope) leaves bundle) := by
  refine ⟨exists_flatten_iff, fun leaves hflatten => ⟨?_, ?_⟩⟩
  · obtain ⟨found, hfound, hleaves⟩ := found_of_flatten hflatten
    exact ⟨found, hfound, hleaves, nodup_keys_lastOfEach found, fun _ => mem_keys_lastOfEach⟩
  · intro hpolicy hvalues scope
    obtain ⟨bundle, hgives, hkeys, hentries⟩ : ∃ bundle : Bundle,
        Gives (conditional setting property scope map)
          [(Naming.slotKey property scope, .bundle bundle)] ∧
        keys bundle = leaves.map (fun leaf => bundleKey leaf.condition) ∧
        List.Forall₂ (LeafEntry setting.config property scope) leaves bundle :=
      gives_conditional hmap hpolicy hflatten hvalues
    have hsteady := steady_conditional setting property scope map
    refine ⟨bundle, fun ws => (hsteady ws).trans (hsteady.collect hgives), ?_, hkeys, hentries⟩
    rw [hkeys]
    exact nodup_bundleKeys hflatten

/-- Colors under nested conditions, two of which mean the same in print. -/
def printColors : List (String × Value) :=
  [("default", .scalar (.text "red")),
    ("@media  print", .map [(":hover", .scalar (.text "blue"))]),
    (":hover", .map [("@media print", .scalar (.text "green")), ("default", .unset)])]

theorem flatten_keeps_last_printColors :
    isConditionMap printColors = true ∧
      flatten "link" "color" printColors = .ok [⟨"", .scalar (.text "red")⟩,
        ⟨"@media print:hover", .scalar (.text "green")⟩, ⟨":hover", .unset⟩] ∧
      Flattens "" printColors ∧
      ∃ bundle : Bundle, (conditional ⟨{}, "link"⟩ "color" none printColors).collect.1 =
          .ok [("color", .bundle bundle)] ∧
        keys bundle = ["default", "@media print:hover", ":hover"] := by
  have hmap : isConditionMap printColors = true := rfl
  have hflatten : flatten "link" "color" printColors = .ok [⟨"", .scalar (.text "red")⟩,
      ⟨"@media print:hover", .scalar (.text "green")⟩, ⟨":hover", .unset⟩] := by
    rfl
  have hvalues : ∀ text ∈ ["red", "green"], Settable "color" (.scalar (.text text)) := by
    have hplain : ∀ text ∈ ["red", "green"],
        (Value.normalizeLeaf "color" (.scalar (.text text))).isOk = true := by
      decide +kernel
    exact fun text htext => .inr (eq_ok_of_isOk (hplain text htext))
  obtain ⟨hflattens, hkept⟩ :=
    @flatten_keeps_last ⟨{}, "link"⟩ "color" printColors hmap
  obtain ⟨bundle, hbundle, _, hkeys, _⟩ := (hkept _ hflatten).2 (by decide)
    (by simpa using ⟨hvalues "red" (by simp), hvalues "green" (by simp), Or.inl rfl⟩) none
  exact ⟨hmap, hflatten, hflattens.1 ⟨_, hflatten⟩, bundle, hbundle [], hkeys⟩

end AtomicCss.Proofs
