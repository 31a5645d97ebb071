import AtomicCss.Merge
import AtomicCss.Proofs.Compilation

/-!
# Merging is last-wins

Under every key and condition the merged classes hold what the last reference says that touches
it. The proof carries this through the fold, one slot at a time, and then reads the class names off
the slots that are left.
-/

namespace AtomicCss.Proofs

open Keyed

/-- Whether a slot says anything about a condition. A single entry speaks of all of them. -/
def touches (condition : String) : Slot → Bool
  | .atomic _ => true
  | .bundle entries => (get? entries condition).isSome

/-- What a slot has under a condition. A single entry stands under the default only. -/
def supplied? (condition : String) : Slot → Option Entry
  | .atomic entry => if condition = defaultKey then some entry else none
  | .bundle entries => get? entries condition

/-- The slots that a reference brings in. -/
def slotsOf (styles : Styles) : ClassRef → ClassEntries
  | .staticClass name => (get? styles.classes name).getD []
  | .dynamic name _ => ((get? styles.dynamics name).map DynamicClass.entries).getD []
  | .theme _ _ | .skipped => []

def touchesAt (styles : Styles) (key condition : String) (r : ClassRef) : Bool :=
  (get? (slotsOf styles r) key).any (touches condition)

def suppliedAt? (styles : Styles) (key condition : String) (r : ClassRef) : Option Entry :=
  (get? (slotsOf styles r) key).bind (supplied? condition)

/-- What the last reference which touches a key and a condition supplies there. -/
def decided? (styles : Styles) (refs : List ClassRef) (key condition : String) : Option Entry :=
  (refs.reverse.find? (touchesAt styles key condition)).bind (suppliedAt? styles key condition)

/-- Its class name. An unset has none. -/
def contributed? (styles : Styles) (refs : List ClassRef) (key condition : String) :
    Option String :=
  (decided? styles refs key condition).bind Entry.className

def themeIn? (styles : Styles) (space : String) : ClassRef → Option String
  | .theme s name => if s = space then get? styles.themes (qualified space name) else none
  | _ => none

def isThemeIn (space : String) : ClassRef → Bool
  | .theme s _ => s = space
  | _ => false

/-- The class of the last theme of a namespace. -/
def themeOf? (styles : Styles) (refs : List ClassRef) (space : String) : Option String :=
  (refs.reverse.find? (isThemeIn space)).bind (themeIn? styles space)

def isSkipped : ClassRef → Bool
  | .skipped => true
  | _ => false

/-- No key occurs twice, neither among the slots nor inside a bundle. -/
structure WellKeyed (m : ClassEntries) : Prop where
  slots : (keys m).Nodup
  bundles : ∀ item ∈ m, (keys (Merged.conditionsOf (some item.2))).Nodup

/-- What merged slots have under a key and a condition. -/
def held (slots : ClassEntries) (key condition : String) : Option Entry :=
  get? (Merged.conditionsOf (get? slots key)) condition

/-- The entry unless it is an unset. -/
def kept (e : Entry) : Option Entry :=
  if e.isUnset then none else some e

lemma wellKeyed_static {setting : Setting} {declarations : Declarations} {m : ClassEntries}
    (h : Gives (Declaration.classEntries setting declarations) m) : WellKeyed m := by
  refine ⟨nodup_keys_of_gives h, fun item hi => ?_⟩
  obtain ⟨property, scope, value, _, _, hslot⟩ := slotOf_of_mem h hi
  cases hslot with
  | atomic => exact List.nodup_singleton _
  | bundle _ _ hnodup => exact hnodup

lemma wellKeyed_dynamic {setting : Setting} {parameters : List String}
    {properties : List (String × String)} {d : DynamicClass}
    (h : Gives (DynamicClass.compile setting parameters properties) d) : WellKeyed d.entries := by
  refine ⟨nodup_keys_dynamic h, fun item hi => ?_⟩
  obtain ⟨p, _, rfl⟩ := dynamic_slot h hi
  exact List.nodup_singleton _

lemma wellKeyed_slotsOf {config : Config} {registry : Registry} {styles : Styles}
    (h : Compiled config registry styles) (r : ClassRef) : WellKeyed (slotsOf styles r) := by
  have hnil : WellKeyed [] := ⟨List.nodup_nil, by simp⟩
  cases r with
  | staticClass name =>
    simp only [slotsOf]
    cases hget : get? styles.classes name with
    | none => exact hnil
    | some m =>
      obtain ⟨declarations, hgives⟩ := (h.classes hget).1
      exact wellKeyed_static hgives
  | dynamic name arguments =>
    simp only [slotsOf]
    cases hget : get? styles.dynamics name with
    | none => exact hnil
    | some d =>
      obtain ⟨parameters, properties, hgives⟩ := (h.dynamics hget).1
      exact wellKeyed_dynamic hgives
  | theme => exact hnil
  | skipped => exact hnil

/-- One entry decides its own condition and no other. -/
lemma get?_mergeCondition (conditions : Bundle) (item : String × Entry) (condition : String) :
    get? (Merged.mergeCondition conditions item) condition =
      if condition = item.1 then kept item.2 else get? conditions condition := by
  unfold Merged.mergeCondition kept
  by_cases hu : item.2.isUnset = true
  · rw [if_pos hu, if_pos hu, get?_remove]
  · rw [if_neg hu, if_neg hu, get?_renew]

lemma get?_mergeConditions {bundle : Bundle} (hb : (keys bundle).Nodup) (conditions : Bundle)
    (condition : String) :
    get? (bundle.foldl Merged.mergeCondition conditions) condition =
      match get? bundle condition with
      | some e => kept e
      | none => get? conditions condition := by
  induction bundle generalizing conditions with
  | nil => rfl
  | cons item rest ih =>
    obtain ⟨hnot, hrest⟩ := List.nodup_cons.1 hb
    rw [List.foldl_cons, ih hrest, get?_mergeCondition, get?]
    by_cases hk : item.1 = condition
    · have hnone : get? rest condition = none := get?_eq_none_iff.2 (hk ▸ hnot)
      rw [hnone, if_pos hk, if_pos hk.symm]
    · have hne : ¬condition = item.1 := fun heq => hk heq.symm
      rw [if_neg hk, if_neg hne]

lemma nodup_mergeConditions {conditions : Bundle} (hc : (keys conditions).Nodup)
    (bundle : Bundle) : (keys (bundle.foldl Merged.mergeCondition conditions)).Nodup := by
  induction bundle generalizing conditions with
  | nil => exact hc
  | cons item rest ih =>
    apply ih
    unfold Merged.mergeCondition
    by_cases hu : item.2.isUnset = true
    · rw [if_pos hu]
      exact nodup_keys_remove hc _
    · rw [if_neg hu]
      exact nodup_keys_renew hc _ _

/-- The conditions that a slot leaves under its key. -/
def left (slots : ClassEntries) (item : String × Slot) : Bundle :=
  match item.2 with
  | .atomic entry => if entry.isUnset then [] else [(defaultKey, entry)]
  | .bundle entries =>
    entries.foldl Merged.mergeCondition (Merged.conditionsOf (get? slots item.1))

/-- Merging a slot changes the conditions under its key only. No conditions are the same as no
slot. -/
lemma conditionsOf_mergeSlot (slots : ClassEntries) (item : String × Slot) (key : String) :
    Merged.conditionsOf (get? (Merged.mergeSlot slots item) key) =
      if key = item.1 then left slots item else Merged.conditionsOf (get? slots key) := by
  obtain ⟨k, slot⟩ := item
  unfold Merged.mergeSlot left
  cases slot with
  | atomic entry =>
    by_cases hu : entry.isUnset = true
    · simp only [hu, if_true, get?_remove]
      by_cases hk : key = k
      · rw [if_pos hk, if_pos hk]
        rfl
      · rw [if_neg hk, if_neg hk]
    · simp only [hu]
      rw [if_neg Bool.false_ne_true, get?_renew]
      by_cases hk : key = k
      · rw [if_pos hk, if_pos hk]
        rfl
      · rw [if_neg hk, if_neg hk]
  | bundle entries =>
    dsimp only
    by_cases he : (entries.foldl Merged.mergeCondition
        (Merged.conditionsOf (get? slots k))).isEmpty = true
    · rw [if_pos he, get?_remove, List.isEmpty_iff.1 he]
      by_cases hk : key = k
      · rw [if_pos hk, if_pos hk]
        rfl
      · rw [if_neg hk, if_neg hk]
    · rw [if_neg he, get?_renew]
      by_cases hk : key = k
      · rw [if_pos hk, if_pos hk]
        rfl
      · rw [if_neg hk, if_neg hk]

/-- A merged slot decides what it touches and leaves the rest. -/
lemma held_mergeSlot (slots : ClassEntries) {item : String × Slot}
    (hb : (keys (Merged.conditionsOf (some item.2))).Nodup) (key condition : String) :
    held (Merged.mergeSlot slots item) key condition =
      if key = item.1 ∧ touches condition item.2 then (supplied? condition item.2).bind kept
      else held slots key condition := by
  unfold held
  rw [conditionsOf_mergeSlot]
  by_cases hk : key = item.1
  · obtain ⟨k, slot⟩ := item
    obtain rfl : key = k := hk
    rw [if_pos rfl]
    unfold left
    cases slot with
    | atomic entry =>
      by_cases hd : condition = defaultKey
      · by_cases hu : entry.isUnset = true <;> simp [hd, hu, touches, supplied?, kept, get?]
      · have hne : ¬defaultKey = condition := fun heq => hd heq.symm
        by_cases hu : entry.isUnset = true <;> simp [hd, hne, hu, touches, supplied?, get?]
    | bundle entries =>
      have hentries : (keys entries).Nodup := hb
      dsimp only
      rw [get?_mergeConditions hentries]
      cases hg : get? entries condition <;> simp [touches, supplied?, hg]
  · rw [if_neg hk, if_neg fun h => hk h.1]

lemma wellKeyed_mergeSlot {slots : ClassEntries} (h : WellKeyed slots) (item : String × Slot) :
    WellKeyed (Merged.mergeSlot slots item) := by
  have hremove : WellKeyed (remove slots item.1) :=
    ⟨nodup_keys_remove h.slots _, fun other ho => h.bundles other (List.mem_filter.1 ho).1⟩
  have hrenew : ∀ slot, (keys (Merged.conditionsOf (some slot))).Nodup →
      WellKeyed (renew slots item.1 slot) := by
    intro slot hslot
    refine ⟨nodup_keys_renew h.slots _ _, fun other ho => ?_⟩
    rcases List.mem_append.1 ho with ho | ho
    · exact hremove.bundles other ho
    · rw [List.mem_singleton.1 ho]
      exact hslot
  have hconditions : (keys (Merged.conditionsOf (get? slots item.1))).Nodup := by
    cases hg : get? slots item.1 with
    | none => exact List.nodup_nil
    | some slot => exact h.bundles _ (mem_of_get? hg)
  unfold Merged.mergeSlot
  split
  · split
    · exact hremove
    · exact hrenew _ (List.nodup_singleton _)
  · dsimp only
    split
    · exact hremove
    · exact hrenew _ (nodup_mergeConditions hconditions _)

lemma wellKeyed_mergeSlots {slots : ClassEntries} (h : WellKeyed slots) (entries : ClassEntries) :
    WellKeyed (entries.foldl Merged.mergeSlot slots) := by
  induction entries generalizing slots with
  | nil => exact h
  | cons item rest ih => exact ih (wellKeyed_mergeSlot h item)

/-- All slots of a class together decide what one of them touches. -/
lemma held_mergeSlots {entries : ClassEntries} (he : WellKeyed entries) (slots : ClassEntries)
    (key condition : String) :
    held (entries.foldl Merged.mergeSlot slots) key condition =
      if (get? entries key).any (touches condition) then
        ((get? entries key).bind (supplied? condition)).bind kept
      else held slots key condition := by
  obtain ⟨hkeys, hbundles⟩ := he
  induction entries generalizing slots with
  | nil => rfl
  | cons item rest ih =>
    obtain ⟨hnot, hrest⟩ := List.nodup_cons.1 hkeys
    have hhead := held_mergeSlot slots (hbundles item List.mem_cons_self) key condition
    rw [List.foldl_cons, ih _ hrest fun other ho => hbundles other (List.mem_cons_of_mem _ ho),
      hhead, get?]
    by_cases hk : item.1 = key
    · -- the key does not occur again behind its slot
      have hnone : get? rest key = none := get?_eq_none_iff.2 (hk ▸ hnot)
      simp [hk, hnone]
    · have hne : ¬(key = item.1 ∧ touches condition item.2 = true) := fun h => hk h.1.symm
      rw [if_neg hk, if_neg hne]

/-- What one reference does, when it is merged without an error. -/
structure RefStep (styles : Styles) (r : ClassRef) (m m' : Merged) : Prop where
  slots : m'.slots = (slotsOf styles r).foldl Merged.mergeSlot m.slots
  themes : ∀ space, get? m'.themes space =
    if isThemeIn space r then themeIn? styles space r else get? m.themes space
  distinct : (keys m.themes).Nodup → (keys m'.themes).Nodup
  known : ∀ space, isThemeIn space r = true → (themeIn? styles space r).isSome

lemma refStep_of_apply {styles : Styles} {r : ClassRef} {m m' : Merged}
    (h : Merged.apply styles m r = .ok m') : RefStep styles r m m' := by
  unfold Merged.apply at h
  split at h
  · cases h
    exact ⟨rfl, fun _ => rfl, id, fun _ h => by cases h⟩
  · split at h
    · rename_i name entries hget
      cases h
      refine ⟨?_, fun _ => rfl, id, fun _ h => by cases h⟩
      rw [slotsOf, hget]
      rfl
    · cases h
  · split at h
    · cases h
    · rename_i name arguments d hget
      split at h
      · cases h
      · obtain ⟨inline, _, rfl⟩ := map_eq_ok h
        refine ⟨?_, fun _ => rfl, id, fun _ h => by cases h⟩
        rw [slotsOf, hget]
        rfl
  · rename_i space name
    dsimp only at h
    split at h
    · cases h
    · rename_i className hget
      cases h
      refine ⟨rfl, fun other => ?_, fun hm => nodup_keys_renew hm _ _, fun other ho => ?_⟩
      · rw [get?_renew]
        by_cases ho : other = space
        · simp [ho, isThemeIn, themeIn?, hget]
        · have hne : ¬space = other := fun heq => ho heq.symm
          simp [ho, hne, isThemeIn]
      · have heq : space = other := by simpa [isThemeIn] using ho
        simp [themeIn?, ← heq, hget]

lemma find?_reverse_cons {α : Type} (p : α → Bool) (a : α) (as : List α) :
    (a :: as).reverse.find? p = (as.reverse.find? p).or (if p a then some a else none) := by
  rw [List.reverse_cons, List.find?_append, List.find?_singleton]

/-- If every step sets what is observed or leaves it, then at the end it is what the last step
that sets it has set. -/
lemma observed_run {γ : Type} {styles : Styles} (observe : Merged → γ) (sets : ClassRef → Bool)
    (value : ClassRef → γ)
    (hstep : ∀ r m m', Merged.apply styles m r = .ok m' →
      observe m' = if sets r then value r else observe m)
    {refs : List ClassRef} {m result : Merged}
    (h : refs.foldlM (Merged.apply styles) m = .ok result) :
    observe result = ((refs.reverse.find? sets).map value).getD (observe m) := by
  induction refs generalizing m with
  | nil =>
    cases h
    rfl
  | cons r rest ih =>
    rw [List.foldlM_cons] at h
    obtain ⟨m', hr, h⟩ := bind_eq_ok h
    rw [ih h, hstep r m m' hr, find?_reverse_cons]
    cases rest.reverse.find? sets with
    | some last => rfl
    | none => by_cases hs : sets r = true <;> simp [hs]

lemma held_run {config : Config} {registry : Registry} {styles : Styles} {refs : List ClassRef}
    {m : Merged} (hc : Compiled config registry styles)
    (h : refs.foldlM (Merged.apply styles) {} = .ok m) (key condition : String) :
    held m.slots key condition = (decided? styles refs key condition).bind kept := by
  have hrun := observed_run (fun m => held m.slots key condition)
    (touchesAt styles key condition)
    (fun r => (suppliedAt? styles key condition r).bind kept)
    (fun r m m' hr => by
      simp only [(refStep_of_apply hr).slots]
      rw [held_mergeSlots (wellKeyed_slotsOf hc r)]
      rfl)
    h
  rw [hrun, decided?]
  cases refs.reverse.find? (touchesAt styles key condition) <;> rfl

lemma className_of_kept (e : Entry) : (kept e).bind Entry.className = e.className := by
  unfold kept Entry.isUnset
  cases hn : e.className <;> simp [hn]

lemma contributed_run {config : Config} {registry : Registry} {styles : Styles}
    {refs : List ClassRef} {m : Merged} (hc : Compiled config registry styles)
    (h : refs.foldlM (Merged.apply styles) {} = .ok m) (key condition : String) :
    (held m.slots key condition).bind Entry.className = contributed? styles refs key condition := by
  rw [held_run hc h, contributed?, Option.bind_assoc]
  exact congrArg _ (funext className_of_kept)

lemma wellKeyed_run {styles : Styles} {refs : List ClassRef} {m : Merged}
    (h : refs.foldlM (Merged.apply styles) {} = .ok m) : WellKeyed m.slots := by
  apply foldlM_invariant (P := fun m : Merged => WellKeyed m.slots) h
  · exact ⟨List.nodup_nil, by simp⟩
  · intro m r m' _ hm hr
    rw [(refStep_of_apply hr).slots]
    exact wellKeyed_mergeSlots hm _

lemma themes_run {styles : Styles} {refs : List ClassRef} {m : Merged}
    (h : refs.foldlM (Merged.apply styles) {} = .ok m) (space : String) :
    get? m.themes space = themeOf? styles refs space := by
  have hrun := observed_run (fun m => get? m.themes space) (isThemeIn space)
    (themeIn? styles space) (fun r m m' hr => (refStep_of_apply hr).themes space) h
  rw [hrun, themeOf?]
  cases refs.reverse.find? (isThemeIn space) <;> rfl

lemma nodup_themes_run {styles : Styles} {refs : List ClassRef} {m : Merged}
    (h : refs.foldlM (Merged.apply styles) {} = .ok m) : (keys m.themes).Nodup := by
  apply foldlM_invariant (P := fun m : Merged => (keys m.themes).Nodup) h List.nodup_nil
  intro m r m' _ hm hr
  exact (refStep_of_apply hr).distinct hm

lemma themeIn?_isSome_of_mem {styles : Styles} {refs : List ClassRef} {m result : Merged}
    (h : refs.foldlM (Merged.apply styles) m = .ok result) {r : ClassRef} (hr : r ∈ refs)
    {space : String} (hs : isThemeIn space r = true) : (themeIn? styles space r).isSome := by
  induction refs generalizing m with
  | nil => cases hr
  | cons head rest ih =>
    rw [List.foldlM_cons] at h
    obtain ⟨m', hhead, h⟩ := bind_eq_ok h
    rcases List.mem_cons.1 hr with rfl | hr
    · exact (refStep_of_apply hhead).known space hs
    · exact ih h hr

lemma themeOf?_isSome {styles : Styles} {refs : List ClassRef} {m : Merged}
    (h : refs.foldlM (Merged.apply styles) {} = .ok m) {space name : String}
    (hr : ClassRef.theme space name ∈ refs) : (themeOf? styles refs space).isSome := by
  have hfound : (refs.reverse.find? (isThemeIn space)).isSome := by
    rw [List.find?_isSome]
    exact ⟨_, List.mem_reverse.2 hr, by simp [isThemeIn]⟩
  obtain ⟨last, hlast⟩ := Option.isSome_iff_exists.1 hfound
  rw [themeOf?, hlast, Option.bind_some]
  have hmem := List.mem_reverse.1 (List.mem_of_find?_eq_some hlast)
  exact themeIn?_isSome_of_mem h hmem (List.find?_some hlast)

lemma foldlM_skipped (styles : Styles) (refs : List ClassRef) (m : Merged) :
    (refs.filter fun r => !isSkipped r).foldlM (Merged.apply styles) m =
      refs.foldlM (Merged.apply styles) m := by
  induction refs generalizing m with
  | nil => rfl
  | cons r rest ih =>
    cases r with
    | skipped => exact ih m
    | _ =>
      rw [List.filter_cons_of_pos rfl, List.foldlM_cons, List.foldlM_cons]
      exact congrArg _ (funext ih)

/-- The entries of merged slots under their keys and conditions. -/
def survivors (slots : ClassEntries) : Keyed (String × String) Entry :=
  nested (fun slot => Merged.conditionsOf (some slot)) slots

lemma get?_survivors {slots : ClassEntries} (h : WellKeyed slots) (key condition : String) :
    get? (survivors slots) (key, condition) = held slots key condition := by
  unfold survivors held
  rw [get?_nested h.slots]
  cases get? slots key <;> rfl

lemma nodup_keys_survivors {slots : ClassEntries} (h : WellKeyed slots) :
    (keys (survivors slots)).Nodup :=
  nodup_keys_nested h.slots h.bundles

lemma map_snd_survivors (slots : ClassEntries) :
    (survivors slots).map Prod.snd = slots.entries := by
  have hslot : ∀ slot : Slot, (Merged.conditionsOf (some slot)).map Prod.snd = slot.entries := by
    intro slot
    cases slot <;> rfl
  unfold survivors nested ClassEntries.entries
  rw [List.map_flatMap]
  congr 1
  funext item
  rw [← hslot item.2, List.map_map]
  rfl

/-- The class names of merged slots under their keys and conditions. -/
def placed (slots : ClassEntries) : Keyed (String × String) String :=
  chosen Entry.className (survivors slots)

lemma get?_placed {slots : ClassEntries} (h : WellKeyed slots) (key condition : String) :
    get? (placed slots) (key, condition) = (held slots key condition).bind Entry.className := by
  rw [placed, get?_chosen _ (nodup_keys_survivors h), get?_survivors h]

lemma nodup_keys_placed {slots : ClassEntries} (h : WellKeyed slots) :
    (keys (placed slots)).Nodup :=
  (nodup_keys_survivors h).sublist (keys_chosen _ _)

lemma map_snd_placed (slots : ClassEntries) :
    (placed slots).map Prod.snd = slots.entries.filterMap Entry.className := by
  rw [← map_snd_survivors, placed, chosen, List.map_filterMap, List.filterMap_map]
  congr 1
  funext item
  rw [Option.map_map]
  exact Option.map_id'

/-- The class string lists, once for every key and condition, what the last reference that touches
it supplies, then for every namespace the class of its last theme, and nothing else. -/
def LastWins (styles : Styles) (refs : List ClassRef) (classes : String) : Prop :=
  ∃ (atomic : Keyed (String × String) String) (themed : Keyed String String),
    (keys atomic).Nodup ∧ (keys themed).Nodup ∧
    (∀ key condition, get? atomic (key, condition) = contributed? styles refs key condition) ∧
    (∀ space, get? themed space = themeOf? styles refs space) ∧
    (∀ space name, .theme space name ∈ refs → (themeOf? styles refs space).isSome) ∧
    classes = String.intercalate " " (atomic.map Prod.snd ++ themed.map Prod.snd)

/-- Merging is last-wins per key and condition, and skipped references change nothing. -/
theorem resolve_lastWins {config : Config} {sheet : Sheet} {styles : Styles}
    {refs : List ClassRef} {result : Resolved} (hs : sheet.compile config = .ok styles)
    (hr : styles.resolve refs = .ok result) :
    LastWins styles refs result.classes ∧
      styles.resolve (refs.filter fun r => !isSkipped r) = styles.resolve refs := by
  obtain ⟨registry, _, hcompiled⟩ := compiled_of_compile hs
  obtain ⟨m, hm, rfl⟩ := map_eq_ok hr
  have hkeyed := wellKeyed_run hm
  constructor
  · refine ⟨placed m.slots, m.themes, nodup_keys_placed hkeyed, nodup_themes_run hm, ?_, ?_, ?_, ?_⟩
    · intro key condition
      rw [get?_placed hkeyed, contributed_run hcompiled hm]
    · exact themes_run hm
    · intro space name hmem
      exact themeOf?_isSome hm hmem
    · rw [map_snd_placed]
      rfl
  · unfold Styles.resolve
    rw [foldlM_skipped]

def wardrobe : Sheet :=
  Sheet.empty
    |>.define (.staticClass "base"
      [.property "color"
        (.map [("default", .scalar (.text "blue")), (":hover", .scalar (.text "navy"))]),
       .property "margin" (.scalar (.text "0"))])
    |>.define (.staticClass "quiet" [.property "color" (.map [(":hover", .unset)])])
    |>.define (.vars "palette" [("ink", ⟨.scalar (.text "black"), none⟩)])
    |>.define (.theme "palette" "dark" [("ink", .scalar (.text "white"))])

def worn : List ClassRef :=
  [.staticClass "base", .skipped, .staticClass "quiet", .theme "palette" "dark"]

/-- A bundle beside a single entry, an unset in a later class, a skipped reference and a theme. -/
theorem resolve_lastWins_wardrobe :
    ∃ styles result, wardrobe.compile {} = .ok styles ∧ styles.resolve worn = .ok result ∧
      LastWins styles worn result.classes ∧
      styles.resolve (worn.filter fun r => !isSkipped r) = styles.resolve worn := by
  have hok : (wardrobe.compile {} >>= fun styles => styles.resolve worn).isOk = true := by
    decide +kernel
  obtain ⟨result, hok⟩ := eq_ok_of_isOk hok
  obtain ⟨styles, hs, hr⟩ := bind_eq_ok hok
  exact ⟨styles, result, hs, hr, resolve_lastWins hs hr⟩

end AtomicCss.Proofs
