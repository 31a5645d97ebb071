import AtomicCss.Proofs.Merge

/-!
# References that come again

What a reference brings is put behind everything that it leaves alone. So a reference that comes
again absorbs its earlier use: of that nothing is left, neither in the values nor in their order.
-/

namespace AtomicCss.Proofs

open Keyed

section

variable {κ α β : Type} [DecidableEq κ]

/-- The pairs whose keys are not listed. -/
def outside (ks : List κ) (m : Keyed κ α) : Keyed κ α :=
  m.filter fun item => item.1 ∉ ks

/-- A key goes to the end with a new value, or is dropped. -/
def settle (m : Keyed κ α) (key : κ) (value : Option α) : Keyed κ α :=
  remove m key ++ (value.map fun a => (key, a)).toList

def settleAll (f : β → Option α) (m : Keyed κ α) (items : Keyed κ β) : Keyed κ α :=
  items.foldl (fun m item => settle m item.1 (f item.2)) m

lemma outside_append (ks : List κ) (m n : Keyed κ α) :
    outside ks (m ++ n) = outside ks m ++ outside ks n :=
  List.filter_append m n

lemma outside_nil (m : Keyed κ α) : outside [] m = m :=
  List.filter_eq_self.2 fun _ _ => rfl

lemma outside_item (ks : List κ) (item : κ × α) (rest : Keyed κ α) :
    outside ks (item :: rest) =
      if item.1 ∈ ks then outside ks rest else item :: outside ks rest := by
  unfold outside
  rw [List.filter_cons]
  by_cases hk : item.1 ∈ ks <;> simp [hk]

lemma outside_remove (ks : List κ) (m : Keyed κ α) (key : κ) :
    outside ks (remove m key) = remove (outside ks m) key := by
  unfold outside remove
  rw [List.filter_filter, List.filter_filter]
  exact List.filter_congr fun _ _ => Bool.and_comm _ _

lemma outside_remove_of_mem {ks : List κ} {key : κ} (h : key ∈ ks) (m : Keyed κ α) :
    outside ks (remove m key) = outside ks m := by
  unfold outside remove
  rw [List.filter_filter]
  refine List.filter_congr fun item _ => ?_
  by_cases hk : item.1 ∈ ks
  · simp [hk]
  · have hne : item.1 ≠ key := fun heq => hk (heq ▸ h)
    simp [hk, hne]

lemma outside_cons (key : κ) (ks : List κ) (m : Keyed κ α) :
    outside (key :: ks) m = outside ks (remove m key) := by
  unfold outside remove
  rw [List.filter_filter]
  refine List.filter_congr fun item _ => ?_
  by_cases hk : item.1 = key <;> simp [hk]

lemma outside_self (m : Keyed κ α) : outside (keys m) m = [] := by
  refine List.filter_eq_nil_iff.2 fun item hitem => ?_
  have hkey : item.1 ∈ keys m := List.mem_map_of_mem hitem
  simp [hkey]

lemma get?_outside {ks : List κ} {key : κ} (h : key ∉ ks) (m : Keyed κ α) :
    get? (outside ks m) key = get? m key := by
  induction ks generalizing m with
  | nil => rw [outside_nil]
  | cons k ks ih =>
    obtain ⟨hne, hrest⟩ := not_or.1 (mt List.mem_cons.2 h)
    rw [outside_cons, ih hrest, get?_remove, if_neg hne]

lemma get?_settle (m : Keyed κ α) (key other : κ) (value : Option α) :
    get? (settle m key value) other = if other = key then value else get? m other := by
  cases value with
  | none => simp [settle]
  | some a => exact get?_renew m key other a

/-- Only the keys that are not listed are settled. -/
lemma outside_settle (ks : List κ) (m : Keyed κ α) (key : κ) (value : Option α) :
    outside ks (settle m key value) =
      if key ∈ ks then outside ks m else settle (outside ks m) key value := by
  unfold settle
  rw [outside_append]
  by_cases hk : key ∈ ks
  · have hnone : outside ks (value.map fun a => (key, a)).toList = [] := by
      cases value <;> simp [outside, hk]
    rw [if_pos hk, outside_remove_of_mem hk, hnone, List.append_nil]
  · have hsame : outside ks (value.map fun a => (key, a)).toList =
        (value.map fun a => (key, a)).toList := by
      cases value <;> simp [outside, hk]
    rw [if_neg hk, outside_remove, hsame]

lemma outside_settleAll (ks : List κ) (f : β → Option α) (m : Keyed κ α) (items : Keyed κ β) :
    outside ks (settleAll f m items) = settleAll f (outside ks m) (outside ks items) := by
  induction items generalizing m with
  | nil => rfl
  | cons item rest ih =>
    change outside ks (settleAll f (settle m item.1 (f item.2)) rest) = _
    rw [ih, outside_settle]
    by_cases hk : item.1 ∈ ks
    · rw [if_pos hk, outside_item, if_pos hk]
    · rw [if_neg hk, outside_item, if_neg hk]
      rfl

/-- What is settled stands behind what is left alone. -/
lemma settleAll_append (f : β → Option α) (m n : Keyed κ α) (items : Keyed κ β) :
    settleAll f (m ++ n) items = outside (keys items) m ++ settleAll f n items := by
  induction items generalizing m n with
  | nil => exact congrArg (· ++ n) (outside_nil m).symm
  | cons item rest ih =>
    have hsettle : settle (m ++ n) item.1 (f item.2) =
        remove m item.1 ++ settle n item.1 (f item.2) := by
      unfold settle remove
      rw [List.filter_append, List.append_assoc]
    change settleAll f (settle (m ++ n) item.1 (f item.2)) rest = _
    rw [hsettle, ih]
    exact congrArg (· ++ _) (outside_cons item.1 (keys rest) m).symm

/-- So it does not depend on what stood under the same keys before. -/
lemma settleAll_congr (f : β → Option α) {m m' : Keyed κ α} {items : Keyed κ β}
    (h : outside (keys items) m = outside (keys items) m') :
    settleAll f m items = settleAll f m' items := by
  have happend : ∀ n : Keyed κ α,
      settleAll f n items = outside (keys items) n ++ settleAll f [] items := by
    intro n
    rw [← settleAll_append, List.append_nil]
  rw [happend m, happend m', h]

lemma outside_settleAll_self (f : β → Option α) (m : Keyed κ α) (items : Keyed κ β) :
    outside (keys items) (settleAll f m items) = outside (keys items) m := by
  rw [outside_settleAll, outside_self]
  rfl

end

lemma foldl_mergeCondition (conditions bundle : Bundle) :
    bundle.foldl Merged.mergeCondition conditions = settleAll kept conditions bundle := by
  have hstep : Merged.mergeCondition =
      fun (m : Bundle) (item : String × Entry) => settle m item.1 (kept item.2) := by
    funext m item
    unfold Merged.mergeCondition settle kept
    split
    · exact (List.append_nil _).symm
    · rfl
  unfold settleAll
  rw [hstep]

/-- What a slot is merged to with the one that was there. -/
def mergedSlot? (old : Option Slot) : Slot → Option Slot
  | .atomic entry => (kept entry).map .atomic
  | .bundle bundle =>
    let conditions := settleAll kept (Merged.conditionsOf old) bundle
    if conditions.isEmpty then none else some (.bundle conditions)

section

variable {ks : List String} {slots slots' : ClassEntries}

lemma mergeSlot_eq (slots : ClassEntries) (item : String × Slot) :
    Merged.mergeSlot slots item =
      settle slots item.1 (mergedSlot? (get? slots item.1) item.2) := by
  have hdrop : ∀ key, settle slots key none = remove slots key := fun key => List.append_nil _
  obtain ⟨key, slot⟩ := item
  unfold Merged.mergeSlot mergedSlot?
  cases slot with
  | atomic entry =>
    dsimp only [kept]
    split
    · exact (hdrop key).symm
    · rfl
  | bundle bundle =>
    dsimp only
    rw [foldl_mergeCondition]
    split
    · exact (hdrop key).symm
    · rfl

lemma outside_mergeSlot (ks : List String) (slots : ClassEntries) (item : String × Slot) :
    outside ks (Merged.mergeSlot slots item) =
      if item.1 ∈ ks then outside ks slots else Merged.mergeSlot (outside ks slots) item := by
  rw [mergeSlot_eq, outside_settle]
  by_cases hk : item.1 ∈ ks
  · rw [if_pos hk, if_pos hk]
  · rw [if_neg hk, if_neg hk, mergeSlot_eq, get?_outside hk]

/-- Slots under keys that are not listed are merged among themselves. -/
lemma outside_mergeSlots (ks : List String) (slots entries : ClassEntries) :
    outside ks (entries.foldl Merged.mergeSlot slots) =
      (outside ks entries).foldl Merged.mergeSlot (outside ks slots) := by
  induction entries generalizing slots with
  | nil => rfl
  | cons item rest ih =>
    rw [List.foldl_cons, ih, outside_mergeSlot]
    by_cases hk : item.1 ∈ ks
    · rw [if_pos hk, outside_item, if_pos hk]
    · rw [if_neg hk, outside_item, if_neg hk]
      rfl

/-- The slots of a class stand behind the others, in their own order. -/
lemma mergeSlots_eq {entries : ClassEntries} (h : (keys entries).Nodup) (slots : ClassEntries) :
    entries.foldl Merged.mergeSlot slots = outside (keys entries) slots ++
      entries.filterMap fun item =>
        (mergedSlot? (get? slots item.1) item.2).map fun slot => (item.1, slot) := by
  induction entries generalizing slots with
  | nil => exact ((List.append_nil _).trans (outside_nil slots)).symm
  | cons item rest ih =>
    obtain ⟨hnot, hrest⟩ := List.nodup_cons.1 h
    change item.1 ∉ keys rest at hnot
    have hothers : ∀ other ∈ rest,
        get? (Merged.mergeSlot slots item) other.1 = get? slots other.1 := by
      intro other hother
      rw [mergeSlot_eq, get?_settle, if_neg]
      intro heq
      exact hnot (heq ▸ List.mem_map_of_mem hother)
    have hbehind : outside (keys rest) (Merged.mergeSlot slots item) =
        outside (keys (item :: rest)) slots ++
          ((mergedSlot? (get? slots item.1) item.2).map fun slot => (item.1, slot)).toList := by
      rw [mergeSlot_eq, outside_settle, if_neg hnot, settle, ← outside_remove, ← outside_cons]
      rfl
    have hmore : rest.filterMap (fun other =>
        (mergedSlot? (get? (Merged.mergeSlot slots item) other.1) other.2).map
          fun slot => (other.1, slot)) =
        rest.filterMap fun other =>
          (mergedSlot? (get? slots other.1) other.2).map fun slot => (other.1, slot) :=
      List.filterMap_congr fun other hother => by rw [hothers other hother]
    rw [List.foldl_cons, ih hrest, hbehind, hmore, List.append_assoc]
    cases hslot : mergedSlot? (get? slots item.1) item.2 <;> simp [hslot]

lemma conditionsOf_mergeSlots {entries : ClassEntries} (h : (keys entries).Nodup)
    {key : String} {slot : Slot} (hslot : get? entries key = some slot) (slots : ClassEntries) :
    Merged.conditionsOf (get? (entries.foldl Merged.mergeSlot slots) key) =
      left slots (key, slot) := by
  induction entries generalizing slots with
  | nil => cases hslot
  | cons item rest ih =>
    obtain ⟨hnot, hrest⟩ := List.nodup_cons.1 h
    change item.1 ∉ keys rest at hnot
    rw [get?] at hslot
    by_cases hk : item.1 = key
    · rw [if_pos hk] at hslot
      obtain rfl := Option.some.inj hslot
      subst hk
      rw [List.foldl_cons, ← get?_outside hnot, outside_mergeSlots, outside_self, List.foldl_nil,
        get?_outside hnot, conditionsOf_mergeSlot, if_pos rfl]
    · rw [if_neg hk] at hslot
      have hne : ¬key = item.1 := fun heq => hk heq.symm
      have hsame := conditionsOf_mergeSlot slots item key
      rw [if_neg hne] at hsame
      rw [List.foldl_cons, ih hrest hslot]
      unfold left
      cases slot with
      | atomic entry => rfl
      | bundle bundle =>
        dsimp only
        rw [hsame]

/-- A slot leaves the conditions of which it says nothing as they were. -/
lemma outside_conditionsOf_mergeSlot {cs : List String} {key : String}
    (h : outside cs (Merged.conditionsOf (get? slots key)) =
      outside cs (Merged.conditionsOf (get? slots' key))) (item : String × Slot) :
    outside cs (Merged.conditionsOf (get? (Merged.mergeSlot slots item) key)) =
      outside cs (Merged.conditionsOf (get? (Merged.mergeSlot slots' item) key)) := by
  rw [conditionsOf_mergeSlot, conditionsOf_mergeSlot]
  by_cases hk : key = item.1
  · obtain ⟨k, slot⟩ := item
    obtain rfl : key = k := hk
    rw [if_pos rfl, if_pos rfl]
    unfold left
    cases slot with
    | atomic entry => rfl
    | bundle bundle =>
      dsimp only
      rw [foldl_mergeCondition, foldl_mergeCondition, outside_settleAll, outside_settleAll, h]
  · rw [if_neg hk, if_neg hk, h]

lemma outside_conditionsOf_mergeSlots {cs : List String} {key : String}
    (h : outside cs (Merged.conditionsOf (get? slots key)) =
      outside cs (Merged.conditionsOf (get? slots' key))) (entries : ClassEntries) :
    outside cs (Merged.conditionsOf (get? (entries.foldl Merged.mergeSlot slots) key)) =
      outside cs (Merged.conditionsOf (get? (entries.foldl Merged.mergeSlot slots') key)) := by
  induction entries generalizing slots slots' with
  | nil => exact h
  | cons item rest ih => exact ih (outside_conditionsOf_mergeSlot h item)

end

/-- What a reference brings, whatever it is merged with. -/
structure Patch where
  slots : ClassEntries
  themes : Keyed String String
  inline : Keyed String String

def Patch.merge (m : Merged) (p : Patch) : Merged where
  slots := p.slots.foldl Merged.mergeSlot m.slots
  themes := settleAll some m.themes p.themes
  inline := settleAll some m.inline p.inline

/-- All that a patch leaves alone is the same. In a bundle these are the other conditions. -/
structure AgreeOutside (p : Patch) (m m' : Merged) : Prop where
  slots : outside (keys p.slots) m.slots = outside (keys p.slots) m'.slots
  conditions : ∀ key bundle, get? p.slots key = some (.bundle bundle) →
    outside (keys bundle) (Merged.conditionsOf (get? m.slots key)) =
      outside (keys bundle) (Merged.conditionsOf (get? m'.slots key))
  themes : outside (keys p.themes) m.themes = outside (keys p.themes) m'.themes
  inline : outside (keys p.inline) m.inline = outside (keys p.inline) m'.inline

section

variable {p q : Patch} {m m' : Merged}

/-- A patch changes nothing but what it touches. -/
lemma agreeOutside_merge (hp : (keys p.slots).Nodup) (m : Merged) :
    AgreeOutside p (p.merge m) m where
  slots := by
    change outside _ (p.slots.foldl Merged.mergeSlot m.slots) = _
    rw [outside_mergeSlots, outside_self]
    rfl
  conditions key bundle hbundle := by
    change outside _ (Merged.conditionsOf (get? (p.slots.foldl Merged.mergeSlot m.slots) key)) = _
    rw [conditionsOf_mergeSlots hp hbundle]
    unfold left
    dsimp only
    rw [foldl_mergeCondition, outside_settleAll_self]
  themes := outside_settleAll_self some m.themes p.themes
  inline := outside_settleAll_self some m.inline p.inline

/-- What is merged behind leaves such states alike. -/
lemma AgreeOutside.merge (h : AgreeOutside p m m') (q : Patch) :
    AgreeOutside p (q.merge m) (q.merge m') where
  slots := by
    change outside _ (q.slots.foldl _ _) = outside _ (q.slots.foldl _ _)
    rw [outside_mergeSlots, outside_mergeSlots, h.slots]
  conditions key bundle hbundle :=
    outside_conditionsOf_mergeSlots (h.conditions key bundle hbundle) q.slots
  themes := by
    change outside _ (settleAll _ _ _) = outside _ (settleAll _ _ _)
    rw [outside_settleAll, outside_settleAll, h.themes]
  inline := by
    change outside _ (settleAll _ _ _) = outside _ (settleAll _ _ _)
    rw [outside_settleAll, outside_settleAll, h.inline]

lemma AgreeOutside.mergeAll (h : AgreeOutside p m m') (qs : List Patch) :
    AgreeOutside p (qs.foldl Patch.merge m) (qs.foldl Patch.merge m') := by
  induction qs generalizing m m' with
  | nil => exact h
  | cons q qs ih => exact ih (h.merge q)

/-- The patch itself makes them equal. -/
lemma AgreeOutside.merge_eq (hp : (keys p.slots).Nodup) (h : AgreeOutside p m m') :
    p.merge m = p.merge m' := by
  have hslots : p.slots.foldl Merged.mergeSlot m.slots =
      p.slots.foldl Merged.mergeSlot m'.slots := by
    rw [mergeSlots_eq hp, mergeSlots_eq hp, h.slots]
    refine congrArg _ (List.filterMap_congr fun item hitem => ?_)
    obtain ⟨key, slot⟩ := item
    cases slot with
    | atomic entry => rfl
    | bundle bundle =>
      have hconditions := settleAll_congr kept
        (h.conditions key bundle (get?_of_mem hp hitem))
      unfold mergedSlot?
      dsimp only
      rw [hconditions]
  unfold Patch.merge
  rw [hslots, settleAll_congr some h.themes, settleAll_congr some h.inline]

/-- A patch that comes again absorbs its earlier use. -/
lemma merge_absorbs (hp : (keys p.slots).Nodup) (m : Merged) (qs : List Patch) :
    p.merge (qs.foldl Patch.merge (p.merge m)) = p.merge (qs.foldl Patch.merge m) :=
  ((agreeOutside_merge hp m).mergeAll qs).merge_eq hp

end

section

variable {styles : Styles}

/-- The values that arguments give do not depend on those that are there. -/
lemma bindArguments_uniform (name : String) (parameters : List String) (arguments : List Scalar)
    (bindings : List Binding) :
    (∀ inline, ∃ e,
        Merged.bindArguments name parameters arguments inline bindings = .error e) ∨
      ∃ values, ∀ inline, Merged.bindArguments name parameters arguments inline bindings =
        .ok (settleAll some inline values) := by
  induction bindings with
  | nil => exact .inr ⟨[], fun _ => rfl⟩
  | cons b bs ih =>
    cases hargument : Merged.argumentFor? b.parameter parameters arguments with
    | none => simpa only [Merged.bindArguments, hargument] using ih
    | some argument =>
      cases htext : Merged.argumentText? b.property argument with
      | none =>
        left
        intro inline
        rw [Merged.bindArguments, hargument]
        dsimp only
        rw [htext]
        exact ⟨_, rfl⟩
      | some text =>
        simp only [Merged.bindArguments, hargument, htext]
        rcases ih with hfails | ⟨values, hvalues⟩
        · exact .inl fun inline => hfails _
        · exact .inr ⟨(b.customProperty, text) :: values, fun inline => hvalues _⟩

/-- A reference brings this patch to every state. -/
structure Brings (styles : Styles) (r : ClassRef) (p : Patch) : Prop where
  slots : p.slots = slotsOf styles r
  merges : ∀ m, Merged.apply styles m r = .ok (p.merge m)

/-- Whether a reference can be merged does not depend on the state. -/
lemma apply_uniform (styles : Styles) (r : ClassRef) :
    (∀ m, ∃ e, Merged.apply styles m r = .error e) ∨ ∃ p, Brings styles r p := by
  cases r with
  | skipped => exact .inr ⟨⟨[], [], []⟩, rfl, fun _ => rfl⟩
  | staticClass name =>
    cases hget : get? styles.classes name with
    | none => exact .inl fun m => ⟨_, by rw [Merged.apply, hget]⟩
    | some entries =>
      refine .inr ⟨⟨entries, [], []⟩, ?_, fun m => ?_⟩
      · rw [slotsOf, hget]
        rfl
      · rw [Merged.apply, hget]
        rfl
  | dynamic name arguments =>
    cases hget : get? styles.dynamics name with
    | none => exact .inl fun m => ⟨_, by rw [Merged.apply, hget]⟩
    | some d =>
      simp only [Merged.apply, hget]
      by_cases hlength : arguments.length ≠ d.parameters.length
      · exact .inl fun m => ⟨_, if_pos hlength⟩
      · rcases bindArguments_uniform name d.parameters arguments d.bindings with
          hfails | ⟨values, hvalues⟩
        · refine .inl fun m => ?_
          obtain ⟨e, he⟩ := hfails m.inline
          rw [if_neg hlength, he]
          exact ⟨e, rfl⟩
        · refine .inr ⟨⟨d.entries, [], values⟩, ?_, fun m => ?_⟩
          · rw [slotsOf, hget]
            rfl
          · simp only [Merged.apply, hget, if_neg hlength, hvalues]
            rfl
  | theme space name =>
    cases hget : get? styles.themes (qualified space name) with
    | none => exact .inl fun m => ⟨_, by simp only [Merged.apply, hget]; rfl⟩
    | some className =>
      refine .inr ⟨⟨[], [(space, className)], []⟩, rfl, fun m => ?_⟩
      simp only [Merged.apply, hget]
      rfl

lemma brings_of_run {refs : List ClassRef} {m result : Merged}
    (h : refs.foldlM (Merged.apply styles) m = .ok result) :
    ∀ r ∈ refs, ∃ p, Brings styles r p := by
  induction refs generalizing m with
  | nil => nofun
  | cons r rest ih =>
    rw [List.foldlM_cons] at h
    obtain ⟨m', hr, h⟩ := bind_eq_ok h
    refine List.forall_mem_cons.2 ⟨(apply_uniform styles r).resolve_left ?_, ih h⟩
    intro hfails
    obtain ⟨e, he⟩ := hfails m
    rw [he] at hr
    cases hr

/-- References that bring patches are merged one patch after the other. -/
lemma run_of_brings {refs : List ClassRef} (h : ∀ r ∈ refs, ∃ p, Brings styles r p) :
    ∃ ps : List Patch,
      ∀ m, refs.foldlM (Merged.apply styles) m = .ok (ps.foldl Patch.merge m) := by
  induction refs with
  | nil => exact ⟨[], fun _ => rfl⟩
  | cons r rest ih =>
    obtain ⟨⟨p, hp⟩, hrest⟩ := List.forall_mem_cons.1 h
    obtain ⟨ps, hps⟩ := ih hrest
    refine ⟨p :: ps, fun m => ?_⟩
    rw [List.foldlM_cons, hp.merges]
    exact hps _

end

section

variable {config : Config} {start registry : Registry} {sheet : Sheet} {styles : Styles}

/-- References that bring patches resolve to the same without an earlier use of the last one. -/
lemma resolve_eq_of_brings (hc : Compiled config registry styles) {xs ys : List ClassRef}
    {r : ClassRef} (hxs : ∀ s ∈ xs, ∃ p, Brings styles s p) (hr : ∃ p, Brings styles r p)
    (hys : ∀ s ∈ ys, ∃ p, Brings styles s p) :
    styles.resolve (xs ++ [r] ++ ys ++ [r]) = styles.resolve (xs ++ ys ++ [r]) := by
  obtain ⟨ps, hps⟩ := run_of_brings hxs
  obtain ⟨p, hp⟩ := hr
  obtain ⟨qs, hqs⟩ := run_of_brings hys
  have hkeys : (keys p.slots).Nodup := hp.slots ▸ (wellKeyed_slotsOf hc r).slots
  have hone : ∀ m, [r].foldlM (Merged.apply styles) m = .ok (p.merge m) := by
    intro m
    rw [List.foldlM_cons, hp.merges]
    rfl
  have hthen : ∀ (m : Merged) (f : Merged → Except StyleError Merged), (.ok m >>= f) = f m :=
    fun _ _ => rfl
  unfold Styles.resolve
  simp only [List.foldlM_append, hps, hone, hqs, hthen, merge_absorbs hkeys]

/-- A reference that comes again absorbs its earlier use: with that use or without it the references
resolve alike, to the same class string and the same inline style. -/
theorem resolve_absorbs (h : sheet.compileInto config start = (registry, .ok styles))
    (xs ys : List ClassRef) (r : ClassRef) (result : Resolved) :
    styles.resolve (xs ++ [r] ++ ys ++ [r]) = .ok result ↔
      styles.resolve (xs ++ ys ++ [r]) = .ok result := by
  obtain ⟨_, hcompiled⟩ := compiled_of_compileInto h
  have hmerged : ∀ {refs : List ClassRef}, styles.resolve refs = .ok result →
      ∀ s ∈ refs, ∃ p, Brings styles s p := by
    intro refs hresolve
    obtain ⟨m, hm, _⟩ := map_eq_ok hresolve
    exact brings_of_run hm
  have hsame : (∀ s ∈ xs ++ ys ++ [r], ∃ p, Brings styles s p) →
      styles.resolve (xs ++ [r] ++ ys ++ [r]) = styles.resolve (xs ++ ys ++ [r]) := by
    intro hbrings
    simp only [List.forall_mem_append, List.forall_mem_singleton] at hbrings
    exact resolve_eq_of_brings hcompiled hbrings.1.1 hbrings.2 hbrings.1.2
  constructor
  · intro hresolve
    rw [← hsame fun s hs => hmerged hresolve s (by simp at hs ⊢; tauto)]
    exact hresolve
  · intro hresolve
    rw [hsame (hmerged hresolve)]
    exact hresolve

end

/-- What unsets a condition comes twice, around a class that sets it and a theme. -/
theorem resolve_absorbs_wardrobe :
    ∃ registry styles result, wardrobe.compileInto {} .empty = (registry, .ok styles) ∧
      styles.resolve ([.staticClass "base"] ++ [.staticClass "quiet"] ++
        [.theme "palette" "dark", .staticClass "base"] ++ [.staticClass "quiet"]) = .ok result ∧
      styles.resolve ([.staticClass "base"] ++ [.theme "palette" "dark", .staticClass "base"] ++
        [.staticClass "quiet"]) = .ok result := by
  have hok : ((wardrobe.compileInto {} .empty).2 >>= fun styles =>
      styles.resolve ([.staticClass "base"] ++ [.staticClass "quiet"] ++
        [.theme "palette" "dark", .staticClass "base"] ++ [.staticClass "quiet"])).isOk = true := by
    decide +kernel
  obtain ⟨result, hok⟩ := eq_ok_of_isOk hok
  obtain ⟨styles, hstyles, hresolve⟩ := bind_eq_ok hok
  have hcompiles : wardrobe.compileInto {} .empty = (_, .ok styles) := Prod.ext rfl hstyles
  exact ⟨_, styles, result, hcompiles, hresolve,
    (resolve_absorbs hcompiles _ _ _ result).1 hresolve⟩

end AtomicCss.Proofs
