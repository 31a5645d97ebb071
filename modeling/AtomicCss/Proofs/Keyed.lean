import AtomicCss.Keyed
import Mathlib.Data.List.Nodup
import Mathlib.Tactic.Common

/-!
# Looking up keyed values

What the operations on keyed lists do to `get?` and to the list of keys. A list is read as a map
only while no key occurs twice; every operation keeps that.
-/

namespace AtomicCss.Proofs

open Keyed

variable {κ α : Type} [DecidableEq κ]

lemma mem_of_get? {m : Keyed κ α} {key : κ} {a : α} (h : get? m key = some a) : (key, a) ∈ m := by
  induction m with
  | nil => simp [get?] at h
  | cons item rest ih =>
    obtain ⟨k, b⟩ := item
    rw [get?] at h
    by_cases hk : k = key
    · rw [if_pos hk] at h
      obtain rfl := Option.some.inj h
      rw [hk]
      exact List.mem_cons_self
    · rw [if_neg hk] at h
      exact List.mem_cons_of_mem _ (ih h)

lemma get?_isSome_iff {m : Keyed κ α} {key : κ} : (get? m key).isSome ↔ key ∈ keys m := by
  induction m with
  | nil => simp [get?, keys]
  | cons item rest ih =>
    by_cases hk : item.1 = key
    · simp [get?, keys, hk]
    · have hne : ¬key = item.1 := fun h => hk h.symm
      rw [get?, if_neg hk, ih]
      simp [keys, hne]

lemma get?_eq_none_iff {m : Keyed κ α} {key : κ} : get? m key = none ↔ key ∉ keys m := by
  rw [← get?_isSome_iff, Option.not_isSome_iff_eq_none]

lemma get?_of_mem {m : Keyed κ α} {key : κ} {a : α} (hm : (keys m).Nodup) (h : (key, a) ∈ m) :
    get? m key = some a := by
  induction m with
  | nil => simp at h
  | cons item rest ih =>
    obtain ⟨hnot, hrest⟩ := List.nodup_cons.1 hm
    rcases List.mem_cons.1 h with rfl | h
    · simp [get?]
    · have hk : item.1 ≠ key := by
        rintro rfl
        exact hnot (List.mem_map.2 ⟨_, h, rfl⟩)
      rw [get?, if_neg hk]
      exact ih hrest h

/-- A key occurs once, with the value that is found under it. -/
lemma filter_key_eq_singleton {m : Keyed κ α} {key : κ} {a : α} (hm : (keys m).Nodup)
    (h : get? m key = some a) : m.filter (fun item => item.1 = key) = [(key, a)] := by
  induction m with
  | nil => cases h
  | cons item rest ih =>
    obtain ⟨hnot, hrest⟩ := List.nodup_cons.1 hm
    rw [get?] at h
    by_cases hk : item.1 = key
    · rw [if_pos hk] at h
      have hnone : rest.filter (fun item => item.1 = key) = [] := by
        rw [List.filter_eq_nil_iff]
        intro other ho heq
        have hsame : other.1 = item.1 := (of_decide_eq_true heq).trans hk.symm
        exact hnot (hsame ▸ List.mem_map_of_mem ho)
      rw [List.filter_cons_of_pos (by simpa using hk), hnone]
      exact congrArg (fun pair => [pair]) (Prod.ext hk (Option.some.inj h))
    · rw [if_neg hk] at h
      rw [List.filter_cons_of_neg (by simpa using hk), ih hrest h]

@[simp] lemma get?_remove (m : Keyed κ α) (key other : κ) :
    get? (remove m key) other = if other = key then none else get? m other := by
  induction m with
  | nil => simp [remove, get?]
  | cons item rest ih =>
    unfold remove at ih ⊢
    by_cases hk : item.1 = key
    · rw [List.filter_cons_of_neg (by simp [hk]), ih, get?]
      by_cases ho : other = key
      · rw [if_pos ho, if_pos ho]
      · have hne : ¬item.1 = other := fun h => ho (h.symm.trans hk)
        rw [if_neg ho, if_neg ho, if_neg hne]
    · rw [List.filter_cons_of_pos (by simp [hk]), get?, ih, get?]
      by_cases ho : other = key
      · rw [if_neg (fun h => hk (h.trans ho)), if_pos ho, if_pos ho]
      · rw [if_neg ho, if_neg ho]

lemma get?_append (m n : Keyed κ α) (key : κ) :
    get? (m ++ n) key = (get? m key).or (get? n key) := by
  induction m with
  | nil => simp [get?]
  | cons item rest ih =>
    rw [List.cons_append, get?, get?, ih]
    by_cases hk : item.1 = key
    · rw [if_pos hk, if_pos hk, Option.some_or]
    · rw [if_neg hk, if_neg hk]

@[simp] lemma get?_renew (m : Keyed κ α) (key other : κ) (a : α) :
    get? (renew m key a) other = if other = key then some a else get? m other := by
  rw [renew, get?_append, get?_remove]
  by_cases ho : other = key
  · simp [ho, get?]
  · have hne : ¬key = other := fun h => ho h.symm
    simp [ho, hne, get?]

@[simp] lemma get?_put (m : Keyed κ α) (key other : κ) (a : α) :
    get? (put m key a) other = if other = key then some a else get? m other := by
  induction m with
  | nil =>
    by_cases ho : other = key
    · simp [put, get?, ho]
    · have hne : ¬key = other := fun h => ho h.symm
      simp [put, get?, ho, hne]
  | cons item rest ih =>
    rw [put]
    by_cases hk : item.1 = key
    · rw [if_pos hk, get?, get?]
      by_cases ho : other = key
      · rw [if_pos (hk.trans ho.symm), if_pos ho]
      · have hne : ¬item.1 = other := fun h => ho (h.symm.trans hk)
        rw [if_neg hne, if_neg ho, if_neg hne]
    · rw [if_neg hk, get?, get?, ih]
      by_cases ho : other = key
      · rw [if_neg (fun h => hk (h.trans ho)), if_pos ho, if_pos ho]
      · rw [if_neg ho, if_neg ho]

lemma keys_remove (m : Keyed κ α) (key : κ) :
    keys (remove m key) = (keys m).filter fun k => k ≠ key := by
  unfold keys remove
  rw [List.filter_map]
  rfl

lemma nodup_keys_remove {m : Keyed κ α} (hm : (keys m).Nodup) (key : κ) :
    (keys (remove m key)).Nodup := by
  rw [keys_remove]
  exact hm.filter _

lemma nodup_keys_renew {m : Keyed κ α} (hm : (keys m).Nodup) (key : κ) (a : α) :
    (keys (renew m key a)).Nodup := by
  have hkeys : keys (renew m key a) = keys (remove m key) ++ [key] := by simp [keys, renew]
  rw [hkeys]
  apply (nodup_keys_remove hm key).append (List.nodup_singleton key)
  rw [List.disjoint_singleton, keys_remove]
  simp

lemma mem_put {m : Keyed κ α} {key : κ} {a : α} {item : κ × α} (h : item ∈ put m key a) :
    item = (key, a) ∨ item ∈ m := by
  induction m with
  | nil => simpa [put] using h
  | cons head rest ih =>
    rw [put] at h
    by_cases hk : head.1 = key
    · rw [if_pos hk, List.mem_cons] at h
      rcases h with rfl | h
      · exact .inl (by rw [hk])
      · exact .inr (List.mem_cons_of_mem _ h)
    · rw [if_neg hk, List.mem_cons] at h
      rcases h with rfl | h
      · exact .inr List.mem_cons_self
      · exact (ih h).imp_right (List.mem_cons_of_mem _)

lemma mem_keys_put {m : Keyed κ α} {key k : κ} {a : α} :
    k ∈ keys (put m key a) ↔ k = key ∨ k ∈ keys m := by
  rw [← get?_isSome_iff, ← get?_isSome_iff, get?_put]
  by_cases hk : k = key <;> simp [hk]

lemma nodup_keys_put {m : Keyed κ α} (hm : (keys m).Nodup) (key : κ) (a : α) :
    (keys (put m key a)).Nodup := by
  induction m with
  | nil => simp [put, keys]
  | cons head rest ih =>
    obtain ⟨hnot, hrest⟩ := List.nodup_cons.1 hm
    rw [put]
    by_cases hk : head.1 = key
    · rw [if_pos hk]
      exact hm
    · rw [if_neg hk]
      refine List.nodup_cons.2 ⟨?_, ih hrest⟩
      intro hmem
      rcases mem_keys_put.1 hmem with h | h
      · exact hk h
      · exact hnot h

lemma mem_keys_putAll {m : Keyed κ α} {items : List (κ × α)} {key : κ} :
    key ∈ keys (putAll m items) ↔ key ∈ keys m ∨ key ∈ keys items := by
  induction items generalizing m with
  | nil => simp [putAll, keys]
  | cons item rest ih =>
    have hcons : key ∈ keys (item :: rest) ↔ key = item.1 ∨ key ∈ keys rest := List.mem_cons
    change key ∈ keys (putAll (put m item.1 item.2) rest) ↔ _
    rw [ih, mem_keys_put, hcons, or_assoc, or_left_comm]

lemma nodup_keys_putAll {m : Keyed κ α} (hm : (keys m).Nodup) (items : List (κ × α)) :
    (keys (putAll m items)).Nodup := by
  induction items generalizing m with
  | nil => exact hm
  | cons item rest ih => exact ih (nodup_keys_put hm item.1 item.2)

lemma mem_putAll {m : Keyed κ α} {items : List (κ × α)} {item : κ × α}
    (h : item ∈ putAll m items) : item ∈ m ∨ item ∈ items := by
  induction items generalizing m with
  | nil => exact .inl h
  | cons head rest ih =>
    rcases ih h with h | h
    · rcases mem_put h with rfl | h
      · exact .inr List.mem_cons_self
      · exact .inl h
    · exact .inr (List.mem_cons_of_mem _ h)

lemma get?_putAll (m : Keyed κ α) (items : List (κ × α)) (key : κ) :
    get? (putAll m items) key = (get? (putAll [] items) key).or (get? m key) := by
  induction items generalizing m with
  | nil => rfl
  | cons item rest ih =>
    change get? (putAll (put m item.1 item.2) rest) key =
      (get? (putAll (put [] item.1 item.2) rest) key).or (get? m key)
    rw [ih, ih (put [] item.1 item.2), Option.or_assoc, get?_put, get?_put]
    by_cases hk : key = item.1 <;> simp [hk, get?]

lemma get?_putAll_of_notMem {items : List (κ × α)} {key : κ} (h : key ∉ keys items)
    (m : Keyed κ α) : get? (putAll m items) key = get? m key := by
  have hnone : get? (putAll [] items) key = none :=
    get?_eq_none_iff.2 fun hkey => h ((mem_keys_putAll.1 hkey).resolve_left nofun)
  rw [get?_putAll, hnone, Option.none_or]

lemma get?_putAll_of_mem {items : List (κ × α)} (hitems : (keys items).Nodup) {key : κ} {a : α}
    (h : (key, a) ∈ items) (m : Keyed κ α) : get? (putAll m items) key = some a := by
  induction items generalizing m with
  | nil => cases h
  | cons item rest ih =>
    obtain ⟨hnot, hrest⟩ := List.nodup_cons.1 hitems
    change get? (putAll (put m item.1 item.2) rest) key = some a
    rcases List.mem_cons.1 h with rfl | h
    · rw [get?_putAll_of_notMem hnot, get?_put, if_pos rfl]
    · exact ih hrest h _

/-- Where all values of a key are the same, the order in which they are put does not matter. -/
lemma get?_putAll_of_forall {items : List (κ × α)} {key : κ} {a : α} (h : key ∈ keys items)
    (hall : ∀ item ∈ items, item.1 = key → item.2 = a) (m : Keyed κ α) :
    get? (putAll m items) key = some a := by
  induction items generalizing m with
  | nil => cases h
  | cons item rest ih =>
    by_cases hrest : key ∈ keys rest
    · exact ih hrest (fun other ho => hall other (List.mem_cons_of_mem _ ho)) _
    · have hkey : key = item.1 := (List.mem_cons.1 h).resolve_right hrest
      change get? (putAll (put m item.1 item.2) rest) key = some a
      rw [get?_putAll_of_notMem hrest, get?_put, if_pos hkey,
        hall item List.mem_cons_self hkey.symm]

lemma mem_putAll_iff {items : List (κ × α)} {item : κ × α} :
    item ∈ putAll [] items ↔ get? (putAll [] items) item.1 = some item.2 :=
  ⟨get?_of_mem (nodup_keys_putAll (m := []) List.nodup_nil items), mem_of_get?⟩

/-- What is put in parts without common keys stays, part by part. -/
lemma mem_putAll_flatten {parts : List (List (κ × α))}
    (hparts : (parts.map keys).Pairwise List.Disjoint) {item : κ × α} :
    item ∈ putAll [] parts.flatten ↔ ∃ part ∈ parts, item ∈ putAll [] part := by
  induction parts with
  | nil => simp [putAll]
  | cons part rest ih =>
    obtain ⟨hpart, hrest⟩ := List.pairwise_cons.1 hparts
    have happend : putAll [] (part :: rest).flatten = putAll (putAll [] part) rest.flatten :=
      List.foldl_append
    have hfree : item ∈ putAll [] part → get? (putAll [] rest.flatten) item.1 = none := by
      intro hitem
      have hin : item ∈ part := (mem_putAll hitem).resolve_left nofun
      apply get?_putAll_of_notMem
      intro hkey
      obtain ⟨other, hother, heq⟩ := List.mem_map.1 hkey
      obtain ⟨p, hp, hother⟩ := List.mem_flatten.1 hother
      exact hpart (keys p) (List.mem_map_of_mem hp) (List.mem_map_of_mem hin)
        (heq ▸ List.mem_map_of_mem hother)
    rw [List.exists_mem_cons_iff, ← ih hrest, mem_putAll_iff, happend, get?_putAll,
      Option.or_eq_some_iff, ← mem_putAll_iff, ← mem_putAll_iff]
    tauto

/-- The entries of the inner lists under pairs of keys. -/
def nested {κ' β : Type} (f : α → Keyed κ' β) (m : Keyed κ α) : Keyed (κ × κ') β :=
  m.flatMap fun item => (f item.2).map fun inner => ((item.1, inner.1), inner.2)

omit [DecidableEq κ] in
lemma mem_keys_nested {κ' β : Type} {f : α → Keyed κ' β} {m : Keyed κ α} {key : κ × κ'}
    (h : key ∈ keys (nested f m)) : ∃ item ∈ m, key.1 = item.1 ∧ key.2 ∈ keys (f item.2) := by
  obtain ⟨pair, hpair, rfl⟩ := List.mem_map.1 h
  obtain ⟨item, hitem, hin⟩ := List.mem_flatMap.1 hpair
  obtain ⟨inner, hinner, rfl⟩ := List.mem_map.1 hin
  exact ⟨item, hitem, rfl, List.mem_map.2 ⟨inner, hinner, rfl⟩⟩

lemma get?_map_keys {κ' β : Type} [DecidableEq κ'] (n : Keyed κ' β) (k key : κ) (inner : κ') :
    get? (n.map fun item => ((k, item.1), item.2)) (key, inner) =
      if k = key then get? n inner else none := by
  induction n with
  | nil => simp [get?]
  | cons item rest ih =>
    rw [List.map_cons, get?, get?, ih]
    by_cases hk : k = key
    · by_cases hi : item.1 = inner <;> simp [hk, hi]
    · simp [hk]

lemma get?_nested {κ' β : Type} [DecidableEq κ'] {f : α → Keyed κ' β} {m : Keyed κ α}
    (hm : (keys m).Nodup) (key : κ) (inner : κ') :
    get? (nested f m) (key, inner) = (get? m key).bind fun a => get? (f a) inner := by
  induction m with
  | nil => rfl
  | cons item rest ih =>
    obtain ⟨hnot, hrest⟩ := List.nodup_cons.1 hm
    have hsplit : nested f (item :: rest) =
        ((f item.2).map fun inner => ((item.1, inner.1), inner.2)) ++ nested f rest := rfl
    rw [hsplit, get?_append, get?_map_keys, ih hrest, get?]
    by_cases hk : item.1 = key
    · have hnone : get? rest key = none := get?_eq_none_iff.2 (hk ▸ hnot)
      simp [hk, hnone]
    · simp [hk]

omit [DecidableEq κ] in
lemma nodup_keys_nested {κ' β : Type} {f : α → Keyed κ' β} {m : Keyed κ α}
    (hm : (keys m).Nodup) (hf : ∀ item ∈ m, (keys (f item.2)).Nodup) :
    (keys (nested f m)).Nodup := by
  induction m with
  | nil => exact List.nodup_nil
  | cons item rest ih =>
    obtain ⟨hnot, hrest⟩ := List.nodup_cons.1 hm
    have hsplit : keys (nested f (item :: rest)) =
        (keys (f item.2)).map (fun inner => (item.1, inner)) ++ keys (nested f rest) := by
      simp [keys, nested, Function.comp_def]
    rw [hsplit, List.nodup_append]
    refine ⟨?_, ih hrest fun other ho => hf other (List.mem_cons_of_mem _ ho), ?_⟩
    · apply (hf item List.mem_cons_self).map
      intro a b hab
      exact (Prod.mk.inj hab).2
    · rintro key hkey other hother rfl
      obtain ⟨inner, _, rfl⟩ := List.mem_map.1 hkey
      obtain ⟨found, hfound, heq, _⟩ := mem_keys_nested hother
      exact hnot (List.mem_map.2 ⟨found, hfound, heq.symm⟩)

/-- The values that `g` is defined at. -/
def chosen {β : Type} (g : α → Option β) (m : Keyed κ α) : Keyed κ β :=
  m.filterMap fun item => (g item.2).map fun b => (item.1, b)

omit [DecidableEq κ] in
lemma keys_chosen {β : Type} (g : α → Option β) (m : Keyed κ α) :
    (keys (chosen g m)).Sublist (keys m) := by
  induction m with
  | nil => exact .slnil
  | cons item rest ih =>
    unfold chosen at ih ⊢
    cases hg : g item.2 with
    | none =>
      rw [List.filterMap_cons_none (by rw [hg]; rfl)]
      exact ih.cons _
    | some b =>
      rw [List.filterMap_cons_some (by rw [hg]; rfl)]
      exact ih.cons_cons _

lemma get?_chosen {β : Type} (g : α → Option β) {m : Keyed κ α} (hm : (keys m).Nodup) (key : κ) :
    get? (chosen g m) key = (get? m key).bind g := by
  induction m with
  | nil => rfl
  | cons item rest ih =>
    obtain ⟨hnot, hrest⟩ := List.nodup_cons.1 hm
    have hnone : item.1 = key → get? (chosen g rest) key = none := by
      rintro rfl
      rw [get?_eq_none_iff]
      exact fun hin => hnot ((keys_chosen g rest).subset hin)
    unfold chosen at ih hnone ⊢
    rw [get?]
    cases hg : g item.2 with
    | none =>
      rw [List.filterMap_cons_none (by rw [hg]; rfl)]
      by_cases hk : item.1 = key
      · rw [if_pos hk, hnone hk, Option.bind_some, hg]
      · rw [if_neg hk, ih hrest]
    | some b =>
      rw [List.filterMap_cons_some (by rw [hg]; rfl), get?]
      by_cases hk : item.1 = key
      · rw [if_pos hk, if_pos hk, Option.bind_some, hg]
      · rw [if_neg hk, if_neg hk, ih hrest]

lemma put_of_notMem {m : Keyed κ α} {key : κ} (h : key ∉ keys m) (a : α) :
    put m key a = m ++ [(key, a)] := by
  induction m with
  | nil => rfl
  | cons item rest ih =>
    have hne : item.1 ≠ key := fun heq => h (heq ▸ List.mem_cons_self)
    rw [put, if_neg hne, ih fun hmem => h (List.mem_cons_of_mem _ hmem)]
    rfl

omit [DecidableEq κ] in
lemma notMem_keys_of_nodup {m rest : Keyed κ α} {item : κ × α}
    (h : (keys (m ++ item :: rest)).Nodup) : item.1 ∉ keys m := by
  unfold keys at h
  rw [List.map_append, List.map_cons, List.nodup_middle] at h
  exact fun hmem => (List.nodup_cons.1 h).1 (List.mem_append_left _ hmem)

lemma putAll_append {items m : Keyed κ α} (h : (keys (m ++ items)).Nodup) :
    putAll m items = m ++ items := by
  induction items generalizing m with
  | nil => exact (List.append_nil m).symm
  | cons item rest ih =>
    have hput : put m item.1 item.2 = m ++ [item] :=
      put_of_notMem (notMem_keys_of_nodup h) item.2
    have hstep := @ih (m ++ [item]) (by simpa using h)
    rw [List.append_assoc, ← hput] at hstep
    exact hstep

lemma putAll_nil {items : Keyed κ α} (h : (keys items).Nodup) : putAll [] items = items :=
  putAll_append (m := []) h

section

variable {κ' β : Type} {f : κ → κ'} {g : α → β}

omit [DecidableEq κ] in
lemma keys_map (m : Keyed κ α) : keys (m.map (Prod.map f g)) = (keys m).map f := by
  simp [keys]

/-- Renaming that keeps the keys of two lists apart. -/
def KeepsApart (f : κ → κ') (keys others : List κ) : Prop :=
  ∀ a ∈ keys, ∀ b ∈ others, f a = f b → a = b

lemma get?_map (m : Keyed κ α) (key : κ) :
    get? (m.map (Prod.map id g)) key = (get? m key).map g := by
  induction m with
  | nil => rfl
  | cons item rest ih =>
    rw [List.map_cons, get?, get?, ih]
    dsimp only [Prod.map_fst, id]
    split <;> rfl

variable [DecidableEq κ']

lemma put_map {m : Keyed κ α} {key : κ} (hf : KeepsApart f (keys m) [key]) (a : α) :
    put (m.map (Prod.map f g)) (f key) (g a) = (put m key a).map (Prod.map f g) := by
  induction m with
  | nil => rfl
  | cons item rest ih =>
    have hrest : KeepsApart f (keys rest) [key] := fun k hk => hf k (List.mem_cons_of_mem _ hk)
    have hitem : f item.1 = f key ↔ item.1 = key :=
      ⟨hf item.1 List.mem_cons_self key (List.mem_singleton_self _), congrArg f⟩
    rw [List.map_cons, put, put, ih hrest]
    dsimp only [Prod.map_fst]
    by_cases hkey : item.1 = key
    · rw [if_pos hkey, if_pos (hitem.2 hkey)]
      rfl
    · rw [if_neg hkey, if_neg (hitem.not.2 hkey)]
      rfl

/-- Keys may be renamed before or after putting, if no two of them fall together. -/
lemma putAll_map {items m : Keyed κ α} (hf : KeepsApart f (keys m ++ keys items) (keys items)) :
    putAll (m.map (Prod.map f g)) (items.map (Prod.map f g)) =
      (putAll m items).map (Prod.map f g) := by
  induction items generalizing m with
  | nil => rfl
  | cons item rest ih =>
    have hput : put (m.map (Prod.map f g)) (f item.1) (g item.2) =
        (put m item.1 item.2).map (Prod.map f g) := by
      refine put_map (fun k hk b hb => ?_) item.2
      rw [List.mem_singleton.1 hb]
      exact hf k (List.mem_append_left _ hk) _ List.mem_cons_self
    have hrest : KeepsApart f (keys (put m item.1 item.2) ++ keys rest) (keys rest) := by
      intro a ha b hb
      refine hf a ?_ b (List.mem_cons_of_mem _ hb)
      rcases List.mem_append.1 ha with ha | ha
      · rcases mem_keys_put.1 ha with rfl | ha
        · exact List.mem_append_right _ List.mem_cons_self
        · exact List.mem_append_left _ ha
      · exact List.mem_append_right _ (List.mem_cons_of_mem _ ha)
    have hstep := ih hrest
    rw [← hput] at hstep
    exact hstep

end

end AtomicCss.Proofs
