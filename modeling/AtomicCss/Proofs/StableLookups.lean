import AtomicCss.Proofs.References

/-!
# What has been entered stays

In a sheet without duplicates a definition enters nothing under a key that is taken already, except
that two variables or two markers may share a key. These get the same name from it. So as long as
no two constants share their qualified name, a value that can be resolved resolves to the same at
every later place.
-/

namespace AtomicCss.Proofs

open Keyed Context

/-- The second scope gives everything that the first one gives. -/
def Extends (scope scope' : Scope) : Prop :=
  ∀ kind key v, lookup scope kind key = some v → lookup scope' kind key = some v

/-- Neither the place nor the label matters to a value that can be resolved. -/
lemma resolveValue_extends {c c' : Context} {label label' : String} {site site' : Site}
    (h : Extends c.scope c'.scope) {value result : Value}
    (hvalue : c.resolveValue label site value = .ok result) :
    c'.resolveValue label' site' value = .ok result := by
  refine resolveValue_mono (fun r v hr => ?_) hvalue
  have hfound : lookup c.scope r.kind r.qualifiedName = some v := resolveReference_eq_ok_iff.1 hr
  exact resolveReference_eq_ok_iff.2 (h r.kind _ _ hfound)

/-- What is given under a key whose target goes by its name. -/
def spelled (start : String) : ReferenceKind → String → Option Scalar
  | .var, key => some ((Meaning.hashed "var(--" key ")").scalar start)
  | .marker, key => some ((Meaning.hashed "" ("marker:" ++ key) "").scalar start)
  | _, _ => none

/-- Variables and markers with one key are given alike. -/
lemma Learns.spelled {c : Context} {d : Definition} {scope : Scope} (h : Learns c d scope)
    {kind : ReferenceKind} {key : String} (hkey : key ∈ tableKeys kind d) {v : Scalar}
    (hv : spelled c.config.classStart kind key = some v) : lookup scope kind key = some v := by
  obtain ⟨target, htarget, rfl⟩ := List.mem_map.1 hkey
  obtain ⟨m, hm⟩ := h.meaning kind target htarget
  rw [h.entered kind target m hm, ← hv]
  cases hm with
  | var => rfl
  | marker => rfl
  | const | keyframes | positionTry | viewTransition => cases hv

lemma space_of_mem_defines {kind : ReferenceKind} (hkind : isSpaced kind = false) {body : Body}
    {target : String × String} (h : target ∈ body.defines kind) : target.1 = "" := by
  cases kind with
  | var | const | marker => cases hkind
  | keyframes =>
    cases body with
    | keyframes => rw [List.mem_singleton.1 h]
    | _ => cases h
  | positionTry =>
    cases body with
    | positionTry => rw [List.mem_singleton.1 h]
    | _ => cases h
  | viewTransition =>
    cases body with
    | viewTransition => rw [List.mem_singleton.1 h]
    | _ => cases h

/-- A target without a namespace is its key. -/
lemma mem_defines_of_tableKeys {kind : ReferenceKind} (hkind : isSpaced kind = false)
    {d : Definition} {key : String} (h : key ∈ tableKeys kind d) :
    ("", key) ∈ d.body.defines kind := by
  obtain ⟨⟨space, name⟩, htarget, rfl⟩ := List.mem_map.1 h
  obtain rfl : space = "" := space_of_mem_defines hkind htarget
  rw [tableKey, hkind]
  exact htarget

lemma names_const_eq (sheet : Sheet) :
    sheet.names .const = sheet.definitions.flatMap (tableKeys .const) := by
  rw [Sheet.names, Sheet.targets, List.map_flatMap]
  rfl

section

variable {config : Config} {sheet : Sheet} {start left : Registry}
  {front rest : List Definition} {d : Definition} {scope scope' : Scope}

/-- What a scope gives was entered by some definition in front of it. -/
lemma entered_of_lookup
    (hfront : Sheet.compileFrom config sheet start {} front = (left, .ok scope))
    {kind : ReferenceKind} {key : String} {v : Scalar} (h : lookup scope kind key = some v) :
    ∃ e ∈ front, key ∈ tableKeys kind e ∧ ∃ scope₀ scope₁,
      Learns ⟨config, sheet, scope₀⟩ e scope₁ ∧ lookup scope₁ kind key = some v := by
  induction front using List.reverseRecOn generalizing left scope with
  | nil =>
    cases hfront
    cases kind <;> cases h
  | append_singleton front d ih =>
    obtain ⟨left₀, scope₀, outcome, hbefore, hstep, hend⟩ := compileFrom_split hfront
    cases hend
    have hlearns := learns_of_compile hstep
    by_cases hkey : key ∈ tableKeys kind d
    · exact ⟨d, by simp, hkey, _, _, hlearns, h⟩
    · rw [hlearns.others kind key hkey] at h
      obtain ⟨e, he, hentered⟩ := ih hbefore h
      exact ⟨e, List.mem_append_left _ he, hentered⟩

/-- The next definition takes nothing back. -/
lemma extends_of_learns (hkeys : (sheet.definitions.map fun e => e.body.key).Nodup)
    (hconsts : (sheet.names .const).Nodup) (hsplit : sheet.definitions = front ++ d :: rest)
    (hfront : Sheet.compileFrom config sheet start {} front = (left, .ok scope))
    (hd : Learns ⟨config, sheet, scope⟩ d scope') : Extends scope scope' := by
  intro kind key v hv
  by_cases hkey : key ∈ tableKeys kind d
  · obtain ⟨e, he, hearlier, scope₀, scope₁, hlearns, hentered⟩ := entered_of_lookup hfront hv
    cases hkind : spelled config.classStart kind key with
    | some w =>
      have hw : lookup scope₁ kind key = some w := hlearns.spelled hearlier hkind
      rw [hd.spelled hkey hkind, ← hw, hentered]
    | none =>
      -- what does not go by its name cannot be entered twice under one key
      exfalso
      rw [hsplit] at hkeys
      by_cases hconst : kind = .const
      · subst hconst
        rw [names_const_eq, hsplit, List.flatMap_append, List.flatMap_cons] at hconsts
        have hdisjoint := List.disjoint_of_nodup_append hconsts
        exact hdisjoint (List.mem_flatMap.2 ⟨e, he, hearlier⟩) (List.mem_append_left _ hkey)
      · have hspaced : isSpaced kind = false := by
          cases kind with
          | var | marker => cases hkind
          | const => exact (hconst rfl).elim
          | keyframes | positionTry | viewTransition => rfl
        obtain ⟨before, after, rfl⟩ := List.append_of_mem he
        rw [List.append_assoc, List.cons_append] at hkeys
        exact notMem_defines_of_nodup hkeys (mem_defines_of_tableKeys hspaced hearlier)
          (List.mem_append_right _ List.mem_cons_self) (mem_defines_of_tableKeys hspaced hkey)
  · rw [hd.others kind key hkey]
    exact hv

end

end AtomicCss.Proofs
