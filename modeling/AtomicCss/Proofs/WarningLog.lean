import AtomicCss.Proofs.ClassEntries
import AtomicCss.Proofs.TwoRuns

/-!
# What warnings do not change

Warnings are collected and never looked at. So what is computed for a class does not depend on what
was warned about before, and steps that succeed one by one succeed in every order.
-/

namespace AtomicCss.Proofs

open Declaration Keyed

variable {α β : Type}

/-- The result does not depend on the warnings made before. -/
def Steady (p : Processing α) : Prop :=
  ∀ ws, (p ws).1 = p.collect.1

/-- A computation is steady if it is paired with itself, whatever is warned about. -/
lemma steady_iff {p : Processing α} : Steady p ↔ Paired (fun _ => false) p p := by
  constructor
  · intro h ws ws' _
    refine ⟨(h ws).trans (h ws').symm, ?_⟩
    rw [List.filter_false, List.filter_false]
  · intro h ws
    refine (h ws [] ?_).1
    rw [List.filter_false, List.filter_false]

namespace Steady

lemma pure (a : α) : Steady (Pure.pure a : Processing α) :=
  fun _ => rfl

lemma ofCss (r : Except CssFault α) : Steady (Processing.ofCss r) :=
  fun _ => rfl

lemma bind {p : Processing α} {f : α → Processing β} (hp : Steady p) (hf : ∀ a, Steady (f a)) :
    Steady (p >>= f) :=
  steady_iff.2 ((steady_iff.1 hp).bind fun a => steady_iff.1 (hf a))

lemma mapM {f : α → Processing β} (hf : ∀ a, Steady (f a)) (xs : List α) : Steady (xs.mapM f) :=
  steady_iff.2 (.mapM (fun a => steady_iff.1 (hf a)) xs)

lemma collect {p : Processing α} (hp : Steady p) {a : α} (h : Gives p a) : p.collect.1 = .ok a := by
  obtain ⟨ws, h⟩ := h
  rw [← hp ws, h]

end Steady

lemma gives_bind_of {p : Processing α} {f : α → Processing β} {a : α} {b : β} (hp : Gives p a)
    (hf : Gives (f a) b) (hsteady : Steady (f a)) : Gives (p >>= f) b := by
  obtain ⟨ws, hp⟩ := hp
  refine ⟨ws, ?_⟩
  change (ExceptT.bindCont f (p ws).1 (p ws).2).1 = .ok b
  rw [hp]
  exact (hsteady (p ws).2).trans (hsteady.collect hf)

lemma gives_require_iff {holds : Bool} {e : StyleError} :
    Gives (Processing.require holds e) () ↔ holds = true := by
  constructor
  · exact gives_require
  · rintro rfl
    exact ⟨[], rfl⟩

lemma gives_mapM_of {f : α → Processing β} (hf : ∀ a, Steady (f a)) {xs : List α} {ys : List β}
    (h : List.Forall₂ (fun x y => Gives (f x) y) xs ys) : Gives (xs.mapM f) ys := by
  induction h with
  | nil => exact ⟨[], rfl⟩
  | cons hxy _ ih =>
    rw [List.mapM_cons]
    refine gives_bind_of hxy (gives_bind_of ih ⟨[], rfl⟩ (.pure _)) ?_
    exact (Steady.mapM hf _).bind fun _ => .pure _

section

variable (setting : Setting)

lemma steady_validateProperty (config : Config) (definition property : String) :
    Steady (validateProperty config definition property) :=
  steady_iff.2 <|
    paired_validateProperty ⟨config, definition⟩ config.isDeprecated (fun _ _ => rfl) property

lemma steady_entries (property : String) (suffix atRule : Option String) (value : Value) :
    Steady (entries setting property suffix atRule value) :=
  steady_iff.2 (paired_entries setting setting.config.isDeprecated property suffix atRule value)

lemma steady_property (name : String) (scope : Option String) (value : Value) :
    Steady (Declaration.property setting name scope value) :=
  steady_iff.2 <|
    paired_property setting setting.config.isDeprecated (fun _ _ => rfl) name scope value

lemma steady_checkPolicy (declarations : Declarations) :
    Steady (checkPolicy setting declarations) :=
  steady_iff.2 (paired_checkPolicy setting setting.config.isDeprecated declarations)

lemma steady_inPseudoElement (pseudo : String) (item : String × Value) :
    Steady (inPseudoElement setting pseudo item) :=
  steady_iff.2 <|
    paired_inPseudoElement setting setting.config.isDeprecated (fun _ _ => rfl) pseudo item

lemma steady_slots (item : String × Value) : Steady (slots setting item) :=
  steady_iff.2 (paired_slots setting setting.config.isDeprecated (fun _ _ => rfl) item)

lemma steady_classEntries (declarations : Declarations) :
    Steady (classEntries setting declarations) :=
  steady_iff.2 <|
    paired_classEntries setting setting.config.isDeprecated (fun _ _ => rfl) declarations

lemma slots_of_property {key : String} (h : ConditionKind.ofKey? key ≠ some .pseudoElement)
    (value : Value) :
    Declaration.slots setting (key, value) =
      Declaration.property setting (Property.dashCase key) none value := by
  unfold Declaration.slots
  rw [if_neg (by simpa using h)]

lemma slots_of_group {key : String} (h : ConditionKind.ofKey? key = some .pseudoElement)
    (value : Value) :
    Declaration.slots setting (key, value) = pseudoElement setting key value := by
  unfold Declaration.slots
  rw [if_pos (by simpa using h)]

variable {setting}

/-- A group is checked, and each of its properties gives slots. -/
lemma gives_pseudoElement_iff {key : String} {group : Declarations}
    {slots : List (String × Slot)} :
    Gives (pseudoElement setting key (.map group)) slots ↔
      ConditionKind.ofKey? key = some .pseudoElement ∧
        (∃ c, Gives (.ofCss (Condition.parse key)) c) ∧ Gives (checkPolicy setting group) () ∧
        ∃ found, Gives (group.mapM (inPseudoElement setting key)) found ∧
          slots = found.flatten := by
  constructor
  · intro h
    obtain ⟨_, hkind, h⟩ := gives_bind h
    obtain ⟨c, hparsed, h⟩ := gives_bind h
    obtain ⟨_, hcheck, h⟩ := gives_bind h
    obtain ⟨found, hfound, h⟩ := gives_bind h
    have hkey : ConditionKind.ofKey? key = some .pseudoElement := by
      simpa using gives_require_iff.1 hkind
    exact ⟨hkey, ⟨c, hparsed⟩, hcheck, found, hfound, gives_pure h⟩
  · rintro ⟨hkey, ⟨c, hparsed⟩, hcheck, found, hfound, rfl⟩
    have hmapped := (Steady.mapM (steady_inPseudoElement setting key) group).bind fun found =>
      Steady.pure found.flatten
    have hchecked := (steady_checkPolicy setting group).bind fun _ => hmapped
    refine gives_bind_of (gives_require_iff.2 (by simpa using hkey)) ?_
      ((Steady.ofCss _).bind fun _ => hchecked)
    refine gives_bind_of hparsed ?_ hchecked
    exact gives_bind_of hcheck (gives_bind_of hfound ⟨[], rfl⟩ (.pure _)) hmapped

/-- A class is checked, and each of its declarations gives slots. -/
lemma gives_classEntries_iff {declarations : Declarations} {m : ClassEntries} :
    Gives (classEntries setting declarations) m ↔ Gives (checkPolicy setting declarations) () ∧
      ∃ found, Gives (declarations.mapM (slots setting)) found ∧
        m = putAll [] found.flatten := by
  constructor
  · intro h
    obtain ⟨_, hcheck, h⟩ := gives_bind h
    obtain ⟨found, hfound, h⟩ := gives_bind h
    exact ⟨hcheck, found, hfound, gives_pure h⟩
  · rintro ⟨hcheck, found, hfound, rfl⟩
    exact gives_bind_of hcheck (gives_bind_of hfound ⟨[], rfl⟩ (.pure _))
      ((Steady.mapM (steady_slots setting) declarations).bind fun _ => .pure _)

end

end AtomicCss.Proofs
