import AtomicCss.Proofs.Failures

/-!
# The fault that never occurs

Normalization reports a reference as unresolved. Every other part of a compilation fails with other
errors, and what is handed to normalization is free of references. So no compilation ends with this
report, whatever the sheet holds.
-/

namespace AtomicCss.Proofs

open Keyed Context Declaration Value

/-- An error that does not report a reference as unresolved. -/
def IsOther (e : StyleError) : Prop :=
  ∀ property r, e ≠ .css (.invalidValue property (.unresolved r))

lemma isOther_of_arises {e : StyleError} (h : Arises e) : IsOther e := by
  cases h with
  | text h => cases h <;> nofun
  | value _ h =>
    rintro _ r heq
    cases heq
    exact h r rfl
  | _ => nofun

lemma failsOnly_check (config : Config) (sheet : Sheet) :
    FailsOnly IsOther (sheet.check config) :=
  fun _ he => isOther_of_arises (arises_of_check he)

lemma isOther_of_compileFrom {config : Config} {sheet : Sheet} {start left : Registry}
    {definitions : List Definition} {e : StyleError}
    (h : Sheet.compileFrom config sheet start {} definitions = (left, .error e)) : IsOther e :=
  isOther_of_arises (arises_of_compileFrom h)

/-- No compilation reports a reference as unresolved. Whatever a definition hands on to be
normalized, behind those in front of it, holds no references at any depth. -/
theorem compileInto_never_unresolved (config : Config) (sheet : Sheet) (start : Registry) :
    (∀ left e, sheet.compileInto config start = (left, .error e) →
      ∀ property r, e ≠ .css (.invalidValue property (.unresolved r))) ∧
    (∀ front d rest left scope, sheet.definitions = front ++ d :: rest →
      Sheet.compileFrom config sheet start {} front = (left, .ok scope) →
      ∀ value, Handed ⟨config, sheet, scope⟩ d value → isLiteral value = true) := by
  constructor
  · intro left e h
    unfold Sheet.compileInto at h
    cases hcheck : sheet.check config with
    | error other =>
      rw [hcheck] at h
      cases h
      exact failsOnly_check config sheet e hcheck
    | ok _ =>
      rw [hcheck] at h
      dsimp only at h
      cases hrun : Sheet.compileFrom config sheet start {} sheet.definitions with
      | mk left' result =>
        rw [hrun] at h
        cases result with
        | error other =>
          cases h
          exact isOther_of_compileFrom hrun
        | ok scope => cases h
  · intro front d rest left scope _ hfront value hvalue
    exact hvalue.isLiteral (refFree_empty.run hfront)

/-- A constant that is defined by another one, a class with a list of alternatives that uses it, and
a class that takes this one over. -/
def chainedSheet : Sheet :=
  ⟨.unknown, [
    ⟨.unknown, .consts "size"
      [("one", .text "1px"), ("two", .ref ⟨.const, "size", "one"⟩)]⟩,
    ⟨.unknown, .staticClass "base"
      [.property "width" (.fallback [.ref ⟨.const, "size", "two"⟩, .text "2px"])]⟩,
    ⟨.unknown, .staticClass "wide" [.splice "base"]⟩]⟩

theorem compileInto_never_unresolved_chained :
    (chainedSheet.compileInto {} .empty).2.isOk = true ∧
      ∃ left scope declarations,
        Sheet.compileFrom {} chainedSheet .empty {} (chainedSheet.definitions.take 2) =
          (left, .ok scope) ∧
        Context.included ⟨{}, chainedSheet, scope⟩ "wide" .unknown "base" = .ok declarations ∧
        ∀ item ∈ declarations, isLiteral item.2 = true := by
  have hcompiles : (chainedSheet.compileInto {} .empty).2.isOk = true := by decide +kernel
  have hok : (Sheet.compileFrom {} chainedSheet .empty {}
      (chainedSheet.definitions.take 2)).2.isOk = true := by decide +kernel
  obtain ⟨scope, hscope⟩ := eq_ok_of_isOk hok
  have hfront : Sheet.compileFrom {} chainedSheet .empty {} (chainedSheet.definitions.take 2) =
      (_, .ok scope) := Prod.ext rfl hscope
  have hbase : (Sheet.compileFrom {} chainedSheet .empty {}
      (chainedSheet.definitions.take 2)).2.map
        (fun scope => (get? scope.declarations "base").isSome) = .ok true := by decide +kernel
  rw [hscope] at hbase
  obtain ⟨declarations, hdeclarations⟩ := Option.isSome_iff_exists.1 (Except.ok.inj hbase)
  have hincluded : Context.included ⟨{}, chainedSheet, scope⟩ "wide" .unknown "base" =
      .ok declarations := by
    unfold Context.included
    rw [hdeclarations]
  refine ⟨hcompiles, _, scope, declarations, hfront, hincluded, fun item hitem => ?_⟩
  obtain ⟨_, hhanded⟩ := compileInto_never_unresolved {} chainedSheet .empty
  exact hhanded _ _ _ _ scope rfl hfront item.2
    (.spliced rfl List.mem_cons_self hincluded hitem .self)

end AtomicCss.Proofs
