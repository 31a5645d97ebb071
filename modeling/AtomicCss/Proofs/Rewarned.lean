import AtomicCss.Proofs.Deprecation
import AtomicCss.Proofs.FailedCompile

/-!
# A definition in the place of another one

No definition looks at the warnings that were made before it. So a definition of a sheet may be
replaced by one that leaves the same behind, up to its warnings: the sheet compiles to the same, up
to its warnings.
-/

namespace AtomicCss.Proofs

open Context

/-- The place with other warnings so far. -/
def warned (warnings : List Warning) (c : Context) : Context :=
  { c with scope := rewarned warnings c.scope }

lemma warned_eq_twin (warnings : List Warning) (c : Context) :
    warned warnings c = twin c.config.isDeprecated warnings c :=
  rfl

section

variable {c : Context} (warnings : List Warning) (site : Site) (definition : String)

lemma plainDeclaration_warned :
    (warned warnings c).plainDeclaration definition site =
      c.plainDeclaration definition site := by
  funext item
  unfold Context.plainDeclaration
  rw [warned_eq_twin, resolveValue_twin]
  rfl

lemma plainBlock_warned :
    (warned warnings c).plainBlock definition site = c.plainBlock definition site := by
  funext declarations
  unfold Context.plainBlock
  rw [plainDeclaration_warned]

lemma frameBlock_warned :
    frameBlock (warned warnings c) definition site = frameBlock c definition site := by
  funext frame
  unfold frameBlock
  rw [plainBlock_warned]

lemma transitionPart_warned :
    (warned warnings c).transitionPart definition site = c.transitionPart definition site := by
  funext part
  unfold Context.transitionPart
  rw [plainBlock_warned]

/-- A definition gives the same whatever was warned about before it. -/
lemma step_warned {d : Definition} {outcome : Outcome} (h : Step c d outcome) :
    ∃ behind, Step (warned warnings c) d ⟨outcome.rules, rewarned behind outcome.scope⟩ := by
  cases h with
  | @staticClass site name items parts _ made hparts hentries =>
    refine ⟨warnings ++ made, .staticClass ?_ hentries⟩
    rw [warned_eq_twin, declarationsOf_twin]
    exact hparts
  | @dynamicClass _ _ _ _ _ made hcompiled => exact ⟨warnings ++ made, .dynamicClass hcompiled⟩
  | vars hnew hresolved =>
    refine ⟨warnings, .vars hnew ?_⟩
    rw [warned_eq_twin, groupVar_twin]
    exact hresolved
  | consts hscope =>
    refine ⟨warnings, .consts ?_⟩
    have hbehind := congrArg (Except.map (rewarned warnings)) hscope
    rw [← compileConsts_twin c c.config.isDeprecated warnings] at hbehind
    exact hbehind
  | theme hgroup hnames hresolved hname =>
    refine ⟨warnings, .theme hgroup hnames ?_ hname⟩
    simp only [warned_eq_twin, resolvedVar_twin]
    exact hresolved
  | @keyframes _ _ _ _ _ made hblocks hname =>
    refine ⟨warnings ++ made, .keyframes ?_ hname⟩
    rw [frameBlock_warned]
    exact hblocks
  | @positionTry _ _ _ _ _ made hallowed hbody hname =>
    refine ⟨warnings ++ made, .positionTry hallowed ?_ hname⟩
    rw [plainBlock_warned]
    exact hbody
  | @viewTransition _ _ _ _ _ made hblocks hname =>
    refine ⟨warnings ++ made, .viewTransition ?_ hname⟩
    rw [transitionPart_warned]
    exact hblocks
  | marker => exact ⟨warnings, .marker⟩

end

section

variable {config : Config} {sheet : Sheet} {start left registry : Registry} {scope result : Scope}
  {front rest : List Definition} {d : Definition}

/-- So a whole run gives the same. -/
lemma compileFrom_warned {definitions : List Definition} (warnings : List Warning)
    (h : Sheet.compileFrom config sheet start scope definitions = (left, .ok result)) :
    ∃ behind, Sheet.compileFrom config sheet start (rewarned warnings scope) definitions =
      (left, .ok (rewarned behind result)) := by
  induction definitions generalizing start scope warnings with
  | nil =>
    cases h
    exact ⟨warnings, rfl⟩
  | cons d ds ih =>
    obtain ⟨outcome, hstep, h⟩ := compileFrom_cons h
    obtain ⟨made, hmade⟩ := step_warned warnings (compile_eq_ok_iff.1 hstep)
    obtain ⟨behind, hbehind⟩ := ih made h
    have hsame : Context.compile ⟨config, sheet, rewarned warnings scope⟩ d =
        .ok ⟨outcome.rules, rewarned made outcome.scope⟩ := compile_eq_ok_iff.2 hmade
    refine ⟨behind, ?_⟩
    rw [Sheet.compileFrom, hsame]
    exact hbehind

/-- The other definition is a definition of the same thing, and leaves the same behind up to its
warnings, at the given place. -/
structure ReplacedBy (c : Context) (d other : Definition) : Prop where
  key : other.body.key = d.body.key
  outcome : ∀ outcome, c.compile d = .ok outcome →
    ∃ warnings, c.compile other = .ok ⟨outcome.rules, rewarned warnings outcome.scope⟩

/-- A definition of a sheet that is replaced by one that leaves the same behind at its place leaves
all of the sheet the same, but for warnings. -/
lemma compileInto_replaced {styles : Styles} {other : Definition}
    (h : sheet.compileInto config start = (registry, .ok styles))
    (hsplit : sheet.definitions = front ++ d :: rest)
    (hfront : Sheet.compileFrom config sheet start {} front = (left, .ok scope))
    (hother : ReplacedBy ⟨config, sheet, scope⟩ d other) :
    ∃ warnings,
      Sheet.compileInto config { sheet with definitions := front ++ other :: rest } start =
        (registry, .ok { styles with warnings }) := by
  obtain ⟨hcheck, final, hrun, rfl⟩ := compileInto_eq_ok_iff.1 h
  obtain ⟨hvalid, hkeys⟩ := check_eq_ok_iff.1 hcheck
  rw [hsplit, compileFrom_append hfront] at hrun
  obtain ⟨outcome, hstep, hrest⟩ := compileFrom_cons hrun
  obtain ⟨made, hmade⟩ := hother.outcome outcome hstep
  obtain ⟨behind, hbehind⟩ := compileFrom_warned made hrest
  have hreplaced : Sheet.compileFrom config sheet start {} (front ++ other :: rest) =
      (registry, .ok (rewarned behind final)) := by
    rw [compileFrom_append hfront, Sheet.compileFrom, hmade]
    exact hbehind
  refine ⟨behind, ?_⟩
  rw [compileInto_eq_ok_iff]
  refine ⟨check_eq_ok_iff.2 ⟨hvalid, ?_⟩, _, compileFrom_sheet hreplaced _, rfl⟩
  have hsame : (front ++ other :: rest).map (fun e => e.body.key) =
      sheet.definitions.map fun e => e.body.key := by
    rw [hsplit, List.map_append, List.map_append, List.map_cons, List.map_cons, hother.key]
  rw [hsame]
  exact hkeys

end

end AtomicCss.Proofs
