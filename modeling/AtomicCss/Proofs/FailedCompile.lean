import AtomicCss.Proofs.Steps

/-!
# What a failed compilation leaves behind

A definition sees the rest of its sheet only when it fails: the sheet serves to say more about a
reference that leads nowhere. So definitions that compile give the same rules in every sheet, and a
sheet that fails at some definition leaves the registry as the definitions before it leave it.
-/

namespace AtomicCss.Proofs

variable {α β ε : Type}

/-- Where one computation succeeds, the other gives the same value with the same warnings. -/
def Follows (p q : Processing α) : Prop :=
  ∀ ws a ws', p ws = (.ok a, ws') → q ws = (.ok a, ws')

lemma Follows.refl (p : Processing α) : Follows p p :=
  fun _ _ _ h => h

lemma Follows.bind {p q : Processing α} {f g : α → Processing β} (hp : Follows p q)
    (hf : ∀ a, Follows (f a) (g a)) : Follows (p >>= f) (q >>= g) := by
  intro ws b ws' h
  change ExceptT.bindCont f (p ws).1 (p ws).2 = _ at h
  change ExceptT.bindCont g (q ws).1 (q ws).2 = _
  cases hr : p ws with
  | mk result warned =>
    rw [hr] at h
    cases result with
    | error e => cases h
    | ok a =>
      rw [hp ws a warned hr]
      exact hf a warned b ws' h

lemma Follows.mapM {f g : α → Processing β} (h : ∀ a, Follows (f a) (g a)) (xs : List α) :
    Follows (xs.mapM f) (xs.mapM g) := by
  induction xs with
  | nil => exact Follows.refl _
  | cons x xs ih =>
    rw [List.mapM_cons, List.mapM_cons]
    apply (h x).bind
    intro y
    apply ih.bind
    intro ys
    exact Follows.refl _

lemma follows_ofExcept {r s : Except StyleError α} (h : ∀ a, r = .ok a → s = .ok a) :
    Follows (Processing.ofExcept r) (Processing.ofExcept s) := by
  intro ws a ws' hr
  change (r, ws) = (.ok a, ws') at hr
  obtain ⟨hvalue, rfl⟩ := Prod.mk.inj hr
  exact Prod.ext (h a hvalue) rfl

lemma Follows.collect {p q : Processing α} (h : Follows p q) {a : α} {warned : List Warning}
    (hp : p.collect = (.ok a, warned)) : q.collect = (.ok a, warned) :=
  h [] a warned hp

lemma mapM_of_follows {f g : α → Except ε β} (h : ∀ a b, f a = .ok b → g a = .ok b)
    {xs : List α} {ys : List β} (hf : xs.mapM f = .ok ys) : xs.mapM g = .ok ys := by
  induction xs generalizing ys with
  | nil => exact hf
  | cons x xs ih =>
    rw [List.mapM_cons] at hf ⊢
    obtain ⟨y, hy, hf⟩ := bind_eq_ok hf
    obtain ⟨rest, hrest, hf⟩ := bind_eq_ok hf
    rw [h x y hy, ih hrest]
    exact hf

/-- The second context resolves the references that the first one resolves, each to the same. -/
def RefsFollow (c : Context) (label : String) (site : Site) (c' : Context) (label' : String)
    (site' : Site) : Prop :=
  ∀ r v, c.resolveReference label site r = .ok v → c'.resolveReference label' site' r = .ok v

section

variable {c c' : Context} {label label' : String} {site site' : Site}

lemma resolveScalar_mono (hrefs : RefsFollow c label site c' label' site') {value result : Scalar}
    (h : c.resolveScalar label site value = .ok result) :
    c'.resolveScalar label' site' value = .ok result := by
  cases value with
  | ref r => exact hrefs r result h
  | _ => exact h

mutual

/-- So it resolves the values that the first one resolves. -/
lemma resolveValue_mono (hrefs : RefsFollow c label site c' label' site') :
    ∀ {value result : Value}, c.resolveValue label site value = .ok result →
      c'.resolveValue label' site' value = .ok result
  | .unset, _, h => h
  | .scalar _, _, h => by
    obtain ⟨found, hfound, rfl⟩ := map_eq_ok h
    rw [Context.resolveValue, resolveScalar_mono hrefs hfound]
    rfl
  | .map _, _, h => by
    obtain ⟨found, hfound, rfl⟩ := map_eq_ok h
    rw [Context.resolveValue, resolveEntries_mono hrefs hfound]
    rfl
  | .fallback _, _, h => by
    obtain ⟨found, hfound, rfl⟩ := map_eq_ok h
    rw [Context.resolveValue, mapM_of_follows (fun _ _ => resolveScalar_mono hrefs) hfound]
    rfl
  | .firstThatWorks _, _, h => by
    obtain ⟨found, hfound, rfl⟩ := map_eq_ok h
    rw [Context.resolveValue, mapM_of_follows (fun _ _ => resolveScalar_mono hrefs) hfound]
    rfl

lemma resolveEntries_mono (hrefs : RefsFollow c label site c' label' site') :
    ∀ {entries result : List (String × Value)},
      c.resolveEntries label site entries = .ok result →
      c'.resolveEntries label' site' entries = .ok result
  | [], _, h => h
  | (_, _) :: _, _, h => by
    obtain ⟨value, hvalue, h⟩ := bind_eq_ok h
    obtain ⟨rest, hrest, h⟩ := bind_eq_ok h
    rw [Context.resolveEntries, resolveValue_mono hrefs hvalue, resolveEntries_mono hrefs hrest]
    exact h

end

end

section

open Context

variable {c : Context} (s : Sheet) {definition : String} {site : Site}

lemma refsFollow_sheet :
    RefsFollow c definition site { c with sheet := s } definition site := by
  intro r value h
  have hfind : Context.find? { c with sheet := s } r = c.find? r := rfl
  unfold Context.resolveReference at h ⊢
  rw [hfind]
  cases hf : c.find? r with
  | some found =>
    rw [hf] at h
    exact h
  | none =>
    rw [hf] at h
    dsimp only at h
    split at h <;> cases h

lemma resolveValue_sheet {value result : Value}
    (h : c.resolveValue definition site value = .ok result) :
    Context.resolveValue { c with sheet := s } definition site value = .ok result :=
  resolveValue_mono (refsFollow_sheet s) h

lemma included_sheet {name : String} {declarations : Declarations}
    (h : c.included definition site name = .ok declarations) :
    Context.included { c with sheet := s } definition site name = .ok declarations := by
  unfold Context.included at h ⊢
  cases hg : c.scope.declarations.get? name with
  | some found =>
    rw [hg] at h
    exact h
  | none =>
    rw [hg] at h
    dsimp only at h
    split at h <;> cases h

lemma declarationsOf_sheet {item : ClassItem} {declarations : Declarations}
    (h : c.declarationsOf definition site item = .ok declarations) :
    Context.declarationsOf { c with sheet := s } definition site item = .ok declarations := by
  cases item with
  | property name value =>
    obtain ⟨found, hfound, rfl⟩ := map_eq_ok h
    rw [Context.declarationsOf, resolveValue_sheet s hfound]
    rfl
  | splice name => exact included_sheet s h

lemma plainDeclaration_sheet (item : String × Value) :
    Follows (c.plainDeclaration definition site item)
      (Context.plainDeclaration { c with sheet := s } definition site item) := by
  apply (Follows.refl _).bind
  intro _
  apply (follows_ofExcept fun _ => resolveValue_sheet s).bind
  intro value
  exact Follows.refl _

lemma plainBlock_sheet (declarations : Declarations) :
    Follows (c.plainBlock definition site declarations)
      (Context.plainBlock { c with sheet := s } definition site declarations) := by
  apply (Follows.mapM (plainDeclaration_sheet s) declarations).bind
  intro _
  exact Follows.refl _

lemma resolvedVar_sheet {space name : String} {value : Value}
    {result : String × List (Option String × String)}
    (h : c.resolvedVar definition site space name value = .ok result) :
    Context.resolvedVar { c with sheet := s } definition site space name value = .ok result := by
  obtain ⟨found, hfound, h⟩ := bind_eq_ok h
  unfold Context.resolvedVar
  dsimp only
  rw [resolveValue_sheet s hfound]
  exact h

lemma groupVar_sheet {space : String} {vars : List (String × Var)} {item : String × Var}
    {result : String × Option VarType × List (Option String × String)}
    (h : groupVar c space site vars item = .ok result) :
    groupVar { c with sheet := s } space site vars item = .ok result := by
  obtain ⟨found, hfound, h⟩ := bind_eq_ok h
  have hvar := resolvedVar_sheet s hfound
  unfold groupVar inGroup
  dsimp only [inGroup] at hvar ⊢
  rw [hvar]
  exact h

lemma frameBlock_sheet (frame : String × Declarations) :
    Follows (frameBlock c definition site frame)
      (frameBlock { c with sheet := s } definition site frame) := by
  apply (plainBlock_sheet s frame.2).bind
  intro _
  exact Follows.refl _

lemma transitionPart_sheet (part : String × Declarations) :
    Follows (c.transitionPart definition site part)
      (Context.transitionPart { c with sheet := s } definition site part) := by
  apply (Follows.refl _).bind
  intro _
  apply (plainBlock_sheet s part.2).bind
  intro _
  exact Follows.refl _

lemma compileConsts_sheet {space : String} {scope result : Scope}
    {values : List (String × Scalar)}
    (h : c.compileConsts space site scope values = .ok result) :
    Context.compileConsts { c with sheet := s } space site scope values = .ok result := by
  induction values generalizing scope with
  | nil => exact h
  | cons item rest ih =>
    obtain ⟨value, hvalue, h⟩ := bind_eq_ok h
    have hsame := resolveScalar_mono (refsFollow_sheet s) hvalue
    rw [Context.compileConsts]
    dsimp only at hsame ⊢
    rw [hsame]
    exact ih h

/-- A definition that compiles gives the same in every sheet. -/
lemma compile_sheet {d : Definition} {outcome : Outcome} (h : c.compile d = .ok outcome) :
    Context.compile { c with sheet := s } d = .ok outcome := by
  rw [compile_eq_ok_iff] at h ⊢
  cases h with
  | staticClass hparts hentries =>
    exact .staticClass (mapM_of_follows (fun _ _ => declarationsOf_sheet s) hparts) hentries
  | dynamicClass hcompiled => exact .dynamicClass hcompiled
  | vars hnew hresolved =>
    exact .vars hnew (mapM_of_follows (fun _ _ => groupVar_sheet s) hresolved)
  | consts hscope => exact .consts (compileConsts_sheet s hscope)
  | theme hgroup hnames hresolved hname =>
    exact .theme hgroup hnames (mapM_of_follows (fun _ _ => resolvedVar_sheet s) hresolved) hname
  | keyframes hblocks hname =>
    exact .keyframes ((Follows.mapM (frameBlock_sheet s) _).collect hblocks) hname
  | positionTry hallowed hbody hname =>
    exact .positionTry hallowed ((plainBlock_sheet s _).collect hbody) hname
  | viewTransition hblocks hname =>
    exact .viewTransition ((Follows.mapM (transitionPart_sheet s) _).collect hblocks) hname
  | marker => exact .marker

end

section

variable {config : Config} {sheet : Sheet} {start left : Registry} {scope result : Scope}

/-- Definitions that compile one after the other do so in every sheet. -/
lemma compileFrom_sheet {definitions : List Definition}
    (h : Sheet.compileFrom config sheet start scope definitions = (left, .ok result))
    (other : Sheet) :
    Sheet.compileFrom config other start scope definitions = (left, .ok result) := by
  induction definitions generalizing start scope with
  | nil => exact h
  | cons d ds ih =>
    obtain ⟨outcome, hstep, h⟩ := compileFrom_cons h
    have hsame := compile_sheet other hstep
    dsimp only at hsame
    rw [Sheet.compileFrom, hsame]
    exact ih h

/-- A run that fails has compiled what stands before the definition that fails. -/
lemma split_of_failure {definitions : List Definition} {e : StyleError}
    (h : Sheet.compileFrom config sheet start scope definitions = (left, .error e)) :
    ∃ front d rest scope', definitions = front ++ d :: rest ∧
      Sheet.compileFrom config sheet start scope front = (left, .ok scope') ∧
      Context.compile ⟨config, sheet, scope'⟩ d = .error e := by
  induction definitions generalizing start scope with
  | nil => cases h
  | cons d ds ih =>
    rw [Sheet.compileFrom] at h
    split at h
    · rename_i hstep
      cases h
      exact ⟨[], d, ds, scope, rfl, rfl, hstep⟩
    · rename_i outcome hstep
      obtain ⟨front, failing, rest, scope', rfl, hfront, hfails⟩ := ih h
      refine ⟨d :: front, failing, rest, scope', rfl, ?_, hfails⟩
      rw [Sheet.compileFrom, hstep]
      exact hfront

end

/-- The sheet that ends before place `k`. -/
def upTo (sheet : Sheet) (k : Nat) : Sheet :=
  { sheet with definitions := sheet.definitions.take k }

/-- The definitions before place `k` compile, and behind them the one at `k` fails. -/
def FailsAt (config : Config) (sheet : Sheet) (start : Registry) (k : Nat) (e : StyleError) :
    Prop :=
  ∃ d left scope, sheet.definitions[k]? = some d ∧
    Sheet.compileFrom config sheet start {} (sheet.definitions.take k) = (left, .ok scope) ∧
    Context.compile ⟨config, sheet, scope⟩ d = .error e

lemma repeatedIn?_eq_none_iff {seen : List (Body.Kind × String × String)}
    {definitions : List Definition} : Sheet.repeatedIn? seen definitions = none ↔
      (definitions.map fun d => d.body.key).Nodup ∧ ∀ d ∈ definitions, d.body.key ∉ seen := by
  induction definitions generalizing seen with
  | nil => simp [Sheet.repeatedIn?]
  | cons d ds ih =>
    rw [Sheet.repeatedIn?]
    by_cases hd : d.body.key ∈ seen
    · simp [hd]
    · rw [if_neg (by simpa using hd), ih, List.map_cons, List.nodup_cons, List.forall_mem_cons]
      simp only [List.mem_cons, not_or, List.mem_map]
      grind

lemma check_eq_ok_iff {config : Config} {sheet : Sheet} : sheet.check config = .ok () ↔
    config.validate = .ok () ∧ (sheet.definitions.map fun d => d.body.key).Nodup := by
  have hkeys : sheet.repeated? = none ↔ (sheet.definitions.map fun d => d.body.key).Nodup := by
    rw [Sheet.repeated?, repeatedIn?_eq_none_iff]
    simp
  rw [← hkeys]
  constructor
  · intro h
    obtain ⟨_, hvalid, h⟩ := bind_eq_ok h
    refine ⟨hvalid, ?_⟩
    split at h
    · cases h
    · assumption
  · rintro ⟨hvalid, hnone⟩
    unfold Sheet.check
    rw [hvalid, hnone]
    rfl

lemma check_upTo {config : Config} {sheet : Sheet} (h : sheet.check config = .ok ()) (k : Nat) :
    (upTo sheet k).check config = .ok () := by
  rw [check_eq_ok_iff] at h ⊢
  exact ⟨h.1, h.2.sublist ((List.take_sublist k _).map _)⟩

/-- A sheet compiles if nothing can be said against it and its definitions compile. -/
lemma compileInto_eq_ok_iff {config : Config} {sheet : Sheet} {start registry : Registry}
    {styles : Styles} : sheet.compileInto config start = (registry, .ok styles) ↔
      sheet.check config = .ok () ∧ ∃ scope,
        Sheet.compileFrom config sheet start {} sheet.definitions = (registry, .ok scope) ∧
        styles = { scope.styles with rules := Stylesheet.emit registry config.layers } := by
  unfold Sheet.compileInto
  cases hcheck : sheet.check config with
  | error e => simp
  | ok _ =>
    cases hrun : Sheet.compileFrom config sheet start {} sheet.definitions with
    | mk left result =>
      cases result with
      | error e => simp [Except.map]
      | ok scope =>
        simp only [Except.map, Prod.mk.injEq, Except.ok.injEq, true_and]
        constructor
        · rintro ⟨rfl, rfl⟩
          exact ⟨scope, ⟨rfl, rfl⟩, rfl⟩
        · rintro ⟨scope', ⟨rfl, rfl⟩, rfl⟩
          exact ⟨rfl, rfl⟩

/-- Compilation is all or nothing for each definition. A sheet that is refused as a whole leaves the
registry alone; one that fails at a definition leaves what the definitions before it, compiled as a
sheet of their own, leave; and there is no other way to fail. -/
theorem compileInto_allOrNothing (config : Config) (sheet : Sheet) (start : Registry) :
    (∀ e, sheet.check config = .error e →
      sheet.compileInto config start = (start, .error e)) ∧
    (∀ k e, sheet.check config = .ok () → FailsAt config sheet start k e →
      ∃ left styles, (upTo sheet k).compileInto config start = (left, .ok styles) ∧
        sheet.compileInto config start = (left, .error e)) ∧
    (∀ left e, sheet.compileInto config start = (left, .error e) →
      sheet.check config = .error e ∨
        sheet.check config = .ok () ∧ ∃ k, FailsAt config sheet start k e) := by
  refine ⟨?_, ?_, ?_⟩
  · intro e hcheck
    unfold Sheet.compileInto
    rw [hcheck]
  · rintro k e hcheck ⟨d, left, scope, hd, hfront, hfails⟩
    have hsplit : sheet.definitions = sheet.definitions.take k ++
        d :: sheet.definitions.drop (k + 1) := by
      obtain ⟨hk, rfl⟩ := List.getElem?_eq_some_iff.1 hd
      rw [← List.drop_eq_getElem_cons hk, List.take_append_drop]
    have hwhole : Sheet.compileFrom config sheet start {} sheet.definitions = (left, .error e) := by
      rw [hsplit, compileFrom_append hfront, Sheet.compileFrom, hfails]
    have halone := compileFrom_sheet hfront (upTo sheet k)
    refine ⟨left, { scope.styles with rules := Stylesheet.emit left config.layers }, ?_, ?_⟩
    · have hdefinitions : (upTo sheet k).definitions = sheet.definitions.take k := rfl
      unfold Sheet.compileInto
      rw [check_upTo hcheck]
      dsimp only
      rw [hdefinitions, halone]
      rfl
    · unfold Sheet.compileInto
      rw [hcheck]
      dsimp only
      rw [hwhole]
      rfl
  · intro left e h
    unfold Sheet.compileInto at h
    cases hcheck : sheet.check config with
    | error other =>
      rw [hcheck] at h
      cases h
      exact .inl rfl
    | ok _ =>
      rw [hcheck] at h
      dsimp only at h
      obtain ⟨hleft, hresult⟩ := Prod.mk.inj h
      have hrun : Sheet.compileFrom config sheet start {} sheet.definitions = (left, .error e) := by
        apply Prod.ext hleft
        cases hr : (Sheet.compileFrom config sheet start {} sheet.definitions).2 with
        | error other =>
          rw [hr] at hresult
          cases hresult
          rfl
        | ok scope =>
          rw [hr] at hresult
          cases hresult
      obtain ⟨front, d, rest, scope, hsplit, hfront, hfails⟩ := split_of_failure hrun
      refine .inr ⟨rfl, front.length, d, left, scope, ?_, ?_, hfails⟩
      · rw [hsplit]
        simp
      · rw [hsplit, List.take_left]
        exact hfront

/-- A class, and behind it one whose second value is a string that is not closed. -/
def redThenUnclosed : Sheet :=
  (Sheet.empty.define (.staticClass "one" [.property "color" (.scalar (.text "red"))])).define
    (.staticClass "two" [.property "opacity" (.scalar (.text "0")),
      .property "content" (.scalar (.text "a")), .property "color" (.scalar (.text "\""))])

lemma redThenUnclosed_failsAt : ∃ e, FailsAt {} redThenUnclosed .empty 1 e := by
  have hfails : (match Sheet.compileFrom {} redThenUnclosed .empty {}
      (redThenUnclosed.definitions.take 1) with
    | (_, .ok scope) => redThenUnclosed.definitions[1]?.all fun d =>
        !(Context.compile ⟨{}, redThenUnclosed, scope⟩ d).isOk
    | (_, .error _) => false) = true := by
    decide +kernel
  cases hfront : Sheet.compileFrom {} redThenUnclosed .empty {}
      (redThenUnclosed.definitions.take 1) with
  | mk left result =>
    rw [hfront] at hfails
    cases result with
    | error e => cases hfails
    | ok scope =>
      cases hsecond : redThenUnclosed.definitions[1]? with
      | none => cases hsecond
      | some d =>
        rw [hsecond] at hfails
        cases hd : Context.compile ⟨{}, redThenUnclosed, scope⟩ d with
        | error e => exact ⟨e, d, left, scope, hsecond, hfront, hd⟩
        | ok outcome =>
          change (!(Context.compile ⟨{}, redThenUnclosed, scope⟩ d).isOk) = true at hfails
          rw [hd] at hfails
          cases hfails

theorem compileInto_allOrNothing_unclosed :
    ∃ e left styles, (upTo redThenUnclosed 1).compileInto {} .empty = (left, .ok styles) ∧
      redThenUnclosed.compileInto {} .empty = (left, .error e) ∧
      left.rules.map (fun r => r.2.css) = [".x59c6b15\x7bcolor:red\x7d"] := by
  obtain ⟨e, hfails⟩ := redThenUnclosed_failsAt
  have hcheck : (redThenUnclosed.check {}).isOk = true := by decide +kernel
  obtain ⟨_, hcheck⟩ := eq_ok_of_isOk hcheck
  obtain ⟨_, hstep, _⟩ := compileInto_allOrNothing {} redThenUnclosed .empty
  obtain ⟨left, styles, halone, hwhole⟩ := hstep 1 e hcheck hfails
  refine ⟨e, left, styles, halone, hwhole, ?_⟩
  have hrules : (redThenUnclosed.compileInto {} .empty).1.rules.map (fun r => r.2.css) =
      [".x59c6b15\x7bcolor:red\x7d"] := by
    decide +kernel
  rw [hwhole] at hrules
  exact hrules

end AtomicCss.Proofs
