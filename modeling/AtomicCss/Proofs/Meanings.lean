import AtomicCss.Proofs.FailedCompile
import AtomicCss.Proofs.Lookups
import Mathlib.Data.List.Induction

/-!
# What targets stand for

A target stands for a value, or for an identity that is hashed into a name. A definition that
compiles enters its targets into the tables of the scope and leaves all other keys alone. So what a
table holds under a key comes from the last definition that has a target with this key.
-/

namespace AtomicCss.Proofs

open Keyed Context

/-- Whether targets of a kind have namespaces. -/
def isSpaced : ReferenceKind → Bool
  | .var | .const | .marker => true
  | .keyframes | .positionTry | .viewTransition => false

/-- The text under which a target is entered. -/
def tableKey (kind : ReferenceKind) (target : String × String) : String :=
  if isSpaced kind then qualified target.1 target.2 else target.2

def tableKeys (kind : ReferenceKind) (d : Definition) : List String :=
  (d.body.defines kind).map (tableKey kind)

/-- What is entered under a key. -/
def lookup (scope : Scope) : ReferenceKind → String → Option Scalar
  | .var, key => (get? scope.styles.vars key).map fun var => .text ("var(" ++ var ++ ")")
  | .const, key => get? scope.consts key
  | .keyframes, key => (get? scope.styles.keyframes key).map .text
  | .positionTry, key => (get? scope.styles.positionTries key).map .text
  | .viewTransition, key => (get? scope.styles.viewTransitions key).map .text
  | .marker, key => (get? scope.styles.markers key).map .text

lemma find?_eq_lookup (c : Context) (r : Reference) :
    c.find? r = lookup c.scope r.kind r.qualifiedName := by
  obtain ⟨kind, space, name⟩ := r
  cases kind <;> rfl

/-- What a target stands for: a value, or a text whose digest stands between two others. -/
inductive Meaning
  | value (value : Scalar)
  | hashed (before digested after : String)

def Meaning.scalar (start : String) : Meaning → Scalar
  | value v => v
  | hashed before digested after => .text (before ++ Naming.contentName start digested ++ after)

/-- What a definition makes its targets stand for. Variables and markers go by their names, a
constant by the last value that is given to it, and everything else by what it contains. -/
inductive Means (c : Context) :
    Definition → ReferenceKind → String × String → Meaning → Prop
  | var {site : Site} {space name : String} {vars : List (String × Var)} :
    name ∈ vars.map Prod.fst →
    Means c ⟨site, .vars space vars⟩ .var (space, name)
      (.hashed "var(--" (qualified space name) ")")
  | const {site : Site} {space name : String} {before after : List (String × Scalar)}
    {written value : Scalar} {scope : Scope} : name ∉ after.map Prod.fst →
    c.compileConsts space site c.scope before = .ok scope →
    Context.resolveScalar { c with scope } (qualified space name) site written = .ok value →
    Means c ⟨site, .consts space (before ++ (name, written) :: after)⟩ .const (space, name)
      (.value value)
  | keyframes {site : Site} {name : String} {frames : List (String × Declarations)}
    {blocks : List String} : (frames.mapM (frameBlock c name site)).collect.1 = .ok blocks →
    Means c ⟨site, .keyframes name frames⟩ .keyframes ("", name)
      (.hashed "" (String.join blocks) "-B")
  | positionTry {site : Site} {name body : String} {declarations : Declarations} :
    (c.plainBlock name site declarations).collect.1 = .ok body →
    Means c ⟨site, .positionTry name declarations⟩ .positionTry ("", name) (.hashed "--" body "")
  | viewTransition {site : Site} {name : String} {parts : List (String × Declarations)}
    {blocks : List (String × String)} :
    (parts.mapM (c.transitionPart name site)).collect.1 = .ok blocks →
    Means c ⟨site, .viewTransition name parts⟩ .viewTransition ("", name)
      (.hashed "" ("view-transition:" ++
        String.join ((orderedParts blocks).map fun block => braced block.1 block.2)) "")
  | marker {site : Site} {space name : String} :
    Means c ⟨site, .marker space name⟩ .marker (space, name)
      (.hashed "" ("marker:" ++ qualified space name) "")

lemma Means.mem_defines {c : Context} {d : Definition} {kind : ReferenceKind}
    {target : String × String} {m : Meaning} (h : Means c d kind target m) :
    target ∈ d.body.defines kind := by
  cases h with
  | var hname =>
    obtain ⟨item, hitem, rfl⟩ := List.mem_map.1 hname
    exact List.mem_map.2 ⟨item, hitem, rfl⟩
  | const => simp [Body.defines]
  | keyframes => simp [Body.defines]
  | positionTry => simp [Body.defines]
  | viewTransition => simp [Body.defines]
  | marker => simp [Body.defines]

/-- A scope that holds what a definition makes its targets stand for, and otherwise what was known
before. -/
structure Learns (c : Context) (d : Definition) (scope : Scope) : Prop where
  others : ∀ kind key, key ∉ tableKeys kind d → lookup scope kind key = lookup c.scope kind key
  meaning : ∀ kind, ∀ target ∈ d.body.defines kind, ∃ m, Means c d kind target m
  entered : ∀ kind target m, Means c d kind target m →
    lookup scope kind (tableKey kind target) = some (m.scalar c.config.classStart)

lemma qualified_inj {space name other : String} :
    qualified space name = qualified space other ↔ name = other :=
  String.append_right_inj _

/-- The last item of a list with some property. -/
lemma exists_last {α : Type} (P : α → Prop) {xs : List α} (h : ∃ x ∈ xs, P x) :
    ∃ before x after, xs = before ++ x :: after ∧ P x ∧ ∀ y ∈ after, ¬P y := by
  induction xs with
  | nil =>
    obtain ⟨x, hx, _⟩ := h
    cases hx
  | cons head rest ih =>
    by_cases hrest : ∃ x ∈ rest, P x
    · obtain ⟨before, x, after, rfl, hx, hafter⟩ := ih hrest
      exact ⟨head :: before, x, after, rfl, hx, hafter⟩
    · obtain ⟨x, hx, hp⟩ := h
      rcases List.mem_cons.1 hx with rfl | hx
      · exact ⟨[], x, rest, rfl, hp, fun y hy hy' => hrest ⟨y, hy, hy'⟩⟩
      · exact (hrest ⟨x, hx, hp⟩).elim

section

variable {c : Context} {site : Site} {space name : String} {outcome : Outcome}

lemma learns_inGroup (c : Context) (site : Site) (space : String) (vars : List (String × Var)) :
    Learns c ⟨site, .vars space vars⟩ (inGroup c space vars).scope := by
  constructor
  · intro kind key hkey
    cases kind with
    | var =>
      have hfree : key ∉ keys ((vars.map Prod.fst).map fun name =>
          (qualified space name, Naming.varName c.config.classStart space name)) := by
        simpa [keys, tableKeys, Body.defines, tableKey, isSpaced] using hkey
      change (get? (putAll c.scope.styles.vars _) key).map _ = _
      rw [get?_putAll_of_notMem hfree]
      rfl
    | _ => rfl
  · intro kind target htarget
    cases kind with
    | var =>
      obtain ⟨item, hitem, rfl⟩ := List.mem_map.1 htarget
      exact ⟨_, .var (List.mem_map_of_mem hitem)⟩
    | _ => cases htarget
  · intro kind target m hm
    cases hm with
    | @var _ _ name _ hname =>
      have hentered : get? (putAll c.scope.styles.vars ((vars.map Prod.fst).map fun name =>
          (qualified space name, Naming.varName c.config.classStart space name)))
            (qualified space name) = some (Naming.varName c.config.classStart space name) := by
        apply get?_putAll_of_forall
        · exact List.mem_map.2 ⟨_, List.mem_map_of_mem hname, rfl⟩
        · intro item hitem heq
          obtain ⟨other, _, rfl⟩ := List.mem_map.1 hitem
          rw [qualified_inj.1 heq]
      change (get? (putAll c.scope.styles.vars _) (qualified space name)).map _ = _
      have hjoin : "var(" ++ "--" = "var(--" := rfl
      rw [hentered]
      simp only [Naming.varName, Meaning.scalar, Option.map_some, ← String.append_assoc, hjoin]

lemma get?_consts_of_compileConsts {scope result : Scope} {values : List (String × Scalar)}
    (h : c.compileConsts space site scope values = .ok result) {key : String}
    (hkey : ∀ item ∈ values, qualified space item.1 ≠ key) :
    get? result.consts key = get? scope.consts key := by
  induction values generalizing scope with
  | nil =>
    cases h
    rfl
  | cons item rest ih =>
    obtain ⟨value, _, h⟩ := bind_eq_ok h
    rw [ih h fun other ho => hkey other (List.mem_cons_of_mem _ ho), get?_put,
      if_neg fun heq => hkey item List.mem_cons_self heq.symm]

lemma learns_of_compileConsts {values : List (String × Scalar)} {result : Scope}
    (h : c.compileConsts space site c.scope values = .ok result) :
    Learns c ⟨site, .consts space values⟩ result := by
  constructor
  · intro kind key hkey
    cases kind with
    | const =>
      apply get?_consts_of_compileConsts h
      rintro item hitem rfl
      exact hkey (List.mem_map.2 ⟨(space, item.1), List.mem_map.2 ⟨item, hitem, rfl⟩, rfl⟩)
    | _ =>
      obtain ⟨consts, rfl⟩ := scope_of_compileConsts h
      rfl
  · intro kind target htarget
    cases kind with
    | const =>
      obtain ⟨item, hitem, rfl⟩ := List.mem_map.1 htarget
      obtain ⟨before, ⟨name, written⟩, after, rfl, heq, hlast⟩ :=
        exists_last (fun other => other.1 = item.1) ⟨item, hitem, rfl⟩
      obtain ⟨scope, hscope, hrest⟩ := compileConsts_split h
      obtain ⟨value, hvalue, _⟩ := bind_eq_ok hrest
      subst heq
      refine ⟨.value value, .const ?_ hscope hvalue⟩
      rw [List.mem_map]
      rintro ⟨other, hother, heq⟩
      exact hlast other hother heq
    | _ => cases htarget
  · intro kind target m hm
    cases hm with
    | @const _ _ name before after written value scope hlast hscope hvalue =>
      rw [compileConsts_append hscope] at h
      obtain ⟨value', hvalue', h⟩ := bind_eq_ok h
      obtain rfl : value' = value := Except.ok.inj (hvalue'.symm.trans hvalue)
      change get? result.consts (qualified space name) = _
      rw [get?_consts_of_compileConsts h, get?_put, if_pos rfl]
      · rfl
      · intro item hitem heq
        rw [qualified_inj] at heq
        exact hlast (List.mem_map.2 ⟨item, hitem, heq⟩)

lemma get?_put_text (table : List (String × String)) (name given key : String) :
    (get? (put table name given) key).map Scalar.text =
      if key = name then some (.text given) else (get? table key).map Scalar.text := by
  rw [get?_put]
  split <;> rfl

/-- The common part of definitions with one target, which has no namespace. -/
lemma learns_of_named (kind : ReferenceKind) {body : Body} {scope : Scope} {m : Meaning}
    (hspaced : isSpaced kind = false)
    (hdefines : ∀ k, body.defines k = if k = kind then [("", name)] else [])
    (hothers : ∀ k key, lookup scope k key =
      if k = kind ∧ key = name then some (m.scalar c.config.classStart)
      else lookup c.scope k key)
    (hmeans : Means c ⟨site, body⟩ kind ("", name) m)
    (honly : ∀ m', Means c ⟨site, body⟩ kind ("", name) m' → m' = m) :
    Learns c ⟨site, body⟩ scope := by
  have hkey : tableKey kind ("", name) = name := by simp [tableKey, hspaced]
  constructor
  · intro k key hnot
    rw [hothers, if_neg]
    rintro ⟨rfl, rfl⟩
    apply hnot
    simp [tableKeys, hdefines, hkey]
  · intro k target htarget
    rw [hdefines] at htarget
    split at htarget
    · rename_i heq
      obtain rfl := List.mem_singleton.1 htarget
      subst heq
      exact ⟨m, hmeans⟩
    · cases htarget
  · intro k target m' hm'
    have htarget := hm'.mem_defines
    rw [hdefines] at htarget
    split at htarget
    · rename_i heq
      obtain rfl := List.mem_singleton.1 htarget
      subst heq
      rw [honly m' hm', hkey, hothers, if_pos ⟨rfl, rfl⟩]
    · cases htarget

lemma learns_of_keyframes {frames : List (String × Declarations)} {blocks : List String}
    {warnings : List Warning} {rule : NamedRule}
    (h : (frames.mapM (frameBlock c name site)).collect = (.ok blocks, warnings)) :
    Learns c ⟨site, .keyframes name frames⟩ (c.named warnings rule fun styles =>
      { styles with
        keyframes := put styles.keyframes name
          (Naming.contentName c.config.classStart (String.join blocks) ++ "-B") }).scope := by
  have hblocks := congrArg Prod.fst h
  apply learns_of_named .keyframes rfl (fun _ => rfl) ?_ (.keyframes hblocks)
  · intro m' hm'
    cases hm' with
    | keyframes hblocks' => rw [Except.ok.inj (hblocks'.symm.trans hblocks)]
  · intro k key
    cases k with
    | keyframes =>
      change (get? (put c.scope.styles.keyframes _ _) key).map Scalar.text = _
      rw [get?_put_text]
      simp [Meaning.scalar, lookup]
    | _ => rfl

lemma learns_of_positionTry {declarations : Declarations} {body : String}
    {warnings : List Warning} {rule : NamedRule}
    (h : (c.plainBlock name site declarations).collect = (.ok body, warnings)) :
    Learns c ⟨site, .positionTry name declarations⟩ (c.named warnings rule fun styles =>
      { styles with
        positionTries := put styles.positionTries name
          ("--" ++ Naming.contentName c.config.classStart body) }).scope := by
  have hbody := congrArg Prod.fst h
  apply learns_of_named .positionTry rfl (fun _ => rfl) ?_ (.positionTry hbody)
  · intro m' hm'
    cases hm' with
    | positionTry hbody' => rw [Except.ok.inj (hbody'.symm.trans hbody)]
  · intro k key
    cases k with
    | positionTry =>
      change (get? (put c.scope.styles.positionTries _ _) key).map Scalar.text = _
      rw [get?_put_text]
      simp [Meaning.scalar, lookup]
    | _ => rfl

lemma learns_of_viewTransition {parts : List (String × Declarations)}
    {blocks : List (String × String)} {warnings : List Warning} {rule : NamedRule}
    (h : (parts.mapM (c.transitionPart name site)).collect = (.ok blocks, warnings)) :
    Learns c ⟨site, .viewTransition name parts⟩ (c.named warnings rule fun styles =>
      { styles with
        viewTransitions := put styles.viewTransitions name
          (Naming.contentName c.config.classStart ("view-transition:" ++
            String.join ((orderedParts blocks).map fun block => braced block.1 block.2))) }).scope := by
  have hblocks := congrArg Prod.fst h
  apply learns_of_named .viewTransition rfl (fun _ => rfl) ?_ (.viewTransition hblocks)
  · intro m' hm'
    cases hm' with
    | viewTransition hblocks' => rw [Except.ok.inj (hblocks'.symm.trans hblocks)]
  · intro k key
    cases k with
    | viewTransition =>
      change (get? (put c.scope.styles.viewTransitions _ _) key).map Scalar.text = _
      rw [get?_put_text]
      simp [Meaning.scalar, lookup]
    | _ => rfl

lemma learns_of_marker :
    Learns c ⟨site, .marker space name⟩
      { c.scope with
        styles :=
          { c.scope.styles with
            markers := put c.scope.styles.markers (qualified space name)
              (Naming.markerClass c.config.classStart space name) } } := by
  constructor
  · intro kind key hkey
    cases kind with
    | marker =>
      change (get? (put c.scope.styles.markers _ _) key).map Scalar.text = _
      rw [get?_put, if_neg]
      · rfl
      · rintro rfl
        exact hkey (by simp [tableKeys, Body.defines, tableKey, isSpaced])
    | _ => rfl
  · intro kind target htarget
    cases kind with
    | marker =>
      obtain rfl := List.mem_singleton.1 htarget
      exact ⟨_, .marker⟩
    | _ => cases htarget
  · intro kind target m hm
    cases hm with
    | marker =>
      change (get? (put c.scope.styles.markers _ _) (qualified space name)).map Scalar.text = _
      rw [get?_put, if_pos rfl]
      simp [Meaning.scalar, Naming.markerClass]

/-- A definition that compiles enters its targets. -/
lemma learns_of_compile {d : Definition} (h : c.compile d = .ok outcome) :
    Learns c d outcome.scope := by
  cases compile_eq_ok_iff.1 h with
  | staticClass | dynamicClass | theme =>
    refine ⟨?_, nofun, nofun⟩
    intro kind key _
    cases kind <;> rfl
  | vars => exact learns_inGroup c _ _ _
  | consts hscope => exact learns_of_compileConsts hscope
  | keyframes hblocks hname =>
    subst hname
    exact learns_of_keyframes hblocks
  | positionTry _ hbody hname =>
    subst hname
    exact learns_of_positionTry hbody
  | viewTransition hblocks hname =>
    subst hname
    exact learns_of_viewTransition hblocks
  | marker => exact learns_of_marker

end

/-- A definition among these, compiled behind those before it, makes a target stand for this. -/
def StandsFor (config : Config) (sheet : Sheet) (start : Registry) (definitions : List Definition)
    (kind : ReferenceKind) (target : String × String) (m : Meaning) : Prop :=
  ∃ before d after left scope, definitions = before ++ d :: after ∧
    Sheet.compileFrom config sheet start {} before = (left, .ok scope) ∧
    Means ⟨config, sheet, scope⟩ d kind target m

/-- The tables of a scope hold what these definitions make their targets stand for, and of targets
with one key what the last one stands for. -/
structure Knows (config : Config) (sheet : Sheet) (start : Registry)
    (definitions : List Definition) (scope : Scope) : Prop where
  unknown : ∀ kind key, (∀ d ∈ definitions, key ∉ tableKeys kind d) → lookup scope kind key = none
  meaning : ∀ kind, ∀ d ∈ definitions, ∀ target ∈ d.body.defines kind,
    ∃ m, StandsFor config sheet start definitions kind target m
  entered : ∀ before d after left scope₀ kind target m, definitions = before ++ d :: after →
    Sheet.compileFrom config sheet start {} before = (left, .ok scope₀) →
    Means ⟨config, sheet, scope₀⟩ d kind target m →
    (∀ d' ∈ after, tableKey kind target ∉ tableKeys kind d') →
    lookup scope kind (tableKey kind target) = some (m.scalar config.classStart)

section

variable {config : Config} {sheet : Sheet} {start left : Registry} {front : List Definition}
  {d : Definition} {scope scope' : Scope}

lemma Knows.snoc (hfront : Sheet.compileFrom config sheet start {} front = (left, .ok scope))
    (h : Knows config sheet start front scope) (hd : Learns ⟨config, sheet, scope⟩ d scope') :
    Knows config sheet start (front ++ [d]) scope' := by
  constructor
  · intro kind key hkey
    rw [hd.others kind key (hkey d (by simp))]
    exact h.unknown kind key fun e he => hkey e (List.mem_append_left _ he)
  · intro kind e he target htarget
    rcases List.mem_append.1 he with he | he
    · obtain ⟨m, before, e', after, left', scope₀, rfl, hbefore, hm⟩ :=
        h.meaning kind e he target htarget
      exact ⟨m, before, e', after ++ [d], left', scope₀, by simp, hbefore, hm⟩
    · obtain rfl := List.mem_singleton.1 he
      obtain ⟨m, hm⟩ := hd.meaning kind target htarget
      exact ⟨m, front, e, [], left, scope, rfl, hfront, hm⟩
  · intro before e after left' scope₀ kind target m hsplit hbefore hm hafter
    -- the last definition with the key is either the new one or was the last one before
    rcases List.eq_nil_or_concat after with rfl | ⟨after', d', rfl⟩
    · obtain ⟨rfl, heq⟩ := List.append_inj' hsplit rfl
      obtain rfl : d = e := by simpa using heq
      obtain ⟨rfl, hscope⟩ := Prod.mk.inj (hfront.symm.trans hbefore)
      obtain rfl := Except.ok.inj hscope
      exact hd.entered kind target m hm
    · have hconcat : front ++ [d] = (before ++ e :: after') ++ [d'] := by
        simpa using hsplit
      obtain ⟨rfl, heq⟩ := List.append_inj' hconcat rfl
      obtain rfl : d = d' := by simpa using heq
      have hlast : tableKey kind target ∉ tableKeys kind d := hafter d (by simp)
      have hsame : lookup scope' kind (tableKey kind target) =
          lookup scope kind (tableKey kind target) := hd.others kind _ hlast
      rw [hsame]
      exact h.entered before e after' left' scope₀ kind target m rfl hbefore hm
        fun e' he' => hafter e' (by simp [he'])

/-- What compiled is known. -/
lemma knows_of_run {definitions : List Definition}
    (h : Sheet.compileFrom config sheet start {} definitions = (left, .ok scope)) :
    Knows config sheet start definitions scope := by
  induction definitions using List.reverseRecOn generalizing left scope with
  | nil =>
    cases h
    constructor
    · intro kind key _
      cases kind <;> rfl
    · nofun
    · intro before d after left scope₀ kind target m hsplit
      simp at hsplit
  | append_singleton front d ih =>
    obtain ⟨left₀, scope₀, outcome, hfront, hstep, hend⟩ := compileFrom_split h
    cases hend
    exact (ih hfront).snoc hfront (learns_of_compile hstep)

end

end AtomicCss.Proofs
