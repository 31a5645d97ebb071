import AtomicCss.Proofs.Meanings

/-!
# Where references lead

References are looked up by text, and targets are entered by text. As long as the text of a
reference is the key of its own target and of no other, the reference resolves exactly if its target
is defined before, and then to what this target stands for. Otherwise the sheet fails, and the error
tells whether the target is defined further down.
-/

namespace AtomicCss.Proofs

open Keyed Context

/-- References to keyframes, position-try fallbacks and view transitions have no namespace. -/
def WellFormed (r : Reference) : Prop :=
  isSpaced r.kind = true ∨ r.space = ""

/-- Where a reference should lead. -/
def targetOf (r : Reference) : String × String :=
  (r.space, r.name)

/-- Everything that references of a kind can lead to in these definitions. -/
def targetsIn (kind : ReferenceKind) (definitions : List Definition) : List (String × String) :=
  definitions.flatMap fun d => d.body.defines kind

/-- Among these targets, the text of the reference is the key of its own target only. -/
def ToldApart (r : Reference) (targets : List (String × String)) : Prop :=
  ∀ target ∈ targets, tableKey r.kind target = r.qualifiedName ↔ target = targetOf r

/-- What is said about a reference that leads nowhere. -/
def notFound (sheet : Sheet) (label : String) (site : Site) (r : Reference) : StyleError :=
  if targetOf r ∈ sheet.targets r.kind then .reference label site (.value r) .definedLater []
  else
    .reference label site (.value r) .undefined
      (Suggestion.closest r.qualifiedName (sheet.names r.kind))

lemma defines_iff {sheet : Sheet} {r : Reference} (hr : WellFormed r) :
    sheet.defines r = true ↔ targetOf r ∈ sheet.targets r.kind := by
  obtain ⟨kind, space, name⟩ := r
  unfold Sheet.defines targetOf
  rcases hr with hr | hr
  · cases kind <;> first | exact List.contains_iff_mem | cases hr
  · dsimp only at hr
    subst hr
    cases kind <;> exact List.contains_iff_mem

/-- The key of the definition that has a target. -/
def ownerKey : ReferenceKind → String × String → Body.Kind × String × String
  | .var, target => (.vars, target.1, "")
  | .const, target => (.consts, target.1, "")
  | .keyframes, target => (.keyframes, "", target.2)
  | .positionTry, target => (.positionTry, "", target.2)
  | .viewTransition, target => (.viewTransition, "", target.2)
  | .marker, target => (.marker, target.1, target.2)

lemma key_of_mem_defines {kind : ReferenceKind} {body : Body} {target : String × String}
    (h : target ∈ body.defines kind) : body.key = ownerKey kind target := by
  cases body with
  | vars =>
    cases kind with
    | var =>
      obtain ⟨item, _, rfl⟩ := List.mem_map.1 h
      rfl
    | _ => cases h
  | consts =>
    cases kind with
    | const =>
      obtain ⟨item, _, rfl⟩ := List.mem_map.1 h
      rfl
    | _ => cases h
  | keyframes =>
    cases kind with
    | keyframes =>
      obtain rfl := List.mem_singleton.1 h
      rfl
    | _ => cases h
  | positionTry =>
    cases kind with
    | positionTry =>
      obtain rfl := List.mem_singleton.1 h
      rfl
    | _ => cases h
  | viewTransition =>
    cases kind with
    | viewTransition =>
      obtain rfl := List.mem_singleton.1 h
      rfl
    | _ => cases h
  | marker =>
    cases kind with
    | marker =>
      obtain rfl := List.mem_singleton.1 h
      rfl
    | _ => cases h
  | staticClass | dynamicClass | theme => cases h

/-- Definitions with different keys have different targets. -/
lemma notMem_defines_of_nodup {before after : List Definition} {d d' : Definition}
    {kind : ReferenceKind} {target : String × String}
    (hkeys : ((before ++ d :: after).map fun e => e.body.key).Nodup)
    (hd : target ∈ d.body.defines kind) (hd' : d' ∈ after) : target ∉ d'.body.defines kind := by
  intro htarget
  rw [List.map_append, List.map_cons] at hkeys
  obtain ⟨hnot, _⟩ := List.nodup_cons.1 hkeys.of_append_right
  apply hnot
  rw [key_of_mem_defines hd, ← key_of_mem_defines htarget]
  exact List.mem_map_of_mem hd'

section

variable {config : Config} {sheet : Sheet} {start left : Registry}
  {front rest visible own : List Definition} {d : Definition} {scope : Scope} {r : Reference}
  {inside : Context} {label : String}

lemma StandsFor.mem_targetsIn {kind : ReferenceKind} {target : String × String} {m : Meaning}
    (h : StandsFor config sheet start visible kind target m) :
    target ∈ targetsIn kind visible := by
  obtain ⟨before, e, after, left, scope, rfl, _, hm⟩ := h
  exact List.mem_flatMap.2 ⟨e, by simp, hm.mem_defines⟩

/-- A table has under the text of a reference what its target stands for. -/
lemma Knows.lookup_iff (h : Knows config sheet start visible scope)
    (hkeys : (visible.map fun e => e.body.key).Nodup)
    (hapart : ToldApart r (targetsIn r.kind visible)) (v : Scalar) :
    lookup scope r.kind r.qualifiedName = some v ↔
      ∃ m, StandsFor config sheet start visible r.kind (targetOf r) m ∧
        v = m.scalar config.classStart := by
  have hentered : ∀ m, StandsFor config sheet start visible r.kind (targetOf r) m →
      lookup scope r.kind r.qualifiedName = some (m.scalar config.classStart) := by
    intro m hm
    have hkey := (hapart _ hm.mem_targetsIn).2 rfl
    obtain ⟨before, e, after, left, scope₀, rfl, hbefore, hm⟩ := hm
    rw [← hkey]
    apply h.entered before e after left scope₀ r.kind (targetOf r) m rfl hbefore hm
    -- a later definition under the same text would have the same target, hence the same key
    intro d' hd' hlater
    obtain ⟨other, hother, heq⟩ := List.mem_map.1 hlater
    have hin : other ∈ targetsIn r.kind (before ++ e :: after) :=
      List.mem_flatMap.2 ⟨d', by simp [hd'], hother⟩
    rw [(hapart other hin).1 (heq.trans hkey)] at hother
    exact notMem_defines_of_nodup hkeys hm.mem_defines hd' hother
  constructor
  · intro hv
    by_cases hknown : ∃ e ∈ visible, r.qualifiedName ∈ tableKeys r.kind e
    · obtain ⟨e, he, hkey⟩ := hknown
      obtain ⟨target, htarget, heq⟩ := List.mem_map.1 hkey
      have hin : target ∈ targetsIn r.kind visible := List.mem_flatMap.2 ⟨e, he, htarget⟩
      rw [(hapart target hin).1 heq] at htarget
      obtain ⟨m, hm⟩ := h.meaning r.kind e he _ htarget
      rw [hentered m hm] at hv
      exact ⟨m, hm, (Option.some.inj hv).symm⟩
    · rw [h.unknown r.kind r.qualifiedName fun e he hkey => hknown ⟨e, he, hkey⟩] at hv
      cases hv
  · rintro ⟨m, hm, rfl⟩
    exact hentered m hm

/-- What a definition sees of itself where a value comes up. -/
lemma Asks.sees {c : Context} {value : Value} (h : Asks c d own inside label value) :
    (own = [] ∧ inside = c) ∨ ∃ e scope, own = [e] ∧ inside = { c with scope } ∧
      e.body.key = d.body.key ∧ Learns c e scope := by
  obtain ⟨site, body⟩ := d
  cases h with
  | vars hbody =>
    obtain rfl := hbody
    exact .inr ⟨_, _, rfl, rfl, rfl, learns_inGroup _ _ _ _⟩
  | consts hbody hscope =>
    obtain rfl := hbody
    exact .inr ⟨_, _, rfl, rfl, rfl, learns_of_compileConsts hscope⟩
  | _ => exact .inl ⟨rfl, rfl⟩

/-- It sees nothing of itself that it does not define. -/
lemma Reaches.own_defines {c : Context} {e : Definition} {kind : ReferenceKind}
    {target : String × String} (h : Reaches c d own inside label r) (he : e ∈ own)
    (htarget : target ∈ e.body.defines kind) : target ∈ d.body.defines kind := by
  obtain ⟨value, hasks, _⟩ := h
  cases hasks with
  | vars =>
    obtain rfl := List.mem_singleton.1 he
    exact htarget
  | consts hbody =>
    obtain rfl := List.mem_singleton.1 he
    rw [hbody]
    cases kind with
    | const =>
      obtain ⟨item, hitem, rfl⟩ := List.mem_map.1 htarget
      exact List.mem_map.2 ⟨item, List.mem_append_left _ hitem, rfl⟩
    | _ => cases htarget
  | _ => cases he

lemma Reaches.knows (hfront : Sheet.compileFrom config sheet start {} front = (left, .ok scope))
    (h : Reaches ⟨config, sheet, scope⟩ d own inside label r) :
    inside.sheet = sheet ∧ Knows config sheet start (front ++ own) inside.scope := by
  obtain ⟨value, hasks, _⟩ := h
  rcases hasks.sees with ⟨rfl, rfl⟩ | ⟨e, scope', rfl, rfl, _, hlearns⟩
  · rw [List.append_nil]
    exact ⟨rfl, knows_of_run hfront⟩
  · exact ⟨rfl, (knows_of_run hfront).snoc hfront hlearns⟩

lemma Reaches.nodup_keys (hcheck : sheet.check config = .ok ())
    (hsplit : sheet.definitions = front ++ d :: rest)
    (h : Reaches ⟨config, sheet, scope⟩ d own inside label r) :
    ((front ++ own).map fun e => e.body.key).Nodup := by
  have hkeys := (check_eq_ok_iff.1 hcheck).2
  rw [hsplit] at hkeys
  obtain ⟨value, hasks, _⟩ := h
  rcases hasks.sees with ⟨rfl, _⟩ | ⟨e, _, rfl, _, hkey, _⟩
  · rw [List.append_nil]
    exact hkeys.sublist ((List.sublist_append_left _ _).map _)
  · have hsame : (front ++ [e]).map (fun e => e.body.key) =
        (front ++ [d]).map (fun e => e.body.key) := by simp [hkey]
    rw [hsame]
    rw [List.append_cons] at hkeys
    exact hkeys.sublist ((List.sublist_append_left _ _).map _)

lemma resolveReference_eq_ok_iff {site : Site} {v : Scalar} :
    inside.resolveReference label site r = .ok v ↔
      lookup inside.scope r.kind r.qualifiedName = some v := by
  rw [← find?_eq_lookup]
  unfold Context.resolveReference
  cases inside.find? r with
  | some found => simp
  | none =>
    dsimp only
    split <;> simp

lemma resolveReference_eq_notFound (label : String) (site : Site) (hr : WellFormed r)
    (h : lookup inside.scope r.kind r.qualifiedName = none) :
    inside.resolveReference label site r = .error (notFound inside.sheet label site r) := by
  rw [← find?_eq_lookup] at h
  unfold Context.resolveReference notFound
  rw [h]
  dsimp only
  by_cases hdefines : targetOf r ∈ inside.sheet.targets r.kind
  · rw [if_pos hdefines, if_pos ((defines_iff hr).2 hdefines)]
  · rw [if_neg hdefines, if_neg fun hd => hdefines ((defines_iff hr).1 hd)]

/-- A sheet fails as the first of its definitions that fails. -/
lemma compileInto_fails {e : StyleError} (hcheck : sheet.check config = .ok ())
    (hsplit : sheet.definitions = front ++ d :: rest)
    (hfront : Sheet.compileFrom config sheet start {} front = (left, .ok scope))
    (hd : Context.compile ⟨config, sheet, scope⟩ d = .error e) :
    sheet.compileInto config start = (left, .error e) := by
  unfold Sheet.compileInto
  rw [hcheck]
  dsimp only
  rw [hsplit, compileFrom_append hfront, Sheet.compileFrom, hd]
  rfl

end

def Meaning.isHashed : Meaning → Bool
  | value _ => false
  | hashed .. => true

/-- What is hashed for a target is hashed for none of another kind; and where it is made from the
namespace and name, for none with another text. -/
lemma Means.identity {c c' : Context} {d d' : Definition} {kind kind' : ReferenceKind}
    {target target' : String × String} {m m' : Meaning} (h : Means c d kind target m)
    (h' : Means c' d' kind' target' m') (hm : m = m') (hhashed : m.isHashed = true) :
    kind' = kind ∧ (isSpaced kind = true → tableKey kind target' = tableKey kind target) := by
  have htransition : ∀ a b : String, "view-transition:" ++ a ≠ "marker:" ++ b := by
    intro a b heq
    have hheads := congrArg (fun text => text.toList.head?) heq
    simp at hheads
  cases h <;> cases h' <;>
    simp_all [isSpaced, tableKey, Meaning.isHashed, (htransition _ _).symm]

section

variable {config : Config} {sheet : Sheet} {start left : Registry}
  {front rest own : List Definition} {d : Definition} {scope : Scope} {r : Reference}
  {inside : Context} {label : String}

/-- The reference resolves if and only if its target is among those that are visible. -/
lemma Reaches.resolves_iff (h : Reaches ⟨config, sheet, scope⟩ d own inside label r)
    (hcheck : sheet.check config = .ok ()) (hsplit : sheet.definitions = front ++ d :: rest)
    (hfront : Sheet.compileFrom config sheet start {} front = (left, .ok scope))
    (hapart : ToldApart r (targetsIn r.kind (front ++ own))) :
    (∃ v, inside.resolveReference label d.site r = .ok v) ↔
      targetOf r ∈ targetsIn r.kind (front ++ own) := by
  obtain ⟨_, hknows⟩ := h.knows hfront
  have hlookup := hknows.lookup_iff (h.nodup_keys hcheck hsplit) hapart
  constructor
  · rintro ⟨v, hv⟩
    obtain ⟨m, hm, _⟩ := (hlookup v).1 (resolveReference_eq_ok_iff.1 hv)
    exact hm.mem_targetsIn
  · intro htarget
    obtain ⟨e, he, htarget⟩ := List.mem_flatMap.1 htarget
    obtain ⟨m, hm⟩ := hknows.meaning r.kind e he _ htarget
    exact ⟨_, resolveReference_eq_ok_iff.2 ((hlookup _).2 ⟨m, hm, rfl⟩)⟩

lemma Reaches.fails_of_notMem (h : Reaches ⟨config, sheet, scope⟩ d own inside label r)
    (hcheck : sheet.check config = .ok ()) (hsplit : sheet.definitions = front ++ d :: rest)
    (hfront : Sheet.compileFrom config sheet start {} front = (left, .ok scope))
    (hr : WellFormed r) (hapart : ToldApart r (targetsIn r.kind (front ++ own)))
    (hnot : targetOf r ∉ targetsIn r.kind (front ++ own)) :
    Context.compile ⟨config, sheet, scope⟩ d = .error (notFound sheet label d.site r) := by
  obtain ⟨hsheet, _⟩ := h.knows hfront
  have hnone : lookup inside.scope r.kind r.qualifiedName = none := by
    rw [Option.eq_none_iff_forall_ne_some]
    intro v hv
    have hresolves := h.resolves_iff hcheck hsplit hfront hapart
    exact hnot (hresolves.1 ⟨v, resolveReference_eq_ok_iff.2 hv⟩)
  have hfails := resolveReference_eq_notFound label d.site hr hnone
  rw [hsheet] at hfails
  exact h.fails hfails

/-- A reference that a definition reaches resolves exactly if its target is defined before, or by
the part of the definition that it sees. It then gives what its target stands for, and no other
target is hashed to that. Otherwise the sheet fails there. -/
theorem reference_resolves_iff_defined (hcheck : sheet.check config = .ok ())
    (hsplit : sheet.definitions = front ++ d :: rest)
    (hfront : Sheet.compileFrom config sheet start {} front = (left, .ok scope))
    (hreaches : Reaches ⟨config, sheet, scope⟩ d own inside label r) (hr : WellFormed r)
    (hapart : ToldApart r (targetsIn r.kind (front ++ own))) :
    (∀ v, inside.resolveReference label d.site r = .ok v ↔
      ∃ m, StandsFor config sheet start (front ++ own) r.kind (targetOf r) m ∧
        v = m.scalar config.classStart) ∧
    ((∃ v, inside.resolveReference label d.site r = .ok v) ↔
      targetOf r ∈ targetsIn r.kind (front ++ own)) ∧
    (∀ m kind other, m.isHashed = true →
      StandsFor config sheet start (front ++ own) r.kind (targetOf r) m →
      StandsFor config sheet start (front ++ own) kind other m →
      kind = r.kind ∧ (isSpaced r.kind = true → other = targetOf r)) ∧
    (targetOf r ∉ targetsIn r.kind (front ++ own) →
      sheet.compileInto config start = (left, .error (notFound sheet label d.site r))) := by
  obtain ⟨_, hknows⟩ := hreaches.knows hfront
  have hlookup := hknows.lookup_iff (hreaches.nodup_keys hcheck hsplit) hapart
  refine ⟨?_, hreaches.resolves_iff hcheck hsplit hfront hapart, ?_, ?_⟩
  · intro v
    rw [resolveReference_eq_ok_iff, hlookup]
  · intro m kind other hhashed hm hother
    have htarget := hm.mem_targetsIn
    have hin := hother.mem_targetsIn
    obtain ⟨_, _, _, _, _, _, _, hm⟩ := hm
    obtain ⟨_, _, _, _, _, _, _, hother⟩ := hother
    obtain ⟨rfl, hsame⟩ := hm.identity hother rfl hhashed
    refine ⟨rfl, fun hspaced => ?_⟩
    rw [← hapart other hin, hsame hspaced, hapart _ htarget]
  · intro hnot
    exact compileInto_fails hcheck hsplit hfront
      (hreaches.fails_of_notMem hcheck hsplit hfront hr hapart hnot)

end

def brandVars : Definition :=
  ⟨.unknown, .vars "brand" [("main", ⟨.scalar (.text "red"), none⟩)]⟩

/-- A class that refers to two variables. -/
def brandClass : Definition :=
  ⟨.unknown, .staticClass "one" [.property "color" (.map
    [("default", .scalar (.ref ⟨.var, "brand", "main"⟩)),
      (":hover", .scalar (.ref ⟨.var, "accent", "main"⟩))])]⟩

/-- The class stands between the two variables. -/
def brandSheet : Sheet :=
  ⟨.unknown, [brandVars, brandClass,
    ⟨.unknown, .vars "accent" [("main", ⟨.scalar (.text "navy"), none⟩)]⟩]⟩

theorem reference_resolves_iff_defined_brand :
    ∃ left scope, Sheet.compileFrom {} brandSheet .empty {} [brandVars] = (left, .ok scope) ∧
      Context.resolveReference ⟨{}, brandSheet, scope⟩ "one" .unknown ⟨.var, "brand", "main"⟩ =
        .ok (.text ("var(--" ++ Naming.contentName "x" "brand.main" ++ ")")) ∧
      brandSheet.compileInto {} .empty = (left, .error
        (.reference "one" .unknown (.value ⟨.var, "accent", "main"⟩) .definedLater [])) := by
  have hok : (Sheet.compileFrom {} brandSheet .empty {} [brandVars]).2.isOk = true := by
    decide +kernel
  obtain ⟨scope, hscope⟩ := eq_ok_of_isOk hok
  have hfront : Sheet.compileFrom {} brandSheet .empty {} [brandVars] = (_, .ok scope) :=
    Prod.ext rfl hscope
  have hchecked : (brandSheet.check {}).isOk = true := by decide +kernel
  obtain ⟨_, hcheck⟩ := eq_ok_of_isOk hchecked
  have hsplit : brandSheet.definitions = [brandVars] ++ brandClass :: [_] := rfl
  have hasks : Asks ⟨{}, brandSheet, scope⟩ brandClass [] ⟨{}, brandSheet, scope⟩ "one" _ :=
    .staticClass rfl ⟨[], [], [], rfl, rfl⟩
  have hbrand : Reaches ⟨{}, brandSheet, scope⟩ brandClass [] ⟨{}, brandSheet, scope⟩ "one"
      ⟨.var, "brand", "main"⟩ := ⟨_, hasks, [], [_], [], rfl, rfl⟩
  have hvisible : targetsIn .var ([brandVars] ++ []) = [("brand", "main")] := rfl
  have hstands : StandsFor {} brandSheet .empty ([brandVars] ++ []) .var ("brand", "main")
      (.hashed "var(--" "brand.main" ")") :=
    ⟨[], brandVars, [], _, _, rfl, rfl, .var List.mem_cons_self⟩
  obtain ⟨hgives, _⟩ := reference_resolves_iff_defined hcheck hsplit hfront hbrand (.inl rfl)
    (by rw [hvisible]; unfold ToldApart; decide +kernel)
  have hresolved := (hgives _).2 ⟨_, hstands, rfl⟩
  have haccent : Reaches ⟨{}, brandSheet, scope⟩ brandClass [] ⟨{}, brandSheet, scope⟩ "one"
      ⟨.var, "accent", "main"⟩ := by
    refine ⟨_, hasks, [⟨.var, "brand", "main"⟩], [],
      [.text ("var(--" ++ Naming.contentName "x" "brand.main" ++ ")")], rfl, ?_⟩
    rw [List.mapM_cons, hresolved]
    rfl
  obtain ⟨_, _, _, hfails⟩ := reference_resolves_iff_defined hcheck hsplit hfront haccent (.inl rfl)
    (by rw [hvisible]; unfold ToldApart; decide +kernel)
  exact ⟨_, scope, hfront, hresolved, hfails (by rw [hvisible]; decide +kernel)⟩

/-- A variable without a namespace, and behind it a class that refers to it. -/
def unspacedSheet : Sheet :=
  ⟨.unknown, [⟨.unknown, .vars "" [("c", ⟨.scalar (.text "red"), none⟩)]⟩,
    ⟨.unknown, .staticClass "x" [.property "color" (.scalar (.ref ⟨.var, "", "c"⟩))]⟩]⟩

/-- A reference without a namespace never leads to a variable, although the sheet takes it for
defined: the variable is entered with a point in front of its name. -/
theorem unspaced_not_found :
    ∃ front d left scope inside, unspacedSheet.check {} = .ok () ∧
      unspacedSheet.definitions = front ++ [d] ∧
      Sheet.compileFrom {} unspacedSheet .empty {} front = (left, .ok scope) ∧
      Reaches ⟨{}, unspacedSheet, scope⟩ d [] inside "x" ⟨.var, "", "c"⟩ ∧
      ("", "c") ∈ targetsIn .var front ∧
      unspacedSheet.compileInto {} .empty =
        (left, .error (.reference "x" .unknown (.value ⟨.var, "", "c"⟩) .definedLater [])) := by
  have hok : (Sheet.compileFrom {} unspacedSheet .empty {}
      (unspacedSheet.definitions.take 1)).2.isOk = true := by decide +kernel
  obtain ⟨scope, hscope⟩ := eq_ok_of_isOk hok
  have hfront : Sheet.compileFrom {} unspacedSheet .empty {} (unspacedSheet.definitions.take 1) =
      (_, .ok scope) := Prod.ext rfl hscope
  have hchecked : (unspacedSheet.check {}).isOk = true := by decide +kernel
  obtain ⟨_, hcheck⟩ := eq_ok_of_isOk hchecked
  have hreaches : Reaches ⟨{}, unspacedSheet, scope⟩
      ⟨.unknown, .staticClass "x" [.property "color" (.scalar (.ref ⟨.var, "", "c"⟩))]⟩ []
      ⟨{}, unspacedSheet, scope⟩ "x" ⟨.var, "", "c"⟩ :=
    ⟨_, .staticClass rfl ⟨[], [], [], rfl, rfl⟩, [], [], [], rfl, rfl⟩
  have hnone : lookup scope .var "c" = none := by
    apply (knows_of_run hfront).unknown
    decide +kernel
  have hfails := hreaches.fails (resolveReference_eq_notFound "x" .unknown (.inl rfl) hnone)
  exact ⟨_, _, _, scope, _, hcheck, rfl, hfront, hreaches, List.mem_cons_self,
    compileInto_fails hcheck rfl hfront hfails⟩

/-- A variable whose namespace ends in a point and more, and a class that refers to another one. -/
def dottedSheet : Sheet :=
  ⟨.unknown, [⟨.unknown, .vars "a.b" [("c", ⟨.scalar (.text "red"), none⟩)]⟩,
    ⟨.unknown, .staticClass "x" [.property "color" (.scalar (.ref ⟨.var, "a", "b.c"⟩))]⟩]⟩

/-- Names and namespaces are joined without telling where one ends, so a reference can lead to a
variable in another namespace. -/
theorem dotted_leads_elsewhere :
    ("a", "b.c") ∉ dottedSheet.targets .var ∧ (dottedSheet.compile {}).isOk = true := by
  decide +kernel

section

variable {config : Config} {sheet : Sheet} {start left : Registry}
  {front rest own : List Definition} {d : Definition} {scope : Scope} {r : Reference}
  {inside : Context} {label : String}

/-- In a sheet that compiles, every reference that is told apart leads to something before it. -/
theorem defined_of_compileInto {registry : Registry} {styles : Styles} {value : Value}
    (h : sheet.compileInto config start = (registry, .ok styles))
    (hsplit : sheet.definitions = front ++ d :: rest) (hvalue : value ∈ valuesOf d.body)
    (hin : r ∈ referencesIn value) (hr : WellFormed r)
    (hapart : ToldApart r (sheet.targets r.kind)) :
    ∃ own scope inside label, Reaches ⟨config, sheet, scope⟩ d own inside label r ∧
      targetOf r ∈ targetsIn r.kind (front ++ own) := by
  obtain ⟨hcheck, scope, hrun, _⟩ := compileInto_eq_ok_iff.1 h
  rw [hsplit] at hrun
  obtain ⟨left, scope, outcome, hfront, hd, _⟩ := compileFrom_split hrun
  obtain ⟨own, inside, label, hreaches⟩ := reaches_of_compile hd hvalue hin
  have hvisible : ToldApart r (targetsIn r.kind (front ++ own)) := by
    intro target htarget
    apply hapart
    obtain ⟨e, he, htarget⟩ := List.mem_flatMap.1 htarget
    rw [Sheet.targets, hsplit]
    rcases List.mem_append.1 he with he | he
    · exact List.mem_flatMap.2 ⟨e, by simp [he], htarget⟩
    · exact List.mem_flatMap.2 ⟨d, by simp, hreaches.own_defines he htarget⟩
  refine ⟨own, scope, inside, label, hreaches, ?_⟩
  by_contra hnot
  have hfails := hreaches.fails_of_notMem hcheck hsplit hfront hr hvisible hnot
  rw [hfails] at hd
  cases hd

end

end AtomicCss.Proofs
