import AtomicCss.Class.Entry

/-!
# Registered rules

A registry holds rules under a kind and a name, in the order in which they came. The first rule
under a name stays; since names are digests of content, a later one says the same.
-/

namespace AtomicCss

/-- The kinds of rule, in the order in which they are written out. -/
inductive RuleKind
  | typedProperty
  | dynamicProperty
  | keyframes
  | rootVars
  | positionTry
  | viewTransition
  | atomic
  | theme
  deriving DecidableEq, Repr

def RuleKind.name : RuleKind → String
  | typedProperty => "typed-property"
  | dynamicProperty => "dynamic-property"
  | keyframes => "keyframes"
  | rootVars => "root-vars"
  | positionTry => "position-try"
  | viewTransition => "view-transition"
  | atomic => "atomic"
  | theme => "theme"

/-- A rule with what it is ordered by. Only atomic rules have a right-to-left twin, a priority and
a layer: 1 without condition, 2 with a suffix, 3 inside an at-rule. -/
structure Rule where
  kind : RuleKind
  css : String
  rtl : Option String
  priority : Nat
  property : String
  selector : String
  layer : Nat
  deriving DecidableEq, Repr

namespace Rule

def block (kind : RuleKind) (css : String) : Rule :=
  ⟨kind, css, none, 0, "", "", 0⟩

def ofEntry (e : Entry) : Rule where
  kind := .atomic
  css := e.ltr
  rtl := e.rtl
  priority := e.priority
  property := e.property
  selector := e.selector
  layer := if e.atRule.isSome then 3 else if e.suffix.isSome then 2 else 1

end Rule

/-- A rule under its name. -/
abbrev NamedRule := String × Rule

def NamedRule.key (r : NamedRule) : RuleKind × String :=
  (r.2.kind, r.1)

/-- Rules in insertion order, no two under one key. -/
structure Registry where
  rules : List NamedRule
  distinct : (rules.map NamedRule.key).Nodup

namespace Registry

def empty : Registry := ⟨[], List.nodup_nil⟩

def get? (r : Registry) (kind : RuleKind) (name : String) : Option Rule :=
  (r.rules.find? fun rule => rule.key = (kind, name)).map Prod.snd

def contains (r : Registry) (kind : RuleKind) (name : String) : Bool :=
  r.rules.any fun rule => rule.key = (kind, name)

theorem nodup_append_of_not_contains (r : Registry) (rule : NamedRule)
    (h : ¬ r.contains rule.2.kind rule.1 = true) :
    ((r.rules ++ [rule]).map NamedRule.key).Nodup := by
  rw [List.map_append, List.nodup_append]
  refine ⟨r.distinct, by simp, ?_⟩
  intro key hk other ho heq
  simp only [List.map_cons, List.map_nil, List.mem_singleton] at ho
  subst ho heq
  obtain ⟨old, hold, he⟩ := List.mem_map.1 hk
  exact h (List.any_eq_true.2 ⟨old, hold, by simpa [NamedRule.key] using he⟩)

/-- Adds a rule unless its key is there already. -/
def insert (r : Registry) (name : String) (rule : Rule) : Registry :=
  if h : r.contains rule.kind name = true then r
  else ⟨r.rules ++ [(name, rule)], r.nodup_append_of_not_contains (name, rule) h⟩

def insertAll (r : Registry) (rules : List NamedRule) : Registry :=
  rules.foldl (fun r rule => r.insert rule.1 rule.2) r

/-- The rule of an entry under its class name. Markers that unset have none. -/
def ruleOf? (e : Entry) : Option NamedRule :=
  e.className.map fun name => (name, .ofEntry e)

def insertEntry (r : Registry) (e : Entry) : Registry :=
  r.insertAll (ruleOf? e).toList

end Registry

end AtomicCss
