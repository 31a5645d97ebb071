import AtomicCss.Text.Affix
import AtomicCss.Text.TopLevel
import AtomicCss.Value.Fault

/-!
# Conditions

A condition restricts a declaration to a selector suffix such as `:hover`, to at-rules such as
`@media print`, or to both. Its written form has the at-rules first; the first colon outside
parentheses begins the suffix.
-/

namespace AtomicCss

/-- The key that means no condition. -/
def defaultKey : String := "default"

inductive ConditionKind
  | default
  | pseudoClass
  | pseudoElement
  | atRule
  deriving DecidableEq, Repr

/-- The kind of a key, unless it is no condition at all but, say, a property. -/
def ConditionKind.ofKey? (key : String) : Option ConditionKind :=
  if key = defaultKey then some .default
  else
    match key.toList with
    | ':' :: ':' :: _ => some .pseudoElement
    | ':' :: _ => some .pseudoClass
    | '@' :: _ => some .atRule
    | _ => none

/-- A condition in its two parts. The at-rule part may hold several rules one after the other. -/
structure Condition where
  suffix : Option String
  atRule : Option String
  deriving DecidableEq, Repr

namespace Condition

/-- The canonical text of a condition. -/
def key (c : Condition) : String :=
  c.atRule.getD "" ++ c.suffix.getD ""

/-- What is wrong with the parentheses of a text, of which `depth` are open already. -/
def imbalance? (depth : Nat) : List Char → Option SelectorProblem
  | [] => if depth = 0 then none else some .missingParenthesis
  | c :: cs =>
    if c = '(' then imbalance? (depth + 1) cs
    else if c = ')' then
      if depth = 0 then some .unexpectedParenthesis else imbalance? (depth - 1) cs
    else imbalance? depth cs

def checkBalanced (text : List Char) : Except CssFault Unit :=
  match imbalance? 0 text with
  | some problem => .error (.invalidSelector (String.ofList text) problem)
  | none => .ok ()

/-- The text before and from the first colon outside parentheses; nothing if a parenthesis is
closed before that was not open. -/
def splitSuffix? (depth : Nat) : List Char → Option (List Char × List Char)
  | [] => some ([], [])
  | c :: cs =>
    let keep := Option.map fun (parts : List Char × List Char) => (c :: parts.1, parts.2)
    if c = '(' then keep (splitSuffix? (depth + 1) cs)
    else if c = ')' then if depth = 0 then none else keep (splitSuffix? (depth - 1) cs)
    else if c = ':' ∧ depth = 0 then some ([], c :: cs)
    else keep (splitSuffix? depth cs)

/-- Writes a text behind `written` with single spaces for its blanks, and none just inside
parentheses. -/
def writeTight (written : List Char) (pending : Bool) : List Char → List Char
  | [] => written
  | c :: cs =>
    if Text.isBlank c then writeTight written true cs
    else if pending && written.getLast? != some '(' && c != ')' then
      writeTight (written ++ [' ', c]) false cs
    else writeTight (written ++ [c]) false cs

def tightened (atRule : List Char) : List Char :=
  writeTight [] false (Text.trim atRule)

/-- Reads the written form of a condition. -/
def parseText (written : List Char) : Except CssFault Condition :=
  match Text.trim written with
  | [] => .ok ⟨none, none⟩
  | '@' :: rest => do
    let text := '@' :: rest
    match splitSuffix? 0 text with
    | none => .error (.invalidSelector (String.ofList text) .unexpectedParenthesis)
    | some (atRule, suffix) =>
      checkBalanced atRule
      checkBalanced suffix
      let atRule := tightened atRule
      if atRule.length ≤ 1 then .error (.invalidSelector (String.ofList text) .emptyAtRule)
      else
        .ok ⟨if suffix.isEmpty then none else some (String.ofList suffix),
          some (String.ofList atRule)⟩
  | text => do
    checkBalanced text
    .ok ⟨some (String.ofList text), none⟩

def parse (written : String) : Except CssFault Condition :=
  parseText written.toList

/-- The key behind a parent's; the default key adds nothing. -/
def join (parent child : String) : String :=
  if child = defaultKey then parent else parent ++ child

/-- The at-rules of a text, split in front of each `@` outside parentheses. `current` is what was
read of the rule at hand. -/
def atRulesFrom (depth : Nat) (current : List Char) : List Char → List (List Char)
  | [] => if (Text.trim current).isEmpty then [] else [Text.trim current]
  | c :: cs =>
    if c = '@' ∧ depth = 0 ∧ current ≠ [] then Text.trim current :: atRulesFrom 0 [c] cs
    else atRulesFrom (Text.depthAfter depth c) (current ++ [c]) cs

def atRules (text : String) : List String :=
  (atRulesFrom 0 [] text.toList).map String.ofList

/-- The text up to the first colon outside the parentheses that it opens. -/
def pseudoSpan (depth : Nat) : List Char → List Char × List Char
  | [] => ([], [])
  | c :: cs =>
    if c = ':' ∧ depth = 0 then ([], c :: cs)
    else
      let (name, rest) := pseudoSpan (Text.depthAfter depth c) cs
      (c :: name, rest)

/-- The first pseudo-element outside parentheses, with the text before and behind it. -/
def findPseudoElement? (depth : Nat) :
    List Char → Option (List Char × List Char × List Char)
  | [] => none
  | c :: cs =>
    if c = ':' ∧ depth = 0 ∧ cs.head? = some ':' then
      let (name, rest) := pseudoSpan 0 cs.tail
      some ([], c :: ':' :: name, rest)
    else
      (findPseudoElement? (Text.depthAfter depth c) cs).map fun (before, pseudo, rest) =>
        (c :: before, pseudo, rest)

/-- The pseudo-element of a suffix, and the suffix without it. -/
def splitPseudoElement (suffix : String) : Option String × String :=
  match findPseudoElement? 0 suffix.toList with
  | some (before, pseudo, rest) => (some (String.ofList pseudo), String.ofList (before ++ rest))
  | none => (none, suffix)

end Condition

/-- Whether the keys of a map make it a set of conditions rather than a group of properties. -/
def isConditionMap (entries : List (String × α)) : Bool :=
  !entries.isEmpty
    && (entries.any (fun entry => entry.1 == defaultKey)
      || entries.all fun entry =>
        match entry.1.toList with
        | c :: _ => c == ':' || c == '@'
        | [] => false)

end AtomicCss
