import AtomicCss.Definition
import AtomicCss.Document.Error
import AtomicCss.Text.Affix

/-!
# Values in documents

Texts and numbers stand for themselves, arrays are lists of alternatives, an object with a single
reference key is a reference, and any other object is a map. Every value has a written form, which
is read back as the same value unless the keys of a map make it look like something else.
-/

namespace AtomicCss.Document

/-- The key of a reference to a definition of a kind. -/
def referenceKey : ReferenceKind → String
  | .var => "$var"
  | .const => "$const"
  | .keyframes => "$keyframes"
  | .positionTry => "$position_try"
  | .viewTransition => "$view_transition"
  | .marker => "$marker"

def referenceKinds : List ReferenceKind :=
  [.var, .const, .keyframes, .positionTry, .viewTransition, .marker]

def kindOfKey? (key : String) : Option ReferenceKind :=
  referenceKinds.find? fun kind => referenceKey kind == key

/-- Whether references of a kind are written with a namespace. -/
def hasSpace : ReferenceKind → Bool
  | .var | .const | .marker => true
  | .keyframes | .positionTry | .viewTransition => false

def readTarget (kind : ReferenceKind) (name : String) : Except Problem Reference :=
  if hasSpace kind then
    match Text.splitOnce? '.' name.toList with
    | some (space, rest) => .ok ⟨kind, String.ofList space, String.ofList rest⟩
    | none => .error (.notQualified (referenceKey kind) name)
  else .ok ⟨kind, "", name⟩

/-- The reference that an object is, if it is one. -/
def readReference? : List (String × Json) → Except Problem (Option Reference)
  | [(key, target)] =>
    match kindOfKey? key with
    | none => .ok none
    | some kind =>
      match target with
      | .string name => (readTarget kind name).map some
      | _ => .error (.notAName key)
  | _ => .ok none

def readScalar : Json → Except Problem Scalar
  | .string s => .ok (.text s)
  | .number n => .ok (.number n.toFloat)
  | .object members => do
    match ← readReference? members with
    | some r => .ok (.ref r)
    | none => .error (.notAValue (.object members))
  | found => .error (.notAScalar found)

def alternativesKey : String := "$first_that_works"

mutual

def readValue : Json → Except Problem Value
  | .null => .ok .unset
  | .bool b => .error (.boolean b)
  | .string s => .ok (.scalar (.text s))
  | .number n => .ok (.scalar (.number n.toFloat))
  | .array items => (items.mapM readScalar).map .fallback
  | .object members =>
    match members.lookup alternativesKey with
    | some (.array items) => (items.mapM readScalar).map .firstThatWorks
    | some _ => .error .notAList
    | none => do
      match ← readReference? members with
      | some r => .ok (.scalar (.ref r))
      | none => (readMembers members).map .map

/-- The properties of an object with their values. -/
def readMembers : List (String × Json) → Except Problem Declarations
  | [] => .ok []
  | (key, json) :: rest => do
    let value ← readValue json
    let more ← readMembers rest
    .ok ((key, value) :: more)

end

def writeReference (r : Reference) : Json :=
  let name := if hasSpace r.kind then qualified r.space r.name else r.name
  .object [(referenceKey r.kind, .string name)]

def writeScalar : Scalar → Json
  | .text s => .string s
  | .number x => .number (.double x)
  | .ref r => writeReference r

mutual

def writeValue : Value → Json
  | .unset => .null
  | .scalar value => writeScalar value
  | .map entries => .object (writeMembers entries)
  | .fallback values => .array (values.map writeScalar)
  | .firstThatWorks values => .object [(alternativesKey, .array (values.map writeScalar))]

def writeMembers : Declarations → List (String × Json)
  | [] => []
  | (key, value) :: rest => (key, writeValue value) :: writeMembers rest

end

/-- A variable may be typed, and then inherits unless it says otherwise. -/
def readVar : Json → Except Problem Var
  | .object members =>
    match members.lookup "$typed" with
    | some (.string descriptor) =>
      match members.lookup "value" with
      | none => .error .typedWithoutValue
      | some inner =>
        let inherits :=
          match members.lookup "inherits" with
          | some (.bool b) => b
          | _ => true
        (readValue inner).map fun value => ⟨value, some ⟨descriptor, inherits⟩⟩
    | some _ => .error .notADescriptor
    | none => (readValue (.object members)).map fun value => ⟨value, none⟩
  | json => (readValue json).map fun value => ⟨value, none⟩

def includeKey : String := "$include"

/-- The classes that a value of the include key names. -/
def readIncludes : Json → Except Problem (List ClassItem)
  | .string name => .ok [.splice name]
  | .array names =>
    names.mapM fun name =>
      match name with
      | .string name => .ok (.splice name)
      | found => .error (.notClassNames found)
  | found => .error (.notClassNames found)

def readItem (member : String × Json) : Except Problem (List ClassItem) :=
  if member.1 = includeKey then readIncludes member.2
  else (readValue member.2).map fun value => [.property member.1 value]

/-- Objects of properties under keys, such as frames or parts. -/
def readNested (members : List (String × Json)) :
    Except Problem (List (String × Declarations)) :=
  members.mapM fun (key, json) =>
    match json with
    | .object inner => (readMembers inner).map fun declarations => (key, declarations)
    | found => .error (.notProperties key found)

end AtomicCss.Document
