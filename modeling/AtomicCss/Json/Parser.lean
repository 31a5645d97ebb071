import AtomicCss.Json.Number

/-!
# Reading JSON

Readers take a value off the front of a text and return it with the rest. A strict reader refuses
numbers beyond the range of doubles, lone surrogates, and nesting of 128 levels; a lax one checks
the grammar only, which is enough for values that nobody looks at.
-/

namespace AtomicCss.Json.Parser

/-- How a text is read. -/
inductive Mode
  | strict
  | lax
  deriving DecidableEq, Repr

def isSpace (c : Char) : Bool :=
  c == ' ' || c == '\n' || c == '\t' || c == '\r'

def skipSpace (cs : List Char) : List Char :=
  cs.dropWhile isSpace

def hexDigit? (c : Char) : Option Nat :=
  if c.isDigit then some (c.toNat - 48)
  else if 'a' ≤ c ∧ c ≤ 'f' then some (c.toNat - 87)
  else if 'A' ≤ c ∧ c ≤ 'F' then some (c.toNat - 55)
  else none

def hexUnit? : List Char → Option (Nat × List Char)
  | a :: b :: c :: d :: cs => do
    let a ← hexDigit? a
    let b ← hexDigit? b
    let c ← hexDigit? c
    let d ← hexDigit? d
    some (((a * 16 + b) * 16 + c) * 16 + d, cs)
  | _ => none

/-- The character of a Unicode escape, whose second half may be an escape of its own. -/
def unicodeEscape? (mode : Mode) (cs : List Char) : Option (Char × List Char) := do
  let (unit, rest) ← hexUnit? cs
  if 0xDC00 ≤ unit ∧ unit ≤ 0xDFFF then
    if mode = .lax then some ('\ufffd', rest) else none
  else if 0xD800 ≤ unit ∧ unit ≤ 0xDBFF then
    if mode = .lax then some ('\ufffd', rest)
    else
      match rest with
      | '\\' :: 'u' :: rest => do
        let (low, rest) ← hexUnit? rest
        if 0xDC00 ≤ low ∧ low ≤ 0xDFFF then
          some (Char.ofNat (0x10000 + (unit - 0xD800) * 0x400 + (low - 0xDC00)), rest)
        else none
      | _ => none
  else some (Char.ofNat unit, rest)

def escape? (mode : Mode) : List Char → Option (Char × List Char)
  | '"' :: cs => some ('"', cs)
  | '\\' :: cs => some ('\\', cs)
  | '/' :: cs => some ('/', cs)
  | 'b' :: cs => some ('\x08', cs)
  | 'f' :: cs => some ('\x0c', cs)
  | 'n' :: cs => some ('\n', cs)
  | 'r' :: cs => some ('\r', cs)
  | 't' :: cs => some ('\t', cs)
  | 'u' :: cs => unicodeEscape? mode cs
  | _ => none

/-- A string behind its opening quote; `read` holds the characters so far, the last one first. -/
def string? (mode : Mode) : Nat → List Char → List Char → Option (String × List Char)
  | 0, _, _ => none
  | _ + 1, _, [] => none
  | fuel + 1, read, c :: cs =>
    if c = '"' then some (String.ofList read.reverse, cs)
    else if c = '\\' then do
      let (d, rest) ← escape? mode cs
      string? mode fuel (d :: read) rest
    else if c.toNat < 32 then none
    else string? mode fuel (c :: read) cs

def quotedString? (mode : Mode) : List Char → Option (String × List Char)
  | '"' :: cs => string? mode (cs.length + 1) [] cs
  | _ => none

def digits (cs : List Char) : List Char × List Char :=
  (cs.takeWhile Char.isDigit, cs.dropWhile Char.isDigit)

def fraction? : List Char → Option (List Char × List Char)
  | '.' :: cs => if (digits cs).1.isEmpty then none else some (digits cs)
  | cs => some ([], cs)

def exponent? : List Char → Option (Option (Bool × List Char) × List Char)
  | c :: cs =>
    if c = 'e' ∨ c = 'E' then
      let (down, rest) :=
        match cs with
        | '-' :: rest => (true, rest)
        | '+' :: rest => (false, rest)
        | rest => (false, rest)
      if (digits rest).1.isEmpty then none else some (some (down, (digits rest).1), (digits rest).2)
    else some (none, c :: cs)
  | [] => some (none, [])

/-- A number; a whole part of several digits does not begin with zero. -/
def number? (mode : Mode) (cs : List Char) : Option (Json × List Char) := do
  let (negative, cs) :=
    match cs with
    | '-' :: cs => (true, cs)
    | cs => (false, cs)
  let (whole, rest) := digits cs
  if whole.isEmpty || (whole.head? == some '0' && 1 < whole.length) then none
  else
    let (fraction, rest) ← fraction? rest
    let (exponent, rest) ← exponent? rest
    match mode with
    | .lax => some (.null, rest)
    | .strict => do
      let value ← Number.Written.value? ⟨negative, whole, fraction, exponent⟩
      some (.number value, rest)

def word? (word : List Char) (value : Json) (cs : List Char) : Option (Json × List Char) :=
  (word.isPrefixOf? cs).map fun rest => (value, rest)

/-- The nesting that a strict reader refuses. -/
def deepest : Nat := 128

mutual

/-- A value with `depth` levels around it, behind optional blanks. -/
def value? (mode : Mode) : Nat → Nat → List Char → Option (Json × List Char)
  | 0, _, _ => none
  | fuel + 1, depth, cs =>
    match skipSpace cs with
    | 'n' :: rest => word? ['u', 'l', 'l'] .null rest
    | 't' :: rest => word? ['r', 'u', 'e'] (.bool true) rest
    | 'f' :: rest => word? ['a', 'l', 's', 'e'] (.bool false) rest
    | '"' :: rest => (quotedString? mode ('"' :: rest)).map fun (s, rest) => (.string s, rest)
    | '[' :: rest =>
      if mode = .strict ∧ deepest ≤ depth + 1 then none
      else
        match skipSpace rest with
        | ']' :: rest => some (.array [], rest)
        | rest => (items? mode fuel (depth + 1) rest).map fun (items, rest) => (.array items, rest)
    | '\x7b' :: rest =>
      if mode = .strict ∧ deepest ≤ depth + 1 then none
      else
        match skipSpace rest with
        | '\x7d' :: rest => some (.object [], rest)
        | rest =>
          (members? mode fuel (depth + 1) rest).map fun (members, rest) => (.object members, rest)
    | rest => number? mode rest

/-- The items of an array up to its bracket. -/
def items? (mode : Mode) : Nat → Nat → List Char → Option (List Json × List Char)
  | 0, _, _ => none
  | fuel + 1, depth, cs => do
    let (item, rest) ← value? mode fuel depth cs
    match skipSpace rest with
    | ']' :: rest => some ([item], rest)
    | ',' :: rest => do
      let (items, rest) ← items? mode fuel depth rest
      some (item :: items, rest)
    | _ => none

/-- The members of an object up to its brace. -/
def members? (mode : Mode) : Nat → Nat → List Char → Option (List (String × Json) × List Char)
  | 0, _, _ => none
  | fuel + 1, depth, cs => do
    let (key, rest) ← quotedString? mode (skipSpace cs)
    match skipSpace rest with
    | ':' :: rest => do
      let (value, rest) ← value? mode fuel depth rest
      match skipSpace rest with
      | '\x7d' :: rest => some ([(key, value)], rest)
      | ',' :: rest => do
        let (members, rest) ← members? mode fuel depth rest
        some ((key, value) :: members, rest)
      | _ => none
    | _ => none

end

/-- Every nested reader but one takes a character first, so this bound is never reached. -/
def enough (cs : List Char) : Nat :=
  2 * cs.length + 2

/-- The members of an object up to its brace, of which only those with a key in `kept` are read
strictly. The others are dropped. -/
def keptMembers? (kept : List String) :
    Nat → List Char → Option (List (String × Json) × List Char)
  | 0, _ => none
  | fuel + 1, cs => do
    let (key, rest) ← quotedString? .strict (skipSpace cs)
    let isKept := kept.contains key
    match skipSpace rest with
    | ':' :: rest => do
      let (value, rest) ← value? (if isKept then .strict else .lax) (enough rest) 1 rest
      let member := if isKept then [(key, value)] else []
      match skipSpace rest with
      | '\x7d' :: rest => some (member, rest)
      | ',' :: rest => do
        let (members, rest) ← keptMembers? kept fuel rest
        some (member ++ members, rest)
      | _ => none
    | _ => none

/-- Reads a whole text as one object and keeps the members with a key in `kept`. -/
def parseKept? (kept : List String) (text : String) : Option Json :=
  match skipSpace text.toList with
  | '\x7b' :: rest => do
    let (members, rest) ←
      match skipSpace rest with
      | '\x7d' :: rest => some ([], rest)
      | rest => keptMembers? kept (enough rest) rest
    if (skipSpace rest).isEmpty then some (.object members) else none
  | cs => do
    let (value, rest) ← value? .strict (enough cs) 0 cs
    if (skipSpace rest).isEmpty then some value else none

/-- Reads a whole text as one value. -/
def parse? (text : String) : Option Json := do
  let cs := text.toList
  let (value, rest) ← value? .strict (enough cs) 0 cs
  if (skipSpace rest).isEmpty then some value else none

end AtomicCss.Json.Parser
