import AtomicCss.Decimal.Reader
import AtomicCss.Value.Fault

/-!
# Tokens of a value

A value is split into tokens that keep the written text of names, numbers and strings. The readers
below take a token off the front of a text and return it with the rest; each comes with the lemma
that nothing is lost between the two.
-/

namespace AtomicCss

inductive Token
  | ident (name : List Char)
  | function (name : List Char)
  | hash (name : List Char)
  | string (quote : Char) (raw : List Char)
  | url (raw : List Char)
  | number (text : List Char)
  | percentage (text : List Char)
  | dimension (text unit : List Char)
  | whitespace
  | comma
  | leftParen
  | rightParen
  | delim (c : Char)
  deriving DecidableEq, Repr

namespace Token

/-- The text of a token. Of blanks and of unquoted addresses it is one spelling among several. -/
def spelling : Token → List Char
  | ident name => name
  | function name => name ++ ['(']
  | hash name => '#' :: name
  | string quote raw => quote :: (raw ++ [quote])
  | url raw => ['u', 'r', 'l', '('] ++ raw ++ [')']
  | number text => text
  | percentage text => text ++ ['%']
  | dimension text unit => text ++ unit
  | whitespace => [' ']
  | comma => [',']
  | leftParen => ['(']
  | rightParen => [')']
  | delim c => [c]

/-- Letters, the underscore and everything outside ASCII begin a name. -/
def isNameStart (c : Char) : Bool :=
  c.isAlpha || c == '_' || 128 ≤ c.toNat

def isNameChar (c : Char) : Bool :=
  isNameStart c || c.isDigit || c == '-'

/-- A name; a backslash takes the next character with it. -/
def nameSpan : List Char → List Char × List Char
  | [] => ([], [])
  | '\\' :: [] => (['\\'], [])
  | '\\' :: c :: cs => ('\\' :: c :: (nameSpan cs).1, (nameSpan cs).2)
  | c :: cs => if isNameChar c then (c :: (nameSpan cs).1, (nameSpan cs).2) else ([], c :: cs)

theorem nameSpan_append (cs : List Char) : (nameSpan cs).1 ++ (nameSpan cs).2 = cs := by
  fun_induction nameSpan cs <;> simp_all

/-- The text before the closing quote; a backslash takes the next character with it. -/
def stringBody? (quote : Char) : List Char → Option (List Char × List Char)
  | [] => none
  | c :: cs =>
    if c = quote then some ([], cs)
    else if c = '\\' then
      match cs with
      | [] => none
      | d :: ds => (stringBody? quote ds).map fun (raw, rest) => (c :: d :: raw, rest)
    else (stringBody? quote cs).map fun (raw, rest) => (c :: raw, rest)

theorem stringBody?_append {quote : Char} {cs raw rest : List Char}
    (h : stringBody? quote cs = some (raw, rest)) : cs = raw ++ quote :: rest := by
  fun_induction stringBody? quote cs generalizing raw rest <;> simp_all
  all_goals
    obtain ⟨a, h, rfl⟩ := h
    simp_all

/-- The text before the closing parenthesis; a backslash takes the next character with it. -/
def urlBody? (cs : List Char) : Option (List Char × List Char) :=
  stringBody? ')' cs

def signSpan : List Char → List Char × List Char
  | c :: cs => if c = '+' ∨ c = '-' then ([c], cs) else ([], c :: cs)
  | [] => ([], [])

def digitSpan (cs : List Char) : List Char × List Char :=
  (cs.takeWhile Char.isDigit, cs.dropWhile Char.isDigit)

/-- A point and the digits after it, if there are any. -/
def fractionSpan : List Char → List Char × List Char
  | '.' :: d :: cs =>
    if d.isDigit then ('.' :: (digitSpan (d :: cs)).1, (digitSpan (d :: cs)).2)
    else ([], '.' :: d :: cs)
  | cs => ([], cs)

/-- An exponent, if its sign is followed by digits; otherwise the letter begins a unit. -/
def exponentSpan : List Char → List Char × List Char
  | e :: cs =>
    let (sign, rest) := signSpan cs
    let (digits, rest) := digitSpan rest
    if (e = 'e' ∨ e = 'E') ∧ digits ≠ [] then (e :: (sign ++ digits), rest) else ([], e :: cs)
  | [] => ([], [])

def numberSpan (cs : List Char) : List Char × List Char :=
  let (sign, rest) := signSpan cs
  let (digits, rest) := digitSpan rest
  let (fraction, rest) := fractionSpan rest
  let (exponent, rest) := exponentSpan rest
  (sign ++ digits ++ fraction ++ exponent, rest)

theorem signSpan_append (cs : List Char) : (signSpan cs).1 ++ (signSpan cs).2 = cs := by
  fun_cases signSpan cs <;> simp_all

theorem digitSpan_append (cs : List Char) : (digitSpan cs).1 ++ (digitSpan cs).2 = cs :=
  List.takeWhile_append_dropWhile

theorem fractionSpan_append (cs : List Char) : (fractionSpan cs).1 ++ (fractionSpan cs).2 = cs := by
  fun_cases fractionSpan cs <;> simp [digitSpan_append]

theorem exponentSpan_append (cs : List Char) : (exponentSpan cs).1 ++ (exponentSpan cs).2 = cs := by
  match cs with
  | [] => rfl
  | e :: cs =>
    have hs := signSpan_append cs
    have hd := digitSpan_append (signSpan cs).2
    simp only [exponentSpan]
    split
    · simp [hd, hs]
    · rfl

theorem numberSpan_append (cs : List Char) : (numberSpan cs).1 ++ (numberSpan cs).2 = cs := by
  simp [numberSpan, exponentSpan_append, fractionSpan_append, digitSpan_append, signSpan_append]

/-- A number begins with a digit, with a point before a digit, or with a sign before these. -/
def startsNumber : List Char → Bool
  | c :: cs =>
    let unsigned : List Char → Bool
      | '.' :: d :: _ => d.isDigit
      | d :: _ => d.isDigit
      | [] => false
    unsigned (if c = '+' ∨ c = '-' then cs else c :: cs)
  | [] => false

/-- A name begins with a name character, or with a dash before one or before a second dash. -/
def startsName : List Char → Bool
  | '-' :: c :: _ => isNameStart c || c == '-'
  | c :: _ => isNameStart c
  | [] => false

/-- Why no token could be read. An unclosed address is reported behind its opening text. -/
inductive Failure
  | unclosedString
  | unclosedUrl (opening : List Char)
  | notANumber (text : List Char)
  deriving DecidableEq, Repr

/-- A number, with the percent sign or the unit that follows it. -/
def readNumber (cs : List Char) : Except Failure (Token × List Char) :=
  let (text, rest) := numberSpan cs
  if (Decimal.read? text).isNone then .error (.notANumber text)
  else
    match rest with
    | [] => .ok (number text, [])
    | c :: tail =>
      if c = '%' then .ok (percentage text, tail)
      else if isNameStart c then .ok (dimension text (nameSpan rest).1, (nameSpan rest).2)
      else .ok (number text, rest)

/-- Whether the first character that is not blank is a quote. -/
def quoteAhead (cs : List Char) : Bool :=
  match cs.dropWhile Text.isBlank with
  | c :: _ => c == '"' || c == '\''
  | [] => false

/-- A name, a function, or an address without quotes. -/
def readNamed (cs : List Char) : Except Failure (Token × List Char) :=
  let (name, rest) := nameSpan cs
  match rest with
  | '(' :: inner =>
    if Text.equalsIgnoringCase name ['u', 'r', 'l'] && !quoteAhead inner then
      match urlBody? (inner.dropWhile Text.isBlank) with
      | some (raw, rest) => .ok (url (Text.trimEnd raw), rest)
      | none => .error (.unclosedUrl (name ++ ['(']))
    else .ok (function name, inner)
  | _ => .ok (ident name, rest)

/-- The first token and the rest of the text; nothing at the end of the text. -/
def next? : List Char → Except Failure (Option (Token × List Char))
  | [] => .ok none
  | c :: cs =>
    if Text.isBlank c then .ok (some (whitespace, cs.dropWhile Text.isBlank))
    else if c = ',' then .ok (some (comma, cs))
    else if c = '(' then .ok (some (leftParen, cs))
    else if c = ')' then .ok (some (rightParen, cs))
    else if c = '"' ∨ c = '\'' then
      match stringBody? c cs with
      | some (raw, rest) => .ok (some (string c raw, rest))
      | none => .error .unclosedString
    else if c = '#' then .ok (some (hash (nameSpan cs).1, (nameSpan cs).2))
    else if startsNumber (c :: cs) then (readNumber (c :: cs)).map some
    else if startsName (c :: cs) then (readNamed (c :: cs)).map some
    else .ok (some (delim c, cs))

end Token

end AtomicCss
