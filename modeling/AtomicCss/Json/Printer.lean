import AtomicCss.Json.Number

/-!
# Writing JSON

The compact form: no blanks, and in strings only quotes, backslashes and control characters are
escaped.
-/

namespace AtomicCss.Json

def escapedChar (c : Char) : List Char :=
  if c = '"' then ['\\', '"']
  else if c = '\\' then ['\\', '\\']
  else if c = '\x08' then ['\\', 'b']
  else if c = '\x0c' then ['\\', 'f']
  else if c = '\n' then ['\\', 'n']
  else if c = '\r' then ['\\', 'r']
  else if c = '\t' then ['\\', 't']
  else if c.toNat < 32 then
    ['\\', 'u', '0', '0', Nat.digitChar (c.toNat / 16), Nat.digitChar (c.toNat % 16)]
  else [c]

def stringText (s : String) : List Char :=
  '"' :: (s.toList.flatMap escapedChar ++ ['"'])

mutual

def text : Json → List Char
  | null => ['n', 'u', 'l', 'l']
  | bool true => ['t', 'r', 'u', 'e']
  | bool false => ['f', 'a', 'l', 's', 'e']
  | number n => n.text
  | string s => stringText s
  | array [] => ['[', ']']
  | array (item :: items) => '[' :: (text item ++ itemsText items)
  | object [] => ['\x7b', '\x7d']
  | object ((key, value) :: members) =>
    '\x7b' :: (stringText key ++ ':' :: (text value ++ membersText members))

def itemsText : List Json → List Char
  | [] => [']']
  | item :: items => ',' :: (text item ++ itemsText items)

def membersText : List (String × Json) → List Char
  | [] => ['\x7d']
  | (key, value) :: members =>
    ',' :: (stringText key ++ ':' :: (text value ++ membersText members))

end

def compact (j : Json) : String :=
  String.ofList j.text

end AtomicCss.Json
