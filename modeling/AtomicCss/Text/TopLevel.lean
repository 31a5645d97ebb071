import AtomicCss.Text.Blank

/-!
# Splitting outside parentheses and quotes
-/

namespace AtomicCss.Text

/-- How many parentheses are open behind a character, if `depth` are open before it. Closing one
that was not open counts for nothing. -/
def depthAfter (depth : Nat) (c : Char) : Nat :=
  if c = '(' then depth + 1 else if c = ')' then depth - 1 else depth

/-- Splits behind `current`, the text read of the part at hand, which stands inside `depth`
parentheses and perhaps inside quotes. Parts are trimmed and empty ones dropped. -/
def topLevelFrom (sep : Char) (depth : Nat) (quote : Option Char) (current : List Char) :
    List Char → List (List Char)
  | [] => if (trim current).isEmpty then [] else [trim current]
  | c :: cs =>
    match quote with
    | some q =>
      topLevelFrom sep depth (if c = q then none else some q) (current ++ [c]) cs
    | none =>
      if c = '"' ∨ c = '\'' then topLevelFrom sep depth (some c) (current ++ [c]) cs
      else if c = '(' then topLevelFrom sep (depth + 1) none (current ++ [c]) cs
      else if c = ')' then topLevelFrom sep (depth - 1) none (current ++ [c]) cs
      else if c = sep ∧ depth = 0 then
        if (trim current).isEmpty then topLevelFrom sep 0 none [] cs
        else trim current :: topLevelFrom sep 0 none [] cs
      else topLevelFrom sep depth none (current ++ [c]) cs

/-- The parts of a text between separators outside parentheses and quotes. -/
def splitTopLevel (sep : Char) (text : List Char) : List (List Char) :=
  topLevelFrom sep 0 none [] text

/-- Joins texts with a separator between them. -/
def joinWith (sep : Char) (parts : List (List Char)) : List Char :=
  [sep].intercalate parts

end AtomicCss.Text
