/-!
# Positions inside a value

Lines and columns count characters from one, offsets count bytes of UTF-8 from zero.
-/

namespace AtomicCss

structure Location where
  line : Nat
  column : Nat
  offset : Nat
  deriving DecidableEq, Repr

namespace Location

def start : Location := ⟨1, 1, 0⟩

def step (l : Location) (c : Char) : Location :=
  if c = '\n' then ⟨l.line + 1, 1, l.offset + c.utf8Size⟩
  else ⟨l.line, l.column + 1, l.offset + c.utf8Size⟩

/-- The position behind a text that begins at `l`. -/
def past (l : Location) (text : List Char) : Location :=
  text.foldl step l

def text (l : Location) : String :=
  s!"{l.line}:{l.column}"

theorem past_append (l : Location) (s t : List Char) : l.past (s ++ t) = (l.past s).past t :=
  List.foldl_append

end Location

end AtomicCss
