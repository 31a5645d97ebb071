import AtomicCss.CommandLine

/-!
# The program
-/

namespace AtomicCss.CommandLine

/-- The text of a file, or why it cannot be read. -/
def readSource (path : String) : IO (Except String String) := do
  try
    let bytes ← IO.FS.readBinFile path
    match String.fromUTF8? bytes with
    | some text => pure (.ok text)
    | none => pure (.error "stream did not contain valid UTF-8")
  catch
    | .noFileOrDirectory .. => pure (.error "No such file or directory (os error 2)")
    | e => pure (.error (toString e))

end AtomicCss.CommandLine

open AtomicCss.CommandLine

def main (args : List String) : IO UInt32 := do
  let command := Command.ofArguments args
  let source ←
    match command.path? with
    | some path => readSource path
    | none => pure (.ok "")
  let report := command.run source
  IO.print report.out
  IO.eprint report.err
  pure report.code.toUInt32
