import AtomicCss.Config

/-!
# Computations that warn

A computation collects warnings and may fail; a failure keeps the warnings made before it.
-/

namespace AtomicCss

abbrev Processing := ExceptT StyleError (StateM (List Warning))

namespace Processing

variable {α : Type}

def warn (w : Warning) : Processing Unit :=
  fun ws => (.ok (), ws ++ [w])

def fail (e : StyleError) : Processing α :=
  fun ws => (.error e, ws)

def require (holds : Bool) (e : StyleError) : Processing Unit :=
  if holds then pure () else fail e

def ofExcept (r : Except StyleError α) : Processing α :=
  fun ws => (r, ws)

def ofCss (r : Except CssFault α) : Processing α :=
  ofExcept (r.mapError StyleError.css)

/-- The result and the warnings, in the order in which they were made. -/
def collect (p : Processing α) : Except StyleError α × List Warning :=
  p []

end Processing

end AtomicCss
