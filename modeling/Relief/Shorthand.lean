import Relief.Shorthand.Names
import Relief.Shorthand.Product
import Relief.Shorthand.Qualify

/-!
Shorthand is how formulas are typed: `2x² + sin(xy)`. Three stages, each from text to text, spell it
out: `2*x^2 + math.sin(x*y)`.
-/
namespace Relief

/-- A text and what each stage makes of it. -/
structure Shorthand where
  raw : String
  normalized : String
  multiplied : String
  resolved : String

namespace Shorthand

def normalizeText (s : String) : String :=
  String.ofList (normalize s.toList)

def multiplyText (s : String) : String :=
  String.ofList (insertProducts s.toList)

def resolveText (s : String) : Except ForeignSpelling String :=
  (qualifyNames s.toList).map String.ofList

def stages (raw : String) : Except ForeignSpelling Shorthand := do
  let normalized := normalizeText raw
  let multiplied := multiplyText normalized
  return { raw, normalized, multiplied, resolved := ← resolveText multiplied }

/-- Shorthand spelled out. -/
def expand (raw : String) : Except ForeignSpelling String :=
  (stages raw).map (·.resolved)

end Shorthand

end Relief
