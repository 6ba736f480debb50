import Stencil.Entries
import Stencil.Text.Quoted

/-! The setting of a render: the includes that templates can name and how deep they may nest. -/

namespace Stencil

/-- Includes by name. A name that is missing is tried again with the extension. -/
structure Environment where
  includes : List (String × String) := []
  extension : String := ".html"
  limit : Nat := 100
  deriving Inhabited

namespace Environment

def empty : Environment := {}

def addInclude (env : Environment) (name source : String) : Environment :=
  { env with includes := Entries.put name source env.includes }

def removeInclude (env : Environment) (name : String) : Environment :=
  { env with includes := Entries.drop name env.includes }

def clearIncludes (env : Environment) : Environment := { env with includes := [] }

/-- The source of an include, as named or else with the extension. -/
def source? (env : Environment) (name : String) : Option String :=
  (env.includes.lookup name).or (env.includes.lookup (name ++ env.extension))

def inspect (env : Environment) : String :=
  let names := (Entries.keys env.includes).mergeSort fun a b => (compare a b).isLE
  "Environment \x7b includes: [" ++ ", ".intercalate (names.map Text.quoted) ++
    "], default_extension: " ++ Text.quoted env.extension ++ ", recursion_limit: " ++
    .ofList (Nat.toDigits 10 env.limit) ++ " \x7d"

end Environment

end Stencil
