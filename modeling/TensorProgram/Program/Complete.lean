import TensorProgram.NearestConversions
import TensorProgram.Program.Error
import TensorProgram.Program.Text

/-!
# Complete programs

A program is complete when it has a function named `main`, every top-level function has
statements and has returned, and no statement has an attribute without a text.
`Program.build` gives the text of a complete program, with whatever conversions of numbers it is
given.
-/

namespace TensorProgram.Program

def mainName : String :=
  "main"

/-- The function has a body that ends in a return. -/
def checkBody (entry : FunctionId × Function) : Except ProgramError Unit := do
  let (id, f) := entry
  if f.statements.isEmpty then throw (.emptyBody (f.describe id))
  if !f.isReturned then throw (.missingReturn (f.describe id))

/-- The first attribute without a text, in the order of functions and statements. -/
def unsupportedAttribute? (p : Program) : Option (String × String) :=
  p.functions.findSome? fun f => f.statements.findSome? fun s => s.attributes.unsupported?

def checkComplete (p : Program) : Except ProgramError Unit := do
  if (p.find? mainName).isNone then throw (.missingMain p.name)
  p.topLevel.forM checkBody
  match p.unsupportedAttribute? with
  | some (key, typeName) => throw (.unsupportedAttribute key typeName)
  | none => pure ()

/-- The text of a complete program. -/
def build [NarrowConversions] (p : Program) : Except ProgramError String := do
  p.checkComplete
  return p.text

end TensorProgram.Program
