import TensorProgram.Program.Basic

/-!
# Program text

A program is written line by line, and a line is a depth together with a text.
`Program.statementLines` gives the lines of a statement with the body of its closure one
level deeper, and `Program.text` the whole program, whether it is complete or not.

Bodies of closures are nested at most as deep as there are functions, which bounds the
recursion.
-/

namespace TensorProgram

structure Line where
  depth : Nat
  text : String
  deriving DecidableEq, Repr

namespace Line

/-- What is put in front of a line for each level of depth. -/
def indentation : String :=
  "  "

def render (l : Line) : String :=
  String.join (List.replicate l.depth indentation) ++ l.text ++ "\n"

end Line

namespace Program

def commaSeparated (texts : List String) : String :=
  ", ".intercalate texts

/-- Text in braces. -/
def braced (text : String) : String :=
  "\x7b" ++ text ++ "\x7d"

/-! ## Values -/

def valueText (p : Program) (v : Value) : String :=
  ((p.valueData? v).map (·.name.render)).getD "%<unknown>"

def valueType (p : Program) (v : Value) : String :=
  ((p.shape? v).getD .invalid).wireType

def typedValue (p : Program) (v : Value) : String :=
  p.valueText v ++ ": " ++ p.valueType v

/-- The types of results: a single type as it is, and otherwise a list in parentheses. -/
def resultTypes (types : List String) : String :=
  match types with
  | [type] => type
  | types => "(" ++ commaSeparated types ++ ")"

/-! ## Statements -/

section Statements

variable [NarrowConversions]

def attributeText (a : String × Attribute) : String :=
  a.1 ++ " = " ++ a.2.render

/-- The texts on lines of their own, with a comma after each but the last. -/
def listLines (depth : Nat) : List String → List Line
  | [] => []
  | [text] => [⟨depth, text⟩]
  | text :: texts => ⟨depth, text ++ ","⟩ :: listLines depth texts

/-- A single text without a line break. -/
def fitsOnLine : List String → Bool
  | [text] => !text.toList.contains '\n'
  | _ => false

/-- The lines from the one that starts with `first`, to which the attributes are added, to
the one that ends with `rest`. -/
def attributeLines (depth : Nat) (first : String) (attributes : List String) (rest : String) :
    List Line :=
  if attributes.isEmpty then [⟨depth, first ++ rest⟩]
  else if fitsOnLine attributes then
    [⟨depth, first ++ " " ++ braced (" " ++ commaSeparated attributes ++ " ") ++ rest⟩]
  else
    ⟨depth, first ++ " \x7b"⟩ :: listLines (depth + 1) attributes ++ [⟨depth, "\x7d" ++ rest⟩]

/-- The outputs, the operation and the operands of a statement. -/
def statementHead (p : Program) (s : Statement) : String :=
  let outputs :=
    if s.outputs.isEmpty then "" else commaSeparated (s.outputs.map p.valueText) ++ " = "
  outputs ++ "\"" ++ s.op.wireName ++ "\"(" ++ commaSeparated (s.inputs.map p.valueText) ++ ")"

/-- The types of the operands and of the results. -/
def statementType (p : Program) (s : Statement) : String :=
  " : (" ++ commaSeparated (s.inputs.map p.valueType) ++ ") -> " ++
    resultTypes (s.outputs.map p.valueType)

/-- The line that starts the block of a closure. -/
def blockLabel (p : Program) (label : String) (inputs : List Value) : String :=
  if inputs.isEmpty then "^" ++ label ++ ":"
  else "^" ++ label ++ "(" ++ commaSeparated (inputs.map p.typedValue) ++ "):"

/-- The block of a closure, given the lines of each statement in it. -/
def blockLines (p : Program) (nested : Statement → List Line) (depth : Nat) (use : ClosureUse) :
    List Line :=
  match p.function? use.function with
  | some c => ⟨depth, p.blockLabel use.label c.inputs⟩ :: c.statements.flatMap nested
  | none => []

/-- The lines of a statement, given those of each statement in its closure. -/
def statementLinesWith (p : Program) (nested : Statement → List Line) (depth : Nat)
    (s : Statement) : List Line :=
  let attributes := s.attributes.map attributeText
  match s.closure? with
  | none => attributeLines depth (p.statementHead s) attributes (p.statementType s)
  | some use =>
    ⟨depth, p.statementHead s ++ " (\x7b"⟩ :: p.blockLines nested depth use ++
      attributeLines depth "\x7d)" attributes (p.statementType s)

/-- The lines of a statement with closures nested up to a number of times. -/
def statementLinesUpTo (p : Program) : (nesting : Nat) → (depth : Nat) → Statement → List Line
  | 0, depth, s => p.statementLinesWith (fun _ => []) depth s
  | nesting + 1, depth, s =>
    p.statementLinesWith (p.statementLinesUpTo nesting (depth + 1)) depth s

def statementLines (p : Program) (depth : Nat) (s : Statement) : List Line :=
  p.statementLinesUpTo p.functions.length depth s

end Statements

/-! ## Functions -/

def shardingText (s : Sharding) (shape : Shape) : String :=
  braced ("sdy.sharding = " ++ s.attributeText shape.rank)

/-- A type with a sharding, if there is one. -/
def shardedType (shape : Shape) (sharding? : Option Sharding) : String :=
  match sharding? with
  | some sharding => shape.wireType ++ " " ++ shardingText sharding shape
  | none => shape.wireType

/-- An input of a top-level function. -/
def inputText (p : Program) (v : Value) : String :=
  p.valueText v ++ ": " ++
    shardedType ((p.shape? v).getD .invalid) ((p.valueData? v).bind ValueData.sharding?)

/-- The results of a top-level function.  A single result with a sharding is also put in
parentheses. -/
def outputTypes (outputs : List Output) : String :=
  let types := outputs.map fun output => shardedType output.shape output.sharding?
  if outputs.any (·.sharding?.isSome) then "(" ++ commaSeparated types ++ ")" else resultTypes types

def functionHeader (p : Program) (name : String) (f : Function) : String :=
  "func.func @" ++ name ++ "(" ++ commaSeparated (f.inputs.map p.inputText) ++ ") -> " ++
    outputTypes f.outputs ++ " \x7b"

/-- The lines of a top-level function, which stands at depth one. -/
def functionLines [NarrowConversions] (p : Program) (f : Function) : List Line :=
  ⟨1, p.functionHeader (f.name?.getD "") f⟩ :: f.statements.flatMap (p.statementLines 2) ++
    [⟨1, "\x7d"⟩]

/-! ## Programs -/

def distributionText (d : Distribution) : String :=
  let (replicas, partitions) := d.counts
  " attributes " ++ braced ("mhlo.num_partitions = " ++ toString partitions ++
    " : i32, mhlo.num_replicas = " ++ toString replicas ++ " : i32")

def header (p : Program) : String :=
  "module @" ++ p.name ++ p.distribution?.elim "" distributionText ++ " \x7b"

section Text

variable [NarrowConversions]

def lines (p : Program) : List Line :=
  ⟨0, p.header⟩ :: p.meshes.map (fun mesh => ⟨1, mesh.declaration⟩) ++
    p.topLevel.flatMap (fun (_, f) => p.functionLines f) ++ [⟨0, "\x7d"⟩]

/-- The program as it is, complete or not. -/
def text (p : Program) : String :=
  String.join (p.lines.map Line.render)

end Text

end Program

end TensorProgram
