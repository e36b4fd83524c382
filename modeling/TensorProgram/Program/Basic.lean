import TensorProgram.AttributeTable
import TensorProgram.Inference.Check
import TensorProgram.Sharding

/-!
# Programs

A program is a list of functions.  A function is either a top-level function with a
name or a closure that was made inside another function; a closure has no name and
serves one statement of its parent as a computation on elements.  A function owns its
values, which are its inputs and the outputs of its statements, and a statement refers
to values by function and index.

Names of values are given out by a `Scope`, which a top-level function shares with all
closures inside it.
-/

namespace TensorProgram

/-- The position of a function in its program. -/
abbrev FunctionId := Nat

/-- A value, named by the function that owns it and its position there. -/
structure Value where
  function : FunctionId
  index : Nat
  deriving DecidableEq, Repr

/-- The name of a value in program text.  Inputs are named by position unless they were
given a name, and outputs of statements are numbered. -/
inductive ValueName
  | argument (position : Nat)
  | numbered (number : Nat)
  | named (name : String)
  deriving DecidableEq, Repr

namespace ValueName

/-- The name of the input at a position, among the names of a scope. -/
def argumentName (position : Nat) : String :=
  "arg" ++ toString position

def render : ValueName → String
  | argument position => "%" ++ argumentName position
  | numbered number => "%" ++ toString number
  | named name => "%" ++ name

end ValueName

/-- What a function knows about a value that it owns. -/
structure ValueData where
  name : ValueName
  shape : Shape
  sharding? : Option Sharding
  deriving DecidableEq, Repr

/-- The closure that a statement uses, with the label of its block. -/
structure ClosureUse where
  label : String
  function : FunctionId
  deriving DecidableEq, Repr

/-- One operation in the body of a function. -/
structure Statement where
  op : OpKind
  inputs : List Value
  attributes : AttributeTable
  closure? : Option ClosureUse
  outputs : List Value
  deriving DecidableEq, Repr

/-- A value that a function returns. -/
structure Output where
  shape : Shape
  sharding? : Option Sharding
  deriving DecidableEq, Repr

/-- The names given out so far: positional inputs up to a position, numbered outputs up
to a number, and all names of inputs. -/
structure Scope where
  argumentCount : Nat
  valueCount : Nat
  names : List String
  deriving DecidableEq, Repr

namespace Scope

def empty : Scope :=
  ⟨0, 0, []⟩

/-- The first position that is not below the count and whose name is free.  Among one
more position than there are names, one is free. -/
def freeArgument (s : Scope) : Nat :=
  let positions := (List.range (s.names.length + 1)).map (s.argumentCount + ·)
  (positions.find? fun position => !s.names.contains (ValueName.argumentName position)).getD
    s.argumentCount

/-- The scope after a positional input. -/
def takeArgument (s : Scope) (position : Nat) : Scope :=
  { s with argumentCount := position + 1, names := ValueName.argumentName position :: s.names }

def takeName (s : Scope) (name : String) : Scope :=
  { s with names := name :: s.names }

/-- The scope after a statement with a number of outputs. -/
def takeNumbers (s : Scope) (count : Nat) : Scope :=
  { s with valueCount := s.valueCount + count }

end Scope

/-- The place of a function in its program. -/
inductive Role
  | topLevel (name : String)
  | closure (parent root : FunctionId)
  deriving DecidableEq, Repr

/-- A function.  `returned?` holds the outputs as soon as the function has returned, and
`consumed` says of a closure whether a statement uses it.  The scope is that of a
top-level function; it stays empty in a closure. -/
structure Function where
  role : Role
  inputs : List Value
  values : List ValueData
  statements : List Statement
  returned? : Option (List Output)
  consumed : Bool
  scope : Scope
  deriving DecidableEq, Repr

namespace Function

def ofRole (role : Role) : Function :=
  ⟨role, [], [], [], none, false, .empty⟩

def name? (f : Function) : Option String :=
  match f.role with
  | .topLevel name => some name
  | .closure .. => none

def parent? (f : Function) : Option FunctionId :=
  match f.role with
  | .topLevel _ => none
  | .closure parent _ => some parent

def isClosure (f : Function) : Bool :=
  f.parent?.isSome

def isReturned (f : Function) : Bool :=
  f.returned?.isSome

def outputs (f : Function) : List Output :=
  f.returned?.getD []

/-- The function in messages, when it has the given position. -/
def describe (f : Function) (id : FunctionId) : String :=
  f.name?.getD s!"<closure #{id}>"

end Function

structure Program where
  name : String
  functions : List Function
  distribution? : Option Distribution
  channelCount : Nat
  deriving DecidableEq, Repr

namespace Program

/-- The program without functions.  Its name is made an identifier. -/
def empty (name : String) : Program :=
  ⟨Identifier.normalize name, [], none, 0⟩

def function? (p : Program) (id : FunctionId) : Option Function :=
  p.functions[id]?

/-- The top-level functions with their positions. -/
def topLevel (p : Program) : List (FunctionId × Function) :=
  (p.functions.zipIdx.filter fun (f, _) => !f.isClosure).map Prod.swap

/-- The top-level function with a name. -/
def find? (p : Program) (name : String) : Option FunctionId :=
  (p.topLevel.find? fun (_, f) => f.name? == some name).map Prod.fst

/-- The top-level function that a function lies in, or the function itself. -/
def root (p : Program) (id : FunctionId) : FunctionId :=
  match (p.function? id).map Function.role with
  | some (.closure _ root) => root
  | _ => id

def valueData? (p : Program) (v : Value) : Option ValueData :=
  (p.function? v.function).bind fun f => f.values[v.index]?

def shape? (p : Program) (v : Value) : Option Shape :=
  (p.valueData? v).map ValueData.shape

/-- The scope that a function takes names from. -/
def scope (p : Program) (id : FunctionId) : Scope :=
  ((p.function? (p.root id)).map Function.scope).getD .empty

def meshes (p : Program) : List Mesh :=
  match p.distribution? with
  | some (.meshes meshes) => meshes
  | _ => []

def mesh? (p : Program) (name : String) : Option Mesh :=
  p.meshes.find? (·.name == name)

/-- A function in messages. -/
def describeFunction (p : Program) (id : FunctionId) : String :=
  ((p.function? id).map (·.describe id)).getD ""

/-- A value in messages. -/
def describeValue (p : Program) (v : Value) : String :=
  ((p.valueData? v).map (·.name.render)).getD s!"<value #{v.index}>"

/-- The program with one function changed. -/
def modify (p : Program) (id : FunctionId) (change : Function → Function) : Program :=
  { p with functions := p.functions.modify id change }

end Program

end TensorProgram
