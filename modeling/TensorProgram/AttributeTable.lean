import TensorProgram.Attribute

/-!
# Attribute tables

The attributes of a statement: named values sorted by name, with no name twice.
-/

namespace TensorProgram

abbrev AttributeTable := List (String × Attribute)

namespace AttributeTable

/-- The table with a value at a name, in place of an earlier value. -/
def insert (name : String) (value : Attribute) : AttributeTable → AttributeTable
  | [] => [(name, value)]
  | (key, old) :: rest =>
    if name < key then (name, value) :: (key, old) :: rest
    else if name = key then (name, value) :: rest
    else (key, old) :: insert name value rest

/-- The table of some named values, of which the last one with a name counts. -/
def ofList (attributes : List (String × Attribute)) : AttributeTable :=
  attributes.foldl (fun table (name, value) => insert name value table) []

def find? (table : AttributeTable) (name : String) : Option Attribute :=
  table.lookup name

/-- The first name whose value has no text, with the type name of the value. -/
def unsupported? (table : AttributeTable) : Option (String × String) :=
  table.findSome? fun (name, value) => value.unsupportedType?.map fun typeName => (name, typeName)

end AttributeTable

end TensorProgram
