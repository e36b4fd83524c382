/-!
# Quoted text

Text between double quotes.  A quote or a backslash inside it is written with a
backslash in front of it, and `Quoted.scan?` reads such a text at the front of
longer text: it stops at the first quote that no backslash protects.
-/

namespace TensorProgram.Quoted

def escapeChars : List Char → List Char
  | [] => []
  | c :: rest =>
    if c = '\\' ∨ c = '"' then '\\' :: c :: escapeChars rest else c :: escapeChars rest

def escape (text : String) : String :=
  .ofList (escapeChars text.toList)

/-- The text with its quotes. -/
def quote (text : String) : String :=
  "\"" ++ escape text ++ "\""

/-- What stands before the closing quote, and what follows it. -/
def scanBody? : List Char → Option (List Char × List Char)
  | [] => none
  | '"' :: rest => some ([], rest)
  | ['\\'] => none
  | '\\' :: c :: rest => (scanBody? rest).map fun (body, tail) => (c :: body, tail)
  | c :: rest => (scanBody? rest).map fun (body, tail) => (c :: body, tail)

/-- The quoted text at the front and what follows it; nothing where no quote opens
the text or none closes it. -/
def scan? : List Char → Option (List Char × List Char)
  | '"' :: rest => scanBody? rest
  | _ => none

end TensorProgram.Quoted
