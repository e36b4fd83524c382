/-!
# Identifiers

An identifier is a nonempty word of ASCII letters, digits and underscores that
does not start with a digit.  `Identifier.normalize` maps every text onto an
identifier (the empty text onto itself), and `Identifier.snakeCase` turns a
camel case name into the name that program text uses.
-/

namespace TensorProgram.Identifier

def isWordChar (c : Char) : Bool :=
  c.isAlphanum || c == '_'

/-- An underscore stands in front of a leading digit. -/
def guardDigit : List Char → List Char
  | [] => []
  | c :: rest => if c.isDigit then '_' :: c :: rest else c :: rest

def normalizeChars (cs : List Char) : List Char :=
  guardDigit (cs.map fun c => if isWordChar c then c else '_')

/-- Every character that is no word character becomes an underscore, and an
underscore is put in front of a leading digit. -/
def normalize (text : String) : String :=
  .ofList (normalizeChars text.toList)

/-- A nonempty text that normalization leaves alone. -/
def isIdentifier (text : String) : Bool :=
  text != "" && normalize text == text

/-- `previous` is the character in front of the rest of the name, if any. -/
def snakeCaseChars (previous : Option Char) : List Char → List Char
  | [] => []
  | c :: rest =>
    let converted :=
      if c.isUpper then
        if previous.any fun p => p.isLower || p.isDigit then ['_', c.toLower] else [c.toLower]
      else [c]
    converted ++ snakeCaseChars (some c) rest

/-- Every uppercase letter becomes lowercase, with an underscore in front of it
when it follows a lowercase letter or a digit. -/
def snakeCase (name : String) : String :=
  .ofList (snakeCaseChars none name.toList)

end TensorProgram.Identifier
