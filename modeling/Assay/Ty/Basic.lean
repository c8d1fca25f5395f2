import Assay.Text.Cut
import Assay.Text.Quoted

/-!
# Class names and types

The types of the virtual machine, each with its descriptor, the word used for it in formulas, and
its full name.
-/

namespace Assay

/-- The name of a class: its packages and its own name, with points between them. -/
structure ClassName where
  text : String
  deriving DecidableEq, Inhabited

namespace ClassName

def ofParts (parts : List String) : ClassName := ⟨".".intercalate parts⟩

def parts (c : ClassName) : List String := Text.split '.' c.text

/-- The packages that enclose the class. -/
def packages (c : ClassName) : List String := c.parts.dropLast

/-- The name without its packages. -/
def name (c : ClassName) : String := c.parts.getLastD ""

/-- The name with slashes between its parts. -/
def slashed (c : ClassName) : String := "/".intercalate c.parts

def full (c : ClassName) : String := s!"ClassName({Text.quote c.text})"

end ClassName

inductive Ty where
  | boolean | int | byte | char | short | long | float | double
  /-- A reference to something unknown. -/
  | reference
  /-- A reference to an object of a known class. -/
  | object (name : ClassName)
  /-- A reference to an array. -/
  | array (contains : Ty)
  deriving DecidableEq, Inhabited

namespace Ty

/-- The descriptor of a type. -/
def encode : Ty → String
  | boolean => "Z"
  | int => "I"
  | byte => "B"
  | char => "C"
  | short => "S"
  | long => "J"
  | float => "F"
  | double => "D"
  | reference => "A"
  | object c => "L" ++ c.slashed ++ ";"
  | array t => "[" ++ t.encode

/-- The word for a type in formulas. -/
def math : Ty → String
  | boolean => "bool"
  | int => "int"
  | byte => "byte"
  | char => "char"
  | short => "short"
  | long => "long"
  | float => "float"
  | double => "double"
  | reference => "ref"
  | object c => "object " ++ c.text
  | array t => "array " ++ t.math

/-- The full name of a type. -/
def full : Ty → String
  | boolean => "Boolean()"
  | int => "Int()"
  | byte => "Byte()"
  | char => "Char()"
  | short => "Short()"
  | long => "Long()"
  | float => "Float()"
  | double => "Double()"
  | reference => "Reference()"
  | object c => s!"Object(name={c.full})"
  | array t => s!"Array(contains={t.full})"

/-- Values of the type can stand on the operand stack. -/
def isStack : Ty → Bool
  | int | long | double | reference => true
  | _ => false

/-- The descriptors of a list of parameters. -/
def encodeAll (ts : List Ty) : String := String.join (ts.map encode)

/-- The full name of a list of parameters. -/
def fullAll (ts : List Ty) : String :=
  let inner :=
    match ts with
    | [t] => t.full ++ ","
    | ts => ", ".intercalate (ts.map full)
  s!"ParameterType(_elements=({inner}))"

/-- The type at the bottom of an array type. -/
def innermost : Ty → Ty
  | array t => t.innermost
  | t => t

end Ty

end Assay
