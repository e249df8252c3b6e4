import Shading.Mask

/- Names as operands are written: a base, and behind a dot a swizzle. A leading dot
   belongs to the base; it marks a uniform. -/
namespace Shading

/-- Whether a character may start an identifier. -/
def isIdentifierStart (c : Char) : Bool := c.isAlpha || c == '_'

/-- Whether some characters are an identifier: ASCII letters, digits and
underscores, no digit first. -/
def isIdentifier : List Char → Bool
  | [] => false
  | c :: rest => isIdentifierStart c && rest.all fun d => isIdentifierStart d || d.isDigit

/-- A name taken apart. -/
structure OperandName where
  base : String
  mask : Option Mask
  deriving DecidableEq, Repr

namespace OperandName

/-- The characters of a name before its swizzle, and from the dot of the swizzle
on. A dot at the very front starts no swizzle. -/
def split : List Char → List Char × List Char
  | [] => ([], [])
  | c :: rest =>
    if c = '.' then ('.' :: rest.takeWhile (· != '.'), rest.dropWhile (· != '.'))
    else ((c :: rest).takeWhile (· != '.'), (c :: rest).dropWhile (· != '.'))

/-- Takes a name apart, unless what follows its dot is no swizzle. -/
def parse? (name : String) : Option OperandName :=
  let parts := split name.toList
  match parts.2 with
  | [] => some ⟨name, none⟩
  | _ :: letters => (Mask.ofLetters? letters).map fun m => ⟨String.ofList parts.1, some m⟩

/-- Whether a base starts with a dot. -/
def hasDot (base : String) : Bool := base.toList.head? == some '.'

/-- Whether a name is that of a uniform: a dot and an identifier. -/
def isUniform (name : String) : Bool :=
  match name.toList with
  | '.' :: rest => isIdentifier rest
  | _ => false

end OperandName

end Shading
