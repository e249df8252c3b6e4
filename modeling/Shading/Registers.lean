import Shading.Attribute.Interpolation
import Shading.Value

/- Register files: the variable slots of a program and one anchor cache for each
   attribute that it interpolates. A program owns a canonical file; invocations
   run on copies of it. -/
namespace Shading

/-- The slots and anchor caches that an invocation works on. -/
structure Registers where
  slots : Array Value
  anchors : Array AnchorCache
  deriving DecidableEq, Repr

namespace Registers

/-- A file without slots. -/
def empty : Registers := ⟨#[], #[]⟩

instance : Inhabited Registers := ⟨empty⟩

/-- A file of fresh slots and caches. -/
def ofSizes (slots anchors : Nat) : Registers :=
  ⟨Array.replicate slots default, Array.replicate anchors default⟩

/-- The file with everything in it overwritten from another. -/
def resetFrom (_ canonical : Registers) : Registers := ⟨canonical.slots, canonical.anchors⟩

@[simp] theorem resetFrom_eq (r canonical : Registers) : r.resetFrom canonical = canonical := rfl

/-- The value in a slot, if there is such a slot. -/
def slot? (r : Registers) (i : Nat) : Option Value := r.slots[i]?

/-- The file with a value stored; a slot that is not there stores nothing. -/
def store (r : Registers) (i : Nat) (value : Value) : Registers :=
  { r with slots := r.slots.setIfInBounds i value }

/-- The file with one more slot, which is fresh. -/
def addSlot (r : Registers) : Registers := { r with slots := r.slots.push default }

/-- The file with one more anchor cache, which is fresh. -/
def addAnchor (r : Registers) : Registers := { r with anchors := r.anchors.push default }

/-- The anchor cache of an attribute, if there is one. -/
def anchor? (r : Registers) (id : Nat) : Option AnchorCache := r.anchors[id]?

/-- The file with an anchor cache replaced. -/
def storeAnchor (r : Registers) (id : Nat) (cache : AnchorCache) : Registers :=
  { r with anchors := r.anchors.setIfInBounds id cache }

/-- Whether two files have as many slots and caches, which agree as numbers. -/
def agrees (r s : Registers) : Bool :=
  r.slots.isEqv s.slots Value.agrees && r.anchors.isEqv s.anchors AnchorCache.agrees

end Registers

end Shading
