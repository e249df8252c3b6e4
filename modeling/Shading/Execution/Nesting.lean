/- Blocks as the machine knows them. It has no block tree, only three facts: how
   many blocks it is running inside of, how many it is skipping over, and
   whether the outermost of those had its turn. The arms of a block are taken or
   skipped by these alone. -/
namespace Shading

/-- Where the machine stands among blocks. -/
structure Nesting where
  /-- Blocks whose present arm is running. -/
  taken : Nat
  /-- Blocks that are being skipped over, one inside the other. -/
  skipped : Nat
  /-- Whether an arm of the outermost skipped block was run already. -/
  done : Bool
  deriving DecidableEq, Repr

namespace Nesting

/-- Outside of every block. -/
def start : Nesting := ⟨0, 0, false⟩

/-- A block begins, and its first arm is run or skipped. -/
def enter (n : Nesting) (holds : Bool) : Nesting :=
  if holds then { n with taken := n.taken + 1 } else { n with skipped := 1, done := false }

/-- A block begins among those that are skipped. -/
def deepen (n : Nesting) : Nesting := { n with skipped := n.skipped + 1 }

/-- The arm that is running ends, and the rest of its block is skipped. -/
def close (n : Nesting) : Nesting := ⟨n.taken - 1, 1, true⟩

/-- An arm of the one skipped block is run. -/
def take (n : Nesting) : Nesting := { n with taken := n.taken + 1, skipped := 0 }

/-- A block ends. -/
def leave (n : Nesting) : Nesting :=
  match n.skipped with
  | 0 => { n with taken := n.taken - 1 }
  | 1 => { n with skipped := 0, done := false }
  | k + 2 => { n with skipped := k + 1 }

/-- Whether the machine is skipping. -/
def isSkipping (n : Nesting) : Bool := 0 < n.skipped

/-- Whether the next arm may be run: one block is skipped, and none of its arms was
run. -/
def isPending (n : Nesting) : Bool := n.skipped == 1 && !n.done

end Nesting

end Shading
