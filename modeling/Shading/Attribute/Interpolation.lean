import Shading.Attribute.Basic
import Shading.Context

/- Attributes across a primitive. The tuples of the corners are the anchors; a
   fragment's value is their sum under the weights of the fragment, divided by
   its denominator. The fragments of one primitive share their anchors, so the
   anchors last gathered are kept in an `AnchorCache` with the primitive they
   belong to, and are gathered again only for another primitive.

   A corner whose tuple is missing ends the gathering. The anchors before it
   are then overwritten already, and the cache belongs to no primitive. -/
namespace Shading

/-- What the anchors of a primitive depend on. -/
structure PrimitiveKey where
  primitive : UInt32
  vertices : Corners UInt32
  topology : Topology
  deriving DecidableEq, Repr

/-- The primitive of a fragment. -/
def Fragment.key (f : Fragment) : PrimitiveKey := ⟨f.primitive, f.vertices, f.topology⟩

/-- The anchors last gathered for one attribute, and for which primitive. -/
structure AnchorCache where
  key : Option PrimitiveKey
  anchors : Corners Vec4
  deriving DecidableEq, Repr

namespace AnchorCache

/-- A cache that belongs to no primitive yet. -/
def empty : AnchorCache := ⟨none, ⟨Vec4.zero, Vec4.zero, Vec4.zero⟩⟩

instance : Inhabited AnchorCache := ⟨empty⟩

/-- The cache made to belong to no primitive. -/
def invalidate (c : AnchorCache) : AnchorCache := { c with key := none }

/-- Whether two caches belong to one primitive and their anchors agree as
numbers. -/
def agrees (c d : AnchorCache) : Bool :=
  c.key == d.key && c.anchors.first.agrees d.anchors.first &&
    c.anchors.second.agrees d.anchors.second && c.anchors.third.agrees d.anchors.third

end AnchorCache

namespace Attribute

/-- The tuple of a corner of a fragment's primitive. -/
def cornerTuple? (a : Attribute) (f : Fragment) (k : Corner) : Option Vec4 :=
  a.buffer.tuple? (a.index f.topology f.primitive.toNat (f.vertices.get k).toNat k.index)

/-- Gathers the tuples of some corners over older anchors, up to the first that
is missing, and says whether none was. -/
def gather (a : Attribute) (f : Fragment) : List Corner → Corners Vec4 → Corners Vec4 × Bool
  | [], anchors => (anchors, true)
  | k :: rest, anchors =>
    match a.cornerTuple? f k with
    | none => (anchors, false)
    | some v => a.gather f rest (anchors.set k v)

/-- The cache made to belong to a fragment's primitive, or to none if a tuple is
missing. -/
def refresh (a : Attribute) (f : Fragment) (cache : AnchorCache) : AnchorCache :=
  if cache.key = some f.key then cache
  else
    let gathered := a.gather f f.topology.corners cache.anchors
    ⟨if gathered.2 then some f.key else none, gathered.1⟩

/-- The sum of the anchors under a fragment's weights, from zero on in the order
of the corners. -/
def weigh (f : Fragment) (anchors : Corners Vec4) : Vec4 :=
  f.topology.corners.foldl
    (fun sum k => sum.zipWith (fun s t => s + t * f.weights.get k) (anchors.get k)) Vec4.zero

/-- The value between the anchors at a fragment; a denominator that is zero or
not finite leaves none. -/
def blend (a : Attribute) (f : Fragment) (anchors : Corners Vec4) : Option Vec4 :=
  if f.denominator == 0 || !f.denominator.isFinite then none
  else some (a.finish ((weigh f anchors).map (· / f.denominator)))

/-- The attribute at a fragment, with the cache afterwards. One that is stored
per primitive is read as it stands and leaves the cache alone. -/
def interpolate (a : Attribute) (f : Fragment) (cache : AnchorCache) :
    Option Vec4 × AnchorCache :=
  match a.addressing with
  | .perPrimitive => ((a.buffer.tuple? f.primitive.toNat).map a.finish, cache)
  | _ =>
    let cache := a.refresh f cache
    (if cache.key.isSome then a.blend f cache.anchors else none, cache)

end Attribute

end Shading
