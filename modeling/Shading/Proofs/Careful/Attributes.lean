import Shading.Invocation
import Shading.Proofs.Careful.Storing

/- Attributes by numbers. Tuples are copied lane by lane, and the corners of a primitive are
   gone over by number, in its vertices and weights as well as in the anchors. An
   invocation that gives its attributes in this way, and the same ones, is a
   `CarefulInvocation`; fragments and vertices are, for every buffer and every cache. -/
namespace Shading

namespace Careful

variable {a : Attribute} {f : Fragment}

/-! ## Tuples -/

/-- The first four floats of a list, copied into a vector. -/
def ofList (values : List Float32) : Careful Vec4 :=
  (values.take 4).zipIdx.foldlM (fun out (s, i) => setLane out i s) Vec4.zero

theorem ofList_eq (values : List Float32) : ofList values = .ok (Vec4.ofList values) := by
  rcases values with _ | ⟨s, _ | ⟨t, _ | ⟨u, _ | ⟨v, rest⟩⟩⟩⟩ <;> rfl

/-- The tuple at an index, if the buffer holds all of it. -/
def tuple? (b : TupleBuffer) (index : Nat) : Careful (Option Vec4) :=
  let start := index * b.components
  if start + b.components ≤ b.data.size then
    some <$> ofList (b.data.extract start (start + b.components)).toList
  else .ok none

theorem tuple?_eq (b : TupleBuffer) (index : Nat) : tuple? b index = .ok (b.tuple? index) := by
  simp only [tuple?, TupleBuffer.tuple?, ofList_eq, map_ok]
  split <;> rfl

/-- A value as the attribute gives it out. -/
def finish (a : Attribute) (v : Vec4) : Careful Vec4 :=
  if a.normalized && decide (2 ≤ a.buffer.components) then
    normalize v (min a.buffer.components 3)
  else .ok v

theorem finish_eq (a : Attribute) (v : Vec4) : finish a v = .ok (a.finish v) := by
  simp only [finish, Attribute.finish, normalize_eq]
  split <;> rfl

/-- The tuple at an index as the attribute gives it out. -/
def finished (a : Attribute) (index : Nat) : Careful (Option Vec4) := do
  match ← tuple? a.buffer index with
  | none => return none
  | some v => some <$> finish a v

theorem finished_eq (a : Attribute) (index : Nat) :
    finished a index = .ok ((a.buffer.tuple? index).map a.finish) := by
  rw [finished, tuple?_eq, ok_bind]
  cases a.buffer.tuple? index with
  | none => rfl
  | some v => simp only [finish_eq, map_ok, Option.map_some]

/-! ## Corners -/

/-- What a numbered corner holds. -/
def corner {α : Type} (c : Corners α) : Nat → Careful α
  | 0 => .ok c.first
  | 1 => .ok c.second
  | 2 => .ok c.third
  | i => .error (.corner i)

/-- A numbered corner replaced. -/
def setCorner {α : Type} (c : Corners α) (i : Nat) (x : α) : Careful (Corners α) :=
  match i with
  | 0 => .ok { c with first := x }
  | 1 => .ok { c with second := x }
  | 2 => .ok { c with third := x }
  | i => .error (.corner i)

@[simp] theorem corner_index {α : Type} (c : Corners α) (k : Corner) :
    corner c k.index = .ok (c.get k) := by
  cases k <;> rfl

@[simp] theorem setCorner_index {α : Type} (c : Corners α) (k : Corner) (x : α) :
    setCorner c k.index x = .ok (c.set k x) := by
  cases k <;> rfl

/-- A loop over as many corners as there are goes over the corners. -/
theorem range_size (t : Topology) : List.range t.size = t.corners.map Corner.index := by
  cases t <;> rfl

/-- The index of the tuple for a numbered corner of a fragment's primitive. -/
def cornerIndex (a : Attribute) (f : Fragment) (k : Nat) : Careful Nat :=
  match a.addressing with
  | .perVertex => UInt32.toNat <$> corner f.vertices k
  | .perPrimitive => .ok f.primitive.toNat
  | .perCorner => .ok (f.primitive.toNat * f.topology.size + k)

/-- Gathers the tuples of numbered corners over older anchors. -/
def gather (a : Attribute) (f : Fragment) :
    List Nat → Corners Vec4 → Careful (Corners Vec4 × Bool)
  | [], anchors => .ok (anchors, true)
  | k :: rest, anchors => do
    let index ← cornerIndex a f k
    match ← tuple? a.buffer index with
    | none => return (anchors, false)
    | some v => do
      let anchors ← setCorner anchors k v
      gather a f rest anchors

theorem gather_eq (a : Attribute) (f : Fragment) (ks : List Corner) :
    ∀ anchors : Corners Vec4,
      gather a f (ks.map Corner.index) anchors = .ok (a.gather f ks anchors) := by
  induction ks with
  | nil => exact fun _ => rfl
  | cons k rest ih =>
    intro anchors
    have hindex : cornerIndex a f k.index =
        .ok (a.index f.topology f.primitive.toNat (f.vertices.get k).toNat k.index) := by
      unfold cornerIndex Attribute.index
      cases a.addressing with
      | perVertex => rw [corner_index, map_ok]
      | perPrimitive | perCorner => rfl
    have htuple : tuple? a.buffer _ = .ok (a.cornerTuple? f k) := tuple?_eq ..
    rw [List.map_cons, gather, hindex, ok_bind, htuple, ok_bind, Attribute.gather]
    cases a.cornerTuple? f k with
    | none => rfl
    | some v =>
      simp only [setCorner_index, ok_bind]
      exact ih (anchors.set k v)

/-- The cache made to belong to a fragment's primitive, or to none if a tuple is missing. -/
def refresh (a : Attribute) (f : Fragment) (cache : AnchorCache) : Careful AnchorCache :=
  if cache.key = some f.key then .ok cache
  else do
    let (anchors, complete) ← gather a f (List.range f.topology.size) cache.anchors
    return ⟨if complete then some f.key else none, anchors⟩

theorem refresh_eq (a : Attribute) (f : Fragment) (cache : AnchorCache) :
    refresh a f cache = .ok (a.refresh f cache) := by
  unfold refresh Attribute.refresh
  split
  · rfl
  · rw [range_size, gather_eq, ok_bind]
    rfl

/-- The sum of the anchors under a fragment's weights. -/
def weigh (f : Fragment) (anchors : Corners Vec4) : Careful Vec4 :=
  (List.range f.topology.size).foldlM (fun sum k => do
    let w ← corner f.weights k
    let v ← corner anchors k
    return sum.zipWith (fun s t => s + t * w) v) Vec4.zero

theorem weigh_eq (f : Fragment) (anchors : Corners Vec4) :
    weigh f anchors = .ok (Shading.Attribute.weigh f anchors) := by
  unfold weigh Attribute.weigh
  cases f.topology <;> rfl

/-- The attribute at a fragment, with the cache afterwards. -/
def interpolate (a : Attribute) (f : Fragment) (cache : AnchorCache) :
    Careful (Option Vec4 × AnchorCache) :=
  match a.addressing with
  | .perPrimitive => (·, cache) <$> finished a f.primitive.toNat
  | _ => do
    let cache ← refresh a f cache
    if cache.key.isNone then return (none, cache)
    if f.denominator == 0 || !f.denominator.isFinite then return (none, cache)
    let sum ← weigh f cache.anchors
    let v ← finish a (sum.map (· / f.denominator))
    return (some v, cache)

theorem interpolate_eq (a : Attribute) (f : Fragment) (cache : AnchorCache) :
    interpolate a f cache = .ok (a.interpolate f cache) := by
  unfold interpolate Attribute.interpolate
  cases a.addressing with
  | perPrimitive => simp only [finished_eq, map_ok]
  | perVertex | perCorner =>
    simp only [refresh_eq, weigh_eq, finish_eq, ok_bind, Attribute.blend]
    cases (a.refresh f cache).key with
    | none => rfl
    | some key =>
      simp only [Option.isNone_some, Option.isSome_some, Bool.false_eq_true, if_false, if_true]
      split <;> rfl

/-- The attribute of a vertex. -/
def fetch (a : Attribute) (v : Vertex) : Careful (Option Vec4) :=
  finished a (a.index v.topology v.primitive.toNat v.index.toNat v.corner.toNat)

theorem fetch_eq (a : Attribute) (v : Vertex) : fetch a v = .ok (a.read v) := finished_eq ..

end Careful

/-! ## Invocations -/

/-- An invocation that gives its attributes by numbers, and the same ones. -/
class CarefulInvocation (ι : Type) [Invocation ι] where
  /-- An attribute across the primitive, with the anchor cache afterwards. -/
  interpolate : ι → Attribute → AnchorCache → Careful (Option Vec4 × AnchorCache)
  /-- An attribute of the vertex. -/
  fetch : ι → Attribute → Careful (Option Vec4)
  interpolate_eq : ∀ (i : ι) (a : Attribute) (c : AnchorCache),
    interpolate i a c = .ok (Invocation.interpolate i a c)
  fetch_eq : ∀ (i : ι) (a : Attribute), fetch i a = .ok (Invocation.fetch i a)

instance : CarefulInvocation Fragment where
  interpolate f a c := Careful.interpolate a f c
  fetch _ _ := .ok none
  interpolate_eq f a c := Careful.interpolate_eq a f c
  fetch_eq _ _ := rfl

instance : CarefulInvocation Vertex where
  interpolate _ _ c := .ok (none, c)
  fetch v a := Careful.fetch a v
  interpolate_eq _ _ _ := rfl
  fetch_eq v a := Careful.fetch_eq a v

end Shading
