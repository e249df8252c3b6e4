import Shading.Proofs.Anchors

/- Interpolation without a cache. `Attribute.reference` says what an attribute is at a
   fragment by what the vertex stage reads at the corners of its primitive, and knows of
   no cache. Both stages find a tuple at the same place of the buffer
   (`Attribute.read_vertexAt`), so a coherent cache, which holds the tuples of its
   primitive or is not used, is a way to compute the reference
   (`Attribute.Coherent.interpolate_reference`); and a cache that starts empty is coherent
   for good, through failed gatherings, other primitives and other topologies
   (`Attribute.interpolate_refines`). -/
namespace Shading

/-- What is finite is neither infinite nor not a number. -/
theorem Single.isFinite_eq (s : Float32) : s.isFinite = !(s.isInf || s.isNaN) := by
  change s.toModel.unpack.isFinite = !(s.toModel.unpack.isInf || s.toModel.unpack.isNaN)
  cases s.toModel.unpack <;> rfl

/-- The vertex at a corner of a fragment's primitive. -/
def Fragment.vertexAt (f : Fragment) (k : Corner) : Vertex :=
  { Vertex.ofPosition Vec4.zero with
    primitive := f.primitive
    index := f.vertices.get k
    corner := k.index.toUInt32
    topology := f.topology }

namespace Attribute

/-! ## The reference -/

/-- The attribute with nothing brought to length one. -/
def plain (a : Attribute) : Attribute := { a with normalized := false }

/-- The sum of what the vertex stage reads at some corners, each under its weight, added to what
is there already; none if there is a corner where it reads none. -/
def addReads (a : Attribute) (f : Fragment) : List Corner → Vec4 → Option Vec4
  | [], sum => some sum
  | k :: rest, sum =>
    match a.plain.read (f.vertexAt k) with
    | none => none
    | some v => a.addReads f rest (sum.zipWith (fun s t => s + t * f.weights.get k) v)

/-- The attribute at a fragment. One that is stored per primitive is what the vertex stage reads
for the primitive. Another is summed up from zero over the corners of the primitive, divided by
the denominator unless that is zero, infinite or not a number, and then brought to length one
over at most three lanes if that is asked for. -/
def reference (a : Attribute) (f : Fragment) : Option Vec4 :=
  match a.addressing with
  | .perPrimitive => a.read (f.vertexAt .first)
  | _ =>
    match a.addReads f f.topology.corners Vec4.zero with
    | none => none
    | some sum =>
      if f.denominator == 0 || f.denominator.isInf || f.denominator.isNaN then none
      else
        let v := sum.map (· / f.denominator)
        some (if a.normalized && decide (2 ≤ a.buffer.components) then
          v.normalize (min a.buffer.components 3) else v)

variable {a : Attribute} {f : Fragment} {c : AnchorCache}

/-! ## One buffer for both stages -/

/-- Without normalization the vertex stage reads at a corner the tuple that is gathered for it. -/
theorem read_vertexAt (a : Attribute) (f : Fragment) (k : Corner) :
    a.plain.read (f.vertexAt k) = a.cornerTuple? f k := by
  have hcorner : (f.vertexAt k).corner.toNat = k.index := by cases k <;> rfl
  have hindex : a.plain.index (f.vertexAt k).topology (f.vertexAt k).primitive.toNat
      (f.vertexAt k).index.toNat (f.vertexAt k).corner.toNat =
      a.index f.topology f.primitive.toNat (f.vertices.get k).toNat k.index := by
    rw [hcorner]
    rfl
  have hfinish : a.plain.finish = id := rfl
  rw [read, hindex, hfinish, Option.map_id]
  rfl

/-- For an attribute that is stored per primitive, the primitive is all that counts. -/
theorem read_perPrimitive (h : a.addressing = .perPrimitive) (v : Vertex) :
    a.read v = (a.buffer.tuple? v.primitive.toNat).map a.finish := by
  rw [read, index, h]

/-! ## A coherent cache computes it -/

/-- Where all tuples are there, the sum is that of the anchors. -/
theorem addReads_eq {anchors : Corners Vec4} : ∀ {ks : List Corner} (sum : Vec4),
    (∀ k ∈ ks, a.cornerTuple? f k = some (anchors.get k)) →
    a.addReads f ks sum = some (ks.foldl
      (fun sum k => sum.zipWith (fun s t => s + t * f.weights.get k) (anchors.get k)) sum) := by
  intro ks
  induction ks with
  | nil => exact fun _ _ => rfl
  | cons k rest ih =>
    intro sum h
    obtain ⟨hk, hrest⟩ := List.forall_mem_cons.1 h
    rw [addReads, read_vertexAt, hk]
    exact ih _ hrest

theorem addReads_isSome : ∀ {ks : List Corner} {sum : Vec4},
    (a.addReads f ks sum).isSome → ∀ k ∈ ks, (a.cornerTuple? f k).isSome := by
  intro ks
  induction ks with
  | nil => simp
  | cons j rest ih =>
    intro sum h
    rw [addReads, read_vertexAt] at h
    cases htuple : a.cornerTuple? f j with
    | none => simp [htuple] at h
    | some v =>
      rw [htuple] at h
      refine List.forall_mem_cons.2 ⟨?_, ih h⟩
      rw [htuple, Option.isSome_some]

theorem Coherent.interpolate_reference (h : a.Coherent c) (f : Fragment) :
    (a.interpolate f c).1 = a.reference f := by
  unfold Attribute.interpolate reference
  cases haddressing : a.addressing with
  | perPrimitive => exact (read_perPrimitive haddressing (f.vertexAt .first)).symm
  | perVertex | perCorner =>
    dsimp only
    split
    · next hkey =>
      have htuples : ∀ k ∈ f.topology.corners,
          a.cornerTuple? f k = some ((a.refresh f c).anchors.get k) :=
        h.refresh f f.key (refresh_key hkey)
      rw [addReads_eq Vec4.zero htuples, blend, Single.isFinite_eq, Bool.not_not, Bool.or_assoc]
      rfl
    · next hkey =>
      cases hsum : a.addReads f f.topology.corners Vec4.zero with
      | none => rfl
      | some sum =>
        have htuples := addReads_isSome (Option.isSome_of_eq_some hsum)
        exact absurd (h.refresh_isSome_iff.2 htuples) hkey

theorem Coherent.invalidate (c : AnchorCache) : a.Coherent c.invalidate := by
  intro key h
  simp [AnchorCache.invalidate] at h

/-! ## A cache in use -/

/-- What is done with a cache. -/
inductive CacheUse where
  | interpolate (f : Fragment)
  | invalidate

/-- The fragments that are interpolated for, in order. -/
def CacheUse.fragments (uses : List CacheUse) : List Fragment :=
  uses.filterMap fun
    | .interpolate f => some f
    | .invalidate => none

/-- What an attribute is at the fragments that it is interpolated for with one cache. -/
def interpolateAll (a : Attribute) : List CacheUse → AnchorCache → List (Option Vec4)
  | [], _ => []
  | .interpolate f :: rest, c =>
    let done := a.interpolate f c
    done.1 :: a.interpolateAll rest done.2
  | .invalidate :: rest, c => a.interpolateAll rest c.invalidate

/-- Interpolation with a cache that starts empty gives at each fragment what the reference gives
at it, whatever fragments came before and failed or did not, and however often the cache was
invalidated. For an attribute that is stored per primitive that is what the vertex stage reads at
any vertex of the primitive. -/
theorem interpolate_refines (a : Attribute) (uses : List CacheUse) :
    a.interpolateAll uses AnchorCache.empty = (CacheUse.fragments uses).map a.reference ∧
    (a.addressing = .perPrimitive → ∀ (f : Fragment) (v : Vertex), v.primitive = f.primitive →
      a.reference f = a.read v) := by
  have hall : ∀ (uses : List CacheUse) {c : AnchorCache}, a.Coherent c →
      a.interpolateAll uses c = (CacheUse.fragments uses).map a.reference := by
    intro uses
    induction uses with
    | nil => exact fun _ => rfl
    | cons u rest ih =>
      intro c hc
      cases u with
      | interpolate f =>
        rw [interpolateAll, hc.interpolate_reference f, ih (hc.interpolate f)]
        rfl
      | invalidate =>
        rw [interpolateAll, ih (Coherent.invalidate c)]
        rfl
  refine ⟨hall uses coherent_empty, fun haddressing f v hv => ?_⟩
  have hreference : a.reference f = a.read (f.vertexAt .first) := by
    rw [reference, haddressing]
  rw [hreference, read_perPrimitive haddressing, read_perPrimitive haddressing, hv]
  rfl

/-- The second fragment has no tuple at its second corner, and leaves a foreign anchor behind; the
third one is a line. The first is answered as before all the same. -/
theorem interpolate_refines_disturbed :
    let ramp : Attribute := ⟨⟨#[0.25, 0.5, 1], 1, by decide, by decide⟩, .perVertex, false⟩
    let f := Fragment.ofPosition 0 0
    let beyond := f.withPrimitive .triangles 0 ⟨2, 3, 0⟩
    let line := (f.withPrimitive .lines 0 ⟨1, 2, 0⟩).withWeights ⟨0, 1, 1⟩
    let uses : List CacheUse := [.interpolate f, .interpolate beyond, .interpolate line,
      .interpolate f, .invalidate, .interpolate f]
    ramp.interpolateAll uses AnchorCache.empty =
      [f, beyond, line, f, f].map ramp.reference ∧
    [f, beyond, line].map ramp.reference =
      [some ⟨0.25, 0, 0, 0⟩, none, some ⟨1, 0, 0, 0⟩] ∧
    let flat : Attribute := { ramp with addressing := .perPrimitive }
    flat.reference f = flat.read (Vertex.ofPosition Vec4.zero) := by
  intro ramp f beyond line uses
  obtain ⟨hall, -⟩ := interpolate_refines ramp uses
  refine ⟨hall, by decide +kernel, ?_⟩
  obtain ⟨-, hflat⟩ := interpolate_refines { ramp with addressing := .perPrimitive } []
  exact hflat rfl f (Vertex.ofPosition Vec4.zero) rfl

end Attribute

end Shading
