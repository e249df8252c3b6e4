import Shading.Proofs.Frame
import Shading.Proofs.Rereading

/- Places and what is stored in them. Storing in a place changes one location: a slot, or a
   field of the invocation, of which the two colors are one (`Place.location?`). Places that
   have no location in common do not see what is stored in each other, and can be stored in
   in either order; of what is stored twice in one place the second remains. Attributes see
   none of it. All of this is said of fields once for each stage (`HasFields`). -/
namespace Shading

/-! ## Locations -/

/-- What storing in a place may change: a slot, or a field of the invocation. A color comes with
its output tag. -/
inductive Location where
  | slot (i : Nat)
  | color
  | depth
  | position
  deriving DecidableEq

/-- The location of a place. What is only read has none. -/
def Place.location? : Place → Option Location
  | .slot i => some (.slot i)
  | .builtin .rgbColor | .builtin .yuvColor => some .color
  | .builtin .depth => some .depth
  | .builtin .outputPosition => some .position
  | .builtin _ => none

/-- Two places have no location in common. -/
def Place.Apart (a b : Place) : Prop := ∀ l, a.location? = some l → b.location? ≠ some l

instance (a b : Place) : Decidable (a.Apart b) :=
  inferInstanceAs (Decidable (∀ l ∈ a.location?, b.location? ≠ some l))

theorem Place.Apart.symm {a b : Place} (h : a.Apart b) : b.Apart a :=
  fun l hb ha => h l ha hb

theorem Place.Apart.slot_ne {i j : Nat} (h : (Place.slot i).Apart (.slot j)) : i ≠ j := by
  rintro rfl
  exact h _ rfl rfl

theorem Place.apart_slot {place : Place} {i : Nat} (h : place ≠ .slot i) :
    place.Apart (.slot i) := by
  rintro l hplace hslot
  obtain rfl := Option.some.inj hslot
  match place with
  | .slot j => exact h (congrArg Place.slot (Location.slot.inj (Option.some.inj hplace)))
  | .builtin b => cases b <;> cases hplace

/-- What may be a destination: a slot, or a built-in that may be written. -/
def Place.IsWritable (place : Place) : Prop := ∀ b, place = .builtin b → b.isWritable = true

/-- A destination is read in all of its lanes, or in those of its swizzle. -/
theorem Place.IsWritable.lanes {r : Reference} (h : r.place.IsWritable) :
    r.lanes = r.mask.getD Mask.xyzq := by
  rcases r with ⟨b | i, mask⟩
  · have hb := h b rfl
    cases b <;> first | rfl | cases hb
  · rfl

/-! ## Fields -/

namespace Attribute

variable {f g : Fragment}

/-- What is interpolated depends on the primitive of a fragment, its weights and its
denominator. -/
theorem interpolate_congr (hkey : g.key = f.key) (hweights : g.weights = f.weights)
    (hdenominator : g.denominator = f.denominator) (a : Attribute) (c : AnchorCache) :
    a.interpolate g c = a.interpolate f c := by
  obtain ⟨hprimitive, hvertices, htopology⟩ := PrimitiveKey.mk.inj hkey
  have htuple : ∀ k, a.cornerTuple? g k = a.cornerTuple? f k := by
    intro k
    rw [cornerTuple?, cornerTuple?, hprimitive, hvertices, htopology]
  have hgather : ∀ (ks : List Corner) (anchors : Corners Vec4),
      a.gather g ks anchors = a.gather f ks anchors := by
    intro ks
    induction ks with
    | nil => exact fun _ => rfl
    | cons k rest ih => exact fun anchors => by simp only [gather, htuple, ih]
  simp only [interpolate, refresh, blend, weigh, hkey, hprimitive, htopology, hgather, hweights,
    hdenominator]

end Attribute

/-- Invocations with a field for each location. Storing in one is not seen in another, nor by
attributes; two are stored in in either order; what is stored first is covered by what is
stored then; and where a vector is held, a vector is held on. -/
class HasFields (ι : Type) [Invocation ι] : Prop where
  read_store : ∀ (i : ι) {b b' : Builtin}, (Place.builtin b).Apart (.builtin b') → ∀ value,
    Invocation.read (Invocation.store i b value) b' = Invocation.read i b'
  read_stored : ∀ (i : ι) {b : Builtin} {v : Vec4}, b.isWritable = true →
    Invocation.read i b = .vec v → ∀ w, Invocation.read (Invocation.store i b (.vec w)) b = .vec w
  store_comm : ∀ (i : ι) {b b' : Builtin}, (Place.builtin b).Apart (.builtin b') →
    ∀ value value', Invocation.store (Invocation.store i b value) b' value' =
      Invocation.store (Invocation.store i b' value') b value
  store_store : ∀ (i : ι) (b : Builtin) (value value' : Value),
    Invocation.store (Invocation.store i b value) b value' = Invocation.store i b value'
  interpolate_store : ∀ (i : ι) (b : Builtin) (value : Value),
    Invocation.interpolate (Invocation.store i b value) = Invocation.interpolate i
  fetch_store : ∀ (i : ι) (b : Builtin) (value : Value),
    Invocation.fetch (Invocation.store i b value) = Invocation.fetch i

instance : HasFields Fragment where
  read_store f b b' h value := by
    cases b <;> first | rfl | (cases b' <;> first | rfl | exact absurd rfl (h _ rfl))
  read_stored f b v hb hv w := by
    cases b with
    | rgbColor | yuvColor => rfl
    | depth | outputPosition => cases hv
    | _ => cases hb
  store_comm f b b' h value value' := by
    cases b <;> cases b' <;> first | rfl | exact absurd rfl (h _ rfl)
  store_store f b value value' := by cases b <;> rfl
  interpolate_store f b value := by
    funext a c
    refine a.interpolate_congr ?_ ?_ ?_ c <;> cases b <;> rfl
  fetch_store _ _ _ := rfl

instance : HasFields Vertex where
  read_store v b b' h value := by
    cases b <;> first | rfl | (cases b' <;> first | rfl | exact absurd rfl (h _ rfl))
  read_stored i b v hb hv w := by
    cases b with
    | outputPosition => rfl
    | rgbColor | yuvColor | depth => cases hv
    | _ => cases hb
  store_comm v b b' h value value' := by
    cases b <;> cases b' <;> first | rfl | exact absurd rfl (h _ rfl)
  store_store v b value value' := by cases b <;> rfl
  interpolate_store _ _ _ := rfl
  fetch_store v b value := by cases b <;> rfl

/-! ## Places of a state -/

namespace State

variable {ι : Type} [Invocation ι] {s : State ι} {place : Place} {v : Vec4}

theorem slot_lt {i : Nat} (hv : s.current (.slot i) = .vec v) : i < s.registers.slots.size := by
  by_contra hi
  have hnone : s.registers.slot? i = none := Array.getElem?_eq_none (Nat.not_lt.1 hi)
  rw [current, hnone] at hv
  cases hv

theorem current_stored [HasFields ι] (hplace : place.IsWritable) (hv : s.current place = .vec v)
    (w : Vec4) : (s.store place (.vec w)).current place = .vec w := by
  cases place with
  | builtin b => exact HasFields.read_stored s.invocation (hplace b rfl) hv w
  | slot i =>
    show ((s.registers.store i (.vec w)).slot? i).getD default = .vec w
    rw [Registers.slot?_store_self (slot_lt hv), Option.getD_some]

theorem store_store [HasFields ι] (s : State ι) (place : Place) (value value' : Value) :
    (s.store place value).store place value' = s.store place value' := by
  cases place with
  | builtin b => simp only [store, HasFields.store_store]
  | slot i => simp only [store, Registers.store, Array.setIfInBounds_setIfInBounds]

theorem current_store_apart [HasFields ι] {a b : Place} (h : a.Apart b) (s : State ι)
    (value : Value) : (s.store a value).current b = s.current b := by
  match a, b with
  | .builtin _, .builtin _ => exact HasFields.read_store s.invocation h _
  | .builtin _, .slot _ | .slot _, .builtin _ => rfl
  | .slot i, .slot j =>
    have hslot := Registers.slot?_store_ne h.slot_ne s.registers value
    exact congrArg (fun value : Option Value => value.getD default) hslot

theorem store_comm [HasFields ι] {a b : Place} (h : a.Apart b) (s : State ι)
    (value value' : Value) :
    (s.store a value).store b value' = (s.store b value').store a value := by
  match a, b with
  | .builtin _, .builtin _ => simp only [store, HasFields.store_comm s.invocation h]
  | .builtin _, .slot _ | .slot _, .builtin _ => rfl
  | .slot i, .slot j =>
    simp only [store, Registers.store]
    rw [Array.setIfInBounds_comm _ _ h.slot_ne]

/-- Values are replaced in places apart in either order. -/
theorem update_comm [HasFields ι] {a b : Place} (h : a.Apart b) (s : State ι)
    (g g' : Value → Value) : (s.update a g).update b g' = (s.update b g').update a g := by
  have hb : (s.update a g).current b = s.current b := current_store_apart h s _
  have ha : (s.update b g').current a = s.current a := current_store_apart h.symm s _
  rw [update, hb, update, store_comm h]
  rw [update, ha]
  rfl

/-! ## Readings of a name -/

/-- A name that can be read as a source is read alike on the left of a condition. -/
theorem readName?_eq_some {r : Reference} {a : Operand} :
    s.readName? r = some a ↔ s.readDestination r = a ∧
      ∀ i, r.place = .slot i → (s.registers.slot? i).isSome = true := by
  rcases r with ⟨b | i, mask⟩
  · simp [readName?, readDestination, current]
  · cases hslot : s.registers.slot? i <;> simp [readName?, readDestination, current, hslot]

/-- A vector in a place is read there under a swizzle. -/
theorem readName?_of_current {r : Reference} (hv : s.current r.place = .vec v) :
    s.readName? r = some (.vec v r.lanes) := by
  refine readName?_eq_some.2 ⟨by rw [readDestination, hv]; rfl, fun i hi => ?_⟩
  rw [hi] at hv
  rw [Registers.slot?, Array.getElem?_eq_getElem (slot_lt hv), Option.isSome_some]

/-- A name is read as before where something was stored in a place apart. -/
theorem readName?_store [HasFields ι] {r : Reference} (h : place.Apart r.place) (s : State ι)
    (value : Value) : (s.store place value).readName? r = s.readName? r := by
  rcases r with ⟨b | j, mask⟩
  · exact congrArg (fun value => some (Value.operand _ value)) (current_store_apart h s value)
  · match place with
    | .builtin _ => rfl
    | .slot i =>
      have hslot := Registers.slot?_store_ne h.slot_ne s.registers value
      exact congrArg (Option.map (Value.operand _)) hslot

end State

end Shading
