import Shading.Proofs.Carried
import Shading.Proofs.Commuting

/- Assigning twice. What an assignment stores depends on what it finds: a float takes the type
   of an old scalar, a narrow vector leaves lanes of an old one as they are, and an old scalar
   may become a vector. Whatever it finds, it finds no more to do in what it stored
   (`Arith.combine_again`). A slot keeps the value as it was made. A built-in keeps only a
   view of it, one float or four, and gives that back under a type of its own; so the second
   assignment may go another way there than the first, but comes to the same floats
   (`Value.View.combine_again`). The source has its value still, because nothing was stored
   in what it reads, and its cache is settled (`Source.read_settled`). -/
namespace Shading

/-! ## What is stored a second time -/

namespace Arith

theorem ontoLanes_again (old : Vec4) (mask : Mask) (src : Operand) :
    assign.ontoLanes (assign.ontoLanes old mask src) mask src = assign.ontoLanes old mask src := by
  refine Vec4.ext_get fun l => ?_
  simp only [ontoLanes, Vec4.get_ofLanes]
  split
  · split <;> rfl
  · rfl

theorem ontoVec_again (old : Vec4) (src : Operand) :
    assign.ontoVec (assign.ontoVec old src) src = assign.ontoVec old src := by
  unfold ontoVec
  split
  · rfl
  · refine Vec4.ext_get fun l => ?_
    simp only [Vec4.get_ofLanes]
    split
    · rfl
    · split <;> rfl

/-- Over a scalar a vector of several floats makes a vector, and one of fewer a scalar. -/
theorem combine_vec_again {old : Value} (hold : old.isVec = false) (v : Vec4) (mask : Mask) :
    let src : Operand := .vec v mask
    assign.combine (assign.combine old none src) none src = assign.combine old none src := by
  intro src
  by_cases hseveral : 1 < mask.count
  · have hstored : assign.combine old none src = .vec (assign.ontoVec Vec4.zero src) := by
      rw [combine_scalar hold, if_pos hseveral]
    rw [hstored]
    exact congrArg Value.vec (ontoVec_again Vec4.zero src)
  · have hstored : assign.combine old none src = assign.scalars old (.float src.scalar) := by
      rw [combine_scalar hold, if_neg hseveral]
    have hscalar : (assign.scalars old (.float src.scalar)).isVec = false := by cases old <;> rfl
    rw [hstored, combine_scalar hscalar, if_neg hseveral]
    cases old <;> rfl

/-- What was assigned is left as it is by assigning the same again. -/
theorem combine_again (old : Value) (mask : Option Mask) (src : Operand) :
    assign.combine (assign.combine old mask src) mask src = assign.combine old mask src := by
  match mask, old with
  | some mask, old => exact congrArg Value.vec (ontoLanes_again old.toVec mask src)
  | none, .vec v => exact congrArg Value.vec (ontoVec_again v src)
  | none, .float _ | none, .int _ | none, .bool _ =>
    cases src with
    | float _ | int _ | bool _ => rfl
    | vec v mask => exact combine_vec_again rfl v mask

end Arith

/-! ## Places as views -/

/-- What a place keeps of a value: all of it, or its floats as a vector or as one float. -/
inductive Value.View : (Value → Value) → Prop
  | whole : View id
  | vec : View fun value => .vec value.toVec
  | float : View fun value => .float value.toFloat

/-- Where a view of what was assigned is found, the same assignment comes to the same view. -/
theorem Value.View.combine_again {view : Value → Value} (h : View view) {old : Value}
    (hold : view old = old) (mask : Option Mask) (src : Operand) :
    view (Arith.assign.combine (view (Arith.assign.combine old mask src)) mask src) =
      view (Arith.assign.combine old mask src) := by
  cases h with
  | whole => exact Arith.combine_again old mask src
  | vec =>
    -- the old value is a vector, and what is stored over a vector is one
    obtain ⟨w, hw⟩ : ∃ w, Arith.assign.combine old mask src = .vec w := by
      rw [← hold]
      cases mask <;> exact ⟨_, rfl⟩
    have hagain := Arith.combine_again old mask src
    rw [hw] at hagain ⊢
    exact congrArg (fun value => Value.vec value.toVec) hagain
  | float =>
    rw [← hold]
    cases mask with
    | none =>
      -- over a float an assignment stores the same, whichever float it is
      refine congrArg (fun value => Value.float value.toFloat) (Arith.combine_eq_of_hides ?_)
      cases src <;> simp [Operand.hides, isVec, typeName]
    | some mask =>
      simp only [Arith.combine, toFloat, Arith.ontoLanes, Vec4.ofLanes, toVec, Vec4.get]
      split
      · split <;> rfl
      · rfl

/-- Invocations whose built-ins can only be read or keep a view of what is stored. -/
class KeepsViews (ι : Type) [Invocation ι] : Prop where
  store_view : ∀ (i : ι) (b : Builtin), (∀ value, Invocation.store i b value = i) ∨
    ∃ view, Value.View view ∧ view (Invocation.read i b) = Invocation.read i b ∧
      ∀ value, Invocation.read (Invocation.store i b value) b = view value ∧
        Invocation.store i b (view value) = Invocation.store i b value

instance : KeepsViews Fragment where
  store_view f b := by
    cases b with
    | rgbColor | yuvColor => exact .inr ⟨_, .vec, rfl, fun _ => ⟨rfl, rfl⟩⟩
    | depth => exact .inr ⟨_, .float, rfl, fun _ => ⟨rfl, rfl⟩⟩
    | _ => exact .inl fun _ => rfl

instance : KeepsViews Vertex where
  store_view v b := by
    cases b with
    | outputPosition => exact .inr ⟨_, .vec, rfl, fun _ => ⟨rfl, rfl⟩⟩
    | _ => exact .inl fun _ => rfl

variable {ι : Type} [Invocation ι] {p : Program}

namespace State

/-- A place that is read only, or missing, stores nothing; any other keeps a view of what is
stored. -/
theorem store_view [KeepsViews ι] (s : State ι) (place : Place) :
    (∀ value, s.store place value = s) ∨
      ∃ view, Value.View view ∧ view (s.current place) = s.current place ∧
        ∀ value, (s.store place value).current place = view value ∧
          s.store place (view value) = s.store place value := by
  cases place with
  | builtin b =>
    rcases KeepsViews.store_view s.invocation b with hnone | ⟨view, hview, hread, hstore⟩
    · exact .inl fun value => by simp only [store, hnone]
    · refine .inr ⟨view, hview, hread, fun value => ⟨(hstore value).1, ?_⟩⟩
      simp only [store, (hstore value).2]
  | slot i =>
    by_cases hi : i < s.registers.slots.size
    · refine .inr ⟨id, .whole, rfl, fun value => ⟨?_, rfl⟩⟩
      show ((s.registers.store i value).slot? i).getD default = value
      rw [Registers.slot?_store_self hi, Option.getD_some]
    · refine .inl fun value => ?_
      simp only [store, Registers.store, Array.setIfInBounds, dif_neg hi]

/-- To assign the same in a place twice is to assign it once. -/
theorem update_assign_again [HasFields ι] [KeepsViews ι] (s : State ι) (dst : Reference)
    (src : Operand) :
    let assigned := fun old => Arith.assign.combine old dst.mask src
    (s.update dst.place assigned).update dst.place assigned = s.update dst.place assigned := by
  intro assigned
  rcases s.store_view dst.place with hnone | ⟨view, hview, hcurrent, hstore⟩
  · simp only [update, hnone]
  · have hagain : view (assigned (view (assigned (s.current dst.place)))) =
        view (assigned (s.current dst.place)) := hview.combine_again hcurrent dst.mask src
    calc (s.update dst.place assigned).update dst.place assigned
      _ = s.store dst.place (assigned (view (assigned (s.current dst.place)))) := by
        rw [update, update, store_store, (hstore _).1]
      _ = s.store dst.place (view (assigned (view (assigned (s.current dst.place))))) :=
        (hstore _).2.symm
      _ = s.store dst.place (view (assigned (s.current dst.place))) := by rw [hagain]
      _ = s.update dst.place assigned := (hstore _).2

end State

/-! ## Assignments -/

/-- An assignment whose source does not read what it stores in does no more when it is made
again. -/
theorem Operation.run_assign_again [HasFields ι] [Rereads ι] [KeepsViews ι] {dst : Reference}
    {src : Source} (h : ∀ place ∈ src.places, dst.place.Apart place) (s : State ι) :
    (arith .assign dst src).run p ((arith .assign dst src).run p s) =
      (arith .assign dst src).run p s := by
  have hsettled := src.read_settled (p := p) s
  simp only [run, Source.andThen]
  rcases hread : src.read p s with ⟨value, t⟩
  rw [hread] at hsettled
  cases value with
  | none => simp only [hsettled]
  | some value =>
    have hpassed := Source.passedBy_update (p := p) h
      (fun old => Arith.assign.combine old dst.mask value) t
    rw [hsettled] at hpassed
    simp only [hpassed, State.update_assign_again]

/-- An assignment is idempotent. Whatever it stores in (a slot of any content or none at all, a
color, the depth or the position that leaves, with a swizzle or without) and whatever it reads,
unless that is the location it stores in: made twice in a row for a fragment or a vertex, on any
register file, it leaves the invocation, the slots and the caches as it leaves them made once. -/
theorem assign_idempotent (p : Program) {dst : Reference} {src : Source}
    (h : ∀ place ∈ src.places, dst.place.Apart place) :
    let assign := Operation.arith .assign dst src
    (∀ s : State Fragment, assign.run p (assign.run p s) = assign.run p s) ∧
      ∀ s : State Vertex, assign.run p (assign.run p s) = assign.run p s :=
  ⟨fun s => Operation.run_assign_again h s, fun s => Operation.run_assign_again h s⟩

/-- An integer becomes a vector when an attribute of two floats is assigned to it, and the vector
is then assigned the same. -/
theorem assign_idempotent_widened :
    let ramp : Attribute := ⟨⟨#[1, 2, 3, 4, 5, 6], 2, by decide, by decide⟩, .perVertex, false⟩
    let p := [.push "=" [.name "v", .interpolated ⟨0, ramp⟩]].foldl Program.edit
      (Program.new .fragment)
    let assign := Operation.arith .assign ⟨.slot 0, none⟩ (.interpolated 0)
    let s : State Fragment := ⟨.ofPosition 3 2, ⟨#[.int 7], p.registers.anchors⟩, #[]⟩
    let once := assign.run p s
    p.instructions = #[.operation assign] ∧ once.registers.slots = #[.vec ⟨1, 2, 0, 1⟩] ∧
      once.registers.anchors ≠ s.registers.anchors ∧ assign.run p once = once := by
  intro ramp p assign s once
  let dst : Reference := ⟨.slot 0, none⟩
  have hread : ∀ place ∈ (Source.interpolated 0).places, dst.place.Apart place := by decide
  obtain ⟨hfragment, -⟩ := assign_idempotent p hread
  exact ⟨by decide +kernel, by decide +kernel, by decide +kernel, hfragment s⟩

end Shading
