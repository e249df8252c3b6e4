import Shading.Proofs.Lanes
import Shading.Proofs.Places
import Shading.Proofs.Swizzles

/- Holding a vector in a range. Bounds meet the lanes of the destination by rank
   (`Vec4.meeting`), and so do the floats of a function that is stored where its first source
   was read, if the second is wide enough (`Operand.Covers`): the pairs that are made, moved to
   the front and handed out again come to the same lanes (`Arith.combine_zipWith`). So
   `clamp` is `max` with the lower bound and then `min` with the upper one
   (`clamp_in_two_steps`). -/
namespace Shading

/-! ## Floats that meet by rank -/

/-- A function applied to the lanes of a mask and the floats of a source that meet their ranks. A
lane that no float meets is left as it is, and so is a lane outside of the mask. -/
def Vec4.meeting (f : Float32 → Float32 → Float32) (v : Vec4) (mask : Mask) (src : Operand) :
    Vec4 :=
  ofLanes fun l =>
    if mask.has l then
      match src.forRank (mask.rank l) with
      | some t => f (v.get l) t
      | none => v.get l
    else v.get l

namespace Operand

/-- An operand has a float for each of some lanes: a single one, which meets them all, or one for
each. A scalar is a single float. -/
def Covers (src : Operand) (lanes : Nat) : Prop := src.count = 1 ∨ lanes ≤ src.count

theorem active_ofList {values : List Float32} (h : values.length ≤ 4) :
    (Operand.vec (Vec4.ofList values) (Mask.first values.length)).active = values := by
  rcases values with _ | ⟨_, _ | ⟨_, _ | ⟨_, _ | ⟨_, _ | ⟨_, rest⟩⟩⟩⟩⟩
  · rfl
  · rfl
  · rfl
  · rfl
  · rfl
  · simp only [List.length_cons] at h
    omega

variable {src : Operand} {mask : Mask} {l : Lane}

/-- The results of a function of two floats are as many as the pairs. -/
theorem active_zipWith_vec (f : Float32 → Float32 → Float32) (v : Vec4) (mask : Mask)
    (src : Operand) : ((Operand.vec v mask).zipWith f src).active =
      ((Operand.vec v mask).pairs src).map fun p => f p.1 p.2 := by
  refine active_ofList ?_
  rw [List.length_map, Careful.pairs_eq, List.length_map, List.length_range]
  exact Careful.paired_le (Careful.count_le _) (Careful.count_le src)

/-- A source that covers a mask has a float for the rank of each of its lanes. -/
theorem Covers.rank_lt (h : src.Covers mask.count) (hl : mask.has l = true) (v : Vec4) :
    mask.rank l < Careful.paired (Operand.vec v mask).count src.count := by
  have hrank : mask.rank l < mask.count :=
    (List.getElem?_eq_some_iff.1 (Mask.getElem?_lanes.2 ⟨hl, rfl⟩)).1
  rw [Operand.count_vec, Careful.paired]
  unfold Covers at h
  split
  · omega
  · split <;> omega

theorem Covers.active_zipWith (h : src.Covers mask.count) (hl : mask.has l = true) (v : Vec4)
    (f : Float32 → Float32 → Float32) : ∃ t, src.forRank (mask.rank l) = some t ∧
      ((Operand.vec v mask).zipWith f src).active[mask.rank l]? = some (f (v.get l) t) := by
  have hlt := h.rank_lt hl v
  obtain ⟨t, ht⟩ := Option.isSome_iff_exists.1 (Careful.isSome_of_lt_paired hlt).2
  have hown : (Operand.vec v mask).forRank (mask.rank l) = some (v.get l) :=
    Careful.forRank_of_active (brings_iff.1 (.lane hl))
  refine ⟨t, ht, ?_⟩
  rw [active_zipWith_vec, Careful.pairs_eq, List.map_map, List.getElem?_map,
    List.getElem?_range hlt]
  simp only [Option.map_some, Function.comp_apply, hown, ht, Option.getD_some]

end Operand

theorem Mask.rank_xyzq (l : Lane) : Mask.xyzq.rank l = l.index := by
  cases l <;> rfl

theorem Mask.has_xyzq (l : Lane) : Mask.xyzq.has l = true := by
  cases l <;> rfl

/-- A function of a vector and a source that covers its lanes, stored over that vector, changes
each lane by the float that meets its rank. -/
theorem Arith.combine_zipWith {src : Operand} (v : Vec4) (mask : Option Mask)
    (h : src.Covers (mask.getD Mask.xyzq).count) (f : Float32 → Float32 → Float32) :
    Arith.assign.combine (.vec v) mask
        ((Operand.vec v (mask.getD Mask.xyzq)).zipWith f src) =
      .vec (v.meeting f (mask.getD Mask.xyzq) src) := by
  cases mask with
  | some mask =>
    refine congrArg Value.vec (Vec4.ext_get fun l => ?_)
    rw [Option.getD_some] at h ⊢
    simp only [ontoLanes, Vec4.meeting, Vec4.get_ofLanes, Value.toVec]
    cases hl : mask.has l with
    | false => simp only [Bool.false_eq_true, if_false]
    | true =>
      obtain ⟨t, ht, hfloat⟩ := h.active_zipWith hl v f
      simp only [if_true, Careful.forRank_of_active hfloat, ht, Arith.float]
  | none =>
    refine congrArg Value.vec (Vec4.ext_get fun l => ?_)
    rw [Option.getD_none] at h ⊢
    obtain ⟨t, ht, hfloat⟩ := h.active_zipWith (Mask.has_xyzq l) v f
    have hvec : ((Operand.vec v Mask.xyzq).zipWith f src).isScalar = false := rfl
    rw [Mask.rank_xyzq] at ht hfloat
    simp only [ontoVec, hvec, Bool.false_eq_true, if_false, Vec4.meeting, Vec4.get_ofLanes, hfloat,
      Arith.float, Mask.has_xyzq, Mask.rank_xyzq, ht, if_true]

/-- To hold a vector in a range is to raise its lanes, and then to lower them. -/
theorem Value.clamp_vec (lower upper : Operand) (mask : Option Mask) (v : Vec4) :
    Value.clamp lower upper mask (.vec v) =
      .vec ((v.meeting BinaryFunction.max.apply (mask.getD Mask.xyzq) lower).meeting
        BinaryFunction.min.apply (mask.getD Mask.xyzq) upper) := by
  have hlane : ∀ (m : Mask) (l : Lane), m.has l = true → hold lower upper (m.rank l) (v.get l) =
      ((v.meeting BinaryFunction.max.apply m lower).meeting BinaryFunction.min.apply m upper).get
        l := by
    intro m l hl
    simp only [Vec4.meeting, Vec4.get_ofLanes, hl, if_true, hold]
    rfl
  cases mask with
  | some mask =>
    refine congrArg Value.vec (Vec4.ext_get fun l => ?_)
    cases hl : mask.has l with
    | true => simp only [Value.toVec, Vec4.get_ofLanes, hl, if_true, hlane mask l hl,
        Option.getD_some]
    | false => simp [Value.toVec, Vec4.meeting, hl]
  | none =>
    refine congrArg Value.vec (Vec4.ext_get fun l => ?_)
    have h := hlane Mask.xyzq l (Mask.has_xyzq l)
    rw [Mask.rank_xyzq] at h
    rw [Vec4.get_ofLanes, h, Option.getD_none]

/-! ## Two steps -/

variable {ι : Type} [Invocation ι] {p : Program}

/-- A variable other than a destination is a bound for it: it is there, and covers its lanes. -/
def State.IsBound (s : State ι) (dst r : Reference) (src : Operand) : Prop :=
  (∃ i, r.place = .slot i ∧ dst.place ≠ .slot i) ∧ s.readName? r = some src ∧
    src.Covers dst.lanes.count

/-- A function of two floats of a destination that holds a vector and a source that covers it,
stored in that destination, changes its lanes by the floats that meet them. -/
theorem Operation.run_binary {s : State ι} {dst r : Reference} {src : Operand} {v : Vec4}
    (hdst : dst.place.IsWritable) (hv : s.current dst.place = .vec v)
    (hr : s.readName? r = some src) (hsrc : src.Covers dst.lanes.count) (g : BinaryFunction) :
    (Operation.call (.binary g) dst (.name dst) (some (.name r))).run p s =
      s.store dst.place (.vec (v.meeting g.apply dst.lanes src)) := by
  have hcombine : Arith.assign.combine (.vec v) dst.mask
      ((Operand.vec v dst.lanes).zipWith g.apply src) = .vec (v.meeting g.apply dst.lanes src) := by
    rw [hdst.lanes] at hsrc ⊢
    exact Arith.combine_zipWith v dst.mask hsrc g.apply
  simp only [run, Source.andThen, Source.read, State.readName?_of_current hv, hr, storeCall,
    MathFunction.evaluate, State.update, hv, hcombine]

theorem Operation.run_clamp {s : State ι} {dst lo hi : Reference} {lower upper : Operand} {v : Vec4}
    (hdst : dst.place.IsWritable) (hv : s.current dst.place = .vec v)
    (hlo : s.readName? lo = some lower) (hhi : s.readName? hi = some upper) :
    (Operation.call .clamp dst (.name lo) (some (.name hi))).run p s =
      s.store dst.place (.vec ((v.meeting BinaryFunction.max.apply dst.lanes lower).meeting
        BinaryFunction.min.apply dst.lanes upper)) := by
  simp only [run, Source.andThen, Source.read, hlo, hhi, storeCall, State.update, hv,
    Value.clamp_vec, hdst.lanes]

theorem Operation.run_clamp_eq [HasFields ι] {s : State ι} {dst lo hi : Reference}
    {lower upper : Operand} {v : Vec4} (hdst : dst.place.IsWritable)
    (hv : s.current dst.place = .vec v) (hlo : s.IsBound dst lo lower)
    (hhi : s.IsBound dst hi upper) :
    (Operation.call .clamp dst (.name lo) (some (.name hi))).run p s =
      (Operation.call (.binary .min) dst (.name dst) (some (.name hi))).run p
        ((Operation.call (.binary .max) dst (.name dst) (some (.name lo))).run p s) := by
  obtain ⟨-, hlower, hcovers⟩ := hlo
  obtain ⟨⟨i, hplace, hother⟩, hupper, hcovers'⟩ := hhi
  let raised := v.meeting BinaryFunction.max.apply dst.lanes lower
  have hraised : (s.store dst.place (.vec raised)).current dst.place = .vec raised :=
    State.current_stored hdst hv raised
  have hupper' : (s.store dst.place (.vec raised)).readName? hi = some upper := by
    rw [State.readName?_store (hplace ▸ Place.apart_slot hother), hupper]
  rw [run_clamp hdst hv hlower hupper, run_binary hdst hv hlower hcovers,
    run_binary hdst hraised hupper' hcovers', State.store_store]

/-- A vector is held in a range in two steps. Where a destination holds a vector, be it a slot or a
built-in, with a swizzle or without, and two variables other than it bring each a single float
or a float for each of its lanes at least, `clamp` comes to the same as `max` of the destination
with the first variable and then `min` of it with the second: the whole state is the same. -/
theorem clamp_in_two_steps (p : Program) (dst lo hi : Reference) (lower upper : Operand) (v : Vec4)
    (hdst : dst.place.IsWritable) :
    let clamp := Operation.call .clamp dst (.name lo) (some (.name hi))
    let raise := Operation.call (.binary .max) dst (.name dst) (some (.name lo))
    let lower' := Operation.call (.binary .min) dst (.name dst) (some (.name hi))
    (∀ s : State Fragment, s.current dst.place = .vec v → s.IsBound dst lo lower →
      s.IsBound dst hi upper → clamp.run p s = lower'.run p (raise.run p s)) ∧
    (∀ s : State Vertex, s.current dst.place = .vec v → s.IsBound dst lo lower →
      s.IsBound dst hi upper → clamp.run p s = lower'.run p (raise.run p s)) :=
  ⟨fun _ hv hlo hhi => Operation.run_clamp_eq hdst hv hlo hhi,
    fun _ hv hlo hhi => Operation.run_clamp_eq hdst hv hlo hhi⟩

/-- Two lanes of a color under a swizzle, with three floats below them and a single one above. The
third float below meets no lane. -/
theorem clamp_in_two_steps_swizzled :
    let dst : Reference := ⟨.builtin .yuvColor, some ⟨true, false, true, false⟩⟩
    let lo : Reference := ⟨.slot 0, some ⟨true, true, false, true⟩⟩
    let hi : Reference := ⟨.slot 1, none⟩
    let lower : Operand := .vec ⟨2, 5, 9, 7⟩ ⟨true, true, false, true⟩
    let v : Vec4 := ⟨3, 1, 1, 8⟩
    let s : State Fragment := ⟨{ Fragment.ofPosition 0 0 with color := v },
      ⟨#[.vec ⟨2, 5, 9, 7⟩, .float 4], #[]⟩, #[]⟩
    let p := Program.new .fragment
    let raised := (Operation.call (.binary .max) dst (.name dst) (some (.name lo))).run p s
    let t := (Operation.call (.binary .min) dst (.name dst) (some (.name hi))).run p raised
    s.current dst.place = .vec v ∧ s.IsBound dst lo lower ∧ s.IsBound dst hi (.float 4) ∧
      (Operation.call .clamp dst (.name lo) (some (.name hi))).run p s = t ∧
      t.invocation.color = ⟨3, 1, 4, 8⟩ ∧ t.invocation.output = .yuv := by
  intro dst lo hi lower v s p raised t
  have hlo : s.IsBound dst lo lower :=
    ⟨⟨0, rfl, Place.noConfusion⟩, rfl, .inr (by decide)⟩
  have hhi : s.IsBound dst hi (.float 4) := ⟨⟨1, rfl, Place.noConfusion⟩, rfl, .inl rfl⟩
  have hdst : dst.place.IsWritable := by
    rintro _ ⟨⟩
    rfl
  exact ⟨rfl, hlo, hhi, (clamp_in_two_steps p dst lo hi lower (.float 4) v hdst).1 s rfl hlo hhi,
    by decide, by decide⟩

end Shading
