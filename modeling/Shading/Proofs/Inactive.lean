import Shading.Storing

/- Lanes that take no part. Two vectors under one mask may differ in the lanes outside of it
   (`Operand.SameLanes`), and nothing that is stored or decided can tell them apart: an
   operand shows its type and the floats that take part, and all rules for storing are
   about these. Functions of one float work on every lane and pass the others on, still
   outside of the mask; functions of two floats and bringing to length one leave only the
   floats that took part (`MathFunction.evaluate_sameLanes`). The length, the distance and
   the two products look at whole vectors, whatever the mask, and are no part of this. -/
namespace Shading

namespace Operand

/-- Two operands have one type and one mask, and the same floats in the lanes of the mask. Scalars
have no lanes and are the same. -/
inductive SameLanes : Operand → Operand → Prop
  | float (s : Float32) : SameLanes (.float s) (.float s)
  | int (i : Int32) : SameLanes (.int i) (.int i)
  | bool (b : Bool) : SameLanes (.bool b) (.bool b)
  | vec {v w : Vec4} {mask : Mask} : (∀ l, mask.has l = true → v.get l = w.get l) →
    SameLanes (.vec v mask) (.vec w mask)

namespace SameLanes

variable {a a' b b' : Operand}

theorem refl (a : Operand) : a.SameLanes a := by
  cases a with
  | float s => exact .float s
  | int i => exact .int i
  | bool b => exact .bool b
  | vec v mask => exact .vec fun _ _ => rfl

theorem map_lanes {v w : Vec4} {mask : Mask} (h : ∀ l, mask.has l = true → v.get l = w.get l) :
    mask.lanes.map v.get = mask.lanes.map w.get :=
  List.map_congr_left fun l hl => h l (Mask.mem_lanes.1 hl)

/-! ## What an operand shows -/

theorem isScalar (h : a.SameLanes a') : a.isScalar = a'.isScalar := by
  cases h <;> rfl

theorem active (h : a.SameLanes a') : a.active = a'.active := by
  cases h with
  | float s | int i | bool b => rfl
  | vec h => exact map_lanes h

theorem count (h : a.SameLanes a') : a.count = a'.count :=
  congrArg List.length h.active

theorem scalar (h : a.SameLanes a') : a.scalar = a'.scalar := by
  rw [scalar_eq_headD, scalar_eq_headD, h.active]

theorem packed (h : a.SameLanes a') : a.packed = a'.packed := by
  cases h with
  | float s | int i | bool b => rfl
  | vec h => exact congrArg Vec4.ofList (map_lanes h)

theorem forRank (h : a.SameLanes a') (k : Nat) : a.forRank k = a'.forRank k := by
  rw [Operand.forRank, Operand.forRank, h.active]

theorem pairs (ha : a.SameLanes a') (hb : b.SameLanes b') : a.pairs b = a'.pairs b' := by
  rw [Operand.pairs, Operand.pairs, ha.active, hb.active]

end SameLanes

end Operand

/-! ## What is stored and decided -/

section

variable {a a' b b' : Operand}

namespace Arith

variable {op : Arith}

theorem ontoVec_sameLanes (h : a.SameLanes a') (old : Vec4) :
    op.ontoVec old a = op.ontoVec old a' := by
  rw [ontoVec, ontoVec, h.isScalar, h.scalar, h.active]

theorem ontoLanes_sameLanes (h : a.SameLanes a') (old : Vec4) (mask : Mask) :
    op.ontoLanes old mask a = op.ontoLanes old mask a' := by
  simp only [ontoLanes, h.forRank]

theorem ontoScalar_sameLanes (h : a.SameLanes a') (old : Value) :
    op.ontoScalar old a = op.ontoScalar old a' := by
  have hvec : ∀ v, op.ontoVec v a = op.ontoVec v a' := ontoVec_sameLanes h
  have hscalar := h.scalar
  cases h with
  | float s | int i | bool b => rfl
  | vec h => simp only [ontoScalar, hvec, hscalar]

theorem combine_sameLanes (h : a.SameLanes a') (old : Value) (mask : Option Mask) :
    op.combine old mask a = op.combine old mask a' := by
  cases mask with
  | some mask => simp only [combine, ontoLanes_sameLanes h]
  | none =>
    cases old with
    | vec v => simp only [combine, ontoVec_sameLanes h]
    | float _ | int _ | bool _ => exact ontoScalar_sameLanes h _

end Arith

theorem Comparison.holds_sameLanes {cmp : Comparison} (ha : a.SameLanes a') (hb : b.SameLanes b') :
    cmp.holds a b = cmp.holds a' b' := by
  rw [holds, holds, ha.pairs hb]

theorem hold_sameLanes (ha : a.SameLanes a') (hb : b.SameLanes b') (k : Nat) (s : Float32) :
    hold a b k s = hold a' b' k s := by
  rw [hold, hold, ha.forRank, hb.forRank]

theorem Value.clamp_sameLanes (ha : a.SameLanes a') (hb : b.SameLanes b') (mask : Option Mask)
    (old : Value) : Value.clamp a b mask old = Value.clamp a' b' mask old := by
  have hhold := hold_sameLanes ha hb
  cases mask with
  | some mask => simp only [clamp, hhold]
  | none => cases old <;> simp only [clamp, hhold]

/-! ## Functions -/

theorem Operand.SameLanes.map (h : a.SameLanes a') (g : Float32 → Float32) :
    (a.map g).SameLanes (a'.map g) := by
  cases h with
  | float s | int i | bool b => exact .refl _
  | vec h =>
    refine .vec fun l hl => ?_
    rw [Vec4.map, Vec4.map, Vec4.get_ofLanes, Vec4.get_ofLanes, h l hl]

theorem Operand.zipWith_sameLanes (ha : a.SameLanes a') (hb : b.SameLanes b')
    (g : Float32 → Float32 → Float32) : a.zipWith g b = a'.zipWith g b' := by
  rw [zipWith, zipWith, ha.isScalar, hb.isScalar, ha.scalar, hb.scalar, ha.pairs hb]

namespace MathFunction

theorem normalizeOperand_sameLanes (h : a.SameLanes a') :
    normalizeOperand a = normalizeOperand a' := by
  have hpacked := h.packed
  have hcount := h.count
  cases h with
  | float s | int i | bool b => rfl
  | vec h => simp only [normalizeOperand, hpacked, hcount]

/-- Whether a function looks at whole vectors, whatever their masks. -/
def ignoresMasks : MathFunction → Bool
  | .length | .distance | .dot | .cross => true
  | _ => false

/-- A function that heeds masks has the same value at operands with the same lanes, but for lanes
that take no part in it. -/
theorem evaluate_sameLanes {f : MathFunction} (hf : f.ignoresMasks = false) (hclamp : f ≠ .clamp)
    (ha : a.SameLanes a') (hb : b.SameLanes b') :
    ∃ r r', f.evaluate a (if f.arity = 2 then some b else none) = some r ∧
      f.evaluate a' (if f.arity = 2 then some b' else none) = some r' ∧ r.SameLanes r' := by
  cases f with
  | unary g => exact ⟨_, _, rfl, rfl, ha.map g.apply⟩
  | binary g => exact ⟨_, _, rfl, rfl, Operand.zipWith_sameLanes ha hb g.apply ▸ .refl _⟩
  | normalize => exact ⟨_, _, rfl, rfl, normalizeOperand_sameLanes ha ▸ .refl _⟩
  | clamp => exact absurd rfl hclamp
  | length | distance | dot | cross => cases hf

end MathFunction

/-- Lanes outside of a mask do not show. What is stored of an operand, by whichever operation and
over whatever value under whatever swizzle, what two operands decide, and where they hold a
value depend on types, masks and the lanes in the masks alone; and so does what is stored of
the value of a function, for each function but the four that look at whole vectors. -/
theorem inactive_lanes_hidden (ha : a.SameLanes a') (hb : b.SameLanes b') :
    (∀ (op : Arith) old mask, op.combine old mask a = op.combine old mask a') ∧
    (∀ cmp : Comparison, cmp.holds a b = cmp.holds a' b') ∧
    (∀ mask old, Value.clamp a b mask old = Value.clamp a' b' mask old) ∧
    ∀ f : MathFunction, f.ignoresMasks = false → f ≠ .clamp →
      ∃ r r', f.evaluate a (if f.arity = 2 then some b else none) = some r ∧
        f.evaluate a' (if f.arity = 2 then some b' else none) = some r' ∧
        ∀ old mask, Arith.assign.combine old mask r = Arith.assign.combine old mask r' := by
  refine ⟨fun op => Arith.combine_sameLanes ha, fun cmp => Comparison.holds_sameLanes ha hb,
    Value.clamp_sameLanes ha hb, fun f hf hclamp => ?_⟩
  obtain ⟨r, r', hr, hr', hsame⟩ := MathFunction.evaluate_sameLanes hf hclamp ha hb
  exact ⟨r, r', hr, hr', Arith.combine_sameLanes hsame⟩

/-- Two lanes of vectors that differ in the others are scaled to length one, and the larger of
each is taken; both go into the first lanes. -/
theorem inactive_lanes_hidden_pair :
    let mask : Mask := ⟨false, true, false, true⟩
    let a : Operand := .vec ⟨7, 3, 8, 4⟩ mask
    let a' : Operand := .vec ⟨0, 3, -1, 4⟩ mask
    let b : Operand := .vec ⟨5, 9, 9, 9⟩ ⟨true, false, false, false⟩
    let b' : Operand := .vec ⟨5, 0, 0, 0⟩ ⟨true, false, false, false⟩
    a.SameLanes a' ∧ b.SameLanes b' ∧ a ≠ a' ∧ b ≠ b' ∧
      Comparison.le.holds a b = Comparison.le.holds a' b' ∧
      (∃ r r', MathFunction.normalize.evaluate a none = some r ∧
        MathFunction.normalize.evaluate a' none = some r' ∧
        Arith.assign.combine (.int 2) (some Mask.xy) r =
          Arith.assign.combine (.int 2) (some Mask.xy) r') ∧
      ∃ r r', (MathFunction.binary .max).evaluate a (some b) = some r ∧
        (MathFunction.binary .max).evaluate a' (some b') = some r' ∧
        Arith.assign.combine (.int 2) none r = Arith.assign.combine (.int 2) none r' := by
  intro mask a a' b b'
  have ha : a.SameLanes a' := .vec fun l hl => by cases l <;> first | rfl | cases hl
  have hb : b.SameLanes b' := .vec fun l hl => by cases l <;> first | rfl | cases hl
  obtain ⟨-, hholds, -, hfunctions⟩ := inactive_lanes_hidden ha hb
  obtain ⟨r, r', hr, hr', hsame⟩ := hfunctions .normalize rfl (by decide)
  obtain ⟨m, m', hm, hm', hmax⟩ := hfunctions (.binary .max) rfl (by decide)
  exact ⟨ha, hb, by decide, by decide, hholds .le, ⟨r, r', hr, hr', hsame _ _⟩,
    ⟨m, m', hm, hm', hmax _ _⟩⟩

/-- The inner product is no such function: it takes lanes that the masks leave out. -/
example : MathFunction.dot.evaluate (.vec ⟨1, 1, 0, 0⟩ ⟨true, false, false, false⟩)
      (some (.float 1)) ≠
    MathFunction.dot.evaluate (.vec ⟨1, 2, 0, 0⟩ ⟨true, false, false, false⟩)
      (some (.float 1)) := by
  decide

end

end Shading
