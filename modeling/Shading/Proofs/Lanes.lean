import Shading.Proofs.Careful.Storing

/- What each lane receives. An operand brings its floats by rank: in the active lane that
   has `k` smaller ones stands the float of rank `k` (`Operand.Brings`), and a scalar brings
   one float, of rank zero. Where a source meets a destination, a lane of the swizzle takes
   the float of its own rank (`Arith.FillsLanes`), a lane of a whole vector the float whose
   rank is its number (`Arith.FillsVec`), and a scalar the first float
   (`Arith.FillsScalar`). A source with a single float gives it to every lane of a swizzle;
   to a whole vector a scalar does so too, but a vector of one lane does not.

   The rules say nothing of masks that are walked through or floats that are moved to the
   front. That this comes to the same is `Careful.combine_eq`, for the loops over numbered
   lanes, and `Mask.getElem?_lanes`, for the order of the lanes. -/
namespace Shading

/-- The lanes of a mask stand in it in the order of their ranks. -/
theorem Mask.getElem?_lanes {m : Mask} {k : Nat} {l : Lane} :
    m.lanes[k]? = some l ↔ m.has l = true ∧ m.rank l = k := by
  constructor
  · intro h
    have hl : m.has l = true := mem_lanes.1 (List.mem_of_getElem? h)
    obtain ⟨hk, hget⟩ := List.getElem?_eq_some_iff.1 h
    refine ⟨hl, ?_⟩
    rw [← Careful.rank_eq hl, ← hget]
    exact (Careful.nodup_lanes m).idxOf_getElem k hk
  · rintro ⟨hl, rfl⟩
    rw [← Careful.rank_eq hl]
    exact List.getElem?_idxOf (mem_lanes.2 hl)

/-! ## The floats of an operand -/

namespace Operand

/-- The float of a rank: that of the active lane with so many smaller ones. A scalar has one
float, of rank zero. -/
inductive Brings : Operand → Nat → Float32 → Prop
  | float (s : Float32) : Brings (.float s) 0 s
  | int (i : Int32) : Brings (.int i) 0 (Single.ofInt i)
  | bool (b : Bool) : Brings (.bool b) 0 (Single.ofBool b)
  | lane {v : Vec4} {m : Mask} {l : Lane} : m.has l = true → Brings (.vec v m) (m.rank l) (v.get l)

variable {src : Operand} {k : Nat} {s : Float32}

theorem brings_iff : src.Brings k s ↔ src.active[k]? = some s := by
  constructor
  · rintro (_ | _ | _ | hl)
    · rfl
    · rfl
    · rfl
    · rw [active, List.getElem?_map, Mask.getElem?_lanes.2 ⟨hl, rfl⟩]
      rfl
  · intro h
    have hsingle {t : Float32} (h : [t][k]? = some s) : k = 0 ∧ t = s := by
      rw [List.getElem?_singleton, Option.ite_none_right_eq_some] at h
      exact ⟨h.1, Option.some.inj h.2⟩
    cases src with
    | float t | int t | bool t =>
      obtain ⟨rfl, rfl⟩ := hsingle h
      constructor
    | vec v m =>
      rw [active, List.getElem?_map, Option.map_eq_some_iff] at h
      obtain ⟨l, hl, rfl⟩ := h
      obtain ⟨hhas, rfl⟩ := Mask.getElem?_lanes.1 hl
      exact .lane hhas

/-- An operand brings one float for each rank below its count. -/
theorem exists_brings (h : k < src.count) : ∃ s, src.Brings k s :=
  ⟨src.active[k], brings_iff.2 (List.getElem?_eq_getElem h)⟩

/-- The first float is the operand as a scalar. -/
theorem Brings.eq_scalar (h : src.Brings 0 s) : s = src.scalar := by
  rw [brings_iff, ← List.head?_eq_getElem?] at h
  rw [scalar_eq_headD, List.headD_eq_head?_getD, h]
  rfl

theorem brings_scalar (h : 0 < src.count) : src.Brings 0 src.scalar := by
  obtain ⟨s, hs⟩ := exists_brings h
  rwa [← hs.eq_scalar]

/-- A single float meets every rank. -/
theorem forRank_single (h : src.count = 1) (k : Nat) : src.forRank k = some src.scalar := by
  obtain ⟨s, hs⟩ := List.length_eq_one_iff.1 h
  rw [forRank, scalar_eq_headD, hs]
  rfl

theorem forRank_several (h : 1 < src.count) (k : Nat) : src.forRank k = src.active[k]? := by
  unfold count at h
  unfold forRank
  rcases hactive : src.active with _ | ⟨s, _ | ⟨t, rest⟩⟩
  · simp [hactive] at h
  · simp [hactive] at h
  · rfl

end Operand

/-! ## Lane by lane -/

namespace Arith

/-- The second vector is the first with a source combined into the lanes of a swizzle. A lane
outside of it is kept. A single float goes into each of its lanes. Of several floats each goes
into the lane of its own rank, and lanes that are left over are kept. -/
structure FillsLanes (op : Arith) (old : Vec4) (mask : Mask) (src : Operand) (new : Vec4) :
    Prop where
  outside : ∀ l, mask.has l = false → new.get l = old.get l
  single : src.count = 1 → ∀ l, mask.has l = true →
    ∃ s, src.Brings 0 s ∧ new.get l = op.float (old.get l) s
  ranked : 1 < src.count → ∀ l, mask.has l = true → mask.rank l < src.count →
    ∃ s, src.Brings (mask.rank l) s ∧ new.get l = op.float (old.get l) s
  beyond : 1 < src.count → ∀ l, mask.has l = true → src.count ≤ mask.rank l →
    new.get l = old.get l

/-- The second vector is the first with a source combined into it. A scalar goes into each
lane. The floats of a vector go into the first lanes, and the others are kept, but storing
makes the last one of them one. -/
structure FillsVec (op : Arith) (old : Vec4) (src : Operand) (new : Vec4) : Prop where
  scalar : src.isScalar = true → ∀ l, ∃ s, src.Brings 0 s ∧ new.get l = op.float (old.get l) s
  ranked : src.isScalar = false → ∀ l, l.index < src.count →
    ∃ s, src.Brings l.index s ∧ new.get l = op.float (old.get l) s
  beyond : src.isScalar = false → ∀ l, src.count ≤ l.index →
    new.get l = if op = .assign ∧ l = .q then 1 else old.get l

/-- The second value is the first, a scalar, with a single float combined into it. Storing an
integer or a truth value decides the type, and storing a float keeps it. Otherwise two integers
make an integer, and everything else makes a float. -/
structure FillsScalar (op : Arith) (old : Value) (src : Operand) (new : Value) : Prop where
  int : op = .assign → ∀ i, src = .int i → new = .int i
  bool : op = .assign → ∀ b, src = .bool b → new = .bool b
  float : op = .assign → (∀ i, src ≠ .int i) → (∀ b, src ≠ .bool b) → ∃ s, src.Brings 0 s ∧
    (∀ t, old = .float t → new = .float s) ∧ (∀ i, old = .int i → new = .int (Single.toInt s)) ∧
      (∀ b, old = .bool b → new = .bool (s != 0))
  ints : op ≠ .assign → ∀ a b, old = .int a → src = .int b → new = .int (op.int a b)
  floats : op ≠ .assign → (∀ a b, old = .int a → src ≠ .int b) → ∃ s, src.Brings 0 s ∧
    new = .float (op.float old.toFloat s)

variable {op : Arith} {src : Operand}

theorem ontoLanes_fills (h : 0 < src.count) (old : Vec4) (mask : Mask) :
    op.FillsLanes old mask src (op.ontoLanes old mask src) where
  outside l hl := by simp [ontoLanes, hl]
  single hone l hl := by
    refine ⟨src.scalar, src.brings_scalar h, ?_⟩
    simp only [ontoLanes, Vec4.get_ofLanes, hl, if_true, Operand.forRank_single hone]
  ranked hseveral l hl hrank := by
    obtain ⟨s, hs⟩ := src.exists_brings hrank
    refine ⟨s, hs, ?_⟩
    simp only [ontoLanes, Vec4.get_ofLanes, hl, if_true, Operand.forRank_several hseveral,
      Operand.brings_iff.1 hs]
  beyond hseveral l hl hrank := by
    have hnone : src.active[mask.rank l]? = none := List.getElem?_eq_none hrank
    simp only [ontoLanes, Vec4.get_ofLanes, hl, if_true, Operand.forRank_several hseveral, hnone]

theorem ontoVec_fills (h : 0 < src.count) (old : Vec4) :
    op.FillsVec old src (op.ontoVec old src) where
  scalar hscalar l := by
    refine ⟨src.scalar, src.brings_scalar h, ?_⟩
    simp only [ontoVec, hscalar, if_true, Vec4.map, Vec4.get_ofLanes]
  ranked hvec l hl := by
    obtain ⟨s, hs⟩ := src.exists_brings hl
    refine ⟨s, hs, ?_⟩
    simp only [ontoVec, hvec, Bool.false_eq_true, if_false, Vec4.get_ofLanes,
      Operand.brings_iff.1 hs]
  beyond hvec l hl := by
    have hnone : src.active[l.index]? = none := List.getElem?_eq_none hl
    simp only [ontoVec, hvec, Bool.false_eq_true, if_false, Vec4.get_ofLanes, hnone]

/-- A vector with one active lane meets a scalar as a float. -/
theorem ontoScalar_single (h : src.count = 1) (old : Value) :
    op.ontoScalar old src = op.scalars old
      (match src with | .vec _ _ => .float src.scalar | _ => src) := by
  cases src with
  | float _ | int _ | bool _ => rfl
  | vec v m =>
    rw [Operand.count_vec] at h
    simp [ontoScalar, h]

theorem ontoScalar_several (h : 1 < src.count) (old : Value) : op.ontoScalar old src =
    .vec (op.ontoVec (if op = .assign then Vec4.zero else Vec4.splat old.toFloat) src) := by
  cases src with
  | float _ | int _ | bool _ => exact absurd h (Nat.lt_irrefl 1)
  | vec v m =>
    rw [Operand.count_vec] at h
    simp [ontoScalar, h]

theorem ontoScalar_fills (h : src.count = 1) {old : Value} (hold : old.isVec = false) :
    op.FillsScalar old src (op.ontoScalar old src) := by
  have hbrings : src.Brings 0 src.scalar := src.brings_scalar (h ▸ Nat.one_pos)
  rw [ontoScalar_single h]
  constructor
  · rintro rfl i rfl
    cases old <;> rfl
  · rintro rfl b rfl
    cases old <;> rfl
  · rintro rfl hint hbool
    refine ⟨src.scalar, hbrings, ?_⟩
    cases src with
    | int i => exact absurd rfl (hint i)
    | bool b => exact absurd rfl (hbool b)
    | float s | vec v m =>
      refine ⟨?_, ?_, ?_⟩ <;> rintro _ rfl <;> rfl
  · rintro hop a b rfl rfl
    cases op with
    | assign => exact absurd rfl hop
    | add | sub | mul | div => rfl
  · intro hop hints
    refine ⟨src.scalar, hbrings, ?_⟩
    cases op with
    | assign => exact absurd rfl hop
    | add | sub | mul | div =>
      cases old with
      | vec v => cases hold
      | float _ | bool _ => cases src <;> rfl
      | int a =>
        cases src with
        | int b => exact absurd rfl (hints a b rfl)
        | float _ | bool _ | vec _ _ => rfl

/-- Combining is lane by lane. Under a swizzle a vector comes of it, each lane of the swizzle
with the float of its rank. A whole vector takes the floats of a vector from its first lane on,
and a scalar in every lane. A scalar meets several floats as a whole vector, which is zero if
they are stored and holds the scalar in every lane otherwise, and it meets a single one as a
scalar. The loops over numbered lanes come to the same. -/
theorem combine_by_lane (op : Arith) (old : Value) (src : Operand) (h : 0 < src.count) :
    (∀ mask, Careful.combine op old mask src = .ok (op.combine old mask src)) ∧
    (∀ mask, ∃ w, op.combine old (some mask) src = .vec w ∧
      op.FillsLanes old.toVec mask src w) ∧
    (∀ v, old = .vec v → ∃ w, op.combine old none src = .vec w ∧ op.FillsVec v src w) ∧
    (old.isVec = false →
      (1 < src.count → ∃ w, op.combine old none src = .vec w ∧
        op.FillsVec (if op = .assign then Vec4.zero else Vec4.splat old.toFloat) src w) ∧
      (src.count = 1 → op.FillsScalar old src (op.combine old none src))) := by
  refine ⟨fun mask => Careful.combine_eq op old mask src, fun mask => ?_, ?_, fun hold => ?_⟩
  · exact ⟨_, rfl, ontoLanes_fills h old.toVec mask⟩
  · rintro v rfl
    exact ⟨_, rfl, ontoVec_fills h v⟩
  · have hscalar : op.combine old none src = op.ontoScalar old src := by
      cases old with
      | vec v => cases hold
      | float _ | int _ | bool _ => rfl
    rw [hscalar]
    exact ⟨fun hseveral => ⟨_, ontoScalar_several hseveral old, ontoVec_fills h _⟩,
      fun hone => ontoScalar_fills hone hold⟩

/-- Two lanes of three that are stored under a swizzle of two: the swizzle takes the first two
of them in its own order. -/
theorem combine_by_lane_swizzled :
    let src : Operand := .vec ⟨1, 2, 3, 4⟩ ⟨false, true, true, true⟩
    let mask : Mask := ⟨true, false, false, true⟩
    0 < src.count ∧ ∃ w, Arith.assign.combine (.int 7) (some mask) src = .vec w ∧
      w.get .x = 2 ∧ w.get .y = 0 ∧ w.get .z = 0 ∧ w.get .q = 3 := by
  intro src mask
  have hcount : 0 < src.count := by decide
  obtain ⟨-, hlanes, -⟩ := combine_by_lane .assign (.int 7) src hcount
  obtain ⟨w, hw, hfills⟩ := hlanes mask
  obtain ⟨s, hs, hx⟩ := hfills.ranked (by decide) .x rfl (by decide)
  obtain ⟨t, ht, hq⟩ := hfills.ranked (by decide) .q rfl (by decide)
  rw [Operand.brings_iff] at hs ht
  refine ⟨hcount, w, hw, ?_, hfills.outside .y rfl, hfills.outside .z rfl, ?_⟩
  · rw [hx]
    exact (Option.some.inj hs).symm
  · rw [hq]
    exact (Option.some.inj ht).symm

end Arith

end Shading
