import Shading.Proofs.Careful.Lanes
import Shading.Storing

/- The rules of storing by numbers. Each is given as a machine works it off, in loops over
   numbered lanes and with quotients that may not exist, and each comes to what the rule
   says (`Careful.combine_eq`, `Careful.holds_eq`, `Careful.clamp_eq`,
   `Careful.transform_eq`, `Careful.evaluate_eq`), for operands of every width and for
   masks without a lane too. -/
namespace Shading

namespace Careful

variable {v w : Vec4} {m : Mask} {src a b : Operand}

/-! ## Storing -/

/-- A quotient of integers. -/
def quotient (a b : Int32) : Careful Int32 :=
  if b = 0 ∨ (a = Int32.minValue ∧ b = -1) then .error (.quotient a b) else .ok (a / b)

/-- The operation on integers. -/
def int (op : Arith) (a b : Int32) : Careful Int32 :=
  match op with
  | .div => if b = 0 ∨ (a = Int32.minValue ∧ b = -1) then .ok 0 else quotient a b
  | op => .ok (op.int a b)

theorem int_eq (op : Arith) (a b : Int32) : int op a b = .ok (op.int a b) := by
  cases op with
  | assign | add | sub | mul => rfl
  | div =>
    simp only [int, quotient, Arith.int]
    split <;> rfl

/-- A source combined into a whole vector. -/
def ontoVec (op : Arith) (old : Vec4) (src : Operand) : Careful Vec4 :=
  if src.isScalar then .ok (old.map fun s => op.float s src.scalar)
  else do
    let (floats, n) ← packed src
    let v ← eachLane (fun k s => op.float s <$> lane floats k) (List.range n).zipIdx old
    return if op = .assign ∧ n < 4 then v.set .q 1 else v

theorem ontoVec_eq (op : Arith) (old : Vec4) (src : Operand) :
    ontoVec op old src = .ok (op.ontoVec old src) := by
  unfold ontoVec Arith.ontoVec
  split
  · rfl
  · have hloop := eachLane_range (v := old) (count_le src)
      (g := fun k s => op.float s <$> lane src.packed k)
      (f := fun l => op.float (old.get l) (src.active[l.index]?.getD 0)) fun l hl => by
        have hfloat : src.active[l.index]? = some _ := List.getElem?_eq_getElem hl
        rw [lane_packed hfloat, hfloat, map_ok, Option.getD_some]
    have hlast : ∀ (v : Vec4) (l : Lane),
        (if op = .assign ∧ src.count < 4 then v.set .q 1 else v).get l =
          if (op = .assign ∧ src.count < 4) ∧ l = .q then 1 else v.get l := by
      intro v l
      split
      · next h => simp [Vec4.set, h]
      · next h => simp [h]
    simp only [packed_eq, ok_bind, hloop]
    refine congrArg Except.ok (Vec4.ext_get fun l => ?_)
    rw [hlast, Vec4.get_ofLanes, Vec4.get_ofLanes]
    by_cases hl : l.index < src.count
    · -- where a float is stored there is no room for the one
      have hfull : ¬((op = .assign ∧ src.count < 4) ∧ l = .q) := by
        rintro ⟨⟨-, hcount⟩, rfl⟩
        exact absurd hcount (Nat.not_lt_of_le hl)
      rw [if_neg hfull, if_pos hl, List.getElem?_eq_getElem hl, Option.getD_some]
    · have hcount : src.count < 4 := Nat.lt_of_le_of_lt (Nat.le_of_not_lt hl) l.index_lt
      rw [if_neg hl, List.getElem?_eq_none (Nat.le_of_not_lt hl)]
      simp only [hcount, and_true]

/-- A source combined into the lanes of a mask. -/
def ontoLanes (op : Arith) (old : Vec4) (mask : Mask) (src : Operand) : Careful Vec4 := do
  let (floats, n) ← packed src
  if n ≤ 1 then
    eachLane (fun _ s => op.float s <$> lane floats 0) (indices mask).zipIdx old
  else
    eachLane (fun k s => op.float s <$> lane floats k) ((indices mask).zipIdx.take n) old

theorem ontoLanes_eq (op : Arith) (old : Vec4) (mask : Mask) (src : Operand) :
    ontoLanes op old mask src = .ok (op.ontoLanes old mask src) := by
  let f (l : Lane) : Float32 := op.float (old.get l) ((src.forRank (mask.rank l)).getD 0)
  have hpick : ∀ l, (src.forRank (mask.rank l)).isSome →
      op.float (old.get l) <$> pick (src.packed, src.count) (mask.rank l) = .ok (f l) := by
    intro l hl
    obtain ⟨s, hs⟩ := Option.isSome_iff_exists.1 hl
    simp only [pick_packed hs, map_ok, f, hs, Option.getD_some]
  simp only [ontoLanes, packed_eq, ok_bind]
  split
  · next hone =>
    have hsome : ∀ l, (src.forRank (mask.rank l)).isSome := fun l =>
      (forRank_isSome src _).2 (.inl hone)
    rw [eachLane_indices fun l _ => by simpa [pick, hone] using hpick l (hsome l)]
    refine congrArg Except.ok (Vec4.ext_get fun l => ?_)
    obtain ⟨s, hs⟩ := Option.isSome_iff_exists.1 (hsome l)
    simp only [Arith.ontoLanes, Vec4.get_ofLanes, f, hs, Option.getD_some]
  · next hmany =>
    have hsome : ∀ l, (src.forRank (mask.rank l)).isSome ↔ mask.rank l < src.count := fun l =>
      (forRank_isSome src _).trans (or_iff_right hmany)
    rw [eachLane_take fun l _ hl => by simpa [pick, hmany] using hpick l ((hsome l).2 hl)]
    refine congrArg Except.ok (Vec4.ext_get fun l => ?_)
    simp only [Arith.ontoLanes, Vec4.get_ofLanes, f]
    cases hs : src.forRank (mask.rank l) with
    | none =>
      have hrank : ¬mask.rank l < src.count := fun h => by
        have hl := (hsome l).2 h
        rw [hs] at hl
        cases hl
      simp only [hrank, and_false, if_false, ite_self]
    | some s =>
      have hrank : mask.rank l < src.count := (hsome l).1 (Option.isSome_of_eq_some hs)
      simp only [hrank, and_true, Option.getD_some]

/-- A scalar source combined into a scalar. -/
def scalars (op : Arith) (old : Value) (src : Operand) : Careful Value :=
  match op, old, src with
  | .assign, old, src => .ok (Arith.scalars .assign old src)
  | op, .int a, .int b => .int <$> int op a b
  | op, old, src => .ok (op.scalars old src)

theorem scalars_eq (op : Arith) (old : Value) (src : Operand) :
    scalars op old src = .ok (op.scalars old src) := by
  unfold scalars
  split
  · rfl
  · next hop =>
    rw [int_eq, map_ok]
    cases op with
    | assign => exact (hop rfl).elim
    | add | sub | mul | div => rfl
  · rfl

/-- A source combined into a scalar. -/
def ontoScalar (op : Arith) (old : Value) (src : Operand) : Careful Value :=
  match src with
  | .vec _ mask =>
    if 1 < mask.count then
      .vec <$> ontoVec op (if op = .assign then Vec4.zero else Vec4.splat old.toFloat) src
    else do scalars op old (.float (← scalar src))
  | src => scalars op old src

theorem ontoScalar_eq (op : Arith) (old : Value) (src : Operand) :
    ontoScalar op old src = .ok (op.ontoScalar old src) := by
  cases src with
  | float _ | int _ | bool _ => exact scalars_eq op old _
  | vec v mask =>
    simp only [ontoScalar, Arith.ontoScalar, ontoVec_eq, scalar_eq, scalars_eq, map_ok, ok_bind]
    split <;> rfl

/-- The value to store when a source meets a destination. -/
def combine (op : Arith) (old : Value) (mask : Option Mask) (src : Operand) : Careful Value :=
  match mask, old with
  | some mask, old => .vec <$> ontoLanes op old.toVec mask src
  | none, .vec v => .vec <$> ontoVec op v src
  | none, old => ontoScalar op old src

theorem combine_eq (op : Arith) (old : Value) (mask : Option Mask) (src : Operand) :
    combine op old mask src = .ok (op.combine old mask src) := by
  cases mask with
  | some mask => simp only [combine, ontoLanes_eq, map_ok, Arith.combine]
  | none =>
    cases old with
    | vec v => simp only [combine, ontoVec_eq, map_ok, Arith.combine]
    | float _ | int _ | bool _ => exact ontoScalar_eq op _ src

/-! ## Two operands -/

/-- How many lanes two operands have in common, where a single one pairs with every lane of the
other. -/
def paired (m n : Nat) : Nat := if m = 1 then n else if n = 1 then m else min m n

theorem paired_le {m n : Nat} (hm : m ≤ 4) (hn : n ≤ 4) : paired m n ≤ 4 := by
  unfold paired
  split
  · exact hn
  · split <;> omega

/-- Both operands have a float for each of the lanes. -/
theorem isSome_of_lt_paired {i : Nat} (hi : i < paired a.count b.count) :
    (a.forRank i).isSome ∧ (b.forRank i).isSome := by
  rw [forRank_isSome, forRank_isSome]
  unfold paired at hi
  split at hi
  · omega
  · split at hi <;> omega

theorem forRank_of_active {i : Nat} {s : Float32} (h : src.active[i]? = some s) :
    src.forRank i = some s := by
  unfold Operand.forRank
  rcases hactive : src.active with _ | ⟨t, _ | ⟨u, rest⟩⟩
  · simp [hactive] at h
  · obtain rfl : i = 0 := by
      have hi := (List.getElem?_eq_some_iff.1 h).1
      simpa [hactive] using hi
    rwa [hactive] at h
  · rwa [hactive] at h

/-- The pairs of two operands by numbers. -/
theorem pairs_eq (a b : Operand) : a.pairs b =
    (List.range (paired a.count b.count)).map fun i =>
      ((a.forRank i).getD 0, (b.forRank i).getD 0) := by
  have hfloat : ∀ (src : Operand) (i : Nat) (hi : i < src.active.length),
      (src.forRank i).getD 0 = src.active[i] := fun src i hi => by
    rw [forRank_of_active (List.getElem?_eq_getElem hi), Option.getD_some]
  have hone : ∀ (src : Operand) (s : Float32) (i : Nat), src.active = [s] →
      (src.forRank i).getD 0 = s := fun src s i hs => by
    rw [Operand.forRank, hs, Option.getD_some]
  have hlength : ∀ src : Operand, src.count = 1 ↔ ∃ s, src.active = [s] := fun src =>
    List.length_eq_one_iff
  unfold Operand.pairs
  split
  · next _ s ha =>
    have hcount : paired a.count b.count = b.active.length := if_pos ((hlength a).2 ⟨s, ha⟩)
    refine List.ext_getElem (by simp [hcount]) fun i hi _ => ?_
    rw [List.length_map] at hi
    simp only [List.getElem_map, List.getElem_range, hone a s i ha, hfloat b i hi]
  · next t hb hmany =>
    have ha : a.count ≠ 1 := fun h => ((hlength a).1 h).elim hmany
    have hcount : paired a.count b.count = a.active.length := by
      rw [paired, if_neg ha, if_pos ((hlength b).2 ⟨t, hb⟩)]
      rfl
    refine List.ext_getElem (by simp [hcount]) fun i hi _ => ?_
    rw [List.length_map] at hi
    simp only [List.getElem_map, List.getElem_range, hone b t i hb, hfloat a i hi]
  · next hmany hmany' =>
    have ha : a.count ≠ 1 := fun h => ((hlength a).1 h).elim hmany
    have hb : b.count ≠ 1 := fun h => ((hlength b).1 h).elim hmany'
    have hcount : paired a.count b.count = min a.active.length b.active.length := by
      rw [paired, if_neg ha, if_neg hb]
      rfl
    refine List.ext_getElem (by simp [hcount]) fun i hi _ => ?_
    rw [List.length_zip] at hi
    simp only [List.getElem_zip, List.getElem_map, List.getElem_range,
      hfloat a i (by omega), hfloat b i (by omega)]

/-- What two operands have for a place in a loop over the lanes that they have in common. -/
theorem pick_pair {i : Nat} (hi : i < paired a.count b.count) :
    pick (a.packed, a.count) i = .ok ((a.forRank i).getD 0) ∧
      pick (b.packed, b.count) i = .ok ((b.forRank i).getD 0) := by
  obtain ⟨ha, hb⟩ := isSome_of_lt_paired hi
  obtain ⟨s, hs⟩ := Option.isSome_iff_exists.1 ha
  obtain ⟨t, ht⟩ := Option.isSome_iff_exists.1 hb
  rw [pick_packed hs, pick_packed ht, hs, ht]
  exact ⟨rfl, rfl⟩

/-- Whether two operands stand in a relation. -/
def holds (cmp : Comparison) (a b : Operand) : Careful Bool := do
  let u ← packed a
  let v ← packed b
  (List.range (paired u.2 v.2)).allM fun i => do
    let s ← pick u i
    let t ← pick v i
    return cmp.test s t

theorem allM_eq {f : Nat → Careful Bool} {g : Nat → Bool} : ∀ {l : List Nat},
    (∀ i ∈ l, f i = .ok (g i)) → l.allM f = .ok (l.all g) := by
  intro l
  induction l with
  | nil => exact fun _ => rfl
  | cons i rest ih =>
    intro h
    obtain ⟨hi, hrest⟩ := List.forall_mem_cons.1 h
    rw [List.allM_cons, hi, ok_bind, List.all_cons]
    cases g i with
    | false => rfl
    | true => exact ih hrest

theorem holds_eq (cmp : Comparison) (a b : Operand) : holds cmp a b = .ok (cmp.holds a b) := by
  simp only [holds, packed_eq, ok_bind]
  rw [allM_eq (g := fun i => cmp.test ((a.forRank i).getD 0) ((b.forRank i).getD 0)) fun i hi => by
    obtain ⟨hs, ht⟩ := pick_pair (List.mem_range.1 hi)
    rw [hs, ht]
    rfl]
  rw [Comparison.holds, pairs_eq, List.all_map]
  rfl

/-- A function of two floats applied to the lanes that two operands have in common. -/
def zipWith (f : Float32 → Float32 → Float32) (a b : Operand) : Careful Operand :=
  if a.isScalar && b.isScalar then .ok (.float (f a.scalar b.scalar))
  else do
    let u ← packed a
    let v ← packed b
    let n := paired u.2 v.2
    let out ← eachLane (fun i _ => do
      let s ← pick u i
      let t ← pick v i
      return f s t) (List.range n).zipIdx Vec4.zero
    return .vec out (Mask.first n)

theorem zipWith_eq (f : Float32 → Float32 → Float32) (a b : Operand) :
    zipWith f a b = .ok (a.zipWith f b) := by
  unfold zipWith Operand.zipWith
  split
  · rfl
  · have hn := paired_le (count_le a) (count_le b)
    let g (i : Nat) : Float32 := f ((a.forRank i).getD 0) ((b.forRank i).getD 0)
    simp only [packed_eq, ok_bind]
    rw [eachLane_range (f := fun l => g l.index) hn fun l hl => by
      obtain ⟨hs, ht⟩ := pick_pair hl
      rw [hs, ht]
      rfl]
    rw [ok_bind, pairs_eq, List.map_map, List.length_map, List.length_range]
    refine congrArg (fun v => Except.ok (Operand.vec v _)) (Vec4.ext_get fun l => ?_)
    rw [Vec4.get_ofLanes, Vec4.ofList, Vec4.get_ofLanes, List.getElem?_map]
    by_cases hl : l.index < paired a.count b.count
    · rw [if_pos hl, List.getElem?_range hl]
      rfl
    · rw [if_neg hl, List.getElem?_eq_none (by simpa using Nat.le_of_not_lt hl)]
      exact Vec4.get_ofLanes _ l

/-! ## Functions -/

/-- The length of the first lanes. -/
def lengthOf (v : Vec4) (n : Nat) : Careful Float32 := do
  let squares ← (List.range n).mapM fun i => do
    let s ← lane v i
    let t ← lane v i
    return s * t
  return (squares.foldl (· + ·) 0).sqrt

theorem lengthOf_eq (v : Vec4) {n : Nat} (hn : n ≤ 4) : lengthOf v n = .ok (v.lengthOf n) := by
  have hsquares : ((List.range n).mapM fun i => do
      let s ← lane v i
      let t ← lane v i
      return s * t) = .ok ((Lane.all.take n).map fun l => v.get l * v.get l) := by
    rcases n with _ | _ | _ | _ | _ | n
    · rfl
    · rfl
    · rfl
    · rfl
    · rfl
    · omega
  rw [lengthOf, hsquares, ok_bind, List.foldl_map]
  rfl

/-- The first lanes scaled to length one. -/
def normalize (v : Vec4) (n : Nat) : Careful Vec4 := do
  let n := max 1 (min n 3)
  let length ← lengthOf v n
  if 0 < length ∧ length.isFinite then
    eachLane (fun _ s => .ok (s / length)) (List.range n).zipIdx v
  else return v

theorem normalize_eq (v : Vec4) (n : Nat) : normalize v n = .ok (v.normalize n) := by
  have hn : max 1 (min n 3) ≤ 4 := by omega
  simp only [normalize, Vec4.normalize, lengthOf_eq v hn, ok_bind]
  split
  · exact eachLane_range (f := fun l => v.get l / v.lengthOf (max 1 (min n 3))) hn fun _ _ => rfl
  · rfl

/-- A direction brought to length one over its active lanes. -/
def normalizeOperand (src : Operand) : Careful Operand :=
  match src with
  | .vec _ _ => do
    let (floats, n) ← packed src
    let v ← normalize floats (min n 3)
    return .vec v (Mask.first n)
  | src => .ok (src.map Single.sign)

theorem normalizeOperand_eq (src : Operand) :
    normalizeOperand src = .ok (MathFunction.normalizeOperand src) := by
  cases src with
  | float _ | int _ | bool _ => rfl
  | vec v mask =>
    simp only [normalizeOperand, packed_eq, normalize_eq, ok_bind]
    rfl

/-- The value of a function. Those that are not worked off in loops look at no numbered lane. -/
def evaluate (f : MathFunction) (a : Operand) (second : Option Operand) :
    Careful (Option Operand) :=
  match f, second with
  | .normalize, _ => some <$> normalizeOperand a
  | .binary g, some b => some <$> zipWith g.apply a b
  | f, second => .ok (f.evaluate a second)

theorem evaluate_eq (f : MathFunction) (a : Operand) (second : Option Operand) :
    evaluate f a second = .ok (f.evaluate a second) := by
  unfold evaluate
  split
  · rw [normalizeOperand_eq, map_ok]
    cases second <;> rfl
  · rw [zipWith_eq, map_ok]
    rfl
  · rfl

/-- A float held by the bound that there is for a place in a loop, if there is one. -/
def holdBy (f : Float32 → Float32 → Float32) (bound : Vec4 × Nat) (k : Nat) (s : Float32) :
    Careful Float32 :=
  if bound.2 ≤ 1 ∨ k < bound.2 then f s <$> pick bound k else .ok s

theorem holdBy_eq (f : Float32 → Float32 → Float32) (bound : Operand) (k : Nat) (s : Float32) :
    holdBy f (bound.packed, bound.count) k s =
      .ok (match bound.forRank k with | some t => f s t | none => s) := by
  simp only [holdBy, ← forRank_isSome]
  cases h : bound.forRank k with
  | none => rfl
  | some t =>
    rw [pick_packed h]
    rfl

/-- A float held between the bounds for a place in a loop. -/
def hold (lower upper : Vec4 × Nat) (k : Nat) (s : Float32) : Careful Float32 := do
  let raised ← holdBy Single.maximum lower k s
  holdBy Single.minimum upper k raised

theorem hold_eq (lower upper : Operand) (k : Nat) (s : Float32) :
    hold (lower.packed, lower.count) (upper.packed, upper.count) k s =
      .ok (Shading.hold lower upper k s) := by
  rw [hold, holdBy_eq, ok_bind, holdBy_eq]
  rfl

/-- A value held in a range. -/
def clamp (lower upper : Operand) (mask : Option Mask) (old : Value) : Careful Value := do
  let lower ← packed lower
  let upper ← packed upper
  match mask, old with
  | some mask, old => .vec <$> eachLane (hold lower upper) (indices mask).zipIdx old.toVec
  | none, .vec v => .vec <$> eachLane (hold lower upper) (List.range 4).zipIdx v
  | none, .int i => (fun s => .int (Single.toInt s)) <$> hold lower upper 0 (Single.ofInt i)
  | none, old => .float <$> hold lower upper 0 old.toFloat

theorem clamp_eq (lower upper : Operand) (mask : Option Mask) (old : Value) :
    clamp lower upper mask old = .ok (old.clamp lower upper mask) := by
  simp only [clamp, packed_eq, ok_bind]
  cases mask with
  | some mask =>
    simp only [Value.clamp]
    rw [eachLane_indices fun l _ => hold_eq lower upper (mask.rank l) (old.toVec.get l)]
    rfl
  | none =>
    cases old with
    | vec v =>
      simp only [Value.clamp]
      rw [eachLane_range (Nat.le_refl 4) fun l _ => hold_eq lower upper l.index (v.get l)]
      simp only [Lane.index_lt, if_true, map_ok]
    | int i | float _ | bool _ =>
      simp only [hold_eq, map_ok]
      rfl

/-- A value mapped as a vector, of which a swizzle keeps only its lanes. -/
def transform (f : Vec4 → Vec4) (mask : Option Mask) (old : Value) : Careful Value :=
  let v := old.toVec
  let image := f v
  match mask with
  | some mask =>
    .vec <$> eachLane (fun l _ => lane image l) ((indices mask).map fun i => (i, i)) v
  | none => .ok (.vec image)

theorem transform_eq (f : Vec4 → Vec4) (mask : Option Mask) (old : Value) :
    transform f mask old = .ok (old.transform f mask) := by
  cases mask with
  | none => rfl
  | some mask =>
    have hlanes : ((indices mask).map fun i => (i, i)) =
        mask.lanes.map fun l => (l.index, l.index) := by
      rw [indices_eq, List.map_map]
      rfl
    simp only [transform, Value.transform, hlanes]
    rw [eachLane_eq (nodup_lanes mask) fun l _ => lane_index _ l]
    simp only [Mask.mem_lanes, map_ok]

end Careful

end Shading
