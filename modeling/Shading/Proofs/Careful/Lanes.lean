import Mathlib.Data.List.Basic
import Shading.Value

/- Lanes by number. A lane of a vector is a type of its own in the rules for values, so
   no rule can name one that is not there. On a machine a lane is a number: loops run
   over the numbers of a mask, over as many as two operands have in common, or over the
   first few, and a number beyond the fourth has no answer. What is `Careful` is computed
   in that way and stops at the first `Mishap`. Here are the loops, of which all that
   matters is what they do to each of their lanes (`Careful.eachLane_eq`), and what an
   operand brings, which is the same by numbers (`Careful.packed_eq`). -/
namespace Shading

/-- What no machine has an answer to. -/
inductive Mishap where
  /-- A lane beyond the fourth. -/
  | lane (i : Nat)
  /-- A corner beyond the third. -/
  | corner (i : Nat)
  /-- A variable that a program does not declare. -/
  | slot (i : Nat)
  /-- A resource that a program does not keep. -/
  | handle (id : Nat)
  /-- An instruction beyond the end of a program. -/
  | instruction (i : Nat)
  /-- Items beyond the end of a batch. -/
  | items (start size : Nat)
  /-- A quotient of integers that does not exist or does not fit. -/
  | quotient (a b : Int32)
  deriving DecidableEq, Repr

/-- What comes of a computation that checks each access when it makes it. -/
abbrev Careful (α : Type) := Except Mishap α

namespace Careful

variable {v w : Vec4} {m : Mask} {src a b : Operand}

@[simp] theorem ok_bind {α β : Type} (x : α) (f : α → Careful β) :
    (Except.ok x : Careful α) >>= f = f x := rfl

@[simp] theorem map_ok {α β : Type} (f : α → β) (x : α) :
    f <$> (Except.ok x : Careful α) = .ok (f x) := rfl

/-! ## Loops over lanes -/

/-- The float in a numbered lane. -/
def lane (v : Vec4) (i : Nat) : Careful Float32 :=
  match Lane.ofIndex? i with
  | some l => .ok (v.get l)
  | none => .error (.lane i)

/-- The vector with a numbered lane replaced. -/
def setLane (v : Vec4) (i : Nat) (s : Float32) : Careful Vec4 :=
  match Lane.ofIndex? i with
  | some l => .ok (v.set l s)
  | none => .error (.lane i)

@[simp] theorem lane_index (v : Vec4) (l : Lane) : lane v l.index = .ok (v.get l) := by
  rw [lane, Lane.ofIndex?_index]

@[simp] theorem setLane_index (v : Vec4) (l : Lane) (s : Float32) :
    setLane v l.index s = .ok (v.set l s) := by
  rw [setLane, Lane.ofIndex?_index]

/-- Replaces what is in numbered lanes, one after the other, each told its place in the loop. -/
def eachLane (g : Nat → Float32 → Careful Float32) : List (Nat × Nat) → Vec4 → Careful Vec4
  | [], v => .ok v
  | (i, k) :: rest, v => do
    let s ← lane v i
    let t ← g k s
    let v ← setLane v i t
    eachLane g rest v

/-- A loop over different lanes does to each what it does to it alone. -/
theorem eachLane_eq {g : Nat → Float32 → Careful Float32} {place : Lane → Nat}
    {f : Lane → Float32} : ∀ {ls : List Lane}, ls.Nodup → ∀ {v : Vec4},
    (∀ l ∈ ls, g (place l) (v.get l) = .ok (f l)) →
    eachLane g (ls.map fun l => (l.index, place l)) v =
      .ok (Vec4.ofLanes fun l => if l ∈ ls then f l else v.get l) := by
  intro ls
  induction ls with
  | nil => exact fun _ _ _ => rfl
  | cons j rest ih =>
    intro hnodup v h
    obtain ⟨hj, hrest⟩ := List.nodup_cons.1 hnodup
    have hget : ∀ l, (v.set j (f j)).get l = if l = j then f j else v.get l :=
      fun l => Vec4.get_ofLanes _ l
    have hloop := ih (v := v.set j (f j)) hrest fun l hl => by
      have hne : l ≠ j := fun heq => hj (heq ▸ hl)
      rw [hget, if_neg hne]
      exact h l (List.mem_cons_of_mem _ hl)
    simp only [List.map_cons, eachLane, lane_index, h j List.mem_cons_self, setLane_index,
      ok_bind, hloop]
    congr 2
    funext l
    by_cases hl : l ∈ rest
    · simp [hl]
    · by_cases heq : l = j
      · simp [heq, hget, hj]
      · simp [hl, heq, hget]

/-- The numbers of the lanes of a mask, in ascending order. -/
def indices (m : Mask) : List Nat := (List.range 4).filter fun i => m.bits &&& 1 <<< i != 0

theorem indices_eq (m : Mask) : indices m = m.lanes.map Lane.index := by
  rcases m with ⟨_ | _, _ | _, _ | _, _ | _⟩ <;> rfl

theorem zipIdx_indices (m : Mask) :
    (indices m).zipIdx = m.lanes.map fun l => (l.index, m.rank l) := by
  rcases m with ⟨_ | _, _ | _, _ | _, _ | _⟩ <;> rfl

theorem nodup_lanes (m : Mask) : m.lanes.Nodup :=
  List.Nodup.sublist List.filter_sublist (by decide)

/-- A loop over the lanes of a mask. -/
theorem eachLane_indices {g : Nat → Float32 → Careful Float32} {f : Lane → Float32}
    (h : ∀ l, m.has l → g (m.rank l) (v.get l) = .ok (f l)) :
    eachLane g (indices m).zipIdx v =
      .ok (Vec4.ofLanes fun l => if m.has l then f l else v.get l) := by
  rw [zipIdx_indices, eachLane_eq (nodup_lanes m) fun l hl => h l (Mask.mem_lanes.1 hl)]
  simp only [Mask.mem_lanes]

theorem rank_eq {l : Lane} (h : m.has l) : m.lanes.idxOf l = m.rank l := by
  rcases m with ⟨_ | _, _ | _, _ | _, _ | _⟩ <;> cases l <;> first | rfl | cases h

/-- A loop over some lanes of a mask, from the first on. -/
theorem eachLane_take {n : Nat} {g : Nat → Float32 → Careful Float32} {f : Lane → Float32}
    (h : ∀ l, m.has l → m.rank l < n → g (m.rank l) (v.get l) = .ok (f l)) :
    eachLane g ((indices m).zipIdx.take n) v =
      .ok (Vec4.ofLanes fun l => if m.has l ∧ m.rank l < n then f l else v.get l) := by
  have hmem : ∀ l, l ∈ m.lanes.take n ↔ m.has l ∧ m.rank l < n := by
    intro l
    constructor
    · intro hl
      have hhas := List.mem_of_mem_take hl
      refine ⟨Mask.mem_lanes.1 hhas, ?_⟩
      rw [← rank_eq (Mask.mem_lanes.1 hhas)]
      exact (List.mem_take_iff_idxOf_lt hhas).1 hl
    · rintro ⟨hhas, hrank⟩
      exact (List.mem_take_iff_idxOf_lt (Mask.mem_lanes.2 hhas)).2 (rank_eq hhas ▸ hrank)
  have hnodup : (m.lanes.take n).Nodup := List.Nodup.sublist (List.take_sublist ..) (nodup_lanes m)
  rw [zipIdx_indices, ← List.map_take, eachLane_eq hnodup fun l hl => by
    obtain ⟨hhas, hrank⟩ := (hmem l).1 hl
    exact h l hhas hrank]
  simp only [hmem]

theorem zipIdx_range {n : Nat} (hn : n ≤ 4) :
    (List.range n).zipIdx = (Lane.all.take n).map fun l => (l.index, l.index) := by
  rcases n with _ | _ | _ | _ | _ | n
  · rfl
  · rfl
  · rfl
  · rfl
  · rfl
  · omega

theorem mem_take_all {n : Nat} {l : Lane} : l ∈ Lane.all.take n ↔ l.index < n := by
  rw [List.mem_take_iff_idxOf_lt (Lane.mem_all l)]
  cases l <;> rfl

/-- A loop over the first lanes. -/
theorem eachLane_range {n : Nat} (hn : n ≤ 4) {g : Nat → Float32 → Careful Float32}
    {f : Lane → Float32} (h : ∀ l : Lane, l.index < n → g l.index (v.get l) = .ok (f l)) :
    eachLane g (List.range n).zipIdx v =
      .ok (Vec4.ofLanes fun l => if l.index < n then f l else v.get l) := by
  have hnodup : (Lane.all.take n).Nodup := List.Nodup.sublist (List.take_sublist ..) (by decide)
  rw [zipIdx_range hn, eachLane_eq hnodup fun l hl => h l (mem_take_all.1 hl)]
  simp only [mem_take_all]

/-! ## Operands -/

/-- The operand as one float. -/
def scalar : Operand → Careful Float32
  | .vec v mask =>
    match (indices mask).head? with
    | some i => lane v i
    | none => .ok 0
  | src => .ok src.scalar

theorem scalar_eq (src : Operand) : scalar src = .ok src.scalar := by
  cases src with
  | float _ | int _ | bool _ => rfl
  | vec v mask => rcases mask with ⟨_ | _, _ | _, _ | _, _ | _⟩ <;> rfl

/-- The active floats moved to the front, and how many there are. -/
def packed : Operand → Careful (Vec4 × Nat)
  | .vec v mask =>
    (indices mask).foldlM (fun (out, n) i => do
      let s ← lane v i
      let out ← setLane out n s
      return (out, n + 1)) (Vec4.zero, 0)
  | src => .ok (src.packed, 1)

theorem packed_eq (src : Operand) : packed src = .ok (src.packed, src.count) := by
  cases src with
  | float _ | int _ | bool _ => rfl
  | vec v mask => rcases mask with ⟨_ | _, _ | _, _ | _, _ | _⟩ <;> rfl

/-- The float that a packed operand has for a place in a loop; if there is at most one, it is the
same for each. -/
def pick (packed : Vec4 × Nat) (k : Nat) : Careful Float32 :=
  if packed.2 ≤ 1 then lane packed.1 0 else lane packed.1 k

theorem count_le (src : Operand) : src.count ≤ 4 := by
  cases src with
  | float _ | int _ | bool _ => exact Nat.le_of_ble_eq_true rfl
  | vec v mask => exact Operand.count_vec v mask ▸ mask.count_le

theorem lane_ofList {k : Nat} (hk : k < 4) (values : List Float32) :
    lane (Vec4.ofList values) k = .ok (values[k]?.getD 0) := by
  rcases k with _ | _ | _ | _ | k
  · rfl
  · rfl
  · rfl
  · rfl
  · omega

theorem lane_packed {k : Nat} {s : Float32} (h : src.active[k]? = some s) :
    lane src.packed k = .ok s := by
  obtain ⟨hk, hs⟩ := List.getElem?_eq_some_iff.1 h
  cases src with
  | float _ | int _ | bool _ =>
    obtain rfl : k = 0 := Nat.lt_one_iff.1 hk
    exact congrArg Except.ok hs
  | vec v mask =>
    have hlane := lane_ofList (Nat.lt_of_lt_of_le hk (count_le _)) (mask.lanes.map v.get)
    exact hlane.trans (congrArg (fun o => Except.ok (Option.getD o 0)) h)

/-- The float that meets a rank is the one that is picked for it. -/
theorem pick_packed {k : Nat} {s : Float32} (h : src.forRank k = some s) :
    pick (src.packed, src.count) k = .ok s := by
  unfold Operand.forRank at h
  change (if src.count ≤ 1 then lane src.packed 0 else lane src.packed k) = _
  rcases hactive : src.active with _ | ⟨t, _ | ⟨u, rest⟩⟩
  · -- no lane is active, and what is packed is zero
    have hcount : src.count = 0 := congrArg List.length hactive
    have hzero : src.packed = Vec4.ofList [] := by
      cases src with
      | float _ | int _ | bool _ => exact absurd hactive (List.cons_ne_nil _ _)
      | vec v mask => exact congrArg Vec4.ofList hactive
    rw [hactive] at h
    rw [if_pos (hcount ▸ Nat.zero_le 1), hzero, ← Option.some.inj h]
    rfl
  · have hcount : src.count = 1 := congrArg List.length hactive
    rw [hactive] at h
    rw [if_pos (Nat.le_of_eq hcount), lane_packed (k := 0) (by rw [hactive]; exact h)]
  · have hcount : src.count = rest.length + 2 := congrArg List.length hactive
    rw [hactive] at h
    rw [if_neg (by omega), lane_packed (by rw [hactive]; exact h)]

theorem forRank_isSome (src : Operand) (k : Nat) :
    (src.forRank k).isSome ↔ src.count ≤ 1 ∨ k < src.count := by
  unfold Operand.forRank Operand.count
  rcases src.active with _ | ⟨s, _ | ⟨t, rest⟩⟩
  · simp
  · simp
  · simp

end Careful

end Shading
