import Shading.Proofs.Offers

/- What an operation leaves alone in its destination. A destination is stored as a whole, so
   each rule for storing (`StoringRule`) has to carry the lanes outside of the swizzle over
   from the old value (`KeepsOutside`). An operation reads its sources, which changes nothing
   but the caches, and then stores in its destination by such a rule, if it stores at all
   (`Operation.run_reworks`). A scalar counts as a vector here, with zero in its last three
   lanes, and a place shows in each lane what was stored in that lane (`ShowsLanes`). A
   color conversion changes three lanes at most, whatever the conversion makes of the
   fourth (`Operation.swizzle`). -/
namespace Shading

variable {ι : Type} [Invocation ι] {p : Program}

/-! ## Rules for storing -/

/-- The rules by which a destination is stored in under a swizzle: a source is combined into
the old value, or that is clamped or transformed. -/
inductive StoringRule : Option Mask → (Value → Value) → Prop
  | combine (op : Arith) (mask : Option Mask) (src : Operand) :
    StoringRule mask fun old => op.combine old mask src
  | clamp (lower upper : Operand) (mask : Option Mask) :
    StoringRule mask (Value.clamp lower upper mask)
  | transform (f : Vec4 → Vec4) (mask : Option Mask) : StoringRule mask (Value.transform f mask)

/-- What comes of a value has the lanes of that value outside of a mask. -/
def KeepsOutside (mask : Mask) (g : Value → Value) : Prop :=
  ∀ old l, mask.has l = false → (g old).toVec.get l = old.toVec.get l

theorem StoringRule.keepsOutside {mask : Option Mask} {g : Value → Value}
    (h : StoringRule mask g) : KeepsOutside (mask.getD Mask.xyzq) g := by
  intro old l hl
  cases mask with
  | none => cases l <;> cases hl
  | some mask =>
    simp only [Option.getD_some] at hl
    cases h with
    | combine op _ src => simp [Arith.combine, Arith.ontoLanes, Value.toVec, hl]
    | clamp lower upper => simp [Value.clamp, Value.toVec, hl]
    | transform f => simp [Value.transform, Value.toVec, hl]

/-! ## What an operation stores -/

/-- The lanes in which an operation may store: those of the swizzle of its destination, or
all; of a color those that are converted. -/
def Operation.writes (o : Operation) (dst : Reference) : Mask :=
  match o with
  | .convert _ _ _ => (dst.mask.getD Mask.xyzq).inter Mask.xyz
  | _ => dst.mask.getD Mask.xyzq

theorem Operation.swizzle_getD (o : Operation) (dst : Reference) :
    (o.swizzle dst).getD Mask.xyzq = o.writes dst := by
  cases o <;> rfl

/-- The second state is the first with other caches, and with something stored in a place if
anything is, by one of the rules under a swizzle. -/
def State.Reworks (place : Place) (mask : Option Mask) (s t : State ι) : Prop :=
  ∃ anchors, let read := { s with registers := ⟨s.registers.slots, anchors⟩ }
    t = read ∨ ∃ g, StoringRule mask g ∧ t = read.update place g

theorem Offer.storingRule (mask : Option Mask) (offer : Offer) :
    StoringRule mask (offer.meet mask) := by
  cases offer with
  | operand op value => exact .combine op mask value
  | range lower upper => exact .clamp lower upper mask
  | mapping f => exact .transform f mask

/-- Whatever an operation does, it reads, and stores by one of the rules. -/
theorem Operation.run_reworks {o : Operation} {dst : Reference} (hdst : o.destination? = some dst)
    (s : State ι) : s.Reworks dst.place (o.swizzle dst) (o.run p s) := by
  obtain ⟨anchors, htaken⟩ := o.run_takes (p := p) hdst s
  cases hoffer : o.offer? p s with
  | none =>
    rw [hoffer] at htaken
    exact ⟨anchors, .inl htaken⟩
  | some offer =>
    rw [hoffer] at htaken
    exact ⟨anchors, .inr ⟨_, offer.storingRule _, htaken⟩⟩

/-- The second state is the first with other caches, and with something stored in a place if
anything is, by a rule that keeps the lanes outside of a mask. -/
def State.Stores (place : Place) (mask : Mask) (s t : State ι) : Prop :=
  ∃ anchors, let read := { s with registers := ⟨s.registers.slots, anchors⟩ }
    t = read ∨ ∃ g, KeepsOutside mask g ∧ t = read.update place g

/-- Whatever an operation does, it reads, and stores in the lanes that it may store in. -/
theorem Operation.run_stores {o : Operation} {dst : Reference} (hdst : o.destination? = some dst)
    (s : State ι) : s.Stores dst.place (o.writes dst) (o.run p s) := by
  obtain ⟨anchors, hsame | ⟨g, hg, hstored⟩⟩ := o.run_reworks (p := p) hdst s
  · exact ⟨anchors, .inl hsame⟩
  · exact ⟨anchors, .inr ⟨g, o.swizzle_getD dst ▸ hg.keepsOutside, hstored⟩⟩

/-! ## What is left alone -/

/-- A built-in shows what was stored in it lane by lane: a lane in which the old value is
stored again stays as it is. -/
class ShowsLanes (ι : Type) [Invocation ι] : Prop where
  read_store : ∀ (i : ι) (b : Builtin) (value : Value) (l : Lane),
    value.toVec.get l = (Invocation.read i b).toVec.get l →
      (Invocation.read (Invocation.store i b value) b).toVec.get l =
        (Invocation.read i b).toVec.get l

theorem Value.toVec_x (value : Value) : value.toVec.x = value.toFloat := by
  cases value <;> rfl

instance : ShowsLanes Fragment where
  read_store f b value l h := by
    cases b with
    | rgbColor | yuvColor => exact h
    | depth =>
      cases l with
      | x => exact (value.toVec_x.symm).trans h
      | y | z | q => rfl
    | _ => rfl

instance : ShowsLanes Vertex where
  read_store v b value l h := by
    cases b with
    | outputPosition => exact h
    | _ => rfl

theorem State.Stores.lane [ShowsLanes ι] {place : Place} {mask : Mask} {s t : State ι}
    (h : s.Stores place mask t) {l : Lane} (hl : mask.has l = false) :
    (t.current place).toVec.get l = (s.current place).toVec.get l := by
  obtain ⟨anchors, rfl | ⟨g, hg, rfl⟩⟩ := h
  · cases place <;> rfl
  · cases place with
    | builtin b => exact ShowsLanes.read_store _ b _ l (hg _ l hl)
    | slot i =>
      let new := g ((s.registers.slot? i).getD default)
      have hstored := Registers.slot?_store ⟨s.registers.slots, anchors⟩ i i new
      rw [if_pos rfl] at hstored
      show (((Registers.store ⟨s.registers.slots, anchors⟩ i new).slot? i).getD
        default).toVec.get l = ((s.registers.slot? i).getD default).toVec.get l
      rw [hstored]
      by_cases hi : i < s.registers.slots.size
      · rw [if_pos hi]
        exact hg _ l hl
      · -- where there is no slot, nothing is stored
        have hnone : s.registers.slot? i = none := Array.getElem?_eq_none (Nat.not_lt.1 hi)
        rw [if_neg hi, hnone]

theorem State.Stores.size {place : Place} {mask : Mask} {s t : State ι}
    (h : s.Stores place mask t) : t.registers.slots.size = s.registers.slots.size := by
  obtain ⟨anchors, rfl | ⟨g, -, rfl⟩⟩ := h
  · rfl
  · cases place with
    | builtin b => rfl
    | slot i => exact Array.size_setIfInBounds

theorem State.Stores.slot {place : Place} {mask : Mask} {s t : State ι}
    (h : s.Stores place mask t) {v : Nat} (hv : place ≠ .slot v) :
    t.registers.slot? v = s.registers.slot? v := by
  obtain ⟨anchors, rfl | ⟨g, -, rfl⟩⟩ := h
  · rfl
  · exact State.update_slot hv

/-- The second fragment is the first but for what a place names. A color comes with its tag. -/
def Fragment.SameBut (f g : Fragment) : Place → Prop
  | .builtin .rgbColor | .builtin .yuvColor => ∃ color output, g = { f with color, output }
  | .builtin .depth => ∃ depth, g = { f with depth }
  | _ => g = f

/-- The second vertex is the first but for what a place names. -/
def Vertex.SameBut (v w : Vertex) : Place → Prop
  | .builtin .outputPosition => ∃ output, w = { v with output }
  | _ => w = v

theorem State.Stores.fragment {place : Place} {mask : Mask} {s t : State Fragment}
    (h : s.Stores place mask t) : s.invocation.SameBut t.invocation place := by
  obtain ⟨anchors, rfl | ⟨g, -, rfl⟩⟩ := h
  · cases place with
    | slot i => rfl
    | builtin b => cases b <;> first | rfl | exact ⟨_, _, rfl⟩ | exact ⟨_, rfl⟩
  · cases place with
    | slot i => rfl
    | builtin b => cases b <;> first | rfl | exact ⟨_, _, rfl⟩ | exact ⟨_, rfl⟩

theorem State.Stores.vertex {place : Place} {mask : Mask} {s t : State Vertex}
    (h : s.Stores place mask t) : s.invocation.SameBut t.invocation place := by
  obtain ⟨anchors, rfl | ⟨g, -, rfl⟩⟩ := h
  · cases place with
    | slot i => rfl
    | builtin b => cases b <;> first | rfl | exact ⟨_, rfl⟩
  · cases place with
    | slot i => rfl
    | builtin b => cases b <;> first | rfl | exact ⟨_, rfl⟩

/-! ## Under a swizzle -/

namespace Operation

variable {o : Operation} {dst : Reference}

theorem writes_outside {mask : Mask} (hmask : dst.mask = some mask) {l : Lane}
    (hl : mask.has l = false) : (o.writes dst).has l = false := by
  cases o <;> simp [writes, Mask.inter, hmask, hl]

theorem writes_converted {model : ColorModel} {dst' : Reference} {src : Source}
    (ho : o = .convert model dst' src) : (o.writes dst).has .q = false := by
  subst ho
  simp only [writes, Mask.inter, Mask.has_ofLanes]
  exact Bool.and_false _

/-- What an operation keeps of the lanes of its destination, and of the other slots. -/
structure KeepsRest (o : Operation) (dst : Reference) (s t : State ι) : Prop where
  /-- The lanes outside of a swizzle are kept. -/
  lanes : ∀ mask, dst.mask = some mask → ∀ l, mask.has l = false →
    (t.current dst.place).toVec.get l = (s.current dst.place).toVec.get l
  /-- The last lane of a color that is converted is kept, with or without a swizzle. -/
  last : ∀ model dst' src, o = .convert model dst' src →
    (t.current dst.place).toVec.get .q = (s.current dst.place).toVec.get .q
  slots : t.registers.slots.size = s.registers.slots.size ∧
    ∀ v, dst.place ≠ .slot v → t.registers.slot? v = s.registers.slot? v

theorem run_keepsRest [ShowsLanes ι] (hdst : o.destination? = some dst) (s : State ι) :
    o.KeepsRest dst s (o.run p s) where
  lanes _ hmask _ hl := (run_stores hdst s).lane (writes_outside hmask hl)
  last _ _ _ ho := (run_stores hdst s).lane (writes_converted ho)
  slots := ⟨(run_stores hdst s).size, fun _ hv => (run_stores hdst s).slot hv⟩

/-- An operation that stores under a swizzle leaves every other lane of its destination as it
was, a scalar being its first lane with zero in the others, and it leaves the other slots and
the rest of the fragment or vertex as they were. Conversions of colors leave the last lane,
whatever the color transform of the program does to it. -/
theorem run_swizzled (p : Program) {o : Operation} {dst : Reference}
    (hdst : o.destination? = some dst) :
    (∀ s : State Fragment, o.KeepsRest dst s (o.run p s) ∧
      s.invocation.SameBut (o.run p s).invocation dst.place) ∧
    (∀ s : State Vertex, o.KeepsRest dst s (o.run p s) ∧
      s.invocation.SameBut (o.run p s).invocation dst.place) :=
  ⟨fun s => ⟨run_keepsRest hdst s, (run_stores hdst s).fragment⟩,
    fun s => ⟨run_keepsRest hdst s, (run_stores hdst s).vertex⟩⟩

/-- An integer that is stored in under a swizzle becomes a vector, and is its first lane. -/
theorem run_swizzled_integer :
    let p := Program.new .fragment
    let dst : Reference := ⟨.slot 0, some ⟨false, true, false, true⟩⟩
    let o : Operation := .arith .assign dst (.literal (.vec ⟨5, 6, 7, 8⟩ Mask.xyzq))
    let s : State Fragment := ⟨.ofPosition 0 0, ⟨#[.int 3, .bool true], #[]⟩, #[]⟩
    let t := o.run p s
    o.destination? = some dst ∧ t.registers.slot? 0 = some (.vec ⟨Single.ofInt 3, 5, 0, 6⟩) ∧
      ((t.current dst.place).toVec.get .x = Single.ofInt 3 ∧
        (t.current dst.place).toVec.get .z = 0) ∧
      t.registers.slot? 1 = some (.bool true) ∧ t.invocation = s.invocation := by
  intro p dst o s t
  have hdst : o.destination? = some dst := rfl
  obtain ⟨hkeeps, hsame⟩ := (run_swizzled p hdst).1 s
  refine ⟨hdst, rfl, ⟨hkeeps.lanes _ rfl .x rfl, hkeeps.lanes _ rfl .z rfl⟩, ?_, hsame⟩
  exact hkeeps.slots.2 1 (by decide)

end Operation

end Shading
