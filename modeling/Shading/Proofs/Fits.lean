import Shading.Program.Build

/- What holds of a program at every moment. Its tables keep step with each other
   and within their numbers (`Program.Tables`), and each instruction fits the program it is in
   (`Instruction.Fits`): whatever it names by number is there, it stores only
   where a program may store, and it uses only what the stage knows. No matrix
   occurs in these rules but that of a `transform`, because a source cannot be
   one.

   While instructions are built the tables only get longer (`Program.Grows`), so
   what fits a program fits it afterwards (`Instruction.Fits.mono`). -/
namespace Shading

/-! ## Tables -/

/-- The second array goes on where the first ends. -/
def Longer {α : Type} (a b : Array α) : Prop := a.toList <+: b.toList

namespace Longer

variable {α : Type} {a b c : Array α}

theorem refl (a : Array α) : Longer a a := List.prefix_rfl

theorem trans (h : Longer a b) (h' : Longer b c) : Longer a c := List.IsPrefix.trans h h'

theorem push (a : Array α) (x : α) : Longer a (a.push x) := by
  unfold Longer
  rw [Array.toList_push]
  exact List.prefix_append ..

theorem size_le (h : Longer a b) : a.size ≤ b.size := by
  have := List.IsPrefix.length_le h
  simpa using this

theorem getElem? (h : Longer a b) {i : Nat} {x : α} (hx : a[i]? = some x) : b[i]? = some x := by
  obtain ⟨rest, hrest⟩ := h
  rw [← Array.getElem?_toList] at hx ⊢
  have hi : i < a.toList.length := (List.getElem?_eq_some_iff.1 hx).1
  rw [← hrest, List.getElem?_append_left hi, hx]

end Longer

namespace Program

/-- The tables of a program keep step: a value for each variable, a cache for each
interpolated attribute, and names that are told apart from each other and from
the built-ins, those of uniforms by their dot. No table is longer than there are
numbers. -/
structure Tables (p : Program) : Prop where
  slots : p.registers.slots.size = p.declarations.size
  anchors : p.registers.anchors.size = p.interpolated.size
  distinct : (p.declarations.toList.map Declaration.name).Nodup
  notBuiltin : ∀ d ∈ p.declarations, Builtin.ofName? d.name = none
  uniform : ∀ d ∈ p.declarations, d.isUniform = OperandName.hasDot d.name
  declarations : p.declarations.size ≤ capacity
  textures : p.textures.size ≤ capacity
  matrices : p.matrices.size ≤ capacity
  interpolated : p.interpolated.size ≤ capacity
  attributes : p.attributes.size ≤ capacity

theorem tables_new (stage : Stage) : (new stage).Tables where
  slots := rfl
  anchors := rfl
  distinct := List.nodup_nil
  notBuiltin := by simp [new]
  uniform := by simp [new]
  declarations := Nat.zero_le _
  textures := Nat.zero_le _
  matrices := Nat.zero_le _
  interpolated := Nat.zero_le _
  attributes := Nat.zero_le _

/-- Whatever instructions may name in the first program they may name in the
second: the stage is the same and the tables go on where they ended. -/
structure Offers (p q : Program) : Prop where
  stage : q.stage = p.stage
  declarations : Longer p.declarations q.declarations
  textures : Longer p.textures q.textures
  matrices : Longer p.matrices q.matrices
  interpolated : Longer p.interpolated q.interpolated
  attributes : Longer p.attributes q.attributes

/-- What building may do to a program, if it succeeds or fails: lengthen its
tables, with fresh slots and caches for what is new, and note that depth is
written. -/
structure Grows (p q : Program) : Prop extends Offers p q where
  instructions : q.instructions = p.instructions
  slots : ∃ n, q.registers.slots = p.registers.slots ++ Array.replicate n default
  anchors : ∃ n, q.registers.anchors = p.registers.anchors ++ Array.replicate n default
  color : q.color = p.color
  hasBranches : q.hasBranches = p.hasBranches
  isSealed : q.isSealed = p.isSealed
  isInvalid : q.isInvalid = p.isInvalid

variable {p q r : Program}

theorem Offers.refl (p : Program) : p.Offers p :=
  ⟨rfl, .refl _, .refl _, .refl _, .refl _, .refl _⟩

theorem Offers.trans (h : p.Offers q) (h' : q.Offers r) : p.Offers r where
  stage := h'.stage.trans h.stage
  declarations := h.declarations.trans h'.declarations
  textures := h.textures.trans h'.textures
  matrices := h.matrices.trans h'.matrices
  interpolated := h.interpolated.trans h'.interpolated
  attributes := h.attributes.trans h'.attributes

namespace Grows

theorem refl (p : Program) : p.Grows p where
  toOffers := .refl p
  instructions := rfl
  slots := ⟨0, by simp⟩
  anchors := ⟨0, by simp⟩
  color := rfl
  hasBranches := rfl
  isSealed := rfl
  isInvalid := rfl

theorem trans (h : p.Grows q) (h' : q.Grows r) : p.Grows r where
  toOffers := h.toOffers.trans h'.toOffers
  instructions := h'.instructions.trans h.instructions
  slots := by
    obtain ⟨n, hn⟩ := h.slots
    obtain ⟨m, hm⟩ := h'.slots
    exact ⟨n + m, by rw [hm, hn, Array.append_assoc, Array.replicate_append_replicate]⟩
  anchors := by
    obtain ⟨n, hn⟩ := h.anchors
    obtain ⟨m, hm⟩ := h'.anchors
    exact ⟨n + m, by rw [hm, hn, Array.append_assoc, Array.replicate_append_replicate]⟩
  color := h'.color.trans h.color
  hasBranches := h'.hasBranches.trans h.hasBranches
  isSealed := h'.isSealed.trans h.isSealed
  isInvalid := h'.isInvalid.trans h.isInvalid

end Grows

end Program

/-! ## Instructions -/

/-- A name fits: its slot is there, or its built-in is one of the stage, read as a
vector only if it is one. -/
def Reference.Fits (p : Program) (r : Reference) : Prop :=
  match r.place with
  | .builtin b => b.isOf p.stage = true ∧ (r.mask.isSome = true → b.isVector = true)
  | .slot i => i < p.declarations.size

/-- A name that may be stored in: a built-in that can be written, or a variable
that is no uniform. -/
def Place.Writable (p : Program) : Place → Prop
  | .builtin b => b.isWritable = true
  | .slot i => ∃ d, p.declarations[i]? = some d ∧ d.isUniform = false

/-- A source fits: what it names is there, and attributes are interpolated for
fragments and read for vertices. -/
def Source.Fits (p : Program) : Source → Prop
  | .name r => r.Fits p
  | .literal _ => True
  | .interpolated id => p.stage = .fragment ∧ id < p.interpolated.size
  | .attribute id => p.stage = .vertex ∧ id < p.attributes.size

/-- A destination fits: as a name, and as one to store in. -/
structure Reference.IsTarget (p : Program) (r : Reference) : Prop where
  fits : r.Fits p
  writable : r.place.Writable p

/-- Whether a source names a slot. -/
def Source.IsSlot (src : Source) : Prop := ∃ i mask, src = .name ⟨.slot i, mask⟩

/-- A condition fits. Its left side is only read. -/
structure Condition.Fits (p : Program) (c : Condition) : Prop where
  lhs : c.lhs.Fits p
  rhs : c.rhs.Fits p

/-- An operation fits. A function has a second source exactly if it takes two, and
that is a slot. -/
def Operation.Fits (p : Program) : Operation → Prop
  | .arith _ dst src => dst.IsTarget p ∧ src.Fits p
  | .transform id dst => dst.IsTarget p ∧ id < p.matrices.size
  | .compare _ dst lhs rhs => dst.IsTarget p ∧ lhs.Fits p ∧ rhs.Fits p
  | .sample id _ dst coords => dst.IsTarget p ∧ id < p.textures.size ∧ coords.Fits p
  | .call f dst src second =>
    dst.IsTarget p ∧ src.Fits p ∧ (second.isSome = true ↔ f.arity = 2) ∧
      ∀ src ∈ second, src.Fits p ∧ src.IsSlot
  | .convert _ dst src => dst.IsTarget p ∧ src.Fits p
  | .print src => src.Fits p

/-- An instruction fits. -/
def Instruction.Fits (p : Program) : Instruction → Prop
  | .operation o => o.Fits p
  | .discard => p.stage = .fragment
  | .ifThen c | .elseIf c => c.Fits p
  | .goto (.uniform i) => ∃ d, p.declarations[i]? = some d ∧ d.isUniform = true
  | .otherwise | .endIf | .goto (.index _) => True

variable {p q : Program}

/-- What an instruction stores in is a place to store in. -/
theorem Instruction.Fits.isTarget {ins : Instruction} (h : ins.Fits p) {dst : Reference}
    (hdst : ins.destination? = some dst) : dst.IsTarget p := by
  cases ins with
  | operation o =>
    cases o with
    | print src => simp [destination?, Operation.destination?] at hdst
    | arith _ dst' _ | transform _ dst' | compare _ dst' _ _ | sample _ _ dst' _
    | call _ dst' _ _ | convert _ dst' _ =>
      obtain rfl : dst' = dst := Option.some.inj hdst
      exact h.1
  | discard | ifThen _ | elseIf _ | otherwise | endIf | goto _ => simp [destination?] at hdst

theorem Reference.Fits.mono {r : Reference} (h : r.Fits p) (hq : p.Offers q) : r.Fits q := by
  obtain ⟨place, mask⟩ := r
  cases place with
  | builtin b =>
    unfold Reference.Fits at h ⊢
    rw [hq.stage]
    exact h
  | slot i => exact Nat.lt_of_lt_of_le h hq.declarations.size_le

theorem Place.Writable.mono {place : Place} (h : place.Writable p) (hq : p.Offers q) :
    place.Writable q := by
  cases place with
  | builtin b => exact h
  | slot i =>
    obtain ⟨d, hd, hu⟩ := h
    exact ⟨d, hq.declarations.getElem? hd, hu⟩

theorem Reference.IsTarget.mono {r : Reference} (h : r.IsTarget p) (hq : p.Offers q) :
    r.IsTarget q :=
  ⟨h.fits.mono hq, h.writable.mono hq⟩

theorem Source.Fits.mono {src : Source} (h : src.Fits p) (hq : p.Offers q) : src.Fits q := by
  match src, h with
  | .name r, h => exact Reference.Fits.mono h hq
  | .literal value, _ => trivial
  | .interpolated id, h =>
    exact ⟨hq.stage.trans h.1, Nat.lt_of_lt_of_le h.2 hq.interpolated.size_le⟩
  | .attribute id, h =>
    exact ⟨hq.stage.trans h.1, Nat.lt_of_lt_of_le h.2 hq.attributes.size_le⟩

theorem Condition.Fits.mono {c : Condition} (h : c.Fits p) (hq : p.Offers q) : c.Fits q :=
  ⟨h.lhs.mono hq, h.rhs.mono hq⟩

theorem Operation.Fits.mono {o : Operation} (h : o.Fits p) (hq : p.Offers q) : o.Fits q := by
  cases o with
  | arith op dst src => exact ⟨h.1.mono hq, h.2.mono hq⟩
  | transform id dst => exact ⟨h.1.mono hq, Nat.lt_of_lt_of_le h.2 hq.matrices.size_le⟩
  | compare cmp dst lhs rhs => exact ⟨h.1.mono hq, h.2.1.mono hq, h.2.2.mono hq⟩
  | sample id model dst coords =>
    exact ⟨h.1.mono hq, Nat.lt_of_lt_of_le h.2.1 hq.textures.size_le, h.2.2.mono hq⟩
  | call f dst src second =>
    obtain ⟨hdst, hsrc, harity, hsecond⟩ := h
    exact ⟨hdst.mono hq, hsrc.mono hq, harity,
      fun s hs => ⟨(hsecond s hs).1.mono hq, (hsecond s hs).2⟩⟩
  | convert model dst src => exact ⟨h.1.mono hq, h.2.mono hq⟩
  | print src => exact Source.Fits.mono h hq

theorem Instruction.Fits.mono {ins : Instruction} (h : ins.Fits p) (hq : p.Offers q) :
    ins.Fits q := by
  cases ins with
  | operation o => exact Operation.Fits.mono h hq
  | discard => exact hq.stage.trans h
  | ifThen c => exact Condition.Fits.mono h hq
  | elseIf c => exact Condition.Fits.mono h hq
  | otherwise => trivial
  | endIf => trivial
  | goto target =>
    cases target with
    | index i => trivial
    | uniform i =>
      obtain ⟨d, hd, hu⟩ := h
      exact ⟨d, hq.declarations.getElem? hd, hu⟩

end Shading
