import Shading.Proofs.Caches
import Shading.Proofs.Rereading

/- Sources without a value. An attribute has none where a tuple that it needs lies outside of
   its buffer, or where what is interpolated would be divided by a denominator that is of no
   use (`Attribute.Coherent.interpolate_eq_none_iff`). Reading such a source again finds no
   value either, whatever caches the first reading left (`Source.read_again`), so it does
   not matter which of the sources of an operation is the one: the operation stores
   nothing, and the run goes on behind it as if it were not there
   (`Operation.passedOver`). A condition with such a right side is false
   (`Condition.countsAsFalse`). -/
namespace Shading

/-! ## Attributes without a value -/

/-- The tuple at an index lies outside of the buffer, at least in part. -/
def TupleBuffer.Lacks (b : TupleBuffer) (index : Nat) : Prop :=
  b.data.size < index * b.components + b.components

theorem TupleBuffer.tuple?_eq_none_iff (b : TupleBuffer) (index : Nat) :
    b.tuple? index = none ↔ b.Lacks index := by
  unfold tuple? Lacks
  dsimp only
  split <;> simp <;> omega

/-- The denominator of a fragment is zero, infinite or not a number. -/
def Fragment.IsDegenerate (f : Fragment) : Prop :=
  (f.denominator == 0) = true ∨ f.denominator.isFinite = false

namespace Attribute

variable {a : Attribute} {f : Fragment} {c : AnchorCache}

/-- A tuple that belongs to the primitive of a fragment lies outside of the buffer. -/
def LacksTuple (a : Attribute) (f : Fragment) : Prop :=
  ∃ k ∈ f.topology.corners,
    a.buffer.Lacks (a.index f.topology f.primitive.toNat (f.vertices.get k).toNat k.index)

theorem cornerTuple?_eq_none_iff {k : Corner} : a.cornerTuple? f k = none ↔
    a.buffer.Lacks (a.index f.topology f.primitive.toNat (f.vertices.get k).toNat k.index) :=
  a.buffer.tuple?_eq_none_iff _

/-- One that is stored per primitive needs one tuple, which all corners share. -/
theorem lacksTuple_perPrimitive (h : a.addressing = .perPrimitive) :
    a.LacksTuple f ↔ a.buffer.Lacks f.primitive.toNat := by
  have hindex : ∀ vertex corner,
      a.index f.topology f.primitive.toNat vertex corner = f.primitive.toNat := by
    intro vertex corner
    rw [index, h]
  have hfirst : Corner.first ∈ f.topology.corners := by
    cases f.topology <;> simp [Topology.corners]
  simp only [LacksTuple, hindex]
  exact ⟨fun ⟨_, _, hlacks⟩ => hlacks, fun hlacks => ⟨_, hfirst, hlacks⟩⟩

theorem blend_eq_none_iff (anchors : Corners Vec4) :
    a.blend f anchors = none ↔ f.IsDegenerate := by
  unfold blend Fragment.IsDegenerate
  cases f.denominator == 0 <;> simp

/-- Through a coherent cache an attribute has no value at a fragment exactly if a tuple is
missing, or the denominator is of no use where it is divided by. -/
theorem Coherent.interpolate_eq_none_iff (h : a.Coherent c) (f : Fragment) :
    (a.interpolate f c).1 = none ↔
      a.LacksTuple f ∨ a.addressing ≠ .perPrimitive ∧ f.IsDegenerate := by
  cases haddressing : a.addressing with
  | perPrimitive =>
    rw [lacksTuple_perPrimitive haddressing, ← TupleBuffer.tuple?_eq_none_iff]
    simp [Attribute.interpolate, haddressing]
  | perVertex | perCorner =>
    have htuples : (a.refresh f c).key.isSome = true ↔ ¬a.LacksTuple f := by
      simp only [h.refresh_isSome_iff, LacksTuple, ← cornerTuple?_eq_none_iff, not_exists, not_and,
        Option.isSome_iff_ne_none]
    simp only [Attribute.interpolate, haddressing]
    split
    · next hkey => simp [blend_eq_none_iff, htuples.1 hkey]
    · next hkey => simp [Classical.not_not.1 (mt htuples.2 hkey)]

/-- The vertex stage finds no value exactly if the tuple is missing. -/
theorem read_eq_none_iff (a : Attribute) (v : Vertex) : a.read v = none ↔
    a.buffer.Lacks (a.index v.topology v.primitive.toNat v.index.toNat v.corner.toNat) := by
  rw [read, Option.map_eq_none_iff, TupleBuffer.tuple?_eq_none_iff]

end Attribute

/-! ## Reading again -/

variable {ι : Type} [Invocation ι] {p : Program} {s : State ι} {src src' : Source}

/-- A source without a value has none after another is read, be it the same. -/
theorem Source.read_again [Rereads ι] (h : (src.read p s).1 = none) (src' : Source) :
    (src.read p (src'.read p s).2).1 = none := by
  rw [src.read_read src', h]

/-! ## Operations that are passed over -/

/-- The second state differs from the first at most in what its caches hold. -/
structure State.OnlyCaches (s t : State ι) : Prop where
  invocation : t.invocation = s.invocation
  slots : t.registers.slots = s.registers.slots
  anchors : t.registers.anchors.size = s.registers.anchors.size
  events : t.events = s.events

omit [Invocation ι] in
theorem State.OnlyCaches.trans {t u : State ι} (h : s.OnlyCaches t) (h' : t.OnlyCaches u) :
    s.OnlyCaches u where
  invocation := h'.invocation.trans h.invocation
  slots := h'.slots.trans h.slots
  anchors := h'.anchors.trans h.anchors
  events := h'.events.trans h.events

omit [Invocation ι] in
theorem State.OnlyCaches.sameButCaches {t : State ι} (h : s.OnlyCaches t)
    (hs : s.registers.Coherent p) (ht : t.registers.Coherent p) :
    s.registers.SameButCaches p t.registers :=
  ⟨h.slots.symm, h.anchors.symm, hs, ht⟩

theorem State.update_coherent (h : s.registers.Coherent p) (place : Place) (g : Value → Value) :
    (s.update place g).registers.Coherent p := by
  cases place <;> exact h

theorem Source.read_onlyCaches (src : Source) (s : State ι) :
    s.OnlyCaches (src.read p s).2 := by
  obtain ⟨anchors, hsize, hs⟩ := src.read_frame (p := p) s
  rw [hs]
  exact ⟨rfl, rfl, hsize, rfl⟩

/-- Going on with a value changes no more than what is done with the value does. -/
theorem Source.andThen_onlyCaches {use : Operand → State ι → State ι}
    (huse : ∀ value, (src.read p s).1 = some value →
      (src.read p s).2.OnlyCaches (use value (src.read p s).2)) :
    s.OnlyCaches (src.andThen p s use) := by
  have hread := src.read_onlyCaches (p := p) s
  unfold Source.andThen
  rcases hvalue : src.read p s with ⟨x, t⟩
  rw [hvalue] at hread huse
  cases x with
  | none => exact hread
  | some value => exact hread.trans (huse value rfl)

namespace Operation

/-- What an operation reports when a source has no value: a print says so. -/
def missed (o : Operation) (i : ι) : Array Event :=
  match o with
  | .print _ => #[.printed (Invocation.position i).1 (Invocation.position i).2 none]
  | _ => #[]

/-- Without a value for one of its sources an operation stores nothing. -/
theorem run_of_none [Rereads ι] {o : Operation} (hsrc : src ∈ o.sources)
    (h : (src.read p s).1 = none) :
    ({ s with events := s.events ++ o.missed s.invocation } : State ι).OnlyCaches (o.run p s) := by
  -- what goes on with the value of the only source does not go on
  have hstops : ∀ use, s.OnlyCaches (src.andThen p s use) := fun use =>
    Source.andThen_onlyCaches fun value hvalue => by rw [h] at hvalue; cases hvalue
  have hsilent : ∀ {t}, s.OnlyCaches t →
      ({ s with events := s.events ++ #[] } : State ι).OnlyCaches t := fun ht => by
    rwa [Array.append_empty]
  cases o with
  | print src' =>
    obtain rfl := List.mem_singleton.1 hsrc
    have hread := src.read_onlyCaches (p := p) s
    simp only [run, h, missed]
    exact ⟨hread.invocation, hread.slots, hread.anchors, by simp [State.report, hread.events]⟩
  | arith op dst src' | convert model dst src' =>
    obtain rfl := List.mem_singleton.1 hsrc
    exact hsilent (hstops _)
  | transform id dst => cases hsrc
  | sample id model dst coords =>
    obtain rfl := List.mem_singleton.1 hsrc
    refine hsilent ?_
    simp only [run]
    split
    · exact hstops _
    · exact ⟨rfl, rfl, rfl, rfl⟩
  | compare cmp dst lhs rhs =>
    have hboth := (lhs.read_onlyCaches (p := p) s).trans (rhs.read_onlyCaches (p := p) _)
    have hmissing : (lhs.read p s).1 = none ∨ (rhs.read p (lhs.read p s).2).1 = none := by
      rcases List.mem_pair.1 hsrc with rfl | rfl
      · exact .inl h
      · exact .inr (src.read_again h lhs)
    refine hsilent ?_
    simp only [run]
    split
    · next ha hb => simp [ha, hb] at hmissing
    · exact hboth
  | call f dst src' second =>
    refine hsilent (Source.andThen_onlyCaches fun a ha => ?_)
    cases second with
    | none =>
      obtain rfl := List.mem_singleton.1 hsrc
      rw [h] at ha
      cases ha
    | some src'' =>
      refine Source.andThen_onlyCaches fun b hb => ?_
      rcases List.mem_pair.1 hsrc with rfl | rfl
      · rw [h] at ha
        cases ha
      · rw [src.read_again h src'] at hb
        cases hb

/-- An operation is passed over in a state. It stores nothing, neither in the invocation nor in
a slot, nothing behind it can tell what it did to the caches, and the run goes on with what
is behind it. -/
structure PassedOver (p : Program) (o : Operation) (s : State ι) : Prop where
  invocation : (o.run p s).invocation = s.invocation
  slots : (o.run p s).registers.slots = s.registers.slots
  events : (o.run p s).events = s.events ++ o.missed s.invocation
  caches : s.registers.Coherent p → s.registers.SameButCaches p (o.run p s).registers
  linear : ∀ rest, p.runLinear (.operation o :: rest) s = p.runLinear rest (o.run p s)
  branching : ∀ (position : Nat) (nesting : Nesting), nesting.isSkipping = false →
    p.advance (.operation o) ⟨position, nesting, s⟩ = .next ⟨position + 1, nesting, o.run p s⟩

theorem passedOver [CacheBlind ι] [Rereads ι] {o : Operation} (hsrc : src ∈ o.sources)
    (h : (src.read p s).1 = none) : o.PassedOver p s where
  invocation := (run_of_none hsrc h).invocation
  slots := (run_of_none hsrc h).slots
  events := (run_of_none hsrc h).events
  caches hcoherent := (run_of_none hsrc h).sameButCaches hcoherent
    (run_keeps (P := fun s => s.registers.Coherent p) (fun src _ _ => src.read_coherent)
      (fun dst _ g _ h => State.update_coherent h dst.place g) (fun _ _ _ _ h => h) hcoherent)
  linear _ := rfl
  branching _ _ hrun := Program.advance_operation hrun o

end Operation

/-! ## Conditions that are false -/

/-- A condition is false in a state, and changes nothing but caches. The first arm of its
block is skipped, or the arm of an `elseif` after others that were. -/
structure Condition.CountsAsFalse (p : Program) (c : Condition) (s : State ι) : Prop where
  test : (c.test p s).1 = false
  state : s.OnlyCaches (c.test p s).2
  caches : s.registers.Coherent p → s.registers.SameButCaches p (c.test p s).2.registers
  ifThen : ∀ (position : Nat) (nesting : Nesting), nesting.isSkipping = false →
    p.advance (.ifThen c) ⟨position, nesting, s⟩ =
      .next ⟨position + 1, nesting.enter false, (c.test p s).2⟩
  elseIf : ∀ (position : Nat) (nesting : Nesting), nesting.isPending = true →
    p.advance (.elseIf c) ⟨position, nesting, s⟩ =
      .next ⟨position + 1, nesting, (c.test p s).2⟩

theorem Condition.countsAsFalse [CacheBlind ι] {c : Condition} (h : (c.rhs.read p s).1 = none) :
    c.CountsAsFalse p s := by
  have htest : (c.test p s).1 = false := by
    unfold Condition.test
    dsimp only
    split
    · next heq => simp [heq] at h
    · rfl
  have hstate : s.OnlyCaches (c.test p s).2 := c.test_state (p := p) s ▸ c.rhs.read_onlyCaches s
  exact {
    test := htest
    state := hstate
    caches := fun hcoherent => hstate.sameButCaches hcoherent
      (c.test_state (p := p) s ▸ c.rhs.read_coherent hcoherent)
    ifThen := fun position nesting hrun => by rw [Program.advance_ifThen hrun, htest]
    elseIf := fun position nesting hpending => by
      rw [Program.advance_elseIf hpending, htest, if_neg Bool.false_ne_true] }

/-! ## Any instruction and any source -/

/-- A source is of no consequence in a state: each operation that reads it is passed over, and
each condition with it on the right side is false. -/
structure Source.Inconsequential (p : Program) (src : Source) (s : State ι) : Prop where
  operation : ∀ o : Operation, src ∈ o.sources → o.PassedOver p s
  condition : ∀ (lhs : Reference) (cmp : Comparison),
    Condition.CountsAsFalse p ⟨lhs, cmp, src⟩ s

theorem Source.inconsequential [CacheBlind ι] [Rereads ι] (h : (src.read p s).1 = none) :
    src.Inconsequential p s :=
  ⟨fun _ hsrc => Operation.passedOver hsrc h, fun _ _ => Condition.countsAsFalse h⟩

/-- A source without a value is of no consequence, in either stage, whichever of the sources
of an operation it is. At a fragment, what is interpolated through a coherent cache has no
value exactly if a tuple of the primitive lies outside of the buffer, or a denominator that
is zero or not finite would be divided by; at a vertex, what is read has none exactly if the
tuple lies outside. -/
theorem unreadable_inconsequential (p : Program) :
    (∀ (s : State Fragment) (src : Source), (src.read p s).1 = none → src.Inconsequential p s) ∧
    (∀ (s : State Vertex) (src : Source), (src.read p s).1 = none → src.Inconsequential p s) ∧
    (∀ (s : State Fragment) (id : Nat) (a : Attribute) (c : AnchorCache),
      p.interpolated? id = some a → s.registers.anchor? id = some c → a.Coherent c →
      (((Source.interpolated id).read p s).1 = none ↔ a.LacksTuple s.invocation ∨
        a.addressing ≠ .perPrimitive ∧ s.invocation.IsDegenerate)) ∧
    (∀ (s : State Vertex) (id : Nat) (a : Attribute), p.attribute? id = some a →
      (((Source.attribute id).read p s).1 = none ↔ a.buffer.Lacks
        (a.index s.invocation.topology s.invocation.primitive.toNat s.invocation.index.toNat
          s.invocation.corner.toNat))) := by
  refine ⟨fun _ _ h => Source.inconsequential h, fun _ _ h => Source.inconsequential h,
    fun s id a c ha hc hcoherent => ?_, fun s id a ha => ?_⟩
  · rw [← hcoherent.interpolate_eq_none_iff]
    simp only [Source.read, ha, hc, Option.map_eq_none_iff]
    rfl
  · rw [← Attribute.read_eq_none_iff]
    simp only [Source.read, ha, Option.bind_some, Option.map_eq_none_iff]
    rfl

/-- A program that compares with an attribute, and branches on it. -/
def clouded (ramp : Attribute) : Program :=
  [.push "=" [.name "n", .literal (.float 1)],
    .push "<" [.name "fragDepth", .name "n", .interpolated ⟨0, ramp⟩],
    .push "if" [.name "n", .name "!=", .interpolated ⟨0, ramp⟩],
    .push "=" [.name "fragColor", .name "n"],
    .push "end" [],
    .seal].foldl Program.edit (Program.new .fragment)

/-- The attribute has two tuples, so on a triangle the third corner has none. Neither the
comparison nor the arm of the block shows in the fragment, and the program runs to its end and
stays valid. -/
theorem unreadable_inconsequential_clouded :
    let ramp : Attribute := ⟨⟨#[0, 0.5], 1, by decide, by decide⟩, .perVertex, false⟩
    let p := clouded ramp
    let f := Fragment.ofPosition 0 0
    let s : State Fragment := ⟨f, p.registers, #[]⟩
    let o : Operation :=
      .compare .lt ⟨.builtin .depth, none⟩ (.name ⟨.slot 0, none⟩) (.interpolated 0)
    p.instructions[1]? = some (.operation o) ∧ o.PassedOver p s ∧
      Condition.CountsAsFalse p ⟨⟨.slot 0, none⟩, .ne, .interpolated 0⟩ s ∧
      (p.run s).ending = .completed ∧ (p.run s).state.invocation = f ∧
      (p.execute f p.registers).program.isInvalid = false := by
  intro ramp p f s o
  have hnone : ((Source.interpolated 0).read p s).1 = none := by decide +kernel
  have hharmless := (unreadable_inconsequential p).1 s (.interpolated 0) hnone
  exact ⟨by decide +kernel, hharmless.operation o (by decide), hharmless.condition _ _,
    by decide +kernel, by decide +kernel, by decide +kernel⟩

end Shading
