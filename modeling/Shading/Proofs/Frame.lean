import Shading.Proofs.Anchors
import Shading.Proofs.Fits
import Shading.Proofs.Machine
import Shading.Proofs.Renumbering

/- What an operation touches, and what it leaves alone. It reads its sources, stores
   in its destination and reports, and no more, so two states that these three
   cannot tell apart stay so (`Operation.Respects.run`), and a property of states that
   these three keep is kept (`Operation.run_keeps`). Two such properties are of
   use throughout: the caches of a register file stay coherent (`keeps_sound`), and
   a slot that is no destination goes on holding its value (`keeps_slot`). -/
namespace Shading

variable {ι : Type} [Invocation ι] {p : Program}

/-! ## What an operation touches -/

namespace Operation

/-- Reading the sources of an operation, storing in its destination and reporting
respect a relation of states, and related states read the same. -/
structure Respects (p : Program) (o : Operation) (R : State ι → State ι → Prop) : Prop where
  invocation : ∀ {s t}, R s t → s.invocation = t.invocation
  read : ∀ src ∈ o.sources, ∀ {s t}, R s t →
    (src.read p s).1 = (src.read p t).1 ∧ R (src.read p s).2 (src.read p t).2
  update : ∀ dst, o.destination? = some dst → ∀ g {s t}, R s t →
    R (s.update dst.place g) (t.update dst.place g)
  report : ∀ x y value {s t}, R s t →
    R (s.report (.printed x y value)) (t.report (.printed x y value))

variable {o : Operation} {R : State ι → State ι → Prop} {s t : State ι}

namespace Respects

/-- The operation mirrors itself, its slots keeping their numbers. -/
theorem mirrors (h : o.Respects p R) : o.Mirrors p p id R where
  texture? _ := rfl
  matrix? _ := rfl
  color := rfl
  invocation := h.invocation
  read src hsrc _ _ hs := by
    rw [Source.renumber_id]
    exact h.read src hsrc hs
  update dst hdst g _ _ hs := by
    rw [Place.renumber_id]
    exact h.update dst hdst g hs
  report := h.report

/-- What reading the sources, storing in the destination and reporting respect, the
operation respects. -/
theorem run (h : o.Respects p R) (hs : R s t) : R (o.run p s) (o.run p t) := by
  have hmirrored := h.mirrors.run hs
  rwa [Operation.renumber_id] at hmirrored

end Respects

/-- What reading the sources, storing in the destination and reporting keep, the
operation keeps. -/
theorem run_keeps {P : State ι → Prop}
    (hread : ∀ src ∈ o.sources, ∀ s, P s → P (src.read p s).2)
    (hupdate : ∀ dst, o.destination? = some dst → ∀ g s, P s → P (s.update dst.place g))
    (hreport : ∀ x y value s, P s → P (s.report (.printed x y value))) (hs : P s) :
    P (o.run p s) := by
  have h : o.Respects p fun s t => s = t ∧ P s :=
    { invocation := fun h => h.1 ▸ rfl
      read := fun src hsrc _ _ ⟨heq, hs⟩ => heq ▸ ⟨rfl, rfl, hread src hsrc _ hs⟩
      update := fun dst hdst g _ _ ⟨heq, hs⟩ => heq ▸ ⟨rfl, hupdate dst hdst g _ hs⟩
      report := fun x y value _ _ ⟨heq, hs⟩ => heq ▸ ⟨rfl, hreport x y value _ hs⟩ }
  exact (h.run ⟨rfl, hs⟩).2

end Operation

theorem Condition.test_state (c : Condition) (s : State ι) :
    (c.test p s).2 = (c.rhs.read p s).2 := by
  unfold Condition.test
  dsimp only
  split <;> next heq => rw [heq]

/-! ## What reading leaves alone -/

/-- Reading a source changes nothing but what is in the caches. -/
theorem Source.read_frame (src : Source) (s : State ι) :
    ∃ anchors, anchors.size = s.registers.anchors.size ∧
      (src.read p s).2 = { s with registers := ⟨s.registers.slots, anchors⟩ } := by
  match src with
  | .name r | .literal value | .attribute id => exact ⟨_, rfl, rfl⟩
  | .interpolated id =>
    simp only [Source.read]
    split
    · exact ⟨_, Array.size_setIfInBounds, rfl⟩
    · exact ⟨_, rfl, rfl⟩

theorem Source.read_invocation (src : Source) (s : State ι) :
    (src.read p s).2.invocation = s.invocation := by
  obtain ⟨anchors, -, hs⟩ := src.read_frame (p := p) s
  rw [hs]

theorem Source.read_slot (src : Source) (s : State ι) (i : Nat) :
    (src.read p s).2.registers.slot? i = s.registers.slot? i := by
  obtain ⟨anchors, -, hs⟩ := src.read_frame (p := p) s
  rw [hs]
  rfl

/-! ## Coherent caches -/

/-- The caches of a register file are coherent with the attributes that a program
interpolates. -/
def Registers.Coherent (r : Registers) (p : Program) : Prop :=
  ∀ id a c, p.interpolated? id = some a → r.anchor? id = some c → a.Coherent c

theorem Registers.Coherent.storeAnchor {r : Registers} (h : r.Coherent p) {id : Nat}
    {a : Attribute} {c : AnchorCache} (ha : p.interpolated? id = some a) (hc : a.Coherent c) :
    (r.storeAnchor id c).Coherent p := by
  intro id' a' c' ha' hc'
  simp only [Registers.anchor?, Registers.storeAnchor, Array.getElem?_setIfInBounds] at hc'
  split at hc'
  · next hid =>
    -- the cache that was replaced; its attribute is the one that refreshed it
    subst hid
    obtain rfl : a = a' := Option.some.inj (ha.symm.trans ha')
    split at hc'
    · exact Option.some.inj hc' ▸ hc
    · simp at hc'
  · exact h id' a' c' ha' hc'

/-- Caches stay coherent while the program interpolates more. -/
theorem Registers.Coherent.mono {q : Program} {r : Registers} (h : r.Coherent p)
    (hsize : r.anchors.size ≤ p.interpolated.size)
    (hq : Longer p.interpolated q.interpolated) : r.Coherent q := by
  intro id a c ha hc
  obtain ⟨hid, -⟩ := Array.getElem?_eq_some_iff.1 hc
  have hp := Array.getElem?_eq_getElem (Nat.lt_of_lt_of_le hid hsize)
  refine h id a c ?_ hc
  rw [Program.interpolated?, hp, ← hq.getElem? hp]
  exact ha

theorem Source.read_coherent [CacheBlind ι] (src : Source) {s : State ι}
    (h : s.registers.Coherent p) : (src.read p s).2.registers.Coherent p := by
  match src with
  | .name r | .literal value | .attribute id => exact h
  | .interpolated id =>
    simp only [Source.read]
    split
    · next a c ha hc =>
      exact h.storeAnchor ha (CacheBlind.coherent s.invocation (h id a c ha hc))
    · exact h

/-- What is interpolated does not depend on the caches. -/
theorem Source.read_interpolated_eq [CacheBlind ι] {s t : State ι} (id : Nat)
    (hinv : s.invocation = t.invocation)
    (hsize : s.registers.anchors.size = t.registers.anchors.size)
    (hs : s.registers.Coherent p) (ht : t.registers.Coherent p) :
    ((Source.interpolated id).read p s).1 = ((Source.interpolated id).read p t).1 := by
  cases ha : p.interpolated? id with
  | none => simp only [Source.read, ha]
  | some a =>
    cases hc : s.registers.anchor? id with
    | none =>
      have hd : t.registers.anchor? id = none := by
        rw [Registers.anchor?, Array.getElem?_eq_none_iff] at hc ⊢
        exact hsize ▸ hc
      simp only [Source.read, ha, hc, hd]
    | some c =>
      obtain ⟨d, hd⟩ : ∃ d, t.registers.anchor? id = some d := by
        obtain ⟨hid, -⟩ := Array.getElem?_eq_some_iff.1 hc
        exact ⟨_, Array.getElem?_eq_getElem (hsize ▸ hid)⟩
      have hvalue := CacheBlind.interpolate_eq s.invocation (hs id a c ha hc) (ht id a d ha hd)
      simp only [Source.read, ha, hc, hd, ← hinv, hvalue]

/-! ## Register files that suit a program -/

/-- A register file has a certain size, and its caches are coherent with the attributes
that a program interpolates. -/
structure Registers.Sound (p : Program) (slots anchors : Nat) (r : Registers) : Prop where
  slots : r.slots.size = slots
  anchors : r.anchors.size = anchors
  coherent : r.Coherent p

theorem Source.read_sound [CacheBlind ι] (src : Source) {s : State ι} {m n : Nat}
    (h : s.registers.Sound p m n) : (src.read p s).2.registers.Sound p m n := by
  have hcoherent := src.read_coherent h.coherent
  obtain ⟨anchors, hsize, hs⟩ := src.read_frame (p := p) s
  rw [hs] at hcoherent ⊢
  exact ⟨h.slots, hsize.trans h.anchors, hcoherent⟩

theorem Registers.Sound.store {r : Registers} {m n : Nat} (h : r.Sound p m n) (i : Nat)
    (value : Value) : (r.store i value).Sound p m n where
  slots := Array.size_setIfInBounds.trans h.slots
  anchors := h.anchors
  coherent := h.coherent

theorem Program.keeps_sound [CacheBlind ι] (m n : Nat) :
    p.Keeps fun s : State ι => s.registers.Sound p m n where
  operation _ _ _ hs := by
    refine Operation.run_keeps (P := fun s : State ι => s.registers.Sound p m n)
      (fun src _ s h => src.read_sound h) (fun dst _ g s h => ?_) (fun _ _ _ _ h => h) hs
    cases hdst : dst.place with
    | builtin b => exact h
    | slot i => exact h.store i _
  test c s _ hs := by
    rw [Condition.test_state]
    exact c.rhs.read_sound hs
  discard _ hs := hs

/-- A register file has the size that its program wants, and its caches are
coherent with the attributes of the program. -/
structure Registers.Suits (r : Registers) (p : Program) : Prop where
  slots : r.slots.size = p.declarations.size
  anchors : r.anchors.size = p.interpolated.size
  coherent : ∀ id a c, p.interpolated? id = some a → r.anchor? id = some c → a.Coherent c

theorem Registers.suits_iff {r : Registers} :
    r.Suits p ↔ r.Sound p p.declarations.size p.interpolated.size :=
  ⟨fun h => ⟨h.slots, h.anchors, h.coherent⟩, fun h => ⟨h.slots, h.anchors, h.coherent⟩⟩

theorem Registers.Suits.store {r : Registers} (h : r.Suits p) (i : Nat) (value : Value) :
    (r.store i value).Suits p :=
  suits_iff.2 ((suits_iff.1 h).store i value)

theorem Source.read_suits [CacheBlind ι] (src : Source) {s : State ι} (h : s.registers.Suits p) :
    (src.read p s).2.registers.Suits p :=
  Registers.suits_iff.2 (src.read_sound (Registers.suits_iff.1 h))

/-! ## Slots that are no destination -/

theorem Registers.slot?_store (r : Registers) (i j : Nat) (value : Value) :
    (r.store i value).slot? j =
      if i = j then if i < r.slots.size then some value else none else r.slot? j := by
  rw [slot?, store, Array.getElem?_setIfInBounds]
  rfl

theorem Registers.slot?_store_self {r : Registers} {i : Nat} (hi : i < r.slots.size)
    (value : Value) : (r.store i value).slot? i = some value := by
  rw [slot?_store, if_pos rfl, if_pos hi]

theorem Registers.slot?_store_ne {i j : Nat} (h : i ≠ j) (r : Registers) (value : Value) :
    (r.store i value).slot? j = r.slot? j := by
  rw [slot?_store, if_neg h]

theorem State.update_slot {s : State ι} {place : Place} {g : Value → Value} {i : Nat}
    (h : place ≠ .slot i) : (s.update place g).registers.slot? i = s.registers.slot? i := by
  cases place with
  | builtin b => rfl
  | slot j =>
    have hj : j ≠ i := fun hj => h (hj ▸ rfl)
    exact Registers.slot?_store_ne hj s.registers _

/-- A slot that no instruction stores in keeps its value. -/
theorem Program.keeps_slot {i : Nat} {value : Option Value}
    (hplace : ∀ ins ∈ p.instructions, ∀ dst, ins.destination? = some dst → dst.place ≠ .slot i) :
    p.Keeps fun s : State ι => s.registers.slot? i = value where
  operation o s ho hs := by
    refine Operation.run_keeps (P := fun s : State ι => s.registers.slot? i = value)
      (fun src _ s h => ?_) (fun dst hdst g s h => ?_) (fun _ _ _ _ h => h) hs
    · rw [Source.read_slot, h]
    · rw [State.update_slot (hplace _ ho dst hdst), h]
  test c s _ hs := by rw [Condition.test_state, Source.read_slot, hs]
  discard _ hs := hs

/-- Nor does an execution change it. -/
theorem Program.execute_slot {v : Nat}
    (hplace : ∀ ins ∈ p.instructions, ∀ dst, ins.destination? = some dst → dst.place ≠ .slot v)
    (i : ι) (r : Registers) : (p.execute i r).registers.slot? v = r.slot? v := by
  unfold execute
  split
  · exact (keeps_slot hplace).run (s := ⟨i, r, #[]⟩) rfl
  · rfl

/-! ## The invocation -/

/-- What storing in the built-ins that are destinations keeps of an invocation, and giving it
up keeps, the program keeps. -/
theorem Program.keeps_invocation {P : ι → Prop}
    (hstore : ∀ o, .operation o ∈ p.instructions → ∀ dst b, o.destination? = some dst →
      dst.place = .builtin b → ∀ i value, P i → P (Invocation.store i b value))
    (hdiscard : ∀ i, P i → P (Invocation.discard i)) :
    p.Keeps fun s : State ι => P s.invocation where
  operation o s ho hs := by
    refine Operation.run_keeps (P := fun s : State ι => P s.invocation)
      (fun src _ s h => ?_) (fun dst hdst g s h => ?_) (fun _ _ _ _ h => h) hs
    · rw [Source.read_invocation]
      exact h
    · cases hplace : dst.place with
      | builtin b => exact hstore o ho dst b hdst hplace _ _ h
      | slot i => exact h
  test c s _ hs := by
    rw [Condition.test_state, Source.read_invocation]
    exact hs
  discard s hs := hdiscard s.invocation hs

/-- Storing in a fragment leaves what is only read as it is. -/
theorem Fragment.read_store {b : Builtin} (hb : b.isWritable = false) (f : Fragment)
    (b' : Builtin) (value : Value) : (f.store b' value).read b = f.read b := by
  cases b' with
  | rgbColor | yuvColor | depth =>
    cases b with
    | rgbColor | yuvColor | depth | outputPosition => simp [Builtin.isWritable] at hb
    | _ => rfl
  | _ => rfl

theorem Fragment.read_discard (f : Fragment) (b : Builtin) : f.discard.read b = f.read b := by
  cases b <;> rfl

/-- A built-in that cannot be written is the same throughout. -/
theorem Program.keeps_builtin {b : Builtin} (hb : b.isWritable = false) {value : Value} :
    p.Keeps fun s : State Fragment => s.invocation.read b = value :=
  keeps_invocation (fun _ _ _ b' _ _ f v hf => (Fragment.read_store hb f b' v).trans hf)
    (fun f hf => (f.read_discard b).trans hf)

end Shading
