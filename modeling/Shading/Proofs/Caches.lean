import Shading.Proofs.History
import Shading.ThreadStorage

/- The anchor caches as a host sees them, which is not at all. They come with the
   canonical registers, are copied along with them, warmed by one invocation and
   left half overwritten by another, and they outlive whatever is pushed later;
   only a program that is started over has new ones. `Program.File` gathers the
   register files that come about so. In each of them a cache that belongs to a
   primitive holds what would be gathered for it at any time, hence an invocation
   that finds the caches as they are and one that finds them all cleared do the
   same (`caches_hidden`). -/
namespace Shading

variable {ι : Type} {p : Program} {r r' : Registers}

/-! ## Two runs on different caches -/

/-- Two register files that differ in nothing but what coherent caches hold. -/
structure Registers.SameButCaches (p : Program) (r r' : Registers) : Prop where
  slots : r.slots = r'.slots
  anchors : r.anchors.size = r'.anchors.size
  coherent : r.Coherent p ∧ r'.Coherent p

/-- Two states that differ in nothing but what coherent caches hold. -/
structure State.SameButCaches (p : Program) (s t : State ι) : Prop where
  invocation : s.invocation = t.invocation
  events : s.events = t.events
  registers : s.registers.SameButCaches p t.registers

namespace State.SameButCaches

variable {s t : State ι}

theorem slot? (h : s.SameButCaches p t) (i : Nat) : s.registers.slot? i = t.registers.slot? i :=
  congrArg (fun slots : Array Value => slots[i]?) h.registers.slots

/-- A jump goes by slots alone. -/
theorem jump (h : s.SameButCaches p t) (target : JumpTarget) (length : Nat) :
    target.resolve? length s.registers = target.resolve? length t.registers ∧
      target.number s.registers = target.number t.registers := by
  cases target with
  | index i => exact ⟨rfl, rfl⟩
  | uniform i => exact ⟨by simp only [JumpTarget.resolve?, h.slot? i],
      by simp only [JumpTarget.number, h.slot? i]⟩

variable [Invocation ι]

theorem current (h : s.SameButCaches p t) (place : Place) : s.current place = t.current place := by
  cases place with
  | builtin b => rw [State.current, State.current, h.invocation]
  | slot i => rw [State.current, State.current, h.slot? i]

theorem update (h : s.SameButCaches p t) (place : Place) (g : Value → Value) :
    (s.update place g).SameButCaches p (t.update place g) := by
  rw [State.update, State.update, h.current place]
  cases place with
  | builtin b => exact ⟨by rw [State.store, State.store, h.invocation], h.events, h.registers⟩
  | slot i =>
    have hslots := congrArg (·.setIfInBounds i (g (t.current (.slot i)))) h.registers.slots
    exact ⟨h.invocation, h.events, ⟨hslots, h.registers.anchors, h.registers.coherent⟩⟩

theorem read [CacheBlind ι] (h : s.SameButCaches p t) (src : Source) :
    (src.read p s).1 = (src.read p t).1 ∧
      (src.read p s).2.SameButCaches p (src.read p t).2 := by
  have hcoherent := And.intro (src.read_coherent h.registers.coherent.1)
    (src.read_coherent h.registers.coherent.2)
  obtain ⟨anchors, hsize, hs⟩ := src.read_frame (p := p) s
  obtain ⟨anchors', hsize', ht⟩ := src.read_frame (p := p) t
  have hstate : (src.read p s).2.SameButCaches p (src.read p t).2 := by
    rw [hs, ht] at hcoherent ⊢
    exact ⟨h.invocation, h.events, h.registers.slots,
      hsize.trans (h.registers.anchors.trans hsize'.symm), hcoherent⟩
  refine ⟨?_, hstate⟩
  match src with
  | .literal value => rfl
  | .interpolated id =>
    exact Source.read_interpolated_eq id h.invocation h.registers.anchors h.registers.coherent.1
      h.registers.coherent.2
  | .attribute id => simp only [Source.read, h.invocation]
  | .name ⟨.builtin b, mask⟩ => simp only [Source.read, State.readName?, h.invocation]
  | .name ⟨.slot i, mask⟩ => simp only [Source.read, State.readName?, h.slot? i]

theorem test [CacheBlind ι] (h : s.SameButCaches p t) (c : Condition) :
    (c.test p s).1 = (c.test p t).1 ∧ (c.test p s).2.SameButCaches p (c.test p t).2 := by
  obtain ⟨hvalue, hstate⟩ := h.read c.rhs
  rw [← Condition.test_state, ← Condition.test_state] at hstate
  refine ⟨?_, hstate⟩
  have hlhs : s.readDestination c.lhs = t.readDestination c.lhs := by
    rw [State.readDestination, State.readDestination, h.current]
  unfold Condition.test
  rcases hx : c.rhs.read p s with ⟨x, s'⟩
  rcases hy : c.rhs.read p t with ⟨y, t'⟩
  rw [hx, hy] at hvalue
  obtain rfl : x = y := hvalue
  cases x with
  | none => rfl
  | some b => simp only [hlhs]

theorem relates [CacheBlind ι] : p.Relates (State.SameButCaches (ι := ι) p) where
  operation o _ _ _ h := by
    have hrespects : o.Respects p (State.SameButCaches (ι := ι) p) := {
      invocation h := h.invocation
      read src _ _ _ h := h.read src
      update dst _ g _ _ h := h.update dst.place g
      report _ _ _ _ _ h := ⟨h.invocation, congrArg (Array.push · _) h.events, h.registers⟩ }
    exact hrespects.run h
  test c _ _ _ h := h.test c
  jump target _ _ _ h := h.jump target p.length
  discard h := ⟨congrArg Invocation.discard h.invocation, h.events, h.registers⟩

end State.SameButCaches

variable [Invocation ι]

/-- Two executions that differ in nothing but the caches they leave. -/
structure Execution.Matches (x y : Execution ι) : Prop where
  isValid : x.isValid = y.isValid
  invocation : x.invocation = y.invocation
  slots : x.registers.slots = y.registers.slots
  program : x.program = y.program
  events : x.events = y.events

namespace Program

theorem execute_matches [CacheBlind ι] (h : r.SameButCaches p r') (i : ι) :
    (p.execute i r).Matches (p.execute i r') := by
  unfold execute
  split
  · obtain ⟨hstate, hending⟩ :=
      State.SameButCaches.relates.run (s := ⟨i, r, #[]⟩) (t := ⟨i, r', #[]⟩) ⟨rfl, rfl, h⟩
    dsimp only
    rw [hending, hstate.invocation, hstate.events]
    exact ⟨rfl, rfl, hstate.registers.slots, rfl, rfl⟩
  · exact ⟨rfl, rfl, h.slots, rfl, rfl⟩

/-! ## The files that come about -/

/-- A register file that a program may run on. It is the canonical one of a program at
some time, a snapshot made from such a file, or what an invocation leaves of one, and
it serves on while the program is edited, unless that is started over. -/
inductive File : Program → Registers → Prop
  | canonical {p : Program} : p.Reachable → File p p.registers
  | checkout {p : Program} {r : Registers} (pool : SnapshotPool) :
    File p r → File p (pool.checkout r).1
  | fragment {p : Program} {r : Registers} (f : Fragment) :
    File p r → File p (p.execute f r).registers
  | vertex {p : Program} {r : Registers} (v : Vertex) : File p r → File p (p.execute v r).registers
  | edit {p : Program} {r : Registers} (e : Edit) : e ≠ .reset → File p r → File (p.edit e) r

end Program

namespace Program.File

theorem reachable (h : p.File r) : p.Reachable := by
  induction h with
  | canonical hp => exact hp
  | checkout _ _ ih | fragment _ _ ih | vertex _ _ ih => exact ih
  | edit e _ _ ih => exact ih.edit e

/-- There is an attribute for each cache, and the cache is coherent with it. -/
theorem coherent (h : p.File r) : r.anchors.size ≤ p.interpolated.size ∧ r.Coherent p := by
  induction h with
  | canonical hp => exact ⟨Nat.le_of_eq hp.wellFormed.tables.anchors, hp.wellFormed.coherent⟩
  | checkout _ _ ih => exact ih
  | fragment f _ ih =>
    have hsound := execute_sound f ⟨rfl, rfl, ih.2⟩
    exact ⟨hsound.anchors ▸ ih.1, hsound.coherent⟩
  | vertex v _ ih =>
    have hsound := execute_sound v ⟨rfl, rfl, ih.2⟩
    exact ⟨hsound.anchors ▸ ih.1, hsound.coherent⟩
  | edit e he h ih =>
    -- the program may interpolate more by now, but not otherwise
    have hlonger := (edit_continues h.reachable.wellFormed he).interpolated
    exact ⟨Nat.le_trans ih.1 hlonger.size_le, ih.2.mono ih.1 hlonger⟩

end Program.File

/-! ## What the caches hold, and who can tell -/

/-- A coherent cache holds what would be gathered again. -/
theorem Attribute.Coherent.gather_eq {a : Attribute} {c : AnchorCache} (h : a.Coherent c)
    {f : Fragment} (hkey : c.key = some f.key) (anchors : Corners Vec4) :
    (a.gather f f.topology.corners anchors).2 = true ∧
      ∀ k ∈ f.topology.corners,
        (a.gather f f.topology.corners anchors).1.get k = c.anchors.get k := by
  have htuple : ∀ k ∈ f.topology.corners, a.cornerTuple? f k = some (c.anchors.get k) :=
    h f.key hkey
  have hall : (a.gather f f.topology.corners anchors).2 = true :=
    (Attribute.gather_all_iff _ _).2 fun k hk => Option.isSome_of_eq_some (htuple k hk)
  refine ⟨hall, fun k hk => ?_⟩
  have hk' := (Attribute.gather_get hall hk).symm.trans (htuple k hk)
  exact Option.some.inj hk'

/-- The file with all its caches cleared. -/
def Registers.forget (r : Registers) : Registers :=
  { r with anchors := r.anchors.map AnchorCache.invalidate }

theorem Registers.forget_coherent (r : Registers) (p : Program) : r.forget.Coherent p := by
  intro id a c _ hc key hkey
  simp only [anchor?, forget, Array.getElem?_map, Option.map_eq_some_iff] at hc
  obtain ⟨d, -, rfl⟩ := hc
  simp [AnchorCache.invalidate] at hkey

theorem Registers.Coherent.sameButCaches_forget (h : r.Coherent p) :
    r.SameButCaches p r.forget where
  slots := rfl
  anchors := Array.size_map.symm
  coherent := ⟨h, r.forget_coherent p⟩

/-- Nobody can tell what the caches hold. Whatever file a program has come to run on, a
cache that belongs to a primitive is that of an attribute of the program, and holds for
the corners of the primitive just what gathering its tuples yields. Hence each invocation
counts or not, ends, stores in its slots and reports as it does when all the caches are
cleared before. -/
theorem caches_hidden (h : p.File r) :
    (∀ id c key, r.anchor? id = some c → c.key = some key →
      ∃ a, p.interpolated? id = some a ∧ ∀ f : Fragment, f.key = key → ∀ anchors,
        let gathered := a.gather f f.topology.corners anchors
        gathered.2 = true ∧ ∀ k ∈ f.topology.corners, gathered.1.get k = c.anchors.get k) ∧
    (∀ f : Fragment, (p.execute f r).Matches (p.execute f r.forget)) ∧
    (∀ v : Vertex, (p.execute v r).Matches (p.execute v r.forget)) := by
  obtain ⟨hsize, hcoherent⟩ := h.coherent
  have hsame := hcoherent.sameButCaches_forget
  refine ⟨fun id c key hc hkey => ?_, Program.execute_matches hsame, Program.execute_matches hsame⟩
  obtain ⟨a, ha⟩ : ∃ a, p.interpolated? id = some a := by
    obtain ⟨hid, -⟩ := Array.getElem?_eq_some_iff.1 hc
    rw [Program.interpolated?, Array.getElem?_eq_getElem (Nat.lt_of_lt_of_le hid hsize)]
    exact ⟨_, rfl⟩
  exact ⟨a, ha, fun f hf anchors => (hcoherent id a c ha hc).gather_eq (hf ▸ hkey) anchors⟩

/-- A program that colors a fragment by an attribute of the corners. -/
def shaded : Program :=
  let ramp : Attribute := ⟨⟨#[0, 0.5, 1], 1, by decide, by decide⟩, .perVertex, false⟩
  [.push "=" [.name "fragColor", .interpolated ⟨0, ramp⟩], .seal].foldl Program.edit
    (Program.new .fragment)

/-- One fragment warms the cache, and the next, which has a corner without a tuple, spoils
it. -/
theorem caches_hidden_shaded :
    let f := Fragment.ofPosition 0 0
    let warm := (shaded.execute f shaded.registers).registers
    let spoiled := (shaded.execute (f.withPrimitive .triangles 1 ⟨2, 3, 0⟩) warm).registers
    (warm.anchor? 0).map AnchorCache.key = some (some f.key) ∧
      (warm.anchor? 0).map AnchorCache.anchors ≠ (spoiled.anchor? 0).map AnchorCache.anchors ∧
      (shaded.execute f warm).Matches (shaded.execute f warm.forget) ∧
      (shaded.execute f spoiled).Matches (shaded.execute f spoiled.forget) := by
  intro f warm spoiled
  have hwarm : shaded.File warm :=
    .fragment f (.canonical ((Program.Reachable.new .fragment).foldl _))
  obtain ⟨-, hhidden, -⟩ := caches_hidden hwarm
  obtain ⟨-, hhidden', -⟩ := caches_hidden (hwarm.fragment _)
  exact ⟨by decide +kernel, by decide +kernel, hhidden f, hhidden' f⟩

end Shading
