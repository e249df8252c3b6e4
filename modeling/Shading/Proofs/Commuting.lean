import Shading.Proofs.Carried
import Shading.Proofs.Places
import Shading.Proofs.Wrapping

/- Operations that do not touch one another. An operation reads its sources and changes one
   location: a slot, or a field of the invocation (`Place.location?`), of which the two
   colors are one. If another operation neither reads nor changes it, and the other way
   round (`Operation.Independent`), it does not matter which of them is first.

   All pairs of kinds go by one rule. A change of states passes an operation if it passes
   the readings of its sources and storing in its destination (`Operation.PassedBy.run`);
   reading a source and storing in a place are such changes, and so, by the same rule, is
   another operation. Reading twice what is interpolated leaves the caches as reading once
   does, failed gatherings included (`Attribute.interpolate_settled`), so the two states
   agree in their caches as well, whatever these held before. -/
namespace Shading

/-! ## What an operation looks at -/

/-- The places that a source reads. -/
def Source.places : Source → List Place
  | .name r => [r.place]
  | .literal _ | .interpolated _ | .attribute _ => []

namespace Operation

/-- The places that an operation looks at: those that its sources read, and its destination, of
which it sees the old value. -/
def places (o : Operation) : List Place :=
  (o.destination?.map Reference.place).toList ++ o.sources.flatMap Source.places

theorem mem_places_of_source {o : Operation} {src : Source} {place : Place}
    (hsrc : src ∈ o.sources) (h : place ∈ src.places) : place ∈ o.places := by
  simp only [places, List.mem_append, List.mem_flatMap]
  exact .inr ⟨src, hsrc, h⟩

theorem destination_mem_places {o : Operation} {dst : Reference}
    (h : o.destination? = some dst) : dst.place ∈ o.places := by
  simp [places, h]

/-- An operation changes nothing that another one looks at. -/
def Spares (o o' : Operation) : Prop :=
  ∀ dst, o.destination? = some dst → ∀ place ∈ o'.places, dst.place.Apart place

instance (o o' : Operation) : Decidable (o.Spares o') :=
  inferInstanceAs (Decidable (∀ dst ∈ o.destination?, ∀ place ∈ o'.places, dst.place.Apart place))

/-- Neither of two operations changes what the other one reads or changes. -/
def Independent (o o' : Operation) : Prop := o.Spares o' ∧ o'.Spares o

instance (o o' : Operation) : Decidable (o.Independent o') :=
  inferInstanceAs (Decidable (o.Spares o' ∧ o'.Spares o))

end Operation

/-! ## Changes that pass an operation -/

variable {ι : Type} [Invocation ι] {p : Program} {F : State ι → State ι}

/-- A change of states passes a source: it is read the same before the change and after. -/
def Source.PassedBy (p : Program) (src : Source) (F : State ι → State ι) : Prop :=
  ∀ s, src.read p (F s) = ((src.read p s).1, F (src.read p s).2)

theorem Source.PassedBy.andThen {src : Source} (h : src.PassedBy p F)
    {use : Operand → State ι → State ι} (huse : ∀ value s, use value (F s) = F (use value s))
    (s : State ι) : src.andThen p (F s) use = F (src.andThen p s use) := by
  unfold Source.andThen
  rw [h s]
  rcases src.read p s with ⟨value, s'⟩
  cases value with
  | none => rfl
  | some value => exact huse value s'

namespace Operation

/-- A change of states passes the parts of an operation: its sources, and storing in its
destination. -/
structure PassedBy (p : Program) (o : Operation) (F : State ι → State ι) : Prop where
  read : ∀ src ∈ o.sources, src.PassedBy p F
  update : ∀ dst, o.destination? = some dst → ∀ g s,
    (F s).update dst.place g = F (s.update dst.place g)

namespace PassedBy

variable {o : Operation}

theorem storeCall (h : o.PassedBy p F) {dst : Reference} (hdst : o.destination? = some dst)
    (f : MathFunction) (a : Operand) (second : Option Operand) (s : State ι) :
    storeCall f dst a second (F s) = F (storeCall f dst a second s) := by
  unfold Operation.storeCall
  split
  · exact h.update dst hdst _ s
  · split
    · exact h.update dst hdst _ s
    · rfl

/-- What passes the parts of an operation passes the operation, if it is no print. -/
theorem run (h : o.PassedBy p F) {dst : Reference} (hdst : o.destination? = some dst)
    (s : State ι) : o.run p (F s) = F (o.run p s) := by
  cases o with
  | arith op dst' src =>
    exact (h.read src (by simp [sources])).andThen (fun _ => h.update dst' rfl _) s
  | transform id dst' =>
    simp only [Operation.run]
    split
    · exact h.update dst' rfl _ s
    · rfl
  | compare cmp dst' lhs rhs =>
    have hlhs := h.read lhs (by simp [sources]) s
    have hrhs := h.read rhs (by simp [sources]) (lhs.read p s).2
    simp only [Operation.run, hlhs, hrhs]
    split
    · exact h.update dst' rfl _ _
    · rfl
  | sample id model dst' coords =>
    simp only [Operation.run]
    split
    · exact (h.read coords (by simp [sources])).andThen (fun _ => h.update dst' rfl _) s
    · rfl
  | call f dst' src second =>
    refine (h.read src (by simp [sources])).andThen (fun a s => ?_) s
    cases second with
    | none => exact h.storeCall rfl f a none s
    | some src' =>
      exact (h.read src' (by simp [sources])).andThen (fun b => h.storeCall rfl f a (some b)) s
  | convert model dst' src =>
    exact (h.read src (by simp [sources])).andThen (fun _ => h.update dst' rfl _) s
  | print src => cases hdst

end PassedBy

end Operation

/-! ## Parts of two operations -/

namespace Source

/-- Reading one source passes another. -/
theorem passedBy_read [Rereads ι] (src src' : Source) :
    src.PassedBy p fun s : State ι => (src'.read p s).2 :=
  src.read_read src'

/-- Storing in a place passes a source that does not read it. -/
theorem passedBy_update [HasFields ι] {place : Place} {src : Source}
    (h : ∀ place' ∈ src.places, place.Apart place') (g : Value → Value) :
    src.PassedBy p fun s : State ι => s.update place g := by
  intro s
  match src with
  | .name r =>
    have hr : place.Apart r.place := h r.place (by simp [places])
    exact congrArg (·, s.update place g) (State.readName?_store hr s _)
  | .literal value => rfl
  | .attribute id =>
    cases place with
    | builtin b =>
      simp only [read, State.update, State.store, HasFields.fetch_store]
    | slot i => rfl
  | .interpolated id =>
    rcases read_interpolated_or p id s with ⟨a, c, ha, hc⟩ | hnone
    · rw [read_interpolated ha hc]
      cases place with
      | builtin b =>
        have hc' : (s.update (.builtin b) g).registers.anchor? id = some c := hc
        rw [read_interpolated ha hc']
        simp only [State.update, State.store, State.current, HasFields.interpolate_store]
      | slot i =>
        have hc' : (s.update (.slot i) g).registers.anchor? id = some c := hc
        rw [read_interpolated ha hc']
        rfl
    · rw [hnone s rfl]
      refine hnone _ ?_
      cases place <;> rfl

end Source

namespace Operation

variable [HasFields ι] {o o' : Operation} {dst : Reference}

/-- Storing in a place passes an operation that does not look at it. -/
theorem passedBy_update {place : Place} (h : ∀ place' ∈ o.places, place.Apart place')
    (g : Value → Value) : o.PassedBy p fun s : State ι => s.update place g where
  read _ hsrc :=
    Source.passedBy_update (fun place' hplace => h place' (mem_places_of_source hsrc hplace)) g
  update dst hdst g' s := State.update_comm (h dst.place (destination_mem_places hdst)) s g g'

variable [Rereads ι]

/-- Reading a source passes an operation that does not store in what it reads. -/
theorem passedBy_read {src : Source}
    (h : ∀ dst, o.destination? = some dst → ∀ place ∈ src.places, dst.place.Apart place) :
    o.PassedBy p fun s : State ι => (src.read p s).2 where
  read src' _ := Source.passedBy_read src' src
  update dst hdst g s := by
    have hread := Source.passedBy_update (p := p) (h dst hdst) g s
    rw [hread]

/-- An operation leaves the value of a source as it is, unless it stores in what that reads. -/
theorem read_run {src : Source}
    (h : ∀ dst, o.destination? = some dst → ∀ place ∈ src.places, dst.place.Apart place)
    (s : State ι) : (src.read p (o.run p s)).1 = (src.read p s).1 := by
  refine run_keeps (P := fun t => (src.read p t).1 = (src.read p s).1) (fun src' _ t ht => ?_)
    (fun dst hdst g t ht => ?_) (fun x y value t ht => ?_) rfl
  · rw [Source.passedBy_read src src' t, ht]
  · rw [Source.passedBy_update (h dst hdst) g t, ht]
  · rw [← ht]
    match src with
    | .name _ | .literal _ | .attribute _ => rfl
    | .interpolated id =>
      simp only [Source.read, State.report]
      split <;> rfl

/-- An operation passes another that it spares and that spares it. -/
theorem passedBy_run (h : o.Independent o') (hdst : o.destination? = some dst) :
    o'.PassedBy p fun s : State ι => o.run p s where
  read src hsrc s := by
    have hspares : ∀ dst, o.destination? = some dst → ∀ place ∈ src.places,
        dst.place.Apart place :=
      fun dst hdst place hplace => h.1 dst hdst place (mem_places_of_source hsrc hplace)
    exact Prod.ext (read_run hspares s) ((passedBy_read hspares).run hdst s).symm
  update dst' hdst' g s := ((passedBy_update (h.2 dst' hdst') g).run hdst s).symm

/-- Independent operations, neither of them a print, commute. -/
theorem Independent.run_comm (h : o.Independent o') {dst' : Reference}
    (hdst : o.destination? = some dst) (hdst' : o'.destination? = some dst') (s : State ι) :
    o'.run p (o.run p s) = o.run p (o'.run p s) :=
  (passedBy_run h hdst).run hdst' s

end Operation

/-! ## Programs with two instructions exchanged -/

namespace Program

/-- The program with other instructions. -/
def withCode (p : Program) (l : List Instruction) : Program := { p with instructions := l.toArray }

/-- In a program without branches the order of the instructions does not count for what building
vouches for. -/
theorem WellFormed.withCode (hp : p.WellFormed)
    (hlinear : ∀ ins ∈ p.instructions, ins.isBranch = false) {l : List Instruction}
    (hperm : l.Perm p.instructions.toList) : (p.withCode l).WellFormed := by
  have hmem : ∀ ins ∈ l, ins ∈ p.instructions := fun ins hins =>
    Array.mem_toList_iff.1 (hperm.mem_iff.1 hins)
  have hoffers : p.Offers (p.withCode l) :=
    ⟨rfl, .refl _, .refl _, .refl _, .refl _, .refl _⟩
  refine ⟨{ hp.tables with }, fun ins hins => ?_, hp.coherent, ?_, fun _ => ?_⟩
  · exact (hp.fits ins (hmem ins (List.mem_toArray.1 hins))).mono hoffers
  · change p.hasBranches = l.toArray.any Instruction.isBranch
    rw [hp.branches, ← Array.any_toList, ← Array.any_toList]
    exact hperm.any_eq.symm
  · have hcheck : checkBlocks l.length 0 (l ++ []) = checkBlocks l.length 0 [] :=
      (Wrapped.refl l).checkBlocks_append (fun ins hins => hlinear ins (hmem ins hins)) 0 []
    rw [List.append_nil] at hcheck
    exact hcheck

/-- What comes of two operations in either order comes of them in the middle of other code. -/
theorem runLinear_exchange {o o' : Operation}
    (hcomm : ∀ s : State ι, o'.run p (o.run p s) = o.run p (o'.run p s))
    (before after : List Instruction) (s : State ι) :
    p.runLinear (before ++ .operation o' :: .operation o :: after) s =
      p.runLinear (before ++ .operation o :: .operation o' :: after) s := by
  rw [runLinear_append, runLinear_append]
  congr 1
  funext t
  simp only [runLinear, hcomm]

/-- Programs without branches that come to the same from front to back do the same for an
invocation. -/
theorem execute_withCode (hp : p.WellFormed)
    (hlinear : ∀ ins ∈ p.instructions, ins.isBranch = false) {l : List Instruction}
    (hperm : l.Perm p.instructions.toList)
    (hrun : ∀ s : State ι, p.runLinear l s = p.runLinear p.instructions.toList s) (i : ι)
    (r : Registers) :
    (p.withCode l).execute i r = { p.execute i r with program := p.withCode l } := by
  have hlinear' : ∀ ins ∈ (p.withCode l).instructions, ins.isBranch = false := fun ins hins =>
    hlinear ins (Array.mem_toList_iff.1 (hperm.mem_iff.1 (List.mem_toArray.1 hins)))
  have hsame : p.SameResources (p.withCode l) := ⟨rfl, rfl, rfl, rfl, rfl⟩
  have hp' := hp.withCode hlinear hperm
  refine execute_congr rfl ?_ fun reason => ?_
  · calc (p.withCode l).run ⟨i, r, #[]⟩
      _ = (p.withCode l).runLinear l ⟨i, r, #[]⟩ := run_of_linear hp' hlinear' _
      _ = p.runLinear l ⟨i, r, #[]⟩ := runLinear_congr hsame _ _
      _ = p.runLinear p.instructions.toList ⟨i, r, #[]⟩ := hrun _
      _ = p.run ⟨i, r, #[]⟩ := (run_of_linear hp hlinear _).symm
  · rw [run_of_linear hp hlinear]
    exact runLinear_ending reason _ _

end Program

/-- In a program without branches it does not matter which of two adjacent operations, neither of
them a print, comes first, if neither changes what the other one reads or changes. The
program with the two exchanged is as well formed, and for every fragment or vertex, and
whatever the registers hold, all that becomes of it is the same: whether it counts, the
invocation, the slots, the caches and the reports. -/
theorem execute_exchanged {before after : List Instruction} {o o' : Operation}
    {dst dst' : Reference} (hp : p.Reachable)
    (hlinear : ∀ ins ∈ p.instructions, ins.isBranch = false)
    (hcode : p.instructions.toList = before ++ .operation o :: .operation o' :: after)
    (hdst : o.destination? = some dst) (hdst' : o'.destination? = some dst')
    (h : o.Independent o') :
    let q := p.withCode (before ++ .operation o' :: .operation o :: after)
    q.WellFormed ∧
      (∀ (f : Fragment) (r : Registers), q.execute f r = { p.execute f r with program := q }) ∧
      ∀ (v : Vertex) (r : Registers), q.execute v r = { p.execute v r with program := q } := by
  have hwell := hp.wellFormed
  have hperm : (before ++ .operation o' :: .operation o :: after).Perm p.instructions.toList := by
    rw [hcode]
    exact .append_left before (.swap _ _ after)
  refine ⟨hwell.withCode hlinear hperm, ?_, ?_⟩
  all_goals
    refine Program.execute_withCode hwell hlinear hperm fun s => ?_
    rw [hcode]
    exact Program.runLinear_exchange (h.run_comm hdst hdst') before after s

/-- A program whose second and third line read one attribute. The second stores in a variable, the
third in the color. -/
def blending (ramp : Attribute) : Program :=
  [.push "=" [.name "v", .name "fragX"],
    .push "+=" [.name "v", .interpolated ⟨0, ramp⟩],
    .push "=" [.name "fragYUVA.xy", .interpolated ⟨0, ramp⟩],
    .push "*=" [.name "fragColor", .name "v"],
    .seal].foldl Program.edit (Program.new .fragment)

theorem execute_exchanged_blending :
    let ramp : Attribute := ⟨⟨#[0.25, 0.5, 1], 1, by decide, by decide⟩, .perVertex, false⟩
    let p := blending ramp
    let start := Operation.arith .assign ⟨.slot 0, none⟩ (.name ⟨.builtin .screenX, none⟩)
    let add := Operation.arith .add ⟨.slot 0, none⟩ (.interpolated 0)
    let paint := Operation.arith .assign ⟨.builtin .yuvColor, some Mask.xy⟩ (.interpolated 0)
    let scale := Operation.arith .mul ⟨.builtin .rgbColor, none⟩ (.name ⟨.slot 0, none⟩)
    let q := p.withCode
      [.operation start, .operation paint, .operation add, .operation scale]
    let f := Fragment.ofPosition 3 2
    let done := q.execute f p.registers
    done.isValid = true ∧ done.invocation ≠ f ∧ done.registers ≠ p.registers ∧
      done = { p.execute f p.registers with program := q } := by
  intro ramp p start add paint scale q f done
  have hreach : p.Reachable := (Program.Reachable.new .fragment).foldl _
  have hlinear : ∀ ins ∈ p.instructions, ins.isBranch = false := by decide +kernel
  have hcode : p.instructions.toList =
      [.operation start] ++ .operation add :: .operation paint :: [.operation scale] := by
    decide +kernel
  have hindependent : add.Independent paint := by decide
  obtain ⟨-, hfragment, -⟩ := execute_exchanged hreach hlinear hcode rfl rfl hindependent
  exact ⟨by decide +kernel, by decide +kernel, by decide +kernel, hfragment f p.registers⟩

end Shading
