import Shading.Proofs.Commuting
import Shading.Proofs.Lanes
import Shading.Proofs.Swizzles

/- What the depth takes. The depth of a fragment is one float, so of what is stored there one
   float is kept; but an operand of several floats first makes a vector of the old depth, from
   zero or from the depth in every lane, an integer or a truth value comes with its type, and
   both are taken back to a float when they are stored. All ways come to the direct one: the
   float that the operand leads with (`Operand.Leads`) is combined with the depth
   (`Arith.combine_float`). So an operand may be exchanged for any other with that float, in
   a single write (`Operation.run_depth`) or throughout a program
   (`Program.execute_leadsAlike`). -/
namespace Shading

/-! ## The leading float -/

namespace Operand

/-- The float that an operand leads with: the one of a scalar, converted, or that of the first
active lane, and zero if no lane is active. -/
inductive Leads (src : Operand) : Float32 → Prop
  | brought {s : Float32} : src.Brings 0 s → Leads src s
  | nothing : src.count = 0 → Leads src 0

variable {src : Operand} {s : Float32}

theorem scalar_of_count (h : src.count = 0) : src.scalar = 0 := by
  have hactive : src.active = [] := List.length_eq_zero_iff.1 h
  rw [scalar_eq_headD, hactive]
  rfl

/-- It is the operand as a scalar. -/
theorem leads_iff : src.Leads s ↔ src.scalar = s := by
  constructor
  · rintro (hbrings | hcount)
    · exact hbrings.eq_scalar.symm
    · exact scalar_of_count hcount
  · rintro rfl
    rcases Nat.eq_zero_or_pos src.count with hcount | hcount
    · exact scalar_of_count hcount ▸ .nothing hcount
    · exact .brought (brings_scalar hcount)

/-- It meets the first lane of a swizzle. -/
theorem forRank_zero (src : Operand) : src.forRank 0 = some src.scalar := by
  rw [forRank, scalar_eq_headD]
  rcases src.active with _ | ⟨s, _ | ⟨t, rest⟩⟩ <;> rfl

end Operand

/-- Under masks with the same first lane a value leads with the same float. -/
theorem Value.scalar_operand {m n : Mask} (h : m.lanes.head? = n.lanes.head?) (value : Value) :
    (value.operand m).scalar = (value.operand n).scalar := by
  cases value with
  | float s | int i | bool b => rfl
  | vec v =>
    simp only [operand, Operand.scalar, List.headD_eq_head?_getD, List.head?_map, h]

/-! ## Combined with a float -/

namespace Arith

theorem ontoLanes_x {mask : Mask} (hmask : mask.has .x = true) (op : Arith) (old : Vec4)
    (src : Operand) : (op.ontoLanes old mask src).get .x = op.float (old.get .x) src.scalar := by
  have hrank : mask.rank .x = 0 := rfl
  simp only [ontoLanes, Vec4.get_ofLanes, hmask, if_true, hrank, src.forRank_zero]

theorem ontoVec_x {src : Operand} (h : 1 < src.count) (op : Arith) (old : Vec4) :
    (op.ontoVec old src).get .x = op.float (old.get .x) src.scalar := by
  have hfills : op.FillsVec old src (op.ontoVec old src) := ontoVec_fills (Nat.lt_of_succ_lt h) old
  cases hscalar : src.isScalar with
  | true =>
    obtain ⟨s, hs, hx⟩ := hfills.scalar hscalar .x
    rw [hx, hs.eq_scalar]
  | false =>
    obtain ⟨s, hs, hx⟩ := hfills.ranked hscalar .x (Nat.lt_of_succ_lt h)
    rw [hx, hs.eq_scalar]

/-- Whatever type comes of a float and a scalar, as a float it is the two combined. -/
theorem toFloat_scalars (op : Arith) (x : Float32) (src : Operand) :
    (op.scalars (.float x) src).toFloat = op.float x src.scalar := by
  cases op <;> cases src <;> rfl

/-- A float takes the leading float of an operand, whatever comes of the two at first. -/
theorem combine_float (op : Arith) (x : Float32) (src : Operand) :
    (op.combine (.float x) none src).toFloat = op.float x src.scalar := by
  by_cases hseveral : 1 < src.count
  · have hvec : op.combine (.float x) none src = _ := ontoScalar_several hseveral (.float x)
    rw [hvec]
    refine (ontoVec_x hseveral op _).trans ?_
    -- a base of zeros serves for storing alone, which does not look at it
    cases op <;> rfl
  · cases src with
    | float _ | int _ | bool _ => exact toFloat_scalars op x _
    | vec v m =>
      rw [Operand.count_vec] at hseveral
      have hsingle : op.combine (.float x) none (.vec v m) =
          op.scalars (.float x) (.float (Operand.vec v m).scalar) := if_neg hseveral
      rw [hsingle, toFloat_scalars]
      rfl

end Arith

/-- What comes of an offer and a float. Of each operand the leading float counts. -/
def Offer.onFloat (x : Float32) : Offer → Float32
  | operand op value => op.float x value.scalar
  | range lower upper => Single.minimum (Single.maximum x lower.scalar) upper.scalar
  | mapping f => (f ⟨x, 0, 0, 0⟩).x

theorem Offer.toFloat_meet {mask : Option Mask} (hmask : ∀ m ∈ mask, m.has .x = true)
    (offer : Offer) (x : Float32) : (offer.meet mask (.float x)).toFloat = offer.onFloat x := by
  cases offer with
  | operand op value =>
    cases mask with
    | none => exact op.combine_float x value
    | some m => exact Arith.ontoLanes_x (hmask m rfl) op ⟨x, 0, 0, 0⟩ value
  | range lower upper =>
    have hhold : hold lower upper 0 x = onFloat x (.range lower upper) := by
      simp only [hold, Operand.forRank_zero, onFloat]
    cases mask with
    | none => exact hhold
    | some m =>
      have hx : m.has .x = true := hmask m rfl
      refine Eq.trans ?_ hhold
      show (if m.has .x then hold lower upper (m.rank .x) x else x) = _
      rw [hx]
      rfl
  | mapping f =>
    cases mask with
    | none => rfl
    | some m =>
      have hx : m.has .x = true := hmask m rfl
      show (if m.has .x then (f ⟨x, 0, 0, 0⟩).get .x else x) = _
      rw [hx]
      rfl

/-! ## Writes of the depth -/

/-- The depth with a name of no swizzle, which is how a program writes it. -/
def Reference.depth : Reference := ⟨.builtin .depth, none⟩

variable {p q : Program}

/-- A program can only write the depth without a swizzle, because it is no vector. -/
theorem Reference.eq_depth {dst : Reference} (h : dst.Fits p)
    (hplace : dst.place = .builtin .depth) : dst = .depth := by
  obtain ⟨place, mask⟩ := dst
  obtain rfl : place = .builtin .depth := hplace
  cases mask with
  | none => rfl
  | some m => cases h.2 rfl

/-- An operation that writes the depth leaves the rest of the fragment alone, and the depth takes
what is offered as one float. -/
theorem Operation.run_depth {o : Operation} (hdst : o.destination? = some .depth)
    (s : State Fragment) : (o.run p s).invocation =
      { s.invocation with
        depth := (o.offer? p s).elim s.invocation.depth (Offer.onFloat s.invocation.depth) } := by
  have hmask : ∀ m ∈ o.swizzle .depth, m.has .x = true := by
    cases o <;> simp [swizzle, Reference.depth, Mask.inter, Mask.xyzq, Mask.xyz, Mask.first,
      Lane.index]
  obtain ⟨anchors, htaken⟩ := o.run_takes (p := p) hdst s
  rw [htaken]
  cases o.offer? p s with
  | none => rfl
  | some offer =>
    show { s.invocation with
      depth := (offer.meet (o.swizzle .depth) (.float s.invocation.depth)).toFloat } = _
    rw [offer.toFloat_meet hmask]
    rfl

/-! ## Sources that lead alike -/

/-- Two sources lead with the same float, wherever they are read: literals with the same leading
float, whatever their types and their other lanes, and names of one place whose lanes begin
with the same one. -/
inductive Source.LeadsAlike : Source → Source → Prop
  | refl (src : Source) : LeadsAlike src src
  | literal {a b : Operand} : a.scalar = b.scalar → LeadsAlike (.literal a) (.literal b)
  | name {r r' : Reference} : r.place = r'.place →
    r.lanes.lanes.head? = r'.lanes.lanes.head? → LeadsAlike (.name r) (.name r')

/-- Two instructions are the same, or combine the depth by one operation with sources that lead
with the same float. -/
inductive Instruction.LeadsAlike : Instruction → Instruction → Prop
  | refl (ins : Instruction) : LeadsAlike ins ins
  | depth (op : Arith) {src src' : Source} : src.LeadsAlike src' →
    LeadsAlike (.operation (.arith op .depth src)) (.operation (.arith op .depth src'))

theorem Source.LeadsAlike.read {src src' : Source} (h : src.LeadsAlike src') (s : State Fragment) :
    (src.read p s).1.map Operand.scalar = (src'.read p s).1.map Operand.scalar ∧
      (src.read p s).2 = (src'.read p s).2 := by
  cases h with
  | refl => exact ⟨rfl, rfl⟩
  | literal h => exact ⟨congrArg some h, rfl⟩
  | @name r r' hplace hlanes =>
    refine ⟨?_, rfl⟩
    simp only [Source.read, State.readName?, ← hplace]
    cases r.place with
    | builtin b => exact congrArg some (Value.scalar_operand hlanes _)
    | slot i =>
      simp only [Option.map_map]
      exact congrArg (Option.map · _) (funext (Value.scalar_operand hlanes))

/-- Combined with an operand the depth takes its leading float, and nothing else changes. -/
theorem State.update_depth (s : State Fragment) (op : Arith) (value : Operand) :
    s.update (.builtin .depth) (op.combine · none value) =
      { s with invocation :=
        { s.invocation with depth := op.float s.invocation.depth value.scalar } } := by
  rw [← op.combine_float]
  rfl

theorem Operation.run_leadsAlike {src src' : Source} (h : src.LeadsAlike src') (op : Arith)
    (s : State Fragment) :
    (arith op .depth src).run p s = (arith op .depth src').run p s := by
  obtain ⟨hvalue, hstate⟩ := h.read (p := p) s
  simp only [run, Source.andThen]
  rcases hsrc : src.read p s with ⟨value, t⟩
  rcases hsrc' : src'.read p s with ⟨value', t'⟩
  rw [hsrc, hsrc'] at hvalue hstate
  obtain rfl : t = t' := hstate
  cases value with
  | none =>
    cases value' with
    | none => rfl
    | some value' => cases hvalue
  | some value =>
    cases value' with
    | none => cases hvalue
    | some value' =>
      have hscalar : value.scalar = value'.scalar := Option.some.inj hvalue
      exact (t.update_depth op value).trans (hscalar ▸ (t.update_depth op value').symm)

namespace Program

theorem inStep_leadsAlike {l : List Instruction}
    (h : List.Forall₂ Instruction.LeadsAlike p.instructions.toList l) :
    p.InStep (p.withCode l) (Eq : State Fragment → State Fragment → Prop) where
  code := by
    have hlength : (p.withCode l).length = p.length := h.length_eq.symm.trans (by simp [length])
    refine h.imp fun ins ins' hins => ?_
    have hsame : p.SameResources (p.withCode l) := ⟨rfl, rfl, rfl, rfl, rfl⟩
    cases hins with
    | refl => exact ins.inStep_congr hsame hlength
    | depth op hsrc =>
      rintro s _ rfl
      exact (Operation.run_leadsAlike hsrc op s).trans (Operation.run_congr hsame _ s).symm
  branches := rfl
  discard h := congrArg State.discard h

/-- A program whose writes of the depth are given other sources that lead with the same floats does
the same for a fragment. -/
theorem execute_leadsAlike {l : List Instruction}
    (h : List.Forall₂ Instruction.LeadsAlike p.instructions.toList l) (f : Fragment)
    (r : Registers) : (p.withCode l).execute f r =
      { p.execute f r with program := (p.execute f r).program.withCode l } := by
  have hstep := inStep_leadsAlike h
  have hrun : (p.withCode l).run ⟨f, r, #[]⟩ = p.run ⟨f, r, #[]⟩ :=
    (hstep.run (rfl : (⟨f, r, #[]⟩ : State Fragment) = _)).eq.symm
  unfold execute
  show (if p.isRunnable then _ else _) = _
  rw [hrun]
  split
  · dsimp only
    split
    · next reason _ =>
      have hmarked : (p.withCode l).invalidate reason =
          ((p.invalidate reason).1.withCode l, (p.invalidate reason).2) := by
        unfold invalidate
        rw [hstep.length]
        show (if p.isInvalid then _ else _) = _
        split <;> rfl
      rw [hmarked]
    · rfl
  · rfl

end Program

/-! ## The depth of a run -/

/-- The depth takes the float that an operand leads with: that of a scalar, converted, or of the
first active lane, and zero if there is none. Combined with a float by whichever operation of
arithmetic, an operand of any type and any mask comes to the operation on the float and the
leading float. So in a program every operation that writes the depth leaves there what its
offer makes of one float, as the only change to the fragment; of what an offer was computed
from more may count, of the offer itself no other lane and no type does. And in the writes
of the depth throughout a program, sources can be exchanged for others that lead alike
without a change to what becomes of a fragment. -/
theorem depth_takes_leading (hp : p.Reachable) :
    (∀ (src : Operand) s, src.Leads s ↔ src.scalar = s) ∧
    (∀ (op : Arith) (x : Float32) (src : Operand),
      (op.combine (.float x) none src).toFloat = op.float x src.scalar) ∧
    (∀ o dst, .operation o ∈ p.instructions → o.destination? = some dst →
      dst.place = .builtin .depth → dst = .depth ∧ ∀ s : State Fragment,
        (o.run p s).invocation = { s.invocation with
          depth := (o.offer? p s).elim s.invocation.depth (Offer.onFloat s.invocation.depth) }) ∧
    ∀ l, List.Forall₂ Instruction.LeadsAlike p.instructions.toList l →
      ∀ (f : Fragment) (r : Registers), (p.withCode l).execute f r =
        { p.execute f r with program := (p.execute f r).program.withCode l } := by
  refine ⟨fun _ _ => Operand.leads_iff, Arith.combine_float, fun o dst ho hdst hplace => ?_,
    fun _ => Program.execute_leadsAlike⟩
  have htarget : dst.IsTarget p := (hp.wellFormed.fits _ ho).isTarget hdst
  obtain rfl := Reference.eq_depth htarget.fits hplace
  exact ⟨rfl, Operation.run_depth hdst⟩

/-- A program that multiplies the depth by an integer and adds two lanes of a vector to it. -/
def deepening : Program :=
  [.push "=" [.name "v", .literal (.vec ⟨1, 2, 3, 4⟩ Mask.xyzq)],
    .push "*=" [.name "fragDepth", .literal (.int 3)],
    .push "+=" [.name "fragDepth", .name "v.qy"],
    .seal].foldl Program.edit (Program.new .fragment)

/-- The integer is exchanged for two lanes of a vector, and of the two lanes the second is left
out. -/
theorem depth_takes_leading_deepening :
    let two : Mask := ⟨false, true, false, true⟩
    let start := Operation.arith .assign ⟨.slot 0, none⟩ (.literal (.vec ⟨1, 2, 3, 4⟩ Mask.xyzq))
    let add := Operation.arith .add .depth (.name ⟨.slot 0, some two⟩)
    let l : List Instruction := [.operation start,
      .operation (.arith .mul .depth (.literal (.vec ⟨8, 3, 9, 7⟩ ⟨false, true, true, false⟩))),
      .operation (.arith .add .depth (.name ⟨.slot 0, some ⟨false, true, false, false⟩⟩))]
    let f := { Fragment.ofPosition 0 0 with depth := 2 }
    let s : State Fragment := ⟨f, ⟨#[.vec ⟨1, 2, 3, 4⟩], #[]⟩, #[]⟩
    deepening.Reachable ∧ (Operand.vec ⟨1, 2, 3, 4⟩ two).Leads 2 ∧
      (Arith.add.combine (.float 2) none (.vec ⟨1, 2, 3, 4⟩ two)).toFloat = 2 + 2 ∧
      .operation add ∈ deepening.instructions ∧ add.destination? = some .depth ∧
      (add.run deepening s).invocation = { f with depth := 2 + 2 } ∧
      List.Forall₂ Instruction.LeadsAlike deepening.instructions.toList l ∧
      (deepening.execute f deepening.registers).invocation.depth = 8 ∧
      ((deepening.withCode l).execute f deepening.registers).invocation.depth = 8 := by
  intro two start add l f s
  have hp : deepening.Reachable := (Program.Reachable.new .fragment).foldl _
  obtain ⟨hleads, hcombine, hwrites, hexchange⟩ := depth_takes_leading hp
  have hcode : deepening.instructions.toList = [.operation start,
      .operation (.arith .mul .depth (.literal (.int 3))), .operation add] := by decide +kernel
  have hadd : .operation add ∈ deepening.instructions := by
    rw [← Array.mem_toList_iff, hcode]
    simp
  have halike : List.Forall₂ Instruction.LeadsAlike deepening.instructions.toList l := by
    rw [hcode]
    exact .cons (.refl _) <| .cons (.depth .mul (.literal (by decide))) <|
      .cons (.depth .add (.name rfl rfl)) .nil
  have hdepth : (deepening.execute f deepening.registers).invocation.depth = 8 := by
    decide +kernel
  refine ⟨hp, (hleads _ 2).2 rfl, hcombine .add 2 _, hadd, rfl,
    (hwrites add .depth hadd rfl rfl).2 s, halike, hdepth, ?_⟩
  rw [hexchange l halike]
  exact hdepth

end Shading
