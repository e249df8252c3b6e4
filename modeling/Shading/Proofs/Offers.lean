import Shading.Proofs.Frame

/- What an operation brings to its destination. It reads its sources and computes something
   from them, which is an operand to combine with what is there, the two bounds of a range to
   hold that in, or a function to map it by (`Operation.offer?`). This does not depend on the
   destination. All that is left to do is to store, under a swizzle, what comes of the offer
   and the old value (`Operation.run_takes`); without an offer nothing is stored. -/
namespace Shading

variable {ι : Type} [Invocation ι] {p : Program}

/-- What is brought to a destination. -/
inductive Offer where
  /-- An operand to combine with what is there. -/
  | operand (op : Arith) (value : Operand)
  /-- The bounds of a range to hold it in. -/
  | range (lower upper : Operand)
  /-- A function to map it by. -/
  | mapping (f : Vec4 → Vec4)

/-- The value to store when an offer meets a destination. -/
def Offer.meet (mask : Option Mask) (old : Value) : Offer → Value
  | operand op value => op.combine old mask value
  | range lower upper => old.clamp lower upper mask
  | mapping f => old.transform f mask

/-- What a function offers: its value, to be stored, or the bounds of a range. -/
def MathFunction.offer? (f : MathFunction) (a : Operand) (second : Option Operand) :
    Option Offer :=
  match f, second with
  | .clamp, some b => some (.range a b)
  | _, _ => (f.evaluate a second).map (.operand .assign)

namespace Operation

/-- What an operation offers, if its sources have values. -/
def offer? (p : Program) (o : Operation) (s : State ι) : Option Offer :=
  match o with
  | .arith op _ src => (src.read p s).1.map (.operand op)
  | .transform id _ => (p.matrix? id).map fun m => .mapping m.apply
  | .compare cmp _ lhs rhs =>
    match (lhs.read p s).1, (rhs.read p (lhs.read p s).2).1 with
    | some a, some b => some (.operand .assign (.bool (cmp.holds a b)))
    | _, _ => none
  | .sample id model _ coords =>
    (p.texture? id).bind fun texture => (coords.read p s).1.map fun value =>
      .operand .assign (.vec (texture.sample value.position.1 value.position.2 model) Mask.xyzq)
  | .call f _ src none => (src.read p s).1.bind fun a => f.offer? a none
  | .call f _ src (some src') =>
    (src.read p s).1.bind fun a =>
      (src'.read p (src.read p s).2).1.bind fun b => f.offer? a (some b)
  | .convert model _ src => (src.read p s).1.map fun value =>
    .operand .assign (.vec (p.color.convert model value.full) Mask.xyz)
  | .print _ => none

/-- The swizzle under which an operation stores: that of its destination, but of a color no
more than the lanes that are converted. -/
def swizzle (o : Operation) (dst : Reference) : Option Mask :=
  match o with
  | .convert _ _ _ => some ((dst.mask.getD Mask.xyzq).inter Mask.xyz)
  | _ => dst.mask

end Operation

/-- The second state is the first with other caches, and with an offer met in a place if there is
one. -/
def State.Takes (place : Place) (mask : Option Mask) (offer : Option Offer) (s t : State ι) :
    Prop :=
  ∃ anchors, let read := { s with registers := ⟨s.registers.slots, anchors⟩ }
    t = offer.elim read fun offer => read.update place (offer.meet mask)

namespace State.Takes

variable {place : Place} {mask : Option Mask} {s t : State ι}

theorem nothing (s : State ι) : s.Takes place mask none s := ⟨_, rfl⟩

theorem taken (offer : Offer) (s : State ι) :
    s.Takes place mask (some offer) (s.update place (offer.meet mask)) :=
  ⟨s.registers.anchors, rfl⟩

theorem after (p : Program) (src : Source) {offer : Option Offer}
    (h : (src.read p s).2.Takes place mask offer t) : s.Takes place mask offer t := by
  obtain ⟨anchors, -, hs⟩ := src.read_frame (p := p) s
  rw [hs] at h
  exact h

/-- A source is read first, and without a value nothing is offered. -/
theorem andThen {src : Source} {use : Operand → State ι → State ι}
    (offer : Operand → State ι → Option Offer)
    (h : ∀ value s', State.Takes place mask (offer value s') s' (use value s')) (s : State ι) :
    s.Takes place mask ((src.read p s).1.bind fun value => offer value (src.read p s).2)
      (src.andThen p s use) := by
  refine after p src ?_
  unfold Source.andThen
  rcases src.read p s with ⟨value, s'⟩
  cases value with
  | none => exact nothing s'
  | some value => exact h value s'

theorem storeCall (f : MathFunction) (dst : Reference) (a : Operand) (second : Option Operand)
    (s : State ι) : s.Takes dst.place dst.mask (f.offer? a second)
      (Operation.storeCall f dst a second s) := by
  unfold MathFunction.offer?
  split
  · exact taken (.range _ _) s
  · next hclamp =>
    have hvalue : Operation.storeCall f dst a second s = (f.evaluate a second).elim s fun value =>
        s.update dst.place fun old => Arith.assign.combine old dst.mask value := by
      unfold Operation.storeCall
      split
      · exact (hclamp _ rfl rfl).elim
      · cases f.evaluate a second <;> rfl
    rw [hvalue]
    cases f.evaluate a second with
    | none => exact nothing s
    | some value => exact taken (.operand .assign value) s

end State.Takes

/-- Whatever an operation does, it reads, and its destination takes what it offers. -/
theorem Operation.run_takes {o : Operation} {dst : Reference} (hdst : o.destination? = some dst)
    (s : State ι) : s.Takes dst.place (o.swizzle dst) (o.offer? p s) (o.run p s) := by
  cases o with
  | arith op dst' src =>
    obtain rfl := Option.some.inj hdst
    rw [offer?, Option.map_eq_bind]
    exact .andThen _ (fun value s' => .taken (.operand op value) s') s
  | transform id dst' =>
    obtain rfl := Option.some.inj hdst
    simp only [run, offer?]
    cases p.matrix? id with
    | none => exact .nothing s
    | some m => exact .taken (.mapping m.apply) s
  | compare cmp dst' lhs rhs =>
    obtain rfl := Option.some.inj hdst
    refine .after p lhs (.after p rhs ?_)
    simp only [run, offer?]
    cases (lhs.read p s).1 with
    | none => exact .nothing _
    | some a =>
      cases (rhs.read p (lhs.read p s).2).1 with
      | none => exact .nothing _
      | some b => exact .taken (.operand .assign _) _
  | sample id model dst' coords =>
    obtain rfl := Option.some.inj hdst
    simp only [run, offer?]
    cases p.texture? id with
    | none => exact .nothing s
    | some texture =>
      rw [Option.bind_some, Option.map_eq_bind]
      exact .andThen _ (fun value s' => .taken (.operand .assign _) s') s
  | call f dst' src second =>
    obtain rfl := Option.some.inj hdst
    cases second with
    | none =>
      exact .andThen (fun a _ => f.offer? a none) (fun a s' => .storeCall f dst' a none s') s
    | some src' =>
      refine .andThen (fun a s' => (src'.read p s').1.bind fun b => f.offer? a (some b))
        (fun a s' => ?_) s
      exact .andThen (fun b _ => f.offer? a (some b))
        (fun b s'' => .storeCall f dst' a (some b) s'') s'
  | convert model dst' src =>
    obtain rfl := Option.some.inj hdst
    rw [offer?, Option.map_eq_bind]
    exact .andThen _ (fun value s' => .taken (.operand .assign _) s') s
  | print src => cases hdst

end Shading
