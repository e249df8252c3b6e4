import Shading.Proofs.Filling
import Shading.Proofs.Renaming

/- A uniform that comes in between. Where a new name is declared, what was there keeps its
   number, and each variable declared from then on has a number higher by one than it would
   have without (`Renaming.inserting`). Lines that do not mention the name do not notice
   (`Renaming.lines_inserting`), and neither do instructions that were there before
   (`Instruction.Fits.renumber_eq`). What a program accepts, one line after the other, is
   told by `Program.pushAll?` and `Program.sealedWith?`; a jump through the new uniform stays in
   it, whatever is done to it but starting over, and lets an update pass only if the value is
   the number of an instruction (`Program.JumpsThrough.whole`). -/
namespace Shading

/-! ## Numbers with one left out -/

/-- Names keep their variables but for one that is left out, and so do numbers from which on
they are higher by one. -/
def Renaming.inserting (u : String) (m : Nat) : Renaming where
  Named a b := b = a ∧ a ≠ u
  Written text text' := text' = text ∧ (OperandName.parse? text).map OperandName.base ≠ some u
  number i := if i < m then i else i + 1
  eq_iff := by
    rintro _ _ _ _ ⟨rfl, -⟩ ⟨rfl, -⟩
    exact Iff.rfl
  injective := by
    intro i j h
    dsimp only at h
    split at h <;> split at h <;> omega
  le_number i := by split <;> omega
  builtin := by
    rintro _ _ ⟨rfl, -⟩
    rfl
  hasDot := by
    rintro _ _ ⟨rfl, -⟩
    rfl
  isUniform := by
    rintro _ _ ⟨rfl, -⟩
    rfl
  isIdentifier := by
    rintro _ _ ⟨rfl, -⟩
    rfl
  parts := by
    rintro _ text ⟨rfl, hfree⟩
    cases hparse : OperandName.parse? text with
    | none => exact .none
    | some n =>
      rw [hparse, Option.map_some, ne_eq, Option.some.injEq] at hfree
      exact .some ⟨⟨rfl, hfree⟩, rfl⟩

namespace Renaming

variable {u : String} {m i : Nat}

theorem number_of_lt (h : i < m) : (inserting u m).number i = i := if_pos h

theorem number_of_le (h : m ≤ i) : (inserting u m).number i = i + 1 := if_neg (Nat.not_lt.2 h)

theorem number_le_succ (u : String) (m i : Nat) : (inserting u m).number i ≤ i + 1 := by
  rcases Nat.lt_or_ge i m with h | h
  · rw [number_of_lt h]
    omega
  · rw [number_of_le h]

theorem number_ne (i : Nat) : (inserting u m).number i ≠ m := by
  rcases Nat.lt_or_ge i m with h | h
  · rw [number_of_lt h]
    omega
  · rw [number_of_le h]
    omega

/-- Every other number is taken. -/
theorem exists_number (h : i ≠ m) : ∃ j, (inserting u m).number j = i := by
  rcases Nat.lt_or_gt_of_ne h with h | h
  · exact ⟨i, number_of_lt h⟩
  · refine ⟨i - 1, ?_⟩
    rw [number_of_le (by omega)]
    omega

end Renaming

/-- An operand names a variable, with a swizzle or without. -/
def Argument.Mentions (u : String) : Argument → Prop
  | .name text => (OperandName.parse? text).map OperandName.base = some u
  | _ => False

instance (u : String) : (arg : Argument) → Decidable (arg.Mentions u)
  | .name text =>
    inferInstanceAs (Decidable ((OperandName.parse? text).map OperandName.base = some u))
  | .literal _ | .texture _ | .matrix _ | .interpolated _ | .attribute _ => .isFalse id

/-- What does not mention the name that is left out corresponds to itself. -/
theorem Renaming.lines_inserting {u : String} {args : List Argument}
    (h : ∀ arg ∈ args, ¬arg.Mentions u) (m : Nat) (name : String) :
    (inserting u m).Lines name args args where
  length := rfl
  comparison _ _ := rfl
  operand i _ := by
    cases harg : args[i]? with
    | none => exact .none
    | some arg =>
      refine .some ?_
      have hfree := h arg (List.mem_of_getElem? harg)
      match arg with
      | .literal value => exact .literal value
      | .texture h => exact .texture h
      | .matrix h => exact .matrix h
      | .interpolated h => exact .interpolated h
      | .attribute h => exact .fetched h
      | .name text => exact .name ⟨rfl, hfree⟩

/-! ## What fits keeps its numbers -/

section

variable {p : Program} {number : Nat → Nat}

theorem Reference.Fits.renumber_eq {r : Reference} (h : r.Fits p)
    (hnumber : ∀ i < p.declarations.size, number i = i) : r.renumber number = r := by
  match r, h with
  | ⟨.builtin _, _⟩, _ => rfl
  | ⟨.slot i, mask⟩, h =>
    rw [Reference.renumber, Place.renumber, hnumber i h]

theorem Source.Fits.renumber_eq {src : Source} (h : src.Fits p)
    (hnumber : ∀ i < p.declarations.size, number i = i) : src.renumber number = src := by
  match src, h with
  | .name r, h =>
    have hr : r.renumber number = r := Reference.Fits.renumber_eq h hnumber
    rw [Source.renumber, hr]
  | .literal _, _ | .interpolated _, _ | .attribute _, _ => rfl

theorem Operation.Fits.renumber_eq {o : Operation} (h : o.Fits p)
    (hnumber : ∀ i < p.declarations.size, number i = i) : o.renumber number = o := by
  cases o with
  | arith op dst src | convert model dst src =>
    obtain ⟨hdst, hsrc⟩ := h
    rw [Operation.renumber, hdst.fits.renumber_eq hnumber, hsrc.renumber_eq hnumber]
  | transform id dst =>
    obtain ⟨hdst, -⟩ := h
    rw [Operation.renumber, hdst.fits.renumber_eq hnumber]
  | compare cmp dst lhs rhs =>
    obtain ⟨hdst, hlhs, hrhs⟩ := h
    rw [Operation.renumber, hdst.fits.renumber_eq hnumber, hlhs.renumber_eq hnumber,
      hrhs.renumber_eq hnumber]
  | sample id model dst coords =>
    obtain ⟨hdst, -, hcoords⟩ := h
    rw [Operation.renumber, hdst.fits.renumber_eq hnumber, hcoords.renumber_eq hnumber]
  | call f dst src second =>
    obtain ⟨hdst, hsrc, -, hsecond⟩ := h
    have hsecond' : second.map (Source.renumber number) = second := by
      cases second with
      | none => rfl
      | some src' => rw [Option.map_some, (hsecond src' rfl).1.renumber_eq hnumber]
    rw [Operation.renumber, hdst.fits.renumber_eq hnumber, hsrc.renumber_eq hnumber, hsecond']
  | print src =>
    have hsrc : src.renumber number = src := Source.Fits.renumber_eq h hnumber
    rw [Operation.renumber, hsrc]

theorem Condition.Fits.renumber_eq {c : Condition} (h : c.Fits p)
    (hnumber : ∀ i < p.declarations.size, number i = i) : c.renumber number = c := by
  rw [Condition.renumber, h.lhs.renumber_eq hnumber, h.rhs.renumber_eq hnumber]

/-- An instruction that fits is the same under numbers that the program does not tell from its
own. -/
theorem Instruction.Fits.renumber_eq {ins : Instruction} (h : ins.Fits p)
    (hnumber : ∀ i < p.declarations.size, number i = i) : ins.renumber number = ins := by
  match ins, h with
  | .operation o, h => exact congrArg _ (Operation.Fits.renumber_eq h hnumber)
  | .ifThen c, h => exact congrArg _ (Condition.Fits.renumber_eq h hnumber)
  | .elseIf c, h => exact congrArg _ (Condition.Fits.renumber_eq h hnumber)
  | .goto (.uniform v), ⟨d, hd, _⟩ =>
    have hv : v < p.declarations.size := (Array.getElem?_eq_some_iff.1 hd).1
    rw [Instruction.renumber, JumpTarget.renumber, hnumber v hv]
  | .goto (.index _), _ | .discard, _ | .otherwise, _ | .endIf, _ => rfl

end

/-! ## What is accepted -/

/-- The program after something was done to it, unless that was refused. -/
def Outcome.accepted? {α : Type} (x : Outcome α) : Option Program :=
  match x.result with
  | .ok _ => some x.program
  | .error _ => none

theorem Outcome.program_of_accepted {α : Type} {x : Outcome α} {q : Program}
    (h : x.accepted? = some q) : x.program = q := by
  unfold Outcome.accepted? at h
  split at h
  · exact Option.some.inj h
  · cases h

namespace Program

variable {p q : Program}

theorem accepted?_push (p : Program) (name : String) (args : List Argument) :
    (p.push name args).accepted? =
      if p.isInvalid then none
      else
        match (Build.instruction name args).run p with
        | (.ok ins, r) => some (r.append ins)
        | (.error _, _) => none := by
  unfold push
  split
  · rfl
  · rcases (Build.instruction name args).run p with ⟨result, r⟩
    cases result <;> rfl

theorem push_accepted_iff {name : String} {args : List Argument} :
    (p.push name args).accepted? = some q ↔ p.isInvalid = false ∧
      ∃ ins r, (Build.instruction name args).run p = (.ok ins, r) ∧ r.append ins = q := by
  rw [accepted?_push]
  cases p.isInvalid with
  | true => simp
  | false =>
    rcases (Build.instruction name args).run p with ⟨result, r⟩
    cases result with
    | error e =>
      refine iff_of_false (fun h => by cases h) ?_
      rintro ⟨-, _, _, hrun, -⟩
      cases (Prod.mk.inj hrun).1
    | ok ins =>
      refine ⟨fun h => ⟨rfl, ins, r, rfl, Option.some.inj h⟩, ?_⟩
      rintro ⟨-, ins', r', hrun, rfl⟩
      obtain ⟨hins, rfl⟩ := Prod.mk.inj hrun
      rw [Except.ok.inj hins]
      rfl

/-- The program as sealing leaves it. -/
def asSealed (p : Program) : Program :=
  { p with
    hasBranches := p.instructions.any Instruction.isBranch
    isSealed := true }

theorem accepted?_seal (p : Program) : p.seal.accepted? =
    if p.isInvalid then none
    else
      match p.checkStructure with
      | .ok () => some p.asSealed
      | .error _ => none := by
  unfold Program.seal
  split
  · rfl
  · cases p.checkStructure <;> rfl

theorem seal_accepted_iff : p.seal.accepted? = some q ↔
    p.isInvalid = false ∧ p.checkStructure = .ok () ∧ p.asSealed = q := by
  rw [accepted?_seal]
  cases p.isInvalid with
  | true => simp
  | false =>
    cases p.checkStructure with
    | error e => simp
    | ok _ => simp

theorem jumpIndex?_eq_some_iff {k : Value} {length i : Nat} : jumpIndex? k length = some i ↔
    ∃ number : Int, k.whole? = some number ∧ 1 ≤ number ∧ number ≤ length ∧
      (number - 1).toNat = i := by
  unfold jumpIndex?
  cases k.whole? with
  | none => simp
  | some number =>
    by_cases h : 1 ≤ number ∧ number ≤ length
    · simp [h]
    · simp only [if_neg h]
      refine iff_of_false (by simp) ?_
      rintro ⟨number', hnumber, hlow, hhigh, -⟩
      obtain rfl := Option.some.inj hnumber
      exact h ⟨hlow, hhigh⟩

theorem jumpIndex?_lt {k : Value} {length i : Nat} (h : jumpIndex? k length = some i) :
    i < length := by
  obtain ⟨number, -, hlow, hhigh, rfl⟩ := jumpIndex?_eq_some_iff.1 h
  omega

/-- Some instruction jumps through a uniform of a name, which has a number. -/
structure JumpsThrough (u : String) (m : Nat) (q : Program) : Prop where
  wellFormed : q.WellFormed
  jump : .goto (.uniform m) ∈ q.instructions
  declared : q.declarations[m]? = some ⟨u, true⟩

namespace JumpsThrough

variable {u : String} {m : Nat} {k : Value} {source : UniformSource}

theorem edit (h : JumpsThrough u m p) {e : Edit} (he : e ≠ .reset) :
    JumpsThrough u m (p.edit e) := by
  have hcontinues := edit_continues h.wellFormed he
  obtain ⟨n, hn⟩ := Array.mem_iff_getElem?.1 h.jump
  exact ⟨edit_wellFormed h.wellFormed e, Array.mem_of_getElem? (hcontinues.getElem? hn),
    hcontinues.declarations.getElem? h.declared⟩

theorem push (h : JumpsThrough u m p) {name : String} {args : List Argument}
    (hq : (p.push name args).accepted? = some q) : JumpsThrough u m q :=
  Outcome.program_of_accepted hq ▸ h.edit (e := .push name args) (fun he => by cases he)

theorem sealed (h : JumpsThrough u m p) (hq : p.seal.accepted? = some q) :
    JumpsThrough u m q :=
  Outcome.program_of_accepted hq ▸ h.edit (e := .seal) (fun he => by cases he)

theorem filled_slot (h : JumpsThrough u m q)
    (hsource : source (Declaration.mk u true).hostName = some k) (hsupplied : q.Supplied source) :
    (q.filled source).slot? m = some k := by
  rw [Program.filled_slot h.wellFormed.tables.slots hsupplied h.declared]
  exact hsource

/-- Where an update is accepted, the value of the uniform is the number of an instruction. -/
theorem whole (h : JumpsThrough u m q)
    (hsource : source (Declaration.mk u true).hostName = some k)
    (hok : (q.updateUniforms source).result = .ok ()) :
    ∃ target : Int, k.whole? = some target ∧ 1 ≤ target ∧ target ≤ q.length := by
  obtain ⟨-, hsupplied, hresolves⟩ := updateUniforms_eq_ok_iff.1 hok
  have hjump := hresolves m h.jump
  rw [h.filled_slot hsource hsupplied, Option.getD_some, Option.isSome_iff_exists] at hjump
  obtain ⟨i, hi⟩ := hjump
  obtain ⟨number, hwhole, hlow, hhigh, -⟩ := jumpIndex?_eq_some_iff.1 hi
  exact ⟨number, hwhole, hlow, hhigh⟩

end JumpsThrough

end Program

end Shading
