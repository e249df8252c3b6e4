import Mathlib.Data.List.TakeWhile
import Shading.Proofs.Building
import Shading.Proofs.Twins

/- Building under other names. Two hosts may push the same lines with other names for the
   variables, or into programs that give the variables other numbers. A `Renaming` says
   which names and which numbers correspond; it tells no two variables apart that the
   other side confuses, and keeps what the builder asks of a name. Steps of building on
   the two sides then both fail, with errors of one kind, or both answer, and their answers
   correspond, unless the second side, which may have more variables, runs out of numbers
   (`Build.InStep`). There is one lemma for each step of the builder, up to the
   instruction as a whole (`Build.instruction_inStep`): it comes out the same, but for
   the numbers of its slots. -/
namespace Shading

/-! ## Names and numbers that correspond -/

/-- The names that two programs have for the same variables, and the numbers that the second
has for the slots of the first. Operands may be written with a swizzle behind the name, which
is the same for both. -/
structure Renaming where
  Named : String → String → Prop
  Written : String → String → Prop
  number : Nat → Nat
  eq_iff : ∀ {a b a' b'}, Named a b → Named a' b' → (a = a' ↔ b = b')
  injective : Function.Injective number
  le_number : ∀ n, n ≤ number n
  builtin : ∀ {a b}, Named a b → Builtin.ofName? b = Builtin.ofName? a
  hasDot : ∀ {a b}, Named a b → OperandName.hasDot b = OperandName.hasDot a
  isUniform : ∀ {a b}, Named a b → OperandName.isUniform b = OperandName.isUniform a
  isIdentifier : ∀ {a b}, Named a b → isIdentifier b.toList = isIdentifier a.toList
  /-- What is written is taken apart on both sides, or on neither. -/
  parts : ∀ {text text'}, Written text text' →
    Option.Rel (fun n n' => Named n.base n'.base ∧ n'.mask = n.mask)
      (OperandName.parse? text) (OperandName.parse? text')

namespace Renaming

variable (ν : Renaming)

/-- Names taken apart correspond in their bases and have the same swizzle. -/
def Parts (n n' : OperandName) : Prop := ν.Named n.base n'.base ∧ n'.mask = n.mask

/-- Operands correspond: names of the same variable, or the same thing otherwise. -/
inductive Arguments : Argument → Argument → Prop
  | name {text text' : String} : ν.Written text text' → Arguments (.name text) (.name text')
  | literal (value : Operand) : Arguments (.literal value) (.literal value)
  | texture (h : Handle Texture) : Arguments (.texture h) (.texture h)
  | matrix (h : Handle Transform) : Arguments (.matrix h) (.matrix h)
  | interpolated (h : Handle Attribute) : Arguments (.interpolated h) (.interpolated h)
  | fetched (h : Handle Attribute) : Arguments (.attribute h) (.attribute h)

/-- Whether an operand of a line is the comparison of a condition, which is no name of a
variable though it is written as one. -/
def IsComparison (name : String) (i : Nat) : Prop := i = 1 ∧ (name = "if" ∨ name = "elseif")

instance (name : String) (i : Nat) : Decidable (IsComparison name i) :=
  inferInstanceAs (Decidable (_ ∧ _))

/-- Lines of the same name correspond operand by operand. -/
structure Lines (name : String) (args args' : List Argument) : Prop where
  length : args'.length = args.length
  operand : ∀ i, ¬IsComparison name i → Option.Rel ν.Arguments args[i]? args'[i]?
  comparison : ∀ i, IsComparison name i → args'[i]? = args[i]?

/-- Operands of two lines of which none is a comparison. -/
def Operands (args args' : List Argument) : Prop :=
  ∀ i : Nat, Option.Rel ν.Arguments args[i]? args'[i]?

theorem Lines.operands {ν : Renaming} {name : String} {args args' : List Argument}
    (h : ν.Lines name args args') (hname : ¬(name = "if" ∨ name = "elseif")) :
    ν.Operands args args' :=
  fun i => h.operand i fun hcomparison => hname hcomparison.2

/-- Declarations of corresponding names. -/
def Declared (d d' : Declaration) : Prop :=
  ν.Named d.name d'.name ∧ d'.isUniform = d.isUniform

/-- Errors of one kind that say the same, of names that correspond. -/
def Errors : ProgramError → ProgramError → Prop
  | .unresolvedIdentifier text, e' =>
    ∃ text', ν.Written text text' ∧ e' = .unresolvedIdentifier text'
  | .invalidSwizzle text, e' => ∃ text', ν.Written text text' ∧ e' = .invalidSwizzle text'
  | .unknownUniform name, e' => ∃ name', ν.Named name name' ∧ e' = .unknownUniform name'
  | e, e' => e' = e

end Renaming

/-! ## Names without a swizzle -/

namespace OperandName

theorem not_dot_of_isIdentifier {letters : List Char} (h : isIdentifier letters = true) :
    ∀ c ∈ letters, c ≠ '.' := by
  cases letters with
  | nil => simp
  | cons first rest =>
    rw [isIdentifier, Bool.and_eq_true, List.all_eq_true] at h
    rintro c hc rfl
    rcases List.mem_cons.1 hc with rfl | hc
    · exact absurd h.1 (by decide)
    · exact absurd (h.2 _ hc) (by decide)

/-- The name of a uniform is its own base. -/
theorem parse?_of_isUniform {text : String} (h : isUniform text = true) :
    parse? text = some ⟨text, none⟩ := by
  unfold isUniform at h
  unfold parse?
  split at h
  · next rest htext =>
    have hrest : rest.dropWhile (· != '.') = [] := by
      rw [List.dropWhile_eq_nil_iff]
      exact fun c hc => bne_iff_ne.2 (not_dot_of_isIdentifier h c hc)
    simp only [htext, split, if_true, hrest]
  · cases h

theorem base_of_parse? {text : String} {name : OperandName} (h : parse? text = some name)
    (hmask : name.mask = none) : name.base = text := by
  unfold parse? at h
  dsimp only at h
  split at h
  · exact Option.some.inj h ▸ rfl
  · obtain ⟨mask, -, rfl⟩ := Option.map_eq_some_iff.1 h
    cases hmask

end OperandName

namespace Renaming

variable {ν : Renaming} {text text' : String}

/-- Names as they are written correspond as they are, if one of them has no swizzle. -/
theorem named_of_written (h : ν.Written text text')
    (hplain : OperandName.parse? text = some ⟨text, none⟩ ∨
      OperandName.parse? text' = some ⟨text', none⟩) : ν.Named text text' := by
  have hparts := ν.parts h
  rcases hplain with hplain | hplain
  · obtain ⟨n', hparse, hname, hmask⟩ := exists_rel_right hparts hplain
    rwa [OperandName.base_of_parse? hparse hmask] at hname
  · obtain ⟨n, hparse, hname, hmask⟩ := exists_rel_left hparts hplain
    rwa [OperandName.base_of_parse? hparse hmask.symm] at hname

theorem isUniform_of_written (h : ν.Written text text') :
    OperandName.isUniform text' = OperandName.isUniform text := by
  by_cases huniform : OperandName.isUniform text = true ∨ OperandName.isUniform text' = true
  · exact ν.isUniform (named_of_written h (huniform.imp OperandName.parse?_of_isUniform
      OperandName.parse?_of_isUniform))
  · rw [not_or, Bool.not_eq_true, Bool.not_eq_true] at huniform
    rw [huniform.1, huniform.2]

end Renaming

/-! ## Programs that correspond -/

/-- The second program has the variables of the first, under the names and numbers that
correspond, and the same resources and flags. It may have other variables besides. -/
structure Program.Renamed (ν : Renaming) (p q : Program) : Prop extends SameResources p q where
  stage : q.stage = p.stage
  length : q.length = p.length
  writesDepth : q.writesDepth = p.writesDepth
  hasBranches : q.hasBranches = p.hasBranches
  isSealed : q.isSealed = p.isSealed
  isInvalid : q.isInvalid = p.isInvalid
  registers : p.registers.Renumbers ν.number q.registers
  slots : p.registers.slots.size = p.declarations.size
  slots' : q.registers.slots.size = q.declarations.size
  declared : ∀ i, Option.Rel ν.Declared p.declarations[i]? q.declarations[ν.number i]?
  slotOf? : ∀ {a b}, ν.Named a b → q.slotOf? b = (p.slotOf? a).map ν.number
  /-- The variables to come have numbers that correspond. -/
  next : ∀ n, p.declarations.size ≤ n →
    ν.number n + p.declarations.size = n + q.declarations.size

namespace Program.Renamed

variable {ν : Renaming} {p q : Program}

theorem number_size (h : p.Renamed ν q) :
    ν.number p.declarations.size = q.declarations.size := by
  have := h.next _ (Nat.le_refl _)
  omega

/-- The second program may have variables besides those of the first. -/
theorem size_le (h : p.Renamed ν q) : p.declarations.size ≤ q.declarations.size :=
  h.number_size ▸ ν.le_number _

/-- The more variables the first program gets, the higher numbers the second has to give. -/
theorem number_le (h : p.Renamed ν q) {m n : Nat} (hm : p.declarations.size ≤ m) (hn : m ≤ n) :
    ν.number m ≤ ν.number n := by
  have := h.next m hm
  have := h.next n (hm.trans hn)
  omega

/-- Corresponding names that are new become corresponding variables. -/
theorem declare (h : p.Renamed ν q) {a b : String} (hname : ν.Named a b)
    (hnew : p.slotOf? a = none) (isUniform : Bool) :
    (p.declare a isUniform).Renamed ν (q.declare b isUniform) where
  toSameResources := { h.toSameResources with }
  stage := h.stage
  length := h.length
  writesDepth := h.writesDepth
  hasBranches := h.hasBranches
  isSealed := h.isSealed
  isInvalid := h.isInvalid
  registers := by
    refine h.registers.addSlot ν.injective ?_
    rw [h.slots, h.slots', h.number_size]
  slots := by simp [Program.declare, Registers.addSlot, h.slots]
  slots' := by simp [Program.declare, Registers.addSlot, h.slots']
  declared i := by
    have hend : ν.number i = q.declarations.size ↔ i = p.declarations.size := by
      rw [← h.number_size, ν.injective.eq_iff]
    simp only [Program.declare, Array.getElem?_push, hend]
    split
    · exact .some ⟨hname, rfl⟩
    · exact h.declared i
  slotOf? {a' b'} hname' := by
    have hnew' : q.slotOf? b = none := by rw [h.slotOf? hname, hnew, Option.map_none]
    have hsame : (b == b') = (a == a') := by
      rw [Bool.eq_iff_iff, beq_iff_eq, beq_iff_eq, ν.eq_iff hname hname']
    have hold := h.slotOf? hname'
    simp only [Program.slotOf?, Program.declare, Array.findIdx?_push, hsame] at hold ⊢
    rw [hold, Option.map_or]
    cases a == a'
    · rfl
    · simp only [if_true, Option.map_some, h.number_size]
  next n hn := by
    simp only [Program.declare, Array.size_push] at hn ⊢
    have := h.next n (by omega)
    omega

end Program.Renamed

namespace Build

variable {α α' β β' : Type} {ν : Renaming} {p q : Program}

/-- Both fail with errors that correspond, or both answer and the answers correspond. -/
inductive Alike (ν : Renaming) (post : α → β → Prop) :
    Except ProgramError α → Except ProgramError β → Prop
  | ok {a : α} {b : β} : post a b → Alike ν post (.ok a) (.ok b)
  | error {e e' : ProgramError} : ν.Errors e e' → Alike ν post (.error e) (.error e')

/-- Taken in programs that correspond, two steps of building leave programs that correspond
and both fail or both answer, with what corresponds. Only for want of a number the second may
fail where the first goes on, and then the first comes to have a variable that the second
could not have. -/
structure InStep (ν : Renaming) (x : Build α) (y : Build β) (post : α → β → Prop) : Prop where
  longer : ∀ p, p.declarations.size ≤ (x.run p).2.declarations.size
  /-- There is no answer of the first step that nothing corresponds to. -/
  answers : ∀ p a, (x.run p).1 = .ok a → ∃ b, post a b
  step : ∀ p q, p.Renamed ν q →
    (x.run p).2.Renamed ν (y.run q).2 ∧ Alike ν post (x.run p).1 (y.run q).1 ∨
      (y.run q).1 = .error .tooManyVariables ∧
        Program.capacity < ν.number (x.run p).2.declarations.size

namespace InStep

variable {x : Build α} {y : Build α'} {f : α → Build β} {g : α' → Build β'}
  {mid post : α → α' → Prop} {goal : β → β' → Prop}

theorem pure {a : α} {b : α'} (h : post a b) : InStep ν (pure a) (pure b) post where
  longer _ := Nat.le_refl _
  answers _ _ ha := ⟨b, Except.ok.inj ha ▸ h⟩
  step _ _ hpq := .inl ⟨hpq, .ok h⟩

theorem throw {e e' : ProgramError} (h : ν.Errors e e') :
    InStep ν (throw e : Build α) (throw e' : Build α') post where
  longer _ := Nat.le_refl _
  answers _ _ ha := by cases ha
  step _ _ hpq := .inl ⟨hpq, .error h⟩

/-- Steps that only look at the program. -/
theorem of_reading (hx : ∀ p, (x.run p).2 = p) (hy : ∀ q, (y.run q).2 = q)
    (hanswers : ∀ p a, (x.run p).1 = .ok a → ∃ b, post a b)
    (halike : ∀ p q, p.Renamed ν q → Alike ν post (x.run p).1 (y.run q).1) :
    InStep ν x y post where
  longer p := by rw [hx]
  answers := hanswers
  step p q hpq := by
    rw [hx, hy]
    exact .inl ⟨hpq, halike p q hpq⟩

/-- Whatever the second step would have done, what follows the first keeps its variables. -/
theorem longer_after (hx : InStep ν x y mid) (hf : ∀ a b, mid a b → InStep ν (f a) (g b) goal)
    (p : Program) :
    (x.run p).2.declarations.size ≤ ((x >>= f).run p).2.declarations.size := by
  rw [run_bind]
  rcases hrun : x.run p with ⟨result, p'⟩
  cases result with
  | error e => exact Nat.le_refl _
  | ok a =>
    obtain ⟨b, hab⟩ := hx.answers p a (by rw [hrun])
    exact (hf a b hab).longer p'

theorem bind (hx : InStep ν x y mid) (hf : ∀ a b, mid a b → InStep ν (f a) (g b) goal) :
    InStep ν (x >>= f) (y >>= g) goal where
  longer p := (hx.longer p).trans (hx.longer_after hf p)
  answers p c hc := by
    rw [run_bind] at hc
    rcases hrun : x.run p with ⟨result, p'⟩
    rw [hrun] at hc
    cases result with
    | error e => cases hc
    | ok a =>
      obtain ⟨b, hab⟩ := hx.answers p a (by rw [hrun])
      exact (hf a b hab).answers p' c hc
  step p q hpq := by
    rcases hx.step p q hpq with ⟨hprogram, hanswer⟩ | ⟨hfull, hsize⟩
    · rw [run_bind, run_bind]
      rcases hrun : x.run p with ⟨result, p'⟩
      rcases hrun' : y.run q with ⟨result', q'⟩
      rw [hrun, hrun'] at hprogram hanswer
      cases hanswer with
      | error herrors => exact .inl ⟨hprogram, .error herrors⟩
      | ok hmid => exact (hf _ _ hmid).step p' q' hprogram
    -- the second step has failed, and the first has its variables from then on
    · refine .inr ⟨?_, Nat.lt_of_lt_of_le hsize ?_⟩
      · rw [run_bind]
        rcases hrun' : y.run q with ⟨result', q'⟩
        rw [hrun'] at hfull
        obtain rfl := hfull
        rfl
      · exact hpq.number_le (hx.longer p) (hx.longer_after hf p)

theorem weaken (h : InStep ν x y mid) (hpost : ∀ a b, mid a b → post a b) :
    InStep ν x y post where
  longer := h.longer
  answers p a ha := (h.answers p a ha).imp fun b => hpost a b
  step p q hpq := by
    refine (h.step p q hpq).imp_left fun ⟨hprogram, hanswer⟩ => ⟨hprogram, ?_⟩
    generalize (x.run p).1 = result at hanswer ⊢
    generalize (y.run q).1 = result' at hanswer ⊢
    cases hanswer with
    | error herrors => exact .error herrors
    | ok hmid => exact .ok (hpost _ _ hmid)

theorem map {g : α → β} {g' : α' → β'} (hx : InStep ν x y mid)
    (hgoal : ∀ a b, mid a b → goal (g a) (g' b)) : InStep ν (g <$> x) (g' <$> y) goal := by
  show InStep ν (x >>= fun a => Pure.pure (g a)) (y >>= fun a => Pure.pure (g' a)) goal
  exact bind hx fun a b hab => pure (hgoal a b hab)

theorem ite {c c' : Prop} [Decidable c] [Decidable c'] (hc : c' ↔ c) {x' : Build α}
    {y' : Build α'} (hx : c → InStep ν x y post) (hy : ¬c → InStep ν x' y' post) :
    InStep ν (if c then x else x') (if c' then y else y') post := by
  by_cases h : c
  · rw [if_pos h, if_pos (hc.2 h)]
    exact hx h
  · rw [if_neg h, if_neg fun h' => h (hc.1 h')]
    exact hy h

end InStep

/-- The answers of steps of building that are the same but for the numbers of slots. -/
abbrev Renumbered (renumber : (Nat → Nat) → α → α) (ν : Renaming) (a b : α) : Prop :=
  b = renumber ν.number a

/-! ## Variables and resources -/

/-- The second program may have no number for a variable that the first still has one for. -/
theorem slot_inStep {a b : String} (hname : ν.Named a b) (isUniform : Bool) :
    InStep ν (slot a isUniform) (slot b isUniform) fun i j => j = ν.number i where
  longer p := by
    rw [run_slot]
    cases p.slotOf? a with
    | some i => exact Nat.le_refl _
    | none =>
      dsimp only
      rw [run_declare]
      split
      · exact (Array.size_push _).symm ▸ Nat.le_succ _
      · exact Nat.le_refl _
  answers _ i _ := ⟨ν.number i, rfl⟩
  step p q hpq := by
    rw [run_slot, run_slot, hpq.slotOf? hname]
    cases hslot : p.slotOf? a with
    | some i => exact .inl ⟨hpq, .ok rfl⟩
    | none =>
      have hsize := hpq.number_size
      simp only [Option.map_none, run_declare]
      by_cases hroom : q.declarations.size < Program.capacity
      · have hroom' : p.declarations.size < Program.capacity := hpq.size_le.trans_lt hroom
        rw [if_pos hroom, if_pos hroom']
        exact .inl ⟨hpq.declare hname hslot isUniform, .ok hsize.symm⟩
      · rw [if_neg hroom]
        split
        · refine .inr ⟨rfl, ?_⟩
          have hnext := hpq.next (p.declarations.size + 1) (Nat.le_succ _)
          simp only [Program.declare, Array.size_push]
          omega
        · exact .inl ⟨hpq, .error rfl⟩

/-- Corresponding programs have the same handles, and go on to have the same. -/
theorem intern_inStep {γ : Type} {t : HandleTable γ} {h : Handle γ}
    (hsame : ∀ p q, p.Renamed ν q → t.handles q = t.handles p)
    (hdeclarations : ∀ p, (t.enter p h).declarations = p.declarations)
    (henter : ∀ p q, p.Renamed ν q → (t.enter p h).Renamed ν (t.enter q h)) :
    InStep ν (intern t h) (intern t h) Eq where
  longer p := by
    rw [run_intern]
    cases h.find? (t.handles p) with
    | some i => exact Nat.le_refl _
    | none =>
      dsimp only
      split
      · rw [hdeclarations]
      · exact Nat.le_refl _
  answers _ id _ := ⟨id, rfl⟩
  step p q hpq := by
    rw [run_intern, run_intern, hsame p q hpq]
    cases h.find? (t.handles p) with
    | some i => exact .inl ⟨hpq, .ok rfl⟩
    | none =>
      dsimp only
      split
      · exact .inl ⟨henter p q hpq, .ok rfl⟩
      · exact .inl ⟨hpq, .error rfl⟩

theorem internTexture_inStep (h : Handle Texture) :
    InStep ν (intern .textures h) (intern .textures h) Eq :=
  intern_inStep (fun _ _ hpq => hpq.textures) (fun _ => rfl) fun _ _ hpq =>
    { hpq with textures := congrArg (Array.push · h) hpq.textures }

theorem internMatrix_inStep (h : Handle Transform) :
    InStep ν (intern .matrices h) (intern .matrices h) Eq :=
  intern_inStep (fun _ _ hpq => hpq.matrices) (fun _ => rfl) fun _ _ hpq =>
    { hpq with matrices := congrArg (Array.push · h) hpq.matrices }

theorem internAttribute_inStep (h : Handle Attribute) :
    InStep ν (intern .attributes h) (intern .attributes h) Eq :=
  intern_inStep (fun _ _ hpq => hpq.attributes) (fun _ => rfl) fun _ _ hpq =>
    { hpq with attributes := congrArg (Array.push · h) hpq.attributes }

theorem internInterpolated_inStep (h : Handle Attribute) :
    InStep ν (intern .interpolated h) (intern .interpolated h) Eq :=
  intern_inStep (fun _ _ hpq => hpq.interpolated) (fun _ => rfl) fun _ _ hpq =>
    { hpq with
      interpolated := congrArg (Array.push · h) hpq.interpolated
      registers := hpq.registers.addAnchor }

/-! ## Checks -/

theorem require_inStep {holds holds' : Bool} (h : holds' = holds) {e e' : ProgramError}
    (herrors : ν.Errors e e') :
    InStep ν (require holds e) (require holds' e') fun _ _ => holds = true := by
  subst h
  unfold require
  exact InStep.ite Iff.rfl (fun h => InStep.pure h) fun _ => InStep.throw herrors

theorem requireStage_inStep (op : String) (stage : Stage) :
    InStep ν (requireStage op stage) (requireStage op stage) fun _ _ => True := by
  have hrun (p : Program) : (requireStage op stage).run p =
      (if (p.stage == stage) = true then .ok () else .error (.stageMismatch op p.stage), p) := by
    show (require (p.stage == stage) _).run p = _
    cases p.stage == stage <;> rfl
  refine .of_reading (fun p => by rw [hrun]) (fun q => by rw [hrun])
    (fun _ _ _ => ⟨(), trivial⟩) fun p q hpq => ?_
  rw [hrun, hrun, hpq.stage]
  split
  · exact .ok trivial
  · exact .error rfl

theorem requireOwn_inStep (op : String) (b : Builtin) :
    InStep ν (requireOwn op b) (requireOwn op b) fun _ _ => True := by
  unfold requireOwn
  cases b.stage? with
  | none => exact InStep.pure trivial
  | some stage => exact requireStage_inStep op stage

theorem operandName_inStep {text text' : String} (h : ν.Written text text') :
    InStep ν (operandName text) (operandName text') ν.Parts := by
  have hparts := ν.parts h
  unfold operandName
  generalize OperandName.parse? text = name at hparts ⊢
  generalize OperandName.parse? text' = name' at hparts ⊢
  cases hparts with
  | none => exact InStep.throw ⟨text', h, rfl⟩
  | some hparts => exact InStep.pure hparts

theorem noteWritten_inStep (b : Builtin) :
    InStep ν (noteWritten b) (noteWritten b) fun _ _ => True := by
  refine InStep.ite Iff.rfl (fun _ => ?_) fun _ => InStep.pure trivial
  exact {
    longer := fun _ => Nat.le_refl _
    answers := fun _ _ _ => ⟨(), trivial⟩
    step := fun _ _ hpq => .inl ⟨{ hpq with writesDepth := rfl }, .ok trivial⟩ }

/-! ## Names -/

theorem destinationName_inStep (op : String) {text text' : String} (h : ν.Written text text') :
    InStep ν (destinationName op text) (destinationName op text')
      (Renumbered Reference.renumber ν) := by
  unfold destinationName
  refine InStep.bind (operandName_inStep h) fun n n' ⟨hname, hmask⟩ => ?_
  rw [ν.builtin hname, hmask]
  cases Builtin.ofName? n.base with
  | some b =>
    refine InStep.bind (requireOwn_inStep op b) fun _ _ _ => ?_
    refine InStep.bind (require_inStep rfl rfl) fun _ _ _ => ?_
    refine InStep.bind (require_inStep rfl ⟨text', h, rfl⟩) fun _ _ _ => ?_
    exact InStep.bind (noteWritten_inStep b) fun _ _ _ => InStep.pure rfl
  | none =>
    refine InStep.bind (require_inStep (by rw [ν.hasDot hname]) rfl) fun _ _ _ => ?_
    refine InStep.bind (require_inStep (ν.isIdentifier hname) ⟨text', h, rfl⟩) fun _ _ _ => ?_
    exact InStep.bind (slot_inStep hname false) fun i j hj => InStep.pure (by rw [hj]; rfl)

/-- A name that is not to be declared. -/
theorem known_inStep {a b : String} (hname : ν.Named a b) {e e' : ProgramError}
    (herrors : ν.Errors e e') {mask : Option Mask} :
    InStep ν
      (do match (← get).slotOf? a with
        | some i => return ⟨.slot i, mask⟩
        | none => throw e)
      (do match (← get).slotOf? b with
        | some i => return ⟨.slot i, mask⟩
        | none => throw e')
      (Renumbered Reference.renumber ν) := by
  refine .of_reading (fun p => ?_) (fun q => ?_) (fun _ _ _ => ⟨_, rfl⟩) fun p q hpq => ?_
  · rw [run_get_bind]
    cases p.slotOf? a <;> rfl
  · rw [run_get_bind]
    cases q.slotOf? b <;> rfl
  · rw [run_get_bind, run_get_bind, hpq.slotOf? hname]
    cases p.slotOf? a with
    | some i => exact .ok rfl
    | none => exact .error herrors

theorem sourceName_inStep (op : String) {text text' : String} (h : ν.Written text text') :
    InStep ν (sourceName op text) (sourceName op text') (Renumbered Reference.renumber ν) := by
  unfold sourceName
  refine InStep.bind (operandName_inStep h) fun n n' ⟨hname, hmask⟩ => ?_
  rw [ν.builtin hname, hmask]
  cases Builtin.ofName? n.base with
  | some b =>
    refine InStep.bind (requireOwn_inStep op b) fun _ _ _ => ?_
    exact InStep.bind (require_inStep rfl ⟨text', h, rfl⟩) fun _ _ _ => InStep.pure rfl
  | none =>
    refine InStep.ite (by rw [ν.hasDot hname]) (fun _ => ?_) fun _ => ?_
    · refine InStep.bind (require_inStep (ν.isUniform hname) ⟨text', h, rfl⟩) fun _ _ _ => ?_
      exact InStep.bind (slot_inStep hname true) fun i j hj => InStep.pure (by rw [hj]; rfl)
    · exact known_inStep hname (e := .unresolvedIdentifier text) ⟨text', h, rfl⟩

theorem destination_inStep (op : String) {arg arg' : Option Argument}
    (h : Option.Rel ν.Arguments arg arg') :
    InStep ν (destination op arg) (destination op arg') (Renumbered Reference.renumber ν) := by
  cases h with
  | none => exact InStep.throw rfl
  | some h =>
    cases h with
    | name h => exact destinationName_inStep op h
    | literal _ | texture _ | matrix _ | interpolated _ | fetched _ => exact InStep.throw rfl

/-! ## Sources -/

/-- What a source turned out to be, under other numbers. -/
def Supply.renumber (number : Nat → Nat) : Supply → Supply
  | .source src => .source (src.renumber number)
  | .matrix id => .matrix id

theorem supply_inStep (op : String) {arg arg' : Option Argument}
    (h : Option.Rel ν.Arguments arg arg') :
    InStep ν (supply op arg) (supply op arg') (Renumbered Supply.renumber ν) := by
  cases h with
  | none => exact InStep.throw rfl
  | some h =>
    cases h with
    | name h =>
      exact InStep.bind (sourceName_inStep op h) fun r r' hr => InStep.pure (by rw [hr]; rfl)
    | literal value => exact InStep.pure rfl
    | texture _ => exact InStep.throw rfl
    | matrix h =>
      exact InStep.bind (internMatrix_inStep h) fun _ _ hid => InStep.pure (by rw [hid]; rfl)
    | interpolated h =>
      refine InStep.bind (requireStage_inStep op .fragment) fun _ _ _ => ?_
      exact InStep.bind (internInterpolated_inStep h) fun _ _ hid =>
        InStep.pure (by rw [hid]; rfl)
    | fetched h =>
      refine InStep.bind (requireStage_inStep op .vertex) fun _ _ _ => ?_
      exact InStep.bind (internAttribute_inStep h) fun _ _ hid => InStep.pure (by rw [hid]; rfl)

theorem requireSource_inStep (op : String) (s : Supply) :
    InStep ν (requireSource op s) (requireSource op (Supply.renumber ν.number s))
      (Renumbered Source.renumber ν) := by
  cases s with
  | source src => exact InStep.pure rfl
  | matrix id => exact InStep.throw rfl

theorem source_inStep (op : String) {arg arg' : Option Argument}
    (h : Option.Rel ν.Arguments arg arg') :
    InStep ν (source op arg) (source op arg') (Renumbered Source.renumber ν) := by
  refine InStep.bind (supply_inStep op h) fun s _ hs => ?_
  subst hs
  exact requireSource_inStep op s

theorem conditionName_inStep (op : String) {arg arg' : Option Argument}
    (h : Option.Rel ν.Arguments arg arg') :
    InStep ν (conditionName op arg) (conditionName op arg')
      (Renumbered Reference.renumber ν) := by
  refine InStep.bind (supply_inStep op h) fun s _ hs => ?_
  subst hs
  match s with
  | .source (.name r) => exact InStep.pure rfl
  | .source (.literal _) | .source (.interpolated _) | .source (.attribute _) | .matrix _ =>
    exact InStep.throw rfl

/-- The check of a second source, once it is taken. -/
theorem secondSlot_inStep (op : String) {arg arg' : Argument} (h : ν.Arguments arg arg') :
    InStep ν
      (do match ← supply op (some arg) with
        | .source (.name ⟨.slot i, mask⟩) => return .name ⟨.slot i, mask⟩
        | _ => unsupported op .secondNotAVariable)
      (do match ← supply op (some arg') with
        | .source (.name ⟨.slot i, mask⟩) => return .name ⟨.slot i, mask⟩
        | _ => unsupported op .secondNotAVariable)
      (Renumbered Source.renumber ν) := by
  refine InStep.bind (supply_inStep op (.some h)) fun s _ hs => ?_
  subst hs
  match s with
  | .source (.name ⟨.slot i, mask⟩) => exact InStep.pure rfl
  | .source (.name ⟨.builtin _, _⟩) | .source (.literal _) | .source (.interpolated _)
  | .source (.attribute _) | .matrix _ => exact InStep.throw rfl

theorem secondSource_inStep (op : String) {arg arg' : Option Argument}
    (h : Option.Rel ν.Arguments arg arg') :
    InStep ν (secondSource op arg) (secondSource op arg') (Renumbered Source.renumber ν) := by
  cases h with
  | none => exact InStep.throw rfl
  | some h =>
    cases h with
    | literal _ => exact InStep.throw rfl
    | name h => exact secondSlot_inStep op (.name h)
    | texture h => exact secondSlot_inStep op (.texture h)
    | matrix h => exact secondSlot_inStep op (.matrix h)
    | interpolated h => exact secondSlot_inStep op (.interpolated h)
    | fetched h => exact secondSlot_inStep op (.fetched h)

/-! ## Instructions -/

@[simp] theorem isScalarSource_renumber (number : Nat → Nat) (src : Source) :
    isScalarSource (src.renumber number) = isScalarSource src := by
  match src with
  | .name ⟨.builtin _, _⟩ | .name ⟨.slot _, _⟩ | .literal _ | .interpolated _ | .attribute _ =>
    rfl

@[simp] theorem holdsVector_renumber (number : Nat → Nat) (dst : Reference) :
    holdsVector (dst.renumber number) = holdsVector dst := by
  match dst with
  | ⟨.builtin _, _⟩ | ⟨.slot _, _⟩ => rfl

variable {args args' : List Argument}

theorem arith_inStep (op : Arith) (h : ν.Operands args args') :
    InStep ν (arith op args) (arith op args') (Renumbered Instruction.renumber ν) := by
  refine InStep.bind (destination_inStep op.name (h 0)) fun dst _ hdst => ?_
  refine InStep.bind (supply_inStep op.name (h 1)) fun s _ hs => ?_
  subst hdst hs
  cases s with
  | source src => exact InStep.pure rfl
  | matrix id =>
    refine InStep.bind (require_inStep rfl rfl) fun _ _ _ => ?_
    refine InStep.bind (require_inStep (holdsVector_renumber ν.number dst) rfl) fun _ _ _ => ?_
    exact InStep.pure rfl

theorem comparison_inStep (op : String) (arg : Option Argument) :
    InStep ν (comparison op arg) (comparison op arg) Eq := by
  unfold comparison
  match arg with
  | some (.name text) =>
    dsimp only
    cases Comparison.ofName? text with
    | some cmp => exact InStep.pure rfl
    | none => exact InStep.throw rfl
  | some (.literal _) | some (.texture _) | some (.matrix _) | some (.interpolated _)
  | some (.attribute _) | none => exact InStep.throw rfl

theorem condition_inStep (op : String) (hlhs : Option.Rel ν.Arguments args[0]? args'[0]?)
    (hcmp : args'[1]? = args[1]?) (hrhs : Option.Rel ν.Arguments args[2]? args'[2]?) :
    InStep ν (condition op args) (condition op args') (Renumbered Condition.renumber ν) := by
  unfold condition
  rw [hcmp]
  refine InStep.bind (conditionName_inStep op hlhs) fun lhs _ hlhs => ?_
  refine InStep.bind (comparison_inStep op args[1]?) fun cmp _ hcmp => ?_
  refine InStep.bind (source_inStep op hrhs) fun rhs _ hrhs => InStep.pure ?_
  subst hlhs hcmp hrhs
  rfl

theorem compare_inStep (cmp : Comparison) (h : ν.Operands args args') :
    InStep ν (compare cmp args) (compare cmp args') (Renumbered Instruction.renumber ν) := by
  refine InStep.bind (destination_inStep "compare" (h 0)) fun dst _ hdst => ?_
  refine InStep.bind (supply_inStep "compare" (h 1)) fun lhs _ hlhs => ?_
  refine InStep.bind (supply_inStep "compare" (h 2)) fun rhs _ hrhs => ?_
  subst hdst hlhs hrhs
  refine InStep.bind (requireSource_inStep "compare" lhs) fun a _ ha => ?_
  refine InStep.bind (requireSource_inStep "compare" rhs) fun b _ hb => InStep.pure ?_
  subst ha hb
  rfl

theorem textureArgument_inStep (op : String) {arg arg' : Option Argument}
    (h : Option.Rel ν.Arguments arg arg') :
    InStep ν (textureArgument op arg) (textureArgument op arg') Eq := by
  cases h with
  | none => exact InStep.throw rfl
  | some h =>
    cases h with
    | texture h => exact internTexture_inStep h
    | name _ | literal _ | matrix _ | interpolated _ | fetched _ => exact InStep.throw rfl

theorem sample_inStep (model : ColorModel) (h : ν.Operands args args') :
    InStep ν (sample model args) (sample model args') (Renumbered Instruction.renumber ν) := by
  refine InStep.bind (destination_inStep _ (h 0)) fun dst _ hdst => ?_
  refine InStep.bind (textureArgument_inStep _ (h 1)) fun id _ hid => ?_
  refine InStep.bind (source_inStep _ (h 2)) fun coords _ hcoords => InStep.pure ?_
  subst hdst hid hcoords
  rfl

theorem convert_inStep (model : ColorModel) (h : ν.Operands args args') :
    InStep ν (convert model args) (convert model args') (Renumbered Instruction.renumber ν) := by
  refine InStep.bind (destination_inStep _ (h 0)) fun dst _ hdst => ?_
  refine InStep.bind (source_inStep _ (h 1)) fun src _ hsrc => ?_
  subst hdst hsrc
  refine InStep.bind (require_inStep ?_ rfl) fun _ _ _ => InStep.pure rfl
  rw [isScalarSource_renumber]

/-- The checks of a function call, once its operands are taken. -/
theorem callChecks_inStep (f : MathFunction) (dst : Reference) (src : Source)
    (second : Option Source) {e₁ e₂ e₁' e₂' : ProgramError} (h₁ : ν.Errors e₁ e₁')
    (h₂ : ν.Errors e₂ e₂') :
    InStep ν
      (do
        require (!f.isGeometric || !isScalarSource src) e₁
        require (f != .cross || holdsVector dst) e₂
        return .operation (.call f dst src second))
      (do
        require (!f.isGeometric || !isScalarSource (src.renumber ν.number)) e₁'
        require (f != .cross || holdsVector (dst.renumber ν.number)) e₂'
        return .operation (.call f (dst.renumber ν.number) (src.renumber ν.number)
          (second.map (Source.renumber ν.number))))
      (Renumbered Instruction.renumber ν) := by
  rw [isScalarSource_renumber, holdsVector_renumber]
  refine InStep.bind (require_inStep rfl h₁) fun _ _ _ => ?_
  exact InStep.bind (require_inStep rfl h₂) fun _ _ _ => InStep.pure rfl

theorem call_inStep (f : MathFunction) (h : ν.Operands args args') :
    InStep ν (call f args) (call f args') (Renumbered Instruction.renumber ν) := by
  refine InStep.bind (destination_inStep f.name (h 0)) fun dst _ hdst => ?_
  refine InStep.bind (source_inStep f.name (h 1)) fun src _ hsrc => ?_
  subst hdst hsrc
  refine InStep.ite Iff.rfl (fun _ => ?_) fun _ => callChecks_inStep f dst src none rfl rfl
  have hsecond : InStep ν (some <$> secondSource f.name args[2]?)
      (some <$> secondSource f.name args'[2]?)
      (Renumbered (fun number => Option.map (Source.renumber number)) ν) :=
    InStep.map (secondSource_inStep f.name (h 2)) fun _ _ hsrc => congrArg some hsrc
  refine InStep.bind hsecond fun second _ hsecond => ?_
  subst hsecond
  exact callChecks_inStep f dst src second rfl rfl

theorem fixedTarget_inStep (number : Int) :
    InStep ν (fixedTarget number) (fixedTarget number) (Renumbered JumpTarget.renumber ν) := by
  refine .of_reading (fun p => ?_) (fun q => ?_) (fun _ _ _ => ⟨_, rfl⟩) fun p q hpq => ?_
  · rw [run_fixedTarget]
    split <;> rfl
  · rw [run_fixedTarget]
    split <;> rfl
  · rw [run_fixedTarget, run_fixedTarget, hpq.length]
    split
    · exact .ok rfl
    · exact .error rfl

theorem jumpTarget_inStep {arg arg' : Option Argument} (h : Option.Rel ν.Arguments arg arg') :
    InStep ν (jumpTarget arg) (jumpTarget arg') (Renumbered JumpTarget.renumber ν) := by
  cases h with
  | none => exact InStep.throw rfl
  | some h =>
    cases h with
    | name h =>
      have hkept := Renaming.isUniform_of_written h
      refine InStep.bind (require_inStep hkept rfl) fun _ _ huniform => ?_
      -- a target is a uniform as it is written, without a swizzle to take off
      have hname := Renaming.named_of_written h (.inl (OperandName.parse?_of_isUniform huniform))
      exact InStep.bind (slot_inStep hname true) fun i j hj => InStep.pure (by rw [hj]; rfl)
    | literal value =>
      cases value with
      | int i => exact fixedTarget_inStep _
      | float s =>
        exact InStep.ite Iff.rfl (fun _ => fixedTarget_inStep _) fun _ => InStep.throw rfl
      | bool _ | vec _ _ => exact InStep.throw rfl
    | texture _ | matrix _ | interpolated _ | fetched _ => exact InStep.throw rfl

theorem discard_inStep : InStep ν discard discard (Renumbered Instruction.renumber ν) :=
  InStep.bind (requireStage_inStep "discard" .fragment) fun _ _ _ => InStep.pure rfl

theorem instructionOf_inStep {name : String} (h : ν.Lines name args args') :
    InStep ν (instructionOf name args) (instructionOf name args')
      (Renumbered Instruction.renumber ν) := by
  unfold instructionOf
  split
  iterate 10 · exact arith_inStep _ (h.operands (by decide))
  iterate 2
    · refine InStep.bind (condition_inStep _ (h.operand 0 ?_) (h.comparison 1 ?_)
        (h.operand 2 ?_)) fun c _ hc => InStep.pure ?_
      · simp [Renaming.IsComparison]
      · simp [Renaming.IsComparison]
      · simp [Renaming.IsComparison]
      · rw [hc]
        rfl
  · exact InStep.pure rfl
  · exact InStep.pure rfl
  · exact discard_inStep
  · refine InStep.bind (jumpTarget_inStep (h.operands (by decide) 0)) fun target _ htarget =>
      InStep.pure ?_
    rw [htarget]
    rfl
  · exact sample_inStep _ (h.operands (by decide))
  · exact sample_inStep _ (h.operands (by decide))
  · exact convert_inStep _ (h.operands (by decide))
  · exact convert_inStep _ (h.operands (by decide))
  · refine InStep.bind (source_inStep "print" (h.operands (by decide) 0)) fun src _ hsrc =>
      InStep.pure ?_
    rw [hsrc]
    rfl
  · next hif helseif _ _ _ _ _ _ _ _ _ =>
    have hoperands := h.operands (not_or.2 ⟨hif, helseif⟩)
    split
    · exact compare_inStep _ hoperands
    · split
      · exact call_inStep _ hoperands
      · exact InStep.throw rfl

@[simp] theorem operandCount_renumber (number : Nat → Nat) (ins : Instruction) :
    (ins.renumber number).operandCount = ins.operandCount := by
  cases ins with
  | operation o => cases o <;> rfl
  | _ => rfl

@[simp] theorem name_renumber (number : Nat → Nat) (ins : Instruction) :
    (ins.renumber number).name = ins.name := by
  match ins with
  | .operation (.sample _ model _ _) | .operation (.convert model _ _) => cases model <;> rfl
  | .operation (.arith _ _ _) | .operation (.transform _ _) | .operation (.compare _ _ _ _)
  | .operation (.call _ _ _ _) | .operation (.print _) | .discard | .ifThen _ | .elseIf _
  | .otherwise | .endIf | .goto _ => rfl

/-- Lines that correspond are both refused, or give the same instruction but for the numbers of
its slots. -/
theorem instruction_inStep {name : String} (h : ν.Lines name args args') :
    InStep ν (instruction name args) (instruction name args')
      (Renumbered Instruction.renumber ν) := by
  refine InStep.bind (instructionOf_inStep h) fun ins _ hins => ?_
  subst hins
  refine InStep.bind (require_inStep ?_ ?_) fun _ _ _ => InStep.pure rfl
  · rw [operandCount_renumber, h.length]
  · rw [name_renumber]
    rfl

end Build

end Shading
