import Shading.Proofs.Pushes
import Shading.Proofs.Respelling
import Shading.Proofs.Sealing
import Shading.Proofs.Updating

/- Names do not matter. Whatever a host does to a program, it may do with other names for the
   variables and uniforms (`Respelling`): line by line the same is accepted and the same
   refused, for the same reason told with the other names (`Program.push_respell`). The two
   programs have the same instructions, slots and registers, so they are sealed, filled and
   run alike. They stay so through any history (`Program.edits_respell`), because each edit
   keeps them so (`Program.edit_respell`). -/
namespace Shading

section

variable (f : String → String)

/-! ## Under other names -/

/-- An operand under the other name, if it is a name. -/
def Argument.respell : Argument → Argument
  | .name text => .name (OperandName.respell f text)
  | arg => arg

/-- The operands of a line under the other names. The comparison of a condition is no name. -/
def respellOperands (name : String) (args : List Argument) : List Argument :=
  args.mapIdx fun i arg => if Renaming.IsComparison name i then arg else arg.respell f

/-- A variable under the other name. -/
def Declaration.respell (d : Declaration) : Declaration :=
  ⟨OperandName.respellBase f d.name, d.isUniform⟩

/-- An error that says the same of the other name. -/
def ProgramError.respell : ProgramError → ProgramError
  | .unresolvedIdentifier text => .unresolvedIdentifier (OperandName.respell f text)
  | .invalidSwizzle text => .invalidSwizzle (OperandName.respell f text)
  | .unknownUniform name => .unknownUniform (OperandName.respellBase f name)
  | e => e

/-- A report that says the same of the other name. -/
def Event.respell : Event → Event
  | .markedInvalid reason instructions => .markedInvalid (reason.respell f) instructions
  | event => event

/-- The program with the other names for its variables, and the same for the rest. -/
def Program.respell (p : Program) : Program :=
  { p with declarations := p.declarations.map (Declaration.respell f) }

/-- The same outcome, told with the other names. -/
def Outcome.respell {α : Type} (x : Outcome α) : Outcome α :=
  ⟨x.result.mapError (ProgramError.respell f), x.program.respell f,
    x.events.map (Event.respell f)⟩

/-- The same execution, of the program with the other names. -/
def Execution.respell {ι : Type} (x : Execution ι) : Execution ι :=
  { x with program := x.program.respell f }

/-- The second host has under the other names what the first one has. -/
def SuppliesAlike (source source' : UniformSource) : Prop :=
  ∀ name, isIdentifier name.toList = true → source' (f name) = source name

end

variable {f : String → String} {p q : Program}

/-! ## Building -/

theorem Renaming.lines_respelling (hf : Respelling f) (name : String) (args : List Argument) :
    (Renaming.respelling hf).Lines name args (respellOperands f name args) where
  length := List.length_mapIdx
  comparison i hi := by
    rw [respellOperands, List.getElem?_mapIdx]
    cases args[i]? <;> simp [hi]
  operand i hi := by
    rw [respellOperands, List.getElem?_mapIdx]
    cases args[i]? with
    | none => exact .none
    | some arg =>
      rw [Option.map_some, if_neg hi]
      refine .some ?_
      match arg with
      | .name text => exact .name rfl
      | .literal value => exact .literal value
      | .texture h => exact .texture h
      | .matrix h => exact .matrix h
      | .interpolated h => exact .interpolated h
      | .attribute h => exact .fetched h

theorem Renaming.eq_respell_of_errors {hf : Respelling f} {e e' : ProgramError}
    (h : (Renaming.respelling hf).Errors e e') : e' = e.respell f := by
  cases e with
  | unresolvedIdentifier text | invalidSwizzle text | unknownUniform name =>
    obtain ⟨_, rfl, rfl⟩ := h
    rfl
  | _ => exact h

theorem Renaming.eq_respell_of_declared {hf : Respelling f} {d d' : Declaration}
    (h : (Renaming.respelling hf).Declared d d') : d' = d.respell f := by
  obtain ⟨name', isUniform'⟩ := d'
  obtain ⟨hname, huniform⟩ := h
  obtain rfl : name' = OperandName.respellBase f d.name := hname
  obtain rfl : isUniform' = d.isUniform := huniform
  rfl

namespace Program

/-- A program corresponds to itself under the other names. -/
theorem Tables.renamed_respell (hp : p.Tables) (hf : Respelling f) :
    p.Renamed (.respelling hf) (p.respell f) where
  toSameResources := ⟨rfl, rfl, rfl, rfl, rfl⟩
  stage := rfl
  length := rfl
  writesDepth := rfl
  hasBranches := rfl
  isSealed := rfl
  isInvalid := rfl
  registers := ⟨fun _ => rfl, rfl⟩
  slots := hp.slots
  slots' := by simp [respell, hp.slots]
  declared i := by
    show Option.Rel _ p.declarations[i]? (p.declarations.map (Declaration.respell f))[i]?
    rw [Array.getElem?_map]
    cases p.declarations[i]? with
    | none => exact .none
    | some d => exact .some ⟨rfl, rfl⟩
  slotOf? {name _} hname := by
    obtain rfl := hname
    have hsame : (fun d : Declaration => d.name == OperandName.respellBase f name) ∘
        Declaration.respell f = fun d => d.name == name := by
      funext d
      exact Bool.eq_iff_iff.2 (by
        simp [Declaration.respell, hf.respellBase_injective.eq_iff])
    rw [slotOf?, slotOf?, respell, Array.findIdx?_map, hsame]
    exact (Option.map_id' ..).symm
  next n _ := by simp [respell, Renaming.respelling]

/-- And what corresponds to it is just that, if it has the same code. -/
theorem Renamed.eq_respell {hf : Respelling f} (h : p.Renamed (.respelling hf) q)
    (hcode : q.instructions = p.instructions) : q = p.respell f := by
  have hdeclarations : q.declarations = p.declarations.map (Declaration.respell f) := by
    refine Array.ext_getElem? fun i => ?_
    rw [Array.getElem?_map]
    exact eq_map_of_rel (h.declared i) fun _ _ => Renaming.eq_respell_of_declared
  have hregisters : q.registers = p.registers := h.registers.eq
  cases p
  cases q
  simp only [respell, Program.mk.injEq]
  exact ⟨h.stage, hcode, hdeclarations, hregisters, h.textures, h.matrices, h.interpolated,
    h.attributes, h.color, h.hasBranches, h.writesDepth, h.isSealed, h.isInvalid⟩

end Program

/-! ## Outcomes -/

@[simp] theorem Program.respell_isInvalid : (p.respell f).isInvalid = p.isInvalid := rfl

/-- What is marked is the program, under whatever names. -/
theorem Program.invalidate_respell (f : String → String) (p : Program) (reason : ProgramError) :
    (p.respell f).invalidate reason =
      ((p.invalidate reason).1.respell f, (p.invalidate reason).2) := by
  unfold invalidate
  rw [respell_isInvalid]
  split <;> rfl

namespace Outcome

variable {α : Type}

theorem ok_respell (a : α) (p : Program) : ok a (p.respell f) = (ok a p).respell f := by
  simp [ok, respell, Except.mapError]

theorem refuse_respell (e : ProgramError) (p : Program) :
    (refuse (e.respell f) (p.respell f) : Outcome α) = (refuse e p).respell f := by
  simp [refuse, respell, Except.mapError]

theorem fail_respell (e : ProgramError) (p : Program) :
    (fail (e.respell f) (p.respell f) : Outcome α) = (fail e p).respell f := by
  unfold fail
  rw [Program.invalidate_respell]
  unfold Program.invalidate
  split <;> simp [respell, Program.respell, Except.mapError, Event.respell]

theorem fail_respell_of_eq {e : ProgramError} (he : e.respell f = e) (p : Program) :
    (fail e (p.respell f) : Outcome α) = (fail e p).respell f := by
  rw [← fail_respell, he]

end Outcome

/-! ## Pushing and sealing -/

namespace Program

/-- A line is taken in under the other names as it was, up to where it is refused. -/
theorem run_instruction_respell (hp : p.Tables) (hf : Respelling f) (name : String)
    (args : List Argument) :
    (Build.instruction name (respellOperands f name args)).run (p.respell f) =
      (((Build.instruction name args).run p).1.mapError (ProgramError.respell f),
        ((Build.instruction name args).run p).2.respell f) := by
  have hbound : ((Build.instruction name args).run p).2.declarations.size ≤ capacity :=
    (Build.instruction_meets p (.refl p) hp).1.declarations
  -- the numbers are the same, so neither program runs out of them before the other
  obtain ⟨hprogram, hanswer⟩ := ((Build.instruction_inStep
    (Renaming.lines_respelling hf name args)).step p (p.respell f)
      (hp.renamed_respell hf)).resolve_right fun hfull => Nat.not_lt.2 hbound hfull.2
  have hcode : ∀ (args : List Argument) (p : Program),
      ((Build.instruction name args).run p).2.instructions = p.instructions := fun args p =>
    (Build.instruction_makes name (List.Subset.refl args) p (.refl p)).1.instructions
  refine Prod.ext ?_ (hprogram.eq_respell ((hcode _ _).trans (hcode args p).symm))
  generalize ((Build.instruction name args).run p).1 = result at hanswer ⊢
  generalize ((Build.instruction name (respellOperands f name args)).run (p.respell f)).1 = result'
    at hanswer ⊢
  cases hanswer with
  | error herrors => rw [Renaming.eq_respell_of_errors herrors, Except.mapError]
  | @ok ins _ hins =>
    subst hins
    exact congrArg Except.ok ins.renumber_id

/-- A push comes to the same under other names, whether it is accepted or refused. -/
theorem push_respell (hp : p.Tables) (hf : Respelling f) (name : String) (args : List Argument) :
    (p.respell f).push name (respellOperands f name args) = (p.push name args).respell f := by
  unfold push
  rw [run_instruction_respell hp hf, respell_isInvalid]
  cases p.isInvalid with
  | true => exact Outcome.refuse_respell .invalidProgram p
  | false =>
    rcases (Build.instruction name args).run p with ⟨result, q⟩
    cases result with
    | error e => exact Outcome.fail_respell e q
    | ok ins => exact Outcome.ok_respell _ (q.append ins)

/-- What the check says of blocks and jumps names no variable. -/
theorem respell_of_checkStructure {e : ProgramError} (h : p.checkStructure = .error e) :
    e.respell f = e := by
  rcases checkStructure_eq_error_iff.1 h with ⟨_, _, ⟨_, _, hoffends⟩, _⟩ | ⟨rfl, _⟩
  · cases hoffends <;> rfl
  · rfl

theorem seal_respell (f : String → String) (p : Program) :
    (p.respell f).seal = p.seal.respell f := by
  have hcheck : (p.respell f).checkStructure = p.checkStructure := rfl
  unfold Program.seal
  rw [respell_isInvalid, hcheck]
  by_cases hinvalid : p.isInvalid = true
  · rw [if_pos hinvalid, if_pos hinvalid]
    exact Outcome.refuse_respell .invalidProgram p
  · rw [if_neg hinvalid, if_neg hinvalid]
    cases herror : p.checkStructure with
    | ok _ => exact Outcome.ok_respell () { p with hasBranches := _, isSealed := true }
    | error e => exact Outcome.fail_respell_of_eq (respell_of_checkStructure herror) p

/-! ## Filling the uniforms -/

variable {source source' : UniformSource}

theorem fillUniforms_respell {l : List (Declaration × Nat)}
    (hl : ∀ e ∈ l, e.1.isUniform = true →
      source' (e.1.respell f).hostName = source e.1.hostName) (r : Registers) :
    fillUniforms source' (l.map (Prod.map (Declaration.respell f) id)) r =
      ((fillUniforms source l r).1,
        (fillUniforms source l r).2.map (OperandName.respellBase f)) := by
  induction l generalizing r with
  | nil => rfl
  | cons e l ih =>
    obtain ⟨d, i⟩ := e
    rw [List.forall_mem_cons] at hl
    have hrest := ih hl.2
    rw [List.map_cons, Prod.map_apply, id_eq]
    cases hd : d.isUniform with
    | false => rw [fillUniforms_variable hd, fillUniforms_variable (d := d.respell f) hd, hrest]
    | true =>
      have hvalue := hl.1 hd
      cases hsource : source d.hostName with
      | none =>
        rw [fillUniforms_missing hd hsource,
          fillUniforms_missing (d := d.respell f) hd (hvalue.trans hsource)]
        rfl
      | some value =>
        rw [fillUniforms_uniform hd hsource,
          fillUniforms_uniform (d := d.respell f) hd (hvalue.trans hsource), hrest]

theorem hostName_respell (hf : Respelling f) {name : String}
    (h : isIdentifier name.toList = true) :
    ((⟨"." ++ name, true⟩ : Declaration).respell f).hostName = f name := by
  rw [Declaration.respell, Respelling.respellBase_dotted h, hostName_dotted (hf.isIdentifier h)]

theorem badUniformJump?_respell (f : String → String) (p : Program) (l : List Instruction) :
    (p.respell f).badUniformJump? l = p.badUniformJump? l := by
  rw [badUniformJump?_eq_findSome?, badUniformJump?_eq_findSome?]
  rfl

theorem respell_of_badUniformJump? {l : List Instruction} {e : ProgramError}
    (h : p.badUniformJump? l = some e) : e.respell f = e := by
  rw [badUniformJump?_eq_findSome?] at h
  obtain ⟨ins, -, hins⟩ := List.exists_of_findSome?_eq_some h
  match ins with
  | .goto (.uniform v) =>
    rw [(badJump?_eq_some hins).2]
    rfl
  | .goto (.index _) | .operation _ | .discard | .ifThen _ | .elseIf _ | .otherwise | .endIf =>
    cases hins

/-- The uniforms are filled alike by a host that knows them by the other names. -/
theorem fill_respell (hp : p.Reachable) (hf : Respelling f)
    (hsource : SuppliesAlike f source source') :
    fillUniforms source' (p.respell f).declarations.toList.zipIdx (p.respell f).registers =
      (p.filled source, (fillUniforms source p.declarations.toList.zipIdx p.registers).2.map
        (OperandName.respellBase f)) := by
  have hzip : (p.respell f).declarations.toList.zipIdx =
      p.declarations.toList.zipIdx.map (Prod.map (Declaration.respell f) id) := by
    rw [respell, Array.toList_map, List.zipIdx_map]
  rw [hzip]
  refine fillUniforms_respell (fun e he huniform => ?_) p.registers
  obtain ⟨name, -, hname, hd⟩ := hp.exists_uniformAt (mem_zipIdx.1 he) huniform
  rw [hd, hostName_respell hf hname, hostName_dotted hname, hsource name hname]

theorem updateUniforms_respell (hp : p.Reachable) (hf : Respelling f)
    (hsource : SuppliesAlike f source source') :
    (p.respell f).updateUniforms source' = (p.updateUniforms source).respell f := by
  have hfill := fill_respell hp hf hsource
  have hfilled : (p.respell f).withFilled source' = (p.withFilled source).respell f := by
    rw [withFilled, filled, hfill]
    rfl
  cases hinvalid : p.isInvalid with
  | true =>
    rw [updateUniforms, updateUniforms, respell_isInvalid, if_pos hinvalid, if_pos hinvalid]
    exact Outcome.refuse_respell .invalidProgram p
  | false =>
    have hcode : (p.respell f).instructions = p.instructions := rfl
    rw [updateUniforms_of_valid hinvalid, updateUniforms_of_valid (p := p.respell f) hinvalid,
      hfill, hfilled, hcode, badUniformJump?_respell]
    cases (fillUniforms source p.declarations.toList.zipIdx p.registers).2 with
    | some name => exact Outcome.fail_respell (.unknownUniform name) _
    | none =>
      cases hjump : (p.withFilled source).badUniformJump? p.instructions.toList with
      | none => exact Outcome.ok_respell () _
      | some e => exact Outcome.fail_respell_of_eq (respell_of_badUniformJump? hjump) _

end Program

/-! ## Runs -/

section

variable {ι : Type} [Invocation ι]

namespace Program

theorem execute_respell (f : String → String) (p : Program) (i : ι) (r : Registers) :
    (p.respell f).execute i r = (p.execute i r).respell f := by
  have hrunnable : (p.respell f).isRunnable = p.isRunnable := rfl
  have hrun : (p.respell f).run ⟨i, r, #[]⟩ = p.run ⟨i, r, #[]⟩ :=
    run_congr (p := p) (q := p.respell f) ⟨rfl, rfl, rfl, rfl, rfl⟩ rfl rfl _
  unfold execute
  rw [hrunnable, hrun]
  split
  · dsimp only
    split
    · rw [invalidate_respell]
      rfl
    · rfl
  · rfl

theorem executeInPlace_respell (f : String → String) (p : Program) (i : ι) :
    (p.respell f).executeInPlace i = (p.executeInPlace i).respell f := by
  have hregisters : (p.respell f).registers = p.registers := rfl
  unfold executeInPlace
  rw [hregisters, execute_respell]
  rfl

end Program

end

/-! ## Histories -/

namespace Program

/-- Edits that are the same, written with the other names. -/
inductive Edit.Respells (f : String → String) : Edit → Edit → Prop
  | push {name : String} {args args' : List Argument} : args' = respellOperands f name args →
    Respells f (.push name args) (.push name args')
  | seal : Respells f .seal .seal
  | reset : Respells f .reset .reset
  | withColor (color : ColorTransform) : Respells f (.withColor color) (.withColor color)
  | updateUniforms {source source' : UniformSource} : SuppliesAlike f source source' →
    Respells f (.updateUniforms source) (.updateUniforms source')
  | invalidate (reason : ProgramError) :
    Respells f (.invalidate reason) (.invalidate (reason.respell f))
  | runFragment (i : Fragment) : Respells f (.runFragment i) (.runFragment i)
  | runVertex (i : Vertex) : Respells f (.runVertex i) (.runVertex i)

theorem edit_respell (hp : p.Reachable) (hf : Respelling f) {e e' : Edit}
    (he : e.Respells f e') : (p.respell f).edit e' = (p.edit e).respell f := by
  match e, e', he with
  | _, _, .push hargs =>
    subst hargs
    exact congrArg Outcome.program (push_respell hp.wellFormed.tables hf _ _)
  | _, _, .seal => exact congrArg Outcome.program (seal_respell f p)
  | _, _, .reset => simp [edit, reset, respell, new, Program.withColor]
  | _, _, .withColor color => rfl
  | _, _, .updateUniforms hsource =>
    exact congrArg Outcome.program (updateUniforms_respell hp hf hsource)
  | _, _, .invalidate reason =>
    rw [edit, edit, invalidate_program, invalidate_program]
    rfl
  | _, _, .runFragment i => exact congrArg Execution.program (executeInPlace_respell f p i)
  | _, _, .runVertex i => exact congrArg Execution.program (executeInPlace_respell f p i)

/-- A history written with other names leaves the same program under the other names. -/
theorem edits_respell (hp : p.Reachable) (hf : Respelling f) {edits edits' : List Edit}
    (h : List.Forall₂ (Edit.Respells f) edits edits') :
    edits'.foldl edit (p.respell f) = (edits.foldl edit p).respell f := by
  induction h generalizing p with
  | nil => rfl
  | cons he _ ih =>
    rw [List.foldl_cons, List.foldl_cons, edit_respell hp hf he]
    exact ih (hp.edit _)

end Program

/-- Programs are invariant under renaming. After any history of a new program, and the same
history written with other names, the two programs are the same but for the names of their
variables, which differ by the renaming: they have the same instructions with the same slots,
the same flags, tables and registers. Whatever line is pushed next is accepted for both or
refused for both, by an error of the same kind that says the same of the other name. Both are
sealed alike, a host that knows the uniforms by the other names fills them alike, and every
fragment and vertex comes to the same on any registers. -/
theorem names_immaterial (hf : Respelling f) (stage : Stage)
    {edits edits' : List Program.Edit} (h : List.Forall₂ (Program.Edit.Respells f) edits edits') :
    let p := edits.foldl Program.edit (Program.new stage)
    let q := edits'.foldl Program.edit (Program.new stage)
    q = p.respell f ∧
      (∀ name args, q.push name (respellOperands f name args) =
        (p.push name args).respell f) ∧
      q.seal = p.seal.respell f ∧
      (∀ source source', SuppliesAlike f source source' →
        q.updateUniforms source' = (p.updateUniforms source).respell f) ∧
      (∀ (i : Fragment) (r : Registers), q.execute i r = (p.execute i r).respell f) ∧
      ∀ (i : Vertex) (r : Registers), q.execute i r = (p.execute i r).respell f := by
  intro p q
  have hreach : p.Reachable := (Program.Reachable.new stage).foldl edits
  have hstart : (Program.new stage).respell f = Program.new stage := by
    simp [Program.respell, Program.new]
  have hsame : q = p.respell f := by
    have hedits := Program.edits_respell (.new stage) hf h
    rwa [hstart] at hedits
  rw [hsame]
  exact ⟨rfl, fun name args => Program.push_respell hreach.wellFormed.tables hf name args,
    Program.seal_respell f p, fun _ _ hsource => Program.updateUniforms_respell hreach hf hsource,
    Program.execute_respell f p, Program.execute_respell f p⟩

/-- A variable and a uniform of one name, a swizzle, and a comparison, with two names exchanged.
In what is refused at the end the other name is told as it was written. -/
theorem names_immaterial_exchanged :
    let f : String → String := Equiv.swap "a" "b"
    let source : UniformSource := fun name => if name = "a" then some (.float 2) else none
    let source' : UniformSource := fun name => if name = "b" then some (.float 2) else none
    let edits : List Program.Edit :=
      [.push "=" [.name "a", .literal (.float 1)],
        .push "=" [.name "b.xy", .name ".a"],
        .push "if" [.name "a", .name "<", .name "b.x"],
        .push "=" [.name "fragColor", .name "b"],
        .push "end" [],
        .seal,
        .updateUniforms source]
    let edits' : List Program.Edit :=
      [.push "=" [.name "b", .literal (.float 1)],
        .push "=" [.name "a.xy", .name ".b"],
        .push "if" [.name "b", .name "<", .name "a.x"],
        .push "=" [.name "fragColor", .name "a"],
        .push "end" [],
        .seal,
        .updateUniforms source']
    let p := edits.foldl Program.edit (Program.new .fragment)
    let q := edits'.foldl Program.edit (Program.new .fragment)
    p.declarations = #[⟨"a", false⟩, ⟨"b", false⟩, ⟨".a", true⟩] ∧
      q.declarations = #[⟨"b", false⟩, ⟨"a", false⟩, ⟨".b", true⟩] ∧
      q = p.respell f ∧
      (p.push "+=" [.name "a", .name "b.w.x"]).result = .error (.invalidSwizzle "b.w.x") ∧
      (q.push "+=" [.name "b", .name "a.w.x"]).result = .error (.invalidSwizzle "a.w.x") := by
  intro f source source' edits edits' p q
  have hf : Respelling f := .exchanging (by decide) (by decide) (by decide) (by decide)
  have hsource : SuppliesAlike f source source' := fun name _ => by
    simp [source, source', f, Equiv.swap_apply_eq_iff]
  have hnames : OperandName.respell f "a" = "b" ∧ OperandName.respell f "b" = "a" ∧
      OperandName.respell f "b.xy" = "a.xy" ∧ OperandName.respell f "b.x" = "a.x" ∧
      OperandName.respell f ".a" = ".b" ∧ OperandName.respell f "fragColor" = "fragColor" := by
    decide +kernel
  obtain ⟨ha, hb, hxy, hx, huniform, hcolor⟩ := hnames
  have hedits : List.Forall₂ (Program.Edit.Respells f) edits edits' := by
    refine .cons (.push ?_) (.cons (.push ?_) (.cons (.push ?_) (.cons (.push ?_)
      (.cons (.push ?_) (.cons .seal (.cons (.updateUniforms hsource) .nil))))))
    all_goals simp [respellOperands, Argument.respell, Renaming.IsComparison, *]
  have hsame := names_immaterial hf .fragment hedits
  refine ⟨by decide +kernel, by decide +kernel, hsame.1, by decide +kernel, by decide +kernel⟩

end Shading
