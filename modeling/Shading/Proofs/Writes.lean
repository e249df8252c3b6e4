import Shading.Proofs.Caches

/- What an execution may write. Of a fragment it changes the color, the output tag and the
   depth, of a vertex the position that leaves, and nothing else. The depth may be tested
   before the program runs if the program never replaces it, and the builder takes note of
   that: the flag is raised where a destination is resolved (`Build.destination_notes`),
   and no other step of building touches it (`Build.Leaves`), the left side of a condition
   included, which is a name but only read. A refused instruction may leave the flag
   raised, and then the program is invalid. So for a program that is not, the flag says
   exactly whether some instruction stores in the depth (`execute_writes`). -/
namespace Shading

/-! ## Building and the depth flag -/

/-- Whether a reference is to the depth. -/
def Reference.isDepth (r : Reference) : Bool := r.place == .builtin .depth

/-- Whether an instruction stores in the depth. The left side of a condition is no
destination. -/
def Instruction.storesDepth (ins : Instruction) : Bool := ins.destination?.any Reference.isDepth

namespace Build

variable {α β : Type} {x : Build α} {f : α → Build β}

/-- If it succeeds, a step leaves the depth flag as it is and answers only what meets
`post`. -/
def Leaves (x : Build α) (post : α → Prop) : Prop :=
  ∀ q r a, x.run q = (.ok a, r) → r.writesDepth = q.writesDepth ∧ post a

/-- If it succeeds, a step raises the depth flag just for those answers that store in the
depth, and never lowers it. -/
def Notes (x : Build α) (stores : α → Bool) : Prop :=
  ∀ q r a, x.run q = (.ok a, r) → r.writesDepth = (q.writesDepth || stores a)

theorem run_bind_ok {q r : Program} {b : β} (h : (x >>= f).run q = (.ok b, r)) :
    ∃ a s, x.run q = (.ok a, s) ∧ (f a).run s = (.ok b, r) := by
  rw [run_bind] at h
  rcases hx : x.run q with ⟨result, s⟩
  rw [hx] at h
  cases result with
  | error e => cases h
  | ok a => exact ⟨a, s, rfl, h⟩

namespace Leaves

variable {mid post : α → Prop} {goal : β → Prop}

theorem pure {a : α} (h : post a) : Leaves (pure a) post := by
  rintro q r b ⟨⟩
  exact ⟨rfl, h⟩

theorem throw {e : ProgramError} : Leaves (throw e) post := by
  rintro q r b ⟨⟩

theorem get : Leaves (get : Build Program) fun _ => True := by
  rintro q r b ⟨⟩
  exact ⟨rfl, trivial⟩

theorem bind (hx : Leaves x mid) (hf : ∀ a, mid a → Leaves (f a) goal) :
    Leaves (x >>= f) goal := by
  intro q r b h
  obtain ⟨a, s, hfirst, hrest⟩ := run_bind_ok h
  obtain ⟨hflag, ha⟩ := hx _ _ _ hfirst
  obtain ⟨hflag', hb⟩ := hf a ha _ _ _ hrest
  exact ⟨hflag'.trans hflag, hb⟩

/-- The usual case: only the last answer matters. -/
theorem next (hx : Leaves x mid) (hf : ∀ a, Leaves (f a) goal) : Leaves (x >>= f) goal :=
  hx.bind fun a _ => hf a

theorem ite {c : Prop} [Decidable c] {y : Build α} (hx : Leaves x post) (hy : Leaves y post) :
    Leaves (if c then x else y) post := by
  split
  · exact hx
  · exact hy

end Leaves

namespace Notes

variable {stores : α → Bool} {stores' : β → Bool} {mid : α → Prop}

theorem of_leaves (h : Leaves x fun a => stores a = false) : Notes x stores := by
  intro q r a hrun
  obtain ⟨hflag, ha⟩ := h _ _ _ hrun
  rw [hflag, ha, Bool.or_false]

/-- What comes before a step that takes note leaves the flag alone. -/
theorem after (hx : Leaves x mid) (hf : ∀ a, Notes (f a) stores') : Notes (x >>= f) stores' := by
  intro q r b h
  obtain ⟨a, s, hfirst, hrest⟩ := run_bind_ok h
  rw [hf a _ _ _ hrest, (hx _ _ _ hfirst).1]

/-- What comes after it does so too, and the answers at the end are as was noted. -/
theorem before (hx : Notes x stores) (hf : ∀ a, Leaves (f a) fun b => stores' b = stores a) :
    Notes (x >>= f) stores' := by
  intro q r b h
  obtain ⟨a, s, hfirst, hrest⟩ := run_bind_ok h
  obtain ⟨hflag, hb⟩ := hf a _ _ _ hrest
  rw [hflag, hx _ _ _ hfirst, hb]

end Notes

/-! ## Steps that leave the flag alone -/

theorem require_leaves {holds : Bool} {e : ProgramError} :
    Leaves (require holds e) fun _ => True :=
  Leaves.ite (Leaves.pure trivial) Leaves.throw

theorem requireStage_leaves {op : String} {stage : Stage} :
    Leaves (requireStage op stage) fun _ => True :=
  Leaves.get.next fun _ => require_leaves

theorem requireOwn_leaves {op : String} {b : Builtin} :
    Leaves (requireOwn op b) fun _ => True := by
  unfold requireOwn
  split
  · exact requireStage_leaves
  · exact Leaves.pure trivial

theorem operandName_leaves {text : String} : Leaves (operandName text) fun _ => True := by
  unfold operandName
  split
  · exact Leaves.pure trivial
  · exact Leaves.throw

theorem slot_leaves {name : String} {isUniform : Bool} :
    Leaves (slot name isUniform) fun _ => True := by
  intro q r a h
  rw [run_slot] at h
  split at h
  · cases h
    exact ⟨rfl, trivial⟩
  · rw [run_declare] at h
    split at h <;> cases h
    exact ⟨rfl, trivial⟩

theorem intern_leaves {γ : Type} {t : HandleTable γ} {h : Handle γ}
    (henter : ∀ q, (t.enter q h).writesDepth = q.writesDepth) :
    Leaves (intern t h) fun _ => True := by
  intro q r a hrun
  rw [run_intern] at hrun
  split at hrun
  · cases hrun
    exact ⟨rfl, trivial⟩
  · split at hrun <;> cases hrun
    exact ⟨henter q, trivial⟩

theorem sourceName_leaves {op text : String} :
    Leaves (sourceName op text) fun _ => True := by
  refine operandName_leaves.next fun name => ?_
  split
  · exact requireOwn_leaves.next fun _ => require_leaves.next fun _ => Leaves.pure trivial
  · refine Leaves.ite ?_ (Leaves.get.next fun q => ?_)
    · exact require_leaves.next fun _ => slot_leaves.next fun _ => Leaves.pure trivial
    · split
      · exact Leaves.pure trivial
      · exact Leaves.throw

theorem supply_leaves {op : String} {arg : Option Argument} :
    Leaves (supply op arg) fun _ => True := by
  unfold supply
  match arg with
  | none | some (.texture _) => exact Leaves.throw
  | some (.literal _) => exact Leaves.pure trivial
  | some (.name _) => exact sourceName_leaves.next fun _ => Leaves.pure trivial
  | some (.matrix _) => exact (intern_leaves fun _ => rfl).next fun _ => Leaves.pure trivial
  | some (.interpolated _) =>
    exact requireStage_leaves.next fun _ => (intern_leaves fun _ => rfl).next fun _ =>
      Leaves.pure trivial
  | some (.attribute _) =>
    exact requireStage_leaves.next fun _ => (intern_leaves fun _ => rfl).next fun _ =>
      Leaves.pure trivial

theorem requireSource_leaves {op : String} {s : Supply} :
    Leaves (requireSource op s) fun _ => True := by
  cases s with
  | source src => exact Leaves.pure trivial
  | matrix id => exact Leaves.throw

theorem source_leaves {op : String} {arg : Option Argument} :
    Leaves (source op arg) fun _ => True :=
  supply_leaves.next fun _ => requireSource_leaves

/-- The left side of a condition may be the depth, and is only read. -/
theorem conditionName_leaves {op : String} {arg : Option Argument} :
    Leaves (conditionName op arg) fun _ => True := by
  refine supply_leaves.next fun s => ?_
  split
  · exact Leaves.pure trivial
  · exact Leaves.throw

theorem secondSource_leaves {op : String} {arg : Option Argument} :
    Leaves (secondSource op arg) fun _ => True := by
  unfold secondSource
  split
  · exact Leaves.throw
  · exact Leaves.throw
  · refine supply_leaves.next fun s => ?_
    split
    · exact Leaves.pure trivial
    · exact Leaves.throw

theorem comparison_leaves {op : String} {arg : Option Argument} :
    Leaves (comparison op arg) fun _ => True := by
  unfold comparison
  split
  · split
    · exact Leaves.pure trivial
    · exact Leaves.throw
  · exact Leaves.throw

theorem condition_leaves {op : String} {args : List Argument} :
    Leaves (condition op args) fun _ => True :=
  conditionName_leaves.next fun _ => comparison_leaves.next fun _ => source_leaves.next fun _ =>
    Leaves.pure trivial

theorem textureArgument_leaves {op : String} {arg : Option Argument} :
    Leaves (textureArgument op arg) fun _ => True := by
  unfold textureArgument
  split
  · exact intern_leaves fun _ => rfl
  · exact Leaves.throw
  · exact Leaves.throw

theorem fixedTarget_leaves {number : Int} : Leaves (fixedTarget number) fun _ => True :=
  Leaves.get.next fun _ => require_leaves.next fun _ => Leaves.pure trivial

theorem jumpTarget_leaves {arg : Option Argument} : Leaves (jumpTarget arg) fun _ => True := by
  unfold jumpTarget
  split
  · exact fixedTarget_leaves
  · exact Leaves.ite fixedTarget_leaves Leaves.throw
  · exact require_leaves.next fun _ => slot_leaves.next fun _ => Leaves.pure trivial
  · exact Leaves.throw
  · exact Leaves.throw

/-! ## Steps that take note -/

theorem noteWritten_notes {b : Builtin} : Notes (noteWritten b) fun _ => b == .depth := by
  intro q r a h
  unfold noteWritten at h
  split at h
  · next hb =>
    cases h
    simp [hb]
  · next hb =>
    cases h
    simp [hb]

/-- Resolving a destination raises the flag if it is the depth, and only then. -/
theorem destination_notes {op : String} {arg : Option Argument} :
    Notes (destination op arg) Reference.isDepth := by
  unfold destination
  match arg with
  | some (.name text) =>
    refine Notes.after operandName_leaves fun name => ?_
    split
    · next b _ =>
      refine Notes.after requireOwn_leaves fun _ => Notes.after require_leaves fun _ => ?_
      refine Notes.after require_leaves fun _ => Notes.before noteWritten_notes fun _ => ?_
      exact Leaves.pure (by simp [Reference.isDepth])
    · refine Notes.of_leaves (require_leaves.next fun _ => require_leaves.next fun _ => ?_)
      exact slot_leaves.next fun _ => Leaves.pure rfl
  | some (.literal _) | some (.texture _) | some (.matrix _) | some (.interpolated _)
  | some (.attribute _) | none => exact Notes.of_leaves Leaves.throw

theorem arith_notes {op : Arith} {args : List Argument} :
    Notes (arith op args) Instruction.storesDepth := by
  refine Notes.before destination_notes fun dst => supply_leaves.next fun s => ?_
  cases s with
  | source src => exact Leaves.pure rfl
  | matrix id => exact require_leaves.next fun _ => require_leaves.next fun _ => Leaves.pure rfl

theorem compare_notes {cmp : Comparison} {args : List Argument} :
    Notes (compare cmp args) Instruction.storesDepth := by
  refine Notes.before destination_notes fun dst => ?_
  refine supply_leaves.next fun lhs => supply_leaves.next fun rhs => ?_
  exact requireSource_leaves.next fun _ => requireSource_leaves.next fun _ => Leaves.pure rfl

theorem sample_notes {model : ColorModel} {args : List Argument} :
    Notes (sample model args) Instruction.storesDepth := by
  refine Notes.before destination_notes fun dst => ?_
  exact textureArgument_leaves.next fun _ => source_leaves.next fun _ => Leaves.pure rfl

theorem convert_notes {model : ColorModel} {args : List Argument} :
    Notes (convert model args) Instruction.storesDepth := by
  refine Notes.before destination_notes fun dst => ?_
  exact source_leaves.next fun _ => require_leaves.next fun _ => Leaves.pure rfl

theorem call_notes {g : MathFunction} {args : List Argument} :
    Notes (call g args) Instruction.storesDepth := by
  refine Notes.before destination_notes fun dst => source_leaves.next fun src => ?_
  have hend (second : Option Source) {c c' : Bool} {e e' : ProgramError} :
      Leaves (do
        require c e
        require c' e'
        return Instruction.operation (.call g dst src second))
        fun ins => ins.storesDepth = dst.isDepth :=
    require_leaves.next fun _ => require_leaves.next fun _ => Leaves.pure rfl
  have hnone : Leaves (pure (none : Option Source)) fun _ => True := Leaves.pure trivial
  have hsome : Leaves (some <$> secondSource g.name args[2]?) fun _ => True :=
    secondSource_leaves.next fun _ => Leaves.pure trivial
  exact Leaves.ite (hsome.next fun _ => hend _) (hnone.next fun _ => hend _)

/-- The flag is raised for an instruction that stores in the depth, and for no other. -/
theorem instructionOf_notes {name : String} {args : List Argument} :
    Notes (instructionOf name args) Instruction.storesDepth := by
  unfold instructionOf
  split
  -- the five operations of arithmetic, each under two names
  iterate 10 · exact arith_notes
  iterate 2 · exact Notes.of_leaves (condition_leaves.next fun _ => Leaves.pure rfl)
  iterate 2 · exact Notes.of_leaves (Leaves.pure rfl)
  · exact Notes.of_leaves (requireStage_leaves.next fun _ => Leaves.pure rfl)
  · exact Notes.of_leaves (jumpTarget_leaves.next fun _ => Leaves.pure rfl)
  iterate 2 · exact sample_notes
  iterate 2 · exact convert_notes
  · exact Notes.of_leaves (source_leaves.next fun _ => Leaves.pure rfl)
  · split
    · exact compare_notes
    · split
      · exact call_notes
      · exact Notes.of_leaves Leaves.throw

theorem instruction_notes {name : String} {args : List Argument} :
    Notes (instruction name args) Instruction.storesDepth :=
  Notes.before instructionOf_notes fun _ => require_leaves.next fun _ => Leaves.pure rfl

end Build

/-! ## What the flag says -/

theorem Instruction.storesDepth_iff {ins : Instruction} :
    ins.storesDepth = true ↔ ∃ dst, ins.destination? = some dst ∧ dst.place = .builtin .depth := by
  simp [storesDepth, Option.any_eq_true, Reference.isDepth]

namespace Program

variable {p q : Program}

/-- Unless a program is invalid, its depth flag tells whether some instruction stores in the
depth. -/
def TellsDepth (p : Program) : Prop :=
  p.isInvalid = false → p.writesDepth = p.instructions.any Instruction.storesDepth

/-- A program with the instructions and the depth flag of another, and invalid if that one
is. -/
structure KeepsCode (p q : Program) : Prop where
  instructions : q.instructions = p.instructions
  writesDepth : q.writesDepth = p.writesDepth
  isInvalid : p.isInvalid = true → q.isInvalid = true

theorem new_tellsDepth (stage : Stage) : (new stage).TellsDepth :=
  fun _ => by simp [new]

theorem TellsDepth.keepsCode (h : p.TellsDepth) (hq : p.KeepsCode q) : q.TellsDepth := by
  intro hvalid
  have hp : p.isInvalid = false := by
    cases hflag : p.isInvalid with
    | false => rfl
    | true => rw [hq.isInvalid hflag] at hvalid; cases hvalid
  rw [hq.writesDepth, hq.instructions, h hp]

theorem KeepsCode.invalidate (h : p.KeepsCode q) (reason : ProgramError) :
    p.KeepsCode (q.invalidate reason).1 := by
  rw [invalidate_program]
  exact ⟨h.instructions, h.writesDepth, fun _ => rfl⟩

theorem KeepsCode.executeInPlace {ι : Type} [Invocation ι] (p : Program) (i : ι) :
    p.KeepsCode (p.executeInPlace i).program := by
  have hsame : p.KeepsCode p := ⟨rfl, rfl, id⟩
  have hdone : p.KeepsCode (p.execute i p.registers).program := by
    rcases execute_program i p.registers with h | ⟨reason, h⟩
    · rwa [h]
    · exact h ▸ hsame.invalidate reason
  exact ⟨hdone.instructions, hdone.writesDepth, hdone.isInvalid⟩

/-- A refused instruction makes the program invalid, an accepted one was noted. -/
theorem push_tellsDepth (hp : p.WellFormed) (h : p.TellsDepth) (name : String)
    (args : List Argument) : (p.push name args).program.TellsDepth := by
  unfold Program.push
  split
  · exact h
  · next hvalid =>
    have hgrows := Build.grows_instruction hp.tables name args
    rcases hrun : (Build.instruction name args).run p with ⟨result, q⟩
    rw [hrun] at hgrows
    cases result with
    | error e =>
      intro hflag
      have hmarked : (q.invalidate e).1.isInvalid = true := invalidate_isInvalid e
      exact absurd (hmarked.symm.trans hflag) (by decide)
    | ok ins =>
      intro _
      show q.writesDepth = (q.instructions.push ins).any Instruction.storesDepth
      rw [Build.instruction_notes _ _ _ hrun, h (eq_false_of_ne_true hvalid), Array.any_push,
        hgrows.instructions]

theorem edit_tellsDepth (hp : p.WellFormed) (h : p.TellsDepth) (e : Edit) :
    (p.edit e).TellsDepth := by
  have hsame : p.KeepsCode p := ⟨rfl, rfl, id⟩
  match e with
  | .push name args => exact push_tellsDepth hp h name args
  | .reset => exact new_tellsDepth p.stage
  | .withColor color => exact h
  | .invalidate reason => exact h.keepsCode (hsame.invalidate reason)
  | .runFragment f => exact h.keepsCode (.executeInPlace p f)
  | .runVertex v => exact h.keepsCode (.executeInPlace p v)
  | .seal =>
    simp only [edit, Program.seal]
    split
    · exact h
    · split
      · exact h.keepsCode (hsame.invalidate _)
      · exact h
  | .updateUniforms source =>
    have hfilled (r : Registers) : p.KeepsCode { p with registers := r } := ⟨rfl, rfl, id⟩
    simp only [edit, Program.updateUniforms]
    split
    · exact h
    · split
      · exact h.keepsCode ((hfilled _).invalidate _)
      · split
        · exact h.keepsCode ((hfilled _).invalidate _)
        · exact h

theorem Reachable.tellsDepth (h : p.Reachable) : p.TellsDepth := by
  induction h with
  | new stage => exact new_tellsDepth stage
  | edit hp e ih => exact edit_tellsDepth hp.wellFormed ih e

/-! ## What an execution changes -/

/-- What storing in its destinations and giving it up keep of an invocation, an execution
keeps. -/
theorem execute_keeps {ι : Type} [Invocation ι] {P : ι → Prop}
    (hstore : ∀ o, .operation o ∈ p.instructions → ∀ dst b, o.destination? = some dst →
      dst.place = .builtin b → ∀ i value, P i → P (Invocation.store i b value))
    (hdiscard : ∀ i, P i → P (Invocation.discard i)) {i : ι} (hi : P i) (r : Registers) :
    P (p.execute i r).invocation := by
  unfold execute
  split
  · exact (keeps_invocation hstore hdiscard).run (s := ⟨i, r, #[]⟩) hi
  · exact hi

/-- A fragment keeps all but its color, its tag and its depth. -/
theorem execute_fragment (p : Program) (f : Fragment) (r : Registers) :
    ∃ color output depth, (p.execute f r).invocation = { f with color, output, depth } := by
  refine execute_keeps (P := fun g : Fragment => ∃ color output depth,
    g = { f with color, output, depth }) ?_ ?_ ⟨f.color, f.output, f.depth, rfl⟩ r
  · rintro _ _ _ b _ _ _ value ⟨color, output, depth, rfl⟩
    cases b <;> exact ⟨_, _, _, rfl⟩
  · rintro _ ⟨color, output, depth, rfl⟩
    exact ⟨_, _, _, rfl⟩

/-- A vertex keeps all but the position that leaves. -/
theorem execute_vertex (p : Program) (v : Vertex) (r : Registers) :
    ∃ output, (p.execute v r).invocation = { v with output } := by
  refine execute_keeps (P := fun w : Vertex => ∃ output, w = { v with output }) ?_ (fun _ h => h)
    ⟨v.output, rfl⟩ r
  rintro _ _ _ b _ _ _ value ⟨output, rfl⟩
  cases b <;> exact ⟨_, rfl⟩

/-- Without an instruction that stores in it the depth of a fragment stays. -/
theorem execute_depth (h : p.instructions.any Instruction.storesDepth = false) (f : Fragment)
    (r : Registers) : (p.execute f r).invocation.depth = f.depth := by
  refine execute_keeps (P := fun g : Fragment => g.depth = f.depth) ?_ (fun _ h => h) rfl r
  intro o ho dst b hdst hplace g value hg
  have hb : b ≠ .depth := by
    rintro rfl
    rw [Array.any_eq_false'] at h
    exact h _ ho (Instruction.storesDepth_iff.2 ⟨dst, hdst, hplace⟩)
  cases b with
  | depth => exact absurd rfl hb
  | _ => exact hg

/-- What an execution may write, and what the depth flag says of it. A fragment keeps all
but its color, its tag and its depth, and a vertex all but the position that leaves. If the
flag is down, the depth of every fragment stays as well. For a program that is not invalid,
the flag is up just if the depth is the destination of some instruction, of which a
condition has none. -/
theorem execute_writes (h : p.Reachable) (r : Registers) :
    (∀ f : Fragment,
      (∃ color output depth, (p.execute f r).invocation = { f with color, output, depth }) ∧
      (p.writesDepth = false → (p.execute f r).invocation.depth = f.depth)) ∧
    (∀ v : Vertex, ∃ output, (p.execute v r).invocation = { v with output }) ∧
    (p.isInvalid = false → (p.writesDepth = true ↔
      ∃ ins ∈ p.instructions, ∃ dst, ins.destination? = some dst ∧
        dst.place = .builtin .depth)) := by
  refine ⟨fun f => ⟨execute_fragment p f r, fun hflag => ?_⟩, fun v => execute_vertex p v r,
    fun hvalid => ?_⟩
  · cases hinvalid : p.isInvalid with
    | false => exact execute_depth ((h.tellsDepth hinvalid).symm.trans hflag) f r
    -- an invalid program does not run
    | true => simp [execute, isRunnable, hinvalid]
  · rw [h.tellsDepth hvalid, Array.any_eq_true']
    simp only [Instruction.storesDepth_iff]

end Program

/-- A program that colors a fragment if it is near, and so only reads the depth. -/
def nearby : Program :=
  [.push "if" [.name "fragDepth", .name "<", .literal (.float 0.5)],
    .push "=" [.name "fragColor", .literal (.float 1)], .push "end" [], .seal].foldl Program.edit
    (Program.new .fragment)

/-- The program goes on to replace the depth. -/
def pushedBack : Program :=
  [.push "=" [.name "fragDepth", .literal (.float 1)], .seal].foldl Program.edit nearby

/-- Comparing with the depth leaves the flag down and the depth alone; storing in it does
neither. -/
theorem execute_writes_nearby :
    let f := { Fragment.ofPosition 0 0 with depth := 0.25 }
    let near := nearby.execute f nearby.registers
    let back := pushedBack.execute f pushedBack.registers
    nearby.Reachable ∧ nearby.isInvalid = false ∧ nearby.writesDepth = false ∧
      near.isValid = true ∧ near.invocation.depth = f.depth ∧
      (¬∃ ins ∈ nearby.instructions, ∃ dst, ins.destination? = some dst ∧
        dst.place = .builtin .depth) ∧
      pushedBack.Reachable ∧ pushedBack.isInvalid = false ∧ pushedBack.writesDepth = true ∧
      back.isValid = true ∧ back.invocation.depth = 1 ∧
      (∃ ins ∈ pushedBack.instructions, ∃ dst, ins.destination? = some dst ∧
        dst.place = .builtin .depth) := by
  intro f near back
  have hnear : nearby.Reachable := (Program.Reachable.new .fragment).foldl _
  have hback : pushedBack.Reachable := hnear.foldl _
  have hflag : nearby.writesDepth = false := by decide +kernel
  have hvalid : nearby.isInvalid = false := by decide +kernel
  have hraised : pushedBack.writesDepth = true := by decide +kernel
  have hvalid' : pushedBack.isInvalid = false := by decide +kernel
  obtain ⟨hfragment, -, hiff⟩ := Program.execute_writes hnear nearby.registers
  obtain ⟨-, -, hiff'⟩ := Program.execute_writes hback pushedBack.registers
  refine ⟨hnear, hvalid, hflag, by decide +kernel, (hfragment f).2 hflag, fun h => ?_, hback,
    hvalid', hraised, by decide +kernel, by decide +kernel, (hiff' hvalid').1 hraised⟩
  rw [(hiff hvalid).2 h] at hflag
  cases hflag

end Shading
