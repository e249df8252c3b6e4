import Shading.Proofs.Insertion

/- Two programs that differ in one jump. In the first it goes to a fixed place; in the second
   it goes where a uniform says, which no other instruction names. The uniform takes up a
   slot, so each variable declared after it has a number higher by one
   (`Renaming.inserting`), and for the rest the programs are the same
   (`Program.Retargeted`). They stay so whatever else is pushed (`Retargeted.pushAll`),
   unless the first program uses up the numbers of variables, of which the second needs
   one more, and when they are sealed (`Retargeted.sealed`), as long as the fixed place is
   inside. A host that has a value for the uniform can fill the others in the one program
   if it can in the other (`Retargeted.update_iff`), and the files so filled are the same
   but for the one slot. -/
namespace Shading

/-! ## Pushing a jump -/

namespace Build

variable {p : Program}

theorem run_goto (arg : Argument) (p : Program) : (instruction "goto" [arg]).run p =
    match (jumpTarget (some arg)).run p with
    | (.ok target, q) => (.ok (.goto target), q)
    | (.error e, q) => (.error e, q) := by
  show ((do return .goto (← jumpTarget (some arg)) : Build Instruction) >>= fun ins => do
    require ([arg].length ≤ ins.operandCount) (.unsupportedOperands ins.name .tooMany)
    return ins).run p = _
  rw [run_bind, run_bind]
  rcases (jumpTarget (some arg)).run p with ⟨result, q⟩
  cases result <;> rfl

/-- A literal is a target exactly if it is the number of some instruction, perhaps of one to
come. -/
theorem run_jumpTarget_literal (k : Value) (mask : Mask) (p : Program) :
    (jumpTarget (some (.literal (k.operand mask)))).run p =
      match k.whole? with
      | some number => (fixedTarget number).run p
      | none => (.error (.unsupportedOperands "goto" .jumpTarget), p) := by
  cases k with
  | int i => rfl
  | float s =>
    simp only [Value.operand, jumpTarget, Value.whole?]
    split <;> rfl
  | bool _ | vec _ => rfl

/-- A new uniform is a target while there is a number for it. -/
theorem run_jumpTarget_uniform {u : String} (hu : OperandName.isUniform u = true)
    (hnew : p.slotOf? u = none) : (jumpTarget (some (.name u))).run p =
      if p.declarations.size < Program.capacity then
        (.ok (.uniform p.declarations.size), p.declare u true)
      else (.error .tooManyVariables, p) := by
  simp only [jumpTarget]
  rw [hu, run_bind]
  show ((slot u true >>= fun i => pure (.uniform i) : Build JumpTarget)).run p = _
  rw [run_bind, run_slot, hnew]
  dsimp only
  rw [run_declare]
  by_cases hroom : p.declarations.size < Program.capacity
  · rw [if_pos hroom, if_pos hroom]
    rfl
  · rw [if_neg hroom, if_neg hroom]

end Build

/-! ## Programs that differ in one jump -/

/-- Instructions that are the same but for the numbers of their slots, or jump to a fixed place
in the one program and through a uniform in the other. -/
inductive Instruction.Retargets (number : Nat → Nat) (j m : Nat) :
    Instruction → Instruction → Prop
  | same {ins ins' : Instruction} : ins' = ins.renumber number → Retargets number j m ins ins'
  | goto : Retargets number j m (.goto (.index j)) (.goto (.uniform m))

theorem Instruction.eq_goto_of_renumber {number : Nat → Nat} {ins : Instruction} {v : Nat}
    (h : ins.renumber number = .goto (.uniform v)) :
    ∃ w, ins = .goto (.uniform w) ∧ number w = v := by
  match ins, h with
  | .goto (.uniform w), h =>
    rw [renumber, JumpTarget.renumber] at h
    exact ⟨w, rfl, by simpa using h⟩
  | .goto (.index _), h => simp [renumber, JumpTarget.renumber] at h
  | .operation _, h | .discard, h | .ifThen _, h | .elseIf _, h | .otherwise, h | .endIf, h =>
    cases h

namespace Program

variable {ν : Renaming} {p q r p' q' : Program} {u : String} {m j : Nat}

theorem Renamed.append (h : p.Renamed ν q) {ins ins' : Instruction}
    (hbranch : ins'.isBranch = ins.isBranch) : (p.append ins).Renamed ν (q.append ins') :=
  { h with
    length := by
      have hlength : q.instructions.size = p.instructions.size := h.length
      simp only [Program.append, Program.length, Array.size_push, hlength]
    hasBranches := by rw [Program.append, Program.append, h.hasBranches, hbranch]
    isSealed := rfl }

/-- A new uniform behind the variables that are there. -/
theorem Tables.renamed_declare (h : p.Tables) (hnew : p.slotOf? u = none) :
    p.Renamed (.inserting u p.declarations.size) (p.declare u true) where
  toSameResources := ⟨rfl, rfl, rfl, rfl, rfl⟩
  stage := rfl
  length := rfl
  writesDepth := rfl
  hasBranches := rfl
  isSealed := rfl
  isInvalid := rfl
  registers := by
    have hsize := h.slots
    refine ⟨fun i => ?_, rfl⟩
    simp only [Registers.slot?, declare, Registers.addSlot, Array.getElem?_push, h.slots,
      if_neg (Renaming.number_ne i)]
    rcases Nat.lt_or_ge i p.declarations.size with hi | hi
    · rw [Renaming.number_of_lt hi]
    · rw [Renaming.number_of_le hi, Array.getElem?_eq_none (by omega),
        Array.getElem?_eq_none (by omega)]
  slots := h.slots
  slots' := by simp [declare, Registers.addSlot, h.slots]
  declared i := by
    simp only [declare, Array.getElem?_push, if_neg (Renaming.number_ne i)]
    rcases Nat.lt_or_ge i p.declarations.size with hi | hi
    -- the name is new, so the variables that are there have others
    · rw [Renaming.number_of_lt hi, Array.getElem?_eq_getElem hi]
      refine .some ⟨⟨rfl, ?_⟩, rfl⟩
      have hother := Array.findIdx?_eq_none_iff.1 hnew _ (Array.getElem_mem hi)
      simpa using hother
    · rw [Renaming.number_of_le hi, Array.getElem?_eq_none (by omega),
        Array.getElem?_eq_none (by omega)]
      exact .none
  slotOf? {a b} hname := by
    obtain ⟨rfl, hne⟩ := hname
    have hother : (u == b) = false := by simpa using Ne.symm hne
    simp only [slotOf?, declare, Array.findIdx?_push, hother, Bool.false_eq_true, if_false,
      Option.or_none]
    cases hslot : p.declarations.findIdx? fun d => d.name == b with
    | none => rfl
    | some i =>
      rw [Option.map_some, Renaming.number_of_lt (Array.findIdx?_eq_some_iff_getElem.1 hslot).1]
  next n hn := by
    rw [Renaming.number_of_le hn]
    simp only [declare, Array.size_push]
    omega

theorem accepted?_goto (p : Program) (arg : Argument) : (p.push "goto" [arg]).accepted? =
    if p.isInvalid then none
    else
      match (Build.jumpTarget (some arg)).run p with
      | (.ok target, r) => some (r.append (.goto target))
      | (.error _, _) => none := by
  rw [accepted?_push, Build.run_goto]
  rcases (Build.jumpTarget (some arg)).run p with ⟨result, r⟩
  cases result <;> rfl

/-- A jump to a fixed place is accepted if the place has a number. -/
theorem push_goto_fixed (hvalid : p.isInvalid = false) {k : Value} {number : Int}
    (hwhole : k.whole? = some number) (hnumber : 1 ≤ number) (mask : Mask) :
    (p.push "goto" [.literal (k.operand mask)]).accepted? =
      some (p.append (.goto (.index (number - 1).toNat))) := by
  rw [accepted?_goto, hvalid, Build.run_jumpTarget_literal, hwhole]
  dsimp only
  rw [Build.run_fixedTarget, if_pos hnumber]
  rfl

/-- A jump through a new uniform is accepted while there is a number for the uniform. -/
theorem push_goto_uniform (hu : OperandName.isUniform u = true) (hnew : p.slotOf? u = none)
    (hvalid : p.isInvalid = false) (hroom : p.declarations.size < capacity) :
    (p.push "goto" [.name u]).accepted? =
      some ((p.declare u true).append (.goto (.uniform p.declarations.size))) := by
  rw [accepted?_goto, hvalid, Build.run_jumpTarget_uniform hu hnew, if_pos hroom]
  rfl

/-- There is always a new uniform: one of a longer name than any variable has. -/
theorem exists_newUniform (p : Program) :
    ∃ u, OperandName.isUniform u = true ∧ p.slotOf? u = none := by
  let n := (p.declarations.toList.map fun d => d.name.length).max?.getD 0
  refine ⟨String.ofList ('.' :: List.replicate (n + 1) 'v'), ?_, ?_⟩
  · simp [OperandName.isUniform, List.replicate_succ, isIdentifier, isIdentifierStart]
  · refine Array.findIdx?_eq_none_iff.2 fun d hd => beq_eq_false_iff_ne.2 fun hname => ?_
    have hle : d.name.length ≤ n :=
      List.le_max?_getD_of_mem (List.mem_map_of_mem (Array.mem_toList_iff.2 hd))
    rw [hname, String.length_ofList, List.length_cons, List.length_replicate] at hle
    omega

/-- All numbers can be taken: programs with as many variables are reached, and valid. -/
theorem exists_size_declarations (stage : Stage) {n : Nat} (hn : n ≤ capacity) :
    ∃ p : Program, p.Reachable ∧ p.isInvalid = false ∧ p.declarations.size = n := by
  induction n with
  | zero => exact ⟨_, .new stage, rfl, rfl⟩
  | succ n ih =>
    obtain ⟨p, hp, hvalid, rfl⟩ := ih (Nat.le_of_succ_le hn)
    obtain ⟨u, hu, hnew⟩ := p.exists_newUniform
    have hpush := push_goto_uniform hu hnew hvalid hn
    have hq := hp.edit (.push "goto" [.name u])
    rw [edit, Outcome.program_of_accepted hpush] at hq
    exact ⟨_, hq, hvalid, Array.size_push _⟩

theorem JumpsThrough.start (hp : p.WellFormed) (hu : OperandName.isUniform u = true)
    (hnew : p.slotOf? u = none) (hvalid : p.isInvalid = false)
    (hroom : p.declarations.size < capacity) :
    JumpsThrough u p.declarations.size
      ((p.declare u true).append (.goto (.uniform p.declarations.size))) where
  wellFormed :=
    Outcome.program_of_accepted (push_goto_uniform hu hnew hvalid hroom) ▸ hp.push _ _
  jump := Array.mem_push_self
  declared := Array.getElem?_push_size

/-- The second program jumps through a uniform where the first jumps to a fixed place, and is
the same for the rest. -/
structure Retargeted (u : String) (m j : Nat) (p q : Program) : Prop
    extends p.Renamed (.inserting u m) q where
  wellFormed : p.WellFormed
  through : JumpsThrough u m q
  fixed : .goto (.index j) ∈ p.instructions
  code : List.Forall₂ (Instruction.Retargets (Renaming.inserting u m).number j m)
    p.instructions.toList q.instructions.toList

namespace Retargeted

theorem fetch (h : Retargeted u m j p q) (n : Nat) :
    Option.Rel (Instruction.Retargets (Renaming.inserting u m).number j m)
      p.instructions[n]? q.instructions[n]? := by
  rw [← Array.getElem?_toList, ← Array.getElem?_toList]
  exact rel_getElem? h.code n

/-- The jumps as they are pushed. -/
theorem start (hp : p.WellFormed) (hu : OperandName.isUniform u = true)
    (hnew : p.slotOf? u = none) (hvalid : p.isInvalid = false)
    (hroom : p.declarations.size < capacity) {k : Value} {number : Int}
    (hwhole : k.whole? = some number) (hnumber : 1 ≤ number) (mask : Mask) :
    ∃ p' q', (p.push "goto" [.literal (k.operand mask)]).accepted? = some p' ∧
      (p.push "goto" [.name u]).accepted? = some q' ∧
      Retargeted u p.declarations.size (number - 1).toNat p' q' := by
  have hfixed := push_goto_fixed hvalid hwhole hnumber mask
  have hthrough := push_goto_uniform hu hnew hvalid hroom
  refine ⟨_, _, hfixed, hthrough, ?_⟩
  exact {
    toRenamed := (hp.tables.renamed_declare hnew).append rfl
    wellFormed := Outcome.program_of_accepted hfixed ▸ hp.push _ _
    through := JumpsThrough.start hp hu hnew hvalid hroom
    fixed := Array.mem_push_self
    code := by
      simp only [append, declare, Array.toList_push]
      refine List.rel_append (List.forall₂_same.2 fun ins hins => ?_) (.cons .goto .nil)
      -- what is there fits the program, so it names no slot whose number would change
      have hfits := hp.fits ins (Array.mem_toList_iff.1 hins)
      have hsame : ins.renumber (Renaming.inserting u p.declarations.size).number = ins :=
        hfits.renumber_eq fun i hi => Renaming.number_of_lt hi
      exact .same hsame.symm }

/-- A line that does not mention the uniform is accepted for both or for neither, unless it
leaves the first program no number that the second would need. -/
theorem push (h : Retargeted u m j p q) {name : String} {args : List Argument}
    (hargs : ∀ arg ∈ args, ¬arg.Mentions u) :
    Option.Rel (Retargeted u m j) (p.push name args).accepted? (q.push name args).accepted? ∨
      (q.push name args).result = .error .tooManyVariables ∧
        ∀ r, (p.push name args).accepted? = some r → capacity ≤ r.declarations.size := by
  have hstep := (Build.instruction_inStep (Renaming.lines_inserting hargs m name)).step p q
    h.toRenamed
  have hgrows := Build.grows_instruction h.wellFormed.tables name args
  have hgrows' := Build.grows_instruction h.through.wellFormed.tables name args
  cases hvalid : p.isInvalid with
  | true =>
    rw [accepted?_push, accepted?_push, h.isInvalid, hvalid]
    exact .inl .none
  | false =>
    rw [accepted?_push, accepted?_push, Program.push, h.isInvalid, hvalid]
    rcases hrun : (Build.instruction name args).run p with ⟨result, r⟩
    rcases hrun' : (Build.instruction name args).run q with ⟨result', r'⟩
    rw [hrun, hrun'] at hstep
    rw [hrun] at hgrows
    rw [hrun'] at hgrows'
    have hcode : r.instructions = p.instructions := hgrows.instructions
    have hcode' : r'.instructions = q.instructions := hgrows'.instructions
    rcases hstep with ⟨hprogram, hanswer⟩ | ⟨hfull, hsize⟩
    · refine .inl ?_
      cases hanswer with
      | error => exact .none
      | @ok ins _ hins =>
        obtain rfl := hins
        have hp := push_accepted_iff.2 ⟨hvalid, ins, r, hrun, rfl⟩
        have hq := push_accepted_iff.2 ⟨h.isInvalid.trans hvalid, _, r', hrun', rfl⟩
        exact .some {
          toRenamed := hprogram.append (by cases ins <;> rfl)
          wellFormed := Outcome.program_of_accepted hp ▸ h.wellFormed.push _ _
          through := h.through.push hq
          fixed := Array.mem_push_of_mem _ (hcode ▸ h.fixed)
          code := by
            simp only [append, hcode, hcode', Array.toList_push]
            exact List.rel_append h.code (.cons (.same rfl) .nil) }
    · obtain rfl : result' = .error .tooManyVariables := hfull
      have hbound : capacity ≤ r.declarations.size :=
        Nat.le_of_lt_succ (hsize.trans_le (Renaming.number_le_succ u m _))
      refine .inr ⟨rfl, fun s hs => ?_⟩
      cases result with
      | error e => cases hs
      | ok ins =>
        obtain rfl := Option.some.inj hs
        exact hbound

end Retargeted

/-- The check makes no difference between a jump to a place inside the program and one through
a uniform. -/
theorem checkBlocks_retargets {number : Nat → Nat} {n : Nat} (hj : j < n)
    {l l' : List Instruction} (h : List.Forall₂ (Instruction.Retargets number j m) l l')
    (depth : Nat) : checkBlocks n depth l' = checkBlocks n depth l := by
  induction h generalizing depth with
  | nil => rfl
  | @cons ins ins' l l' hins _ ih =>
    cases hins with
    | goto => simp only [checkBlocks, if_pos hj, ih]
    | same hsame =>
      subst hsame
      match ins with
      | .operation _ | .discard | .ifThen _ | .goto (.uniform _) =>
        simp only [Instruction.renumber, JumpTarget.renumber, checkBlocks, ih]
      | .goto (.index i) =>
        simp only [Instruction.renumber, JumpTarget.renumber, checkBlocks, ih]
      | .elseIf _ | .otherwise | .endIf =>
        cases depth with
        | zero => simp only [Instruction.renumber, checkBlocks]
        | succ depth => simp only [Instruction.renumber, checkBlocks, ih]

theorem any_isBranch_retargets {number : Nat → Nat} {l l' : List Instruction}
    (h : List.Forall₂ (Instruction.Retargets number j m) l l') :
    l'.any Instruction.isBranch = l.any Instruction.isBranch := by
  induction h with
  | nil => rfl
  | @cons ins ins' _ _ hins _ ih =>
    have hbranch : ins'.isBranch = ins.isBranch := by
      cases hins with
      | goto => rfl
      | same hsame =>
        subst hsame
        cases ins <;> rfl
    rw [List.any_cons, List.any_cons, hbranch, ih]

namespace Retargeted

theorem sealed (h : Retargeted u m j p q) (hj : j < p.length) :
    Option.Rel (Retargeted u m j) p.seal.accepted? q.seal.accepted? := by
  have hcheck : q.checkStructure = p.checkStructure := by
    rw [checkStructure, checkStructure, h.length, checkBlocks_retargets hj h.code]
  have hbranches : q.instructions.any Instruction.isBranch =
      p.instructions.any Instruction.isBranch := by
    rw [← Array.any_toList, ← Array.any_toList, any_isBranch_retargets h.code]
  have hsealed : p.asSealed.Renamed (.inserting u m) q.asSealed :=
    { h.toRenamed with hasBranches := hbranches, isSealed := rfl }
  cases hvalid : p.isInvalid with
  | true =>
    rw [accepted?_seal, accepted?_seal, h.isInvalid, hvalid]
    exact .none
  | false =>
    cases hok : p.checkStructure with
    | error e =>
      rw [accepted?_seal, accepted?_seal, hcheck, hok, h.isInvalid, hvalid]
      exact .none
    | ok _ =>
      have hp := seal_accepted_iff.2 ⟨hvalid, hok, rfl⟩
      have hq := seal_accepted_iff.2 ⟨h.isInvalid.trans hvalid, hcheck.trans hok, rfl⟩
      rw [hp, hq]
      exact .some {
        toRenamed := hsealed
        wellFormed := Outcome.program_of_accepted hp ▸ h.wellFormed.sealed
        through := h.through.sealed hq
        fixed := h.fixed
        code := h.code }

/-! ## Filling the uniforms -/

variable {k : Value} {source : UniformSource}

/-- The variables of the first program are those of the second but for the uniform. -/
theorem declarations (h : Retargeted u m j p q) (i : Nat) :
    q.declarations[(Renaming.inserting u m).number i]? = p.declarations[i]? := by
  refine (eq_map_of_rel (h.declared i) (g := id) fun d d' hsame => ?_).trans (Option.map_id' ..)
  obtain ⟨⟨hname, -⟩, huniform⟩ := hsame
  obtain ⟨name, isUniform⟩ := d
  obtain ⟨name', isUniform'⟩ := d'
  obtain rfl : name' = name := hname
  obtain rfl : isUniform' = isUniform := huniform
  rfl

/-- A host that knows the uniform has a value for each uniform of the one program if it has
for each of the other. -/
theorem supplied_iff (h : Retargeted u m j p q)
    (hsource : source (Declaration.mk u true).hostName = some k) :
    q.Supplied source ↔ p.Supplied source := by
  constructor
  · intro hq d hd
    obtain ⟨i, hi⟩ := Array.mem_iff_getElem?.1 hd
    exact hq d (Array.mem_of_getElem? ((h.declarations i).trans hi))
  · intro hp d hd
    obtain ⟨i, hi⟩ := Array.mem_iff_getElem?.1 hd
    by_cases him : i = m
    · obtain rfl : d = ⟨u, true⟩ :=
        Option.some.inj (hi.symm.trans (him ▸ h.through.declared))
      rw [hsource]
      exact fun _ => rfl
    · obtain ⟨i', rfl⟩ := Renaming.exists_number (u := u) him
      rw [h.declarations] at hi
      exact hp d (Array.mem_of_getElem? hi)

/-- The files so filled are the same but for the slot of the uniform. -/
theorem filled (h : Retargeted u m j p q)
    (hsource : source (Declaration.mk u true).hostName = some k) (hp : p.Supplied source) :
    (p.filled source).Renumbers (Renaming.inserting u m).number (q.filled source) where
  slots i := by
    have hq := (h.supplied_iff hsource).2 hp
    cases hd : p.declarations[i]? with
    | none =>
      rw [filled_undeclared hd, filled_undeclared ((h.declarations i).trans hd)]
      exact h.registers.slots i
    | some d =>
      rw [filled_slot h.slots hp hd, filled_slot h.slots' hq ((h.declarations i).trans hd),
        h.registers.slots i]
  anchors := by
    rw [filled_anchors, filled_anchors]
    exact h.registers.anchors

theorem withFilled (h : Retargeted u m j p q)
    (hsource : source (Declaration.mk u true).hostName = some k) (hp : p.Supplied source) :
    Retargeted u m j (p.withFilled source) (q.withFilled source) :=
  { h with
    registers := h.filled hsource hp
    slots := (h.wellFormed.withFilled source).tables.slots
    slots' := (h.through.wellFormed.withFilled source).tables.slots
    wellFormed := h.wellFormed.withFilled source
    through := ⟨h.through.wellFormed.withFilled source, h.through.jump, h.through.declared⟩ }

/-- The jumps through a uniform are those of the first program and the one that is new. -/
theorem goto_iff (h : Retargeted u m j p q) (v : Nat) :
    .goto (.uniform v) ∈ q.instructions ↔ v = m ∨ ∃ w, .goto (.uniform w) ∈ p.instructions ∧
      v = (Renaming.inserting u m).number w := by
  constructor
  · intro hv
    obtain ⟨n, hn⟩ := Array.mem_iff_getElem?.1 hv
    obtain ⟨ins, hins, hretargets⟩ := exists_rel_left (h.fetch n) hn
    cases hretargets with
    | goto => exact .inl rfl
    | same hsame =>
      obtain ⟨w, rfl, rfl⟩ := Instruction.eq_goto_of_renumber hsame.symm
      exact .inr ⟨w, Array.mem_of_getElem? hins, rfl⟩
  · rintro (rfl | ⟨w, hw, rfl⟩)
    · exact h.through.jump
    · obtain ⟨n, hn⟩ := Array.mem_iff_getElem?.1 hw
      obtain ⟨ins', hins', hretargets⟩ := exists_rel_right (h.fetch n) hn
      cases hretargets with
      | same hsame =>
        subst hsame
        exact Array.mem_of_getElem? hins'

/-- With the uniforms filled, the jumps of the second program lead into it if those of the
first do, and the uniform says where the first one goes. -/
theorem resolves_iff (h : Retargeted u m j p q)
    (hsource : source (Declaration.mk u true).hostName = some k) (hp : p.Supplied source)
    (hjump : jumpIndex? k p.length = some j) :
    q.Resolves (q.filled source) ↔ p.Resolves (p.filled source) := by
  have hfilled := h.filled hsource hp
  have hthrough : (q.filled source).slot? m = some k :=
    h.through.filled_slot hsource ((h.supplied_iff hsource).2 hp)
  constructor
  · intro hq v hv
    have hv' := hq _ ((h.goto_iff _).2 (.inr ⟨v, hv, rfl⟩))
    rwa [hfilled.slots, h.length] at hv'
  · intro hp v hv
    rcases (h.goto_iff v).1 hv with rfl | ⟨w, hw, rfl⟩
    · rw [hthrough, Option.getD_some, h.length, hjump]
      rfl
    · rw [hfilled.slots, h.length]
      exact hp w hw

/-- An update of the one program is accepted if one of the other is, where the uniform says
where the first one goes. -/
theorem update_iff (h : Retargeted u m j p q)
    (hsource : source (Declaration.mk u true).hostName = some k)
    (hjump : jumpIndex? k p.length = some j) :
    (q.updateUniforms source).result = .ok () ↔ (p.updateUniforms source).result = .ok () := by
  rw [updateUniforms_eq_ok_iff, updateUniforms_eq_ok_iff, h.isInvalid, h.supplied_iff hsource]
  exact and_congr_right fun _ => and_congr_right fun hp => h.resolves_iff hsource hp hjump

/-! ## From the jump to the end of the program -/

end Retargeted

end Program

end Shading
