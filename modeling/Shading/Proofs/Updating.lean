import Shading.Proofs.Citing
import Shading.Proofs.Filling

/- Updates of the uniforms, exactly. A uniform is declared under a dot and an identifier, and the
   host is asked for the identifier (`Program.Reachable.hostName_eq`). What ends an update is the
   first thing in its way, found by going through the declarations and then through the
   instructions (`Program.fillUniforms_eq_find?`, `Program.badUniformJump?_eq_findSome?`).
   Together this says when an update goes through, what it fills, and what it reports and
   leaves alone when it does not (`Program.update_exact`). -/
namespace Shading

/-! ## Values that are the number of an instruction -/

/-- A value is an integer or a whole float, and the number of one of so many instructions, which
are counted from one. -/
def Value.LeadsInto (value : Value) (length : Nat) : Prop :=
  match value with
  | .int i => 1 ≤ i.toInt ∧ i.toInt ≤ length
  | .float s => Single.isWhole s = true ∧ 1 ≤ Single.truncate s ∧ Single.truncate s ≤ length
  | .bool _ | .vec _ => False

theorem isSome_jumpIndex?_iff {value : Value} {length : Nat} :
    (jumpIndex? value length).isSome = true ↔ value.LeadsInto length := by
  unfold jumpIndex? Value.LeadsInto
  cases value with
  | int i => simp [Value.whole?]
  | float s =>
    cases hwhole : Single.isWhole s <;> simp [Value.whole?, hwhole]
  | bool _ | vec _ => simp [Value.whole?]

namespace Program

variable {p : Program} {source : UniformSource}

/-! ## Uniforms by name -/

/-- A slot is that of a uniform, whose name has a dot in front. -/
def UniformAt (p : Program) (v : Nat) (name : String) : Prop :=
  p.declarations[v]? = some ⟨"." ++ name, true⟩

theorem hostName_dotted {name : String} (h : isIdentifier name.toList = true) :
    (⟨"." ++ name, true⟩ : Declaration).hostName = name := by
  have hkept : name.toList.dropWhile (· == '.') = name.toList := by
    cases hletters : name.toList with
    | nil => rfl
    | cons c rest =>
      have hc : c ≠ '.' := OperandName.not_dot_of_isIdentifier h c (by simp [hletters])
      exact List.dropWhile_cons_of_neg (by simpa using hc)
  rw [Declaration.hostName, toList_dotted, List.dropWhile_cons_of_pos (by decide), hkept,
    String.ofList_toList]

/-- What is declared as a uniform has a dot and an identifier for its name. -/
theorem Reachable.exists_uniformAt (hp : p.Reachable) {v : Nat} {d : Declaration}
    (hd : p.declarations[v]? = some d) (huniform : d.isUniform = true) :
    ∃ name, p.UniformAt v name ∧ isIdentifier name.toList = true ∧
      d = ⟨"." ++ name, true⟩ := by
  have hproper := hp.proper d (Array.mem_of_getElem? hd)
  rw [Declaration.Proper, huniform, if_pos rfl, OperandName.isUniform_iff] at hproper
  obtain ⟨name, hdotted, hidentifier⟩ := hproper
  have hname : d = ⟨"." ++ name, true⟩ := by rw [← hdotted, ← huniform]
  refine ⟨name, ?_, hidentifier, hname⟩
  rw [UniformAt, ← hname, hd]

/-- The host is asked for a uniform by its identifier. -/
theorem Reachable.hostName_eq (hp : p.Reachable) {v : Nat} {name : String}
    (h : p.UniformAt v name) : (⟨"." ++ name, true⟩ : Declaration).hostName = name := by
  have hproper := hp.proper _ (Array.mem_of_getElem? h)
  rw [Declaration.Proper, if_pos rfl, OperandName.isUniform, toList_dotted] at hproper
  exact hostName_dotted hproper

theorem Reachable.supplied_iff (hp : p.Reachable) : p.Supplied source ↔
    ∀ v name, p.UniformAt v name → (source name).isSome = true := by
  constructor
  · intro h v name hname
    have hvalue := h _ (Array.mem_of_getElem? hname) rfl
    rwa [hp.hostName_eq hname] at hvalue
  · intro h d hd huniform
    obtain ⟨v, hv⟩ := Array.mem_iff_getElem?.1 hd
    obtain ⟨name, hname, -, rfl⟩ := hp.exists_uniformAt hv huniform
    rw [hp.hostName_eq hname]
    exact h v name hname

/-- Where the host has a value for each uniform, each has its value. -/
theorem Reachable.filled_uniform (hp : p.Reachable) (h : p.Supplied source) {v : Nat}
    {name : String} (hname : p.UniformAt v name) :
    (p.filled source).slot? v = source name := by
  rw [filled_slot hp.wellFormed.tables.slots h hname, if_pos rfl, hp.hostName_eq hname]

/-- What belongs to no uniform is left alone, whether filling goes through or not. -/
theorem Reachable.filled_other (hp : p.Reachable) {v : Nat}
    (h : ∀ name, ¬p.UniformAt v name) : (p.filled source).slot? v = p.registers.slot? v := by
  refine fillUniforms_other fun d hd => eq_false_of_ne_true fun huniform => ?_
  obtain ⟨name, hname, -⟩ := hp.exists_uniformAt (mem_zipIdx.1 hd) huniform
  exact h name hname

/-- A jump through a uniform is one through a slot that is declared as such. -/
theorem Reachable.uniformAt_of_goto (hp : p.Reachable) {v : Nat}
    (hgoto : .goto (.uniform v) ∈ p.instructions) : ∃ name, p.UniformAt v name := by
  obtain ⟨d, hd, huniform⟩ := hp.wellFormed.fits _ hgoto
  obtain ⟨name, hname, -⟩ := hp.exists_uniformAt hd huniform
  exact ⟨name, hname⟩

/-! ## The first thing in the way -/

/-- What filling stops at is the first uniform without a value. -/
theorem fillUniforms_eq_find? (l : List (Declaration × Nat)) (r : Registers) :
    (fillUniforms source l r).2 =
      (l.find? fun e => e.1.isUniform && (source e.1.hostName).isNone).map (·.1.name) := by
  induction l generalizing r with
  | nil => rfl
  | cons e l ih =>
    obtain ⟨d, i⟩ := e
    cases hd : d.isUniform with
    | false => simp [fillUniforms_variable hd, ih, hd]
    | true =>
      cases hvalue : source d.hostName with
      | none => simp [fillUniforms_missing hd hvalue, hd, hvalue]
      | some value => simp [fillUniforms_uniform hd hvalue, ih, hvalue]

/-- The error of an instruction that jumps through a uniform out of the program. -/
def badJump? (p : Program) : Instruction → Option ProgramError
  | .goto (.uniform i) =>
    let value := (p.registers.slot? i).getD default
    if (jumpIndex? value p.length).isNone then
      some (.badJumpTarget (Single.truncate value.toFloat) p.length)
    else none
  | _ => none

theorem badJump?_eq_none_iff {v : Nat} : p.badJump? (.goto (.uniform v)) = none ↔
    ((p.registers.slot? v).getD default).LeadsInto p.length := by
  rw [← isSome_jumpIndex?_iff, badJump?]
  cases jumpIndex? ((p.registers.slot? v).getD default) p.length <;> simp

theorem badJump?_eq_some {v : Nat} {e : ProgramError}
    (h : p.badJump? (.goto (.uniform v)) = some e) :
    ¬((p.registers.slot? v).getD default).LeadsInto p.length ∧ e = .badJumpTarget
      (Single.truncate ((p.registers.slot? v).getD default).toFloat) p.length := by
  constructor
  · rw [← badJump?_eq_none_iff, h]
    exact Option.some_ne_none e
  · simp only [badJump?, Option.ite_none_right_eq_some, Option.some.injEq] at h
    exact h.2.symm

/-- What the check of the jumps stops at is the first that leads out of the program. -/
theorem badUniformJump?_eq_findSome? (l : List Instruction) :
    p.badUniformJump? l = l.findSome? p.badJump? := by
  induction l with
  | nil => rfl
  | cons ins l ih =>
    match ins with
    | .goto (.uniform i) =>
      simp only [badUniformJump?, List.findSome?_cons, badJump?]
      split <;> simp [ih]
    | .goto (.index _) | .operation _ | .discard | .ifThen _ | .elseIf _ | .otherwise | .endIf =>
      simp [badUniformJump?, List.findSome?_cons, badJump?, ih]

/-- The first uniform for which the host has no value. -/
structure FirstMissing (p : Program) (source : UniformSource) (v : Nat) (name : String) :
    Prop where
  uniform : p.UniformAt v name
  missing : source name = none
  before : ∀ w < v, ∀ name', p.UniformAt w name' → (source name').isSome = true

/-- The value that the host has for the first jump through a uniform that leads out of the
program. -/
structure FirstBadJump (p : Program) (source : UniformSource) (k : Nat) (value : Value) :
    Prop where
  jump : ∃ v name, p.instructions[k]? = some (.goto (.uniform v)) ∧ p.UniformAt v name ∧
    source name = some value
  outside : ¬value.LeadsInto p.length
  before : ∀ j < k, ∀ v name value', p.instructions[j]? = some (.goto (.uniform v)) →
    p.UniformAt v name → source name = some value' → value'.LeadsInto p.length

/-- If filling stops, it does so at the first uniform without a value. -/
theorem Reachable.firstMissing (hp : p.Reachable) {stopped : String}
    (h : (fillUniforms source p.declarations.toList.zipIdx p.registers).2 = some stopped) :
    ∃ v name, p.FirstMissing source v name ∧ stopped = "." ++ name := by
  rw [fillUniforms_eq_find?] at h
  obtain ⟨⟨d, i⟩, hfind, rfl⟩ := Option.map_eq_some_iff.1 h
  obtain ⟨hstops, v, hv, hentry, hbefore⟩ := List.find?_eq_some_iff_getElem.1 hfind
  obtain rfl : v = i := by simpa using congrArg Prod.snd hentry
  rw [Bool.and_eq_true, Option.isNone_iff_eq_none] at hstops
  have hd := mem_zipIdx.1 (List.mem_of_find?_eq_some hfind)
  obtain ⟨name, hname, hidentifier, rfl⟩ := hp.exists_uniformAt hd hstops.1
  rw [hostName_dotted hidentifier] at hstops
  refine ⟨v, name, ⟨hname, hstops.2, fun w hw name' hname' => ?_⟩, rfl⟩
  have hpassed := hbefore w hw
  have hlt : w < p.declarations.toList.zipIdx.length := Nat.lt_trans hw hv
  have hother : p.declarations.toList.zipIdx[w] = (⟨"." ++ name', true⟩, w) := by
    have hget : p.declarations.toList[w]? = some ⟨"." ++ name', true⟩ := by
      rw [Array.getElem?_toList, hname']
    have hentry' : p.declarations.toList.zipIdx[w]? = some (⟨"." ++ name', true⟩, w) := by
      rw [List.getElem?_zipIdx, hget, Option.map_some, Nat.zero_add]
    exact (List.getElem?_eq_some_iff.1 hentry').2
  simpa [hother, hp.hostName_eq hname', Option.isSome_iff_ne_none] using hpassed

theorem Reachable.firstBadJump (hp : p.Reachable) (hsupplied : p.Supplied source)
    {e : ProgramError}
    (h : (p.withFilled source).badUniformJump? p.instructions.toList = some e) :
    ∃ k value, p.FirstBadJump source k value ∧
      e = .badJumpTarget (Single.truncate value.toFloat) p.length := by
  have hleads : ∀ {v name value}, p.UniformAt v name → source name = some value →
      (((p.filled source).slot? v).getD default) = value := by
    intro v name value hname hvalue
    rw [hp.filled_uniform hsupplied hname, hvalue, Option.getD_some]
  rw [badUniformJump?_eq_findSome?] at h
  obtain ⟨before, ins, after, hcode, hbad, hgood⟩ := List.findSome?_eq_some_iff.1 h
  have hfetch : ∀ j, p.instructions[j]? = (before ++ ins :: after)[j]? := fun j => by
    rw [← hcode, Array.getElem?_toList]
  have hins : p.instructions[before.length]? = some ins := by simp [hfetch]
  cases ins with
  | goto target =>
    cases target with
    | uniform v =>
      obtain ⟨name, hname⟩ := hp.uniformAt_of_goto (Array.mem_of_getElem? hins)
      have hsome := hp.supplied_iff.1 hsupplied v name hname
      obtain ⟨value, hvalue⟩ := Option.isSome_iff_exists.1 hsome
      have hslot : ((p.withFilled source).registers.slot? v).getD default = value :=
        hleads hname hvalue
      obtain ⟨hout, rfl⟩ := badJump?_eq_some hbad
      rw [hslot] at hout ⊢
      refine ⟨before.length, value, ⟨⟨v, name, hins, hname, hvalue⟩, hout, ?_⟩, rfl⟩
      intro j hj w name' value' hjump hname' hvalue'
      have hmem : .goto (.uniform w) ∈ before := by
        rw [hfetch, List.getElem?_append_left hj] at hjump
        exact List.mem_of_getElem? hjump
      rw [← hleads hname' hvalue']
      exact badJump?_eq_none_iff.1 (hgood _ hmem)
    | index i => cases hbad
  | operation _ | discard | ifThen _ | elseIf _ | otherwise | endIf => cases hbad

/-! ## Updates -/

/-- The second program is the first but for its registers, and these but for the slots of
uniforms. -/
def SameButUniforms (p q : Program) : Prop :=
  ∃ r : Registers, q = { p with registers := r } ∧ r.anchors = p.registers.anchors ∧
    ∀ v, (∀ name, ¬p.UniformAt v name) → r.slot? v = p.registers.slot? v

theorem Reachable.withFilled_same (hp : p.Reachable) : p.SameButUniforms (p.withFilled source) :=
  ⟨p.filled source, rfl, filled_anchors, fun _ h => hp.filled_other h⟩

theorem Reachable.resolves_filled_iff (hp : p.Reachable) (hsupplied : p.Supplied source) :
    p.Resolves (p.filled source) ↔ ∀ v name value, .goto (.uniform v) ∈ p.instructions →
      p.UniformAt v name → source name = some value → value.LeadsInto p.length := by
  simp only [Resolves, isSome_jumpIndex?_iff]
  constructor
  · intro h v name value hgoto hname hvalue
    have hleads := h v hgoto
    rwa [hp.filled_uniform hsupplied hname, hvalue] at hleads
  · intro h v hgoto
    obtain ⟨name, hname⟩ := hp.uniformAt_of_goto hgoto
    have hsome := hp.supplied_iff.1 hsupplied v name hname
    obtain ⟨value, hvalue⟩ := Option.isSome_iff_exists.1 hsome
    rw [hp.filled_uniform hsupplied hname, hvalue]
    exact h v name value hgoto hname hvalue

/-- An update that fails leaves all but the uniforms alone and reports the first thing in its
way. -/
theorem Reachable.update_error (hp : p.Reachable) (hvalid : p.isInvalid = false)
    {e : ProgramError} (he : (p.updateUniforms source).result = .error e) :
    (∃ q, p.SameButUniforms q ∧
      (p.updateUniforms source).program = { q with isInvalid := true }) ∧
    ((∃ v name, p.FirstMissing source v name ∧ e = .unknownUniform ("." ++ name)) ∨
      (∀ v name, p.UniformAt v name → (source name).isSome = true) ∧
        ∃ k value, p.FirstBadJump source k value ∧
          e = .badJumpTarget (Single.truncate value.toFloat) p.length) := by
  rw [updateUniforms_of_valid hvalid] at he ⊢
  cases hfill : (fillUniforms source p.declarations.toList.zipIdx p.registers).2 with
  | some stopped =>
    rw [hfill] at he
    obtain rfl : .unknownUniform stopped = e := Except.error.inj he
    obtain ⟨v, name, hfirst, rfl⟩ := hp.firstMissing hfill
    exact ⟨⟨_, hp.withFilled_same, invalidate_program _ _⟩, .inl ⟨v, name, hfirst, rfl⟩⟩
  | none =>
    have hsupplied := fillUniforms_all_iff.1 hfill
    rw [hfill] at he
    cases hbad : (p.withFilled source).badUniformJump? p.instructions.toList with
    | none =>
      rw [hbad] at he
      cases he
    | some e' =>
      rw [hbad] at he
      obtain rfl : e' = e := Except.error.inj he
      exact ⟨⟨_, hp.withFilled_same, invalidate_program _ _⟩,
        .inr ⟨hp.supplied_iff.1 hsupplied, hp.firstBadJump hsupplied hbad⟩⟩

/-- An update of the uniforms is exact. It goes through if the program is not invalid, the host
has a value for each uniform under its name without the dot, and the value of each that is
jumped through is the number of an instruction. Then each uniform has its value, and nothing
else is changed. A program that is invalid is left alone. Otherwise the update makes the
program invalid and changes uniforms at most besides; it reports the first uniform without a
value, or if there is none, the first jump through a uniform that leads out of the program. -/
theorem update_exact (hp : p.Reachable) (source : UniformSource) :
    let done := p.updateUniforms source
    (∀ v d, p.declarations[v]? = some d → (d.isUniform = true ↔ ∃ name, p.UniformAt v name)) ∧
    (done.result = .ok () ↔ p.isInvalid = false ∧
      (∀ v name, p.UniformAt v name → (source name).isSome = true) ∧
      ∀ v name value, .goto (.uniform v) ∈ p.instructions → p.UniformAt v name →
        source name = some value → value.LeadsInto p.length) ∧
    (done.result = .ok () → p.SameButUniforms done.program ∧
      ∀ v name, p.UniformAt v name → done.program.registers.slot? v = source name) ∧
    (p.isInvalid = true → done.result = .error .invalidProgram ∧ done.program = p) ∧
    ∀ e, done.result = .error e → e ≠ .invalidProgram →
      (∃ q, p.SameButUniforms q ∧ done.program = { q with isInvalid := true }) ∧
      ((∃ v name, p.FirstMissing source v name ∧ e = .unknownUniform ("." ++ name)) ∨
        (∀ v name, p.UniformAt v name → (source name).isSome = true) ∧
          ∃ k value, p.FirstBadJump source k value ∧
            e = .badJumpTarget (Single.truncate value.toFloat) p.length) := by
  intro done
  refine ⟨fun v d hd => ⟨fun huniform => ?_, fun ⟨name, hname⟩ => ?_⟩, ?_, fun hok => ?_,
    fun hinvalid => ?_, fun e he hother => ?_⟩
  · obtain ⟨name, hname, -⟩ := hp.exists_uniformAt hd huniform
    exact ⟨name, hname⟩
  · obtain rfl := Option.some.inj (hd.symm.trans hname)
    rfl
  · rw [updateUniforms_eq_ok_iff]
    refine and_congr_right fun _ => ?_
    rw [← hp.supplied_iff]
    exact and_congr_right fun hsupplied => hp.resolves_filled_iff hsupplied
  · have hsupplied := (updateUniforms_eq_ok_iff.1 hok).2.1
    rw [show done = .ok () (p.withFilled source) from updateUniforms_of_ok hok]
    exact ⟨hp.withFilled_same, fun v name hname => hp.filled_uniform hsupplied hname⟩
  · simp [done, updateUniforms, hinvalid, Outcome.refuse]
  · have hvalid : p.isInvalid = false := eq_false_of_ne_true fun hinvalid =>
      hother (by simpa [done, updateUniforms, hinvalid, Outcome.refuse] using he.symm)
    exact hp.update_error hvalid he

/-- A program with a uniform that is both read and jumped through, a variable of the same
identifier, and another uniform. -/
def gauged : Program :=
  [.push "=" [.name "t", .name ".t"],
    .push "*=" [.name "t", .name ".gain"],
    .push "goto" [.name ".t"]].foldl edit (Program.new .fragment)

/-- A host with both values is accepted if the target lies in the program. The number four is
outside, and of two uniforms without a value the first is reported. -/
theorem update_exact_gauged :
    let host (t : Value) : UniformSource := fun name =>
      if name = "t" then some t else if name = "gain" then some (.float 2) else none
    let inside := gauged.updateUniforms (host (.float 3))
    let outside := gauged.updateUniforms (host (.int 4))
    let mute := gauged.updateUniforms fun _ => none
    gauged.Reachable ∧ gauged.UniformAt 1 "t" ∧ gauged.SameButUniforms inside.program ∧
      inside.program.registers.slot? 1 = some (.float 3) ∧
      outside.result = .error (.badJumpTarget 4 3) ∧
      (∃ k value, gauged.FirstBadJump (host (.int 4)) k value) ∧
      mute.result = .error (.unknownUniform ".t") ∧
      ∃ v name, gauged.FirstMissing (fun _ => none) v name ∧ "." ++ name = ".t" := by
  intro host inside outside mute
  have hreach : gauged.Reachable := (Reachable.new .fragment).foldl _
  have huniform : gauged.UniformAt 1 "t" := by unfold UniformAt; decide +kernel
  have hinside : inside.result = .ok () := by decide +kernel
  have houtside : outside.result = .error (.badJumpTarget 4 3) := by decide +kernel
  have hmute : mute.result = .error (.unknownUniform ".t") := by decide +kernel
  obtain ⟨-, -, hok, -, -⟩ := update_exact hreach (host (.float 3))
  obtain ⟨hsame, hslot⟩ := hok hinside
  obtain ⟨-, -, -, -, herror⟩ := update_exact hreach (host (.int 4))
  obtain ⟨-, -, -, -, herror'⟩ := update_exact hreach fun _ => none
  refine ⟨hreach, huniform, hsame, hslot 1 "t" huniform, houtside, ?_, hmute, ?_⟩
  · obtain ⟨-, ⟨_, _, _, h⟩ | ⟨-, k, value, hfirst, -⟩⟩ :=
      herror _ houtside (by simp)
    · cases h
    · exact ⟨k, value, hfirst⟩
  · obtain ⟨-, ⟨v, name, hfirst, h⟩ | ⟨-, _, _, _, h⟩⟩ := herror' _ hmute (by simp)
    · exact ⟨v, name, hfirst, (ProgramError.unknownUniform.inj h).symm⟩
    · cases h

end Program

end Shading
