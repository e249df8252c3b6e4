import Shading.Proofs.Citing

/- What becomes of a push. A push that is accepted appends the instruction that the builder made
   of its operands, and neither later pushes nor whatever else is done to the program
   alters it (`Program.edits_code`). Numbers do not drift either: a slot goes on having the
   name, and a number of a resource goes on leading to the handle
   (`Program.pushes_standsFor`). Two operands have one number exactly if they are the same
   name or the same resource, whichever pushes they come from, because names and handles
   are told apart in the tables (`Argument.StandsFor.resource_eq_iff`,
   `Argument.StandsFor.slot_eq_iff`), and as no table outgrows its numbers sixteen bits are
   enough to hold them (`Argument.StandsFor.slot_toUInt16`). -/
namespace Shading

variable {p q : Program} {given : List Argument}

/-! ## Numbers and what they stand for -/

theorem Part.slot?_of_resource? {part : Part} {r : ResourceKind × Nat}
    (h : part.resource? = some r) : part.slot? = none := by
  unfold resource? at h
  split at h <;> first | rfl | cases h

namespace Program

theorem kept?_kind {kind : ResourceKind} {id : Nat} {a : Argument}
    (h : p.kept? (kind, id) = some a) : ∃ key, a.identity? = some (kind, key) := by
  cases kind <;> obtain ⟨handle, -, rfl⟩ := Option.map_eq_some_iff.1 h <;> exact ⟨_, rfl⟩

theorem lt_of_kept? {r : ResourceKind × Nat} {a : Argument} (hp : p.Tables)
    (h : p.kept? r = some a) : r.2 < capacity := by
  obtain ⟨kind, id⟩ := r
  cases kind <;> obtain ⟨handle, hhandle, -⟩ := Option.map_eq_some_iff.1 h <;>
    obtain ⟨hlt, -⟩ := Array.getElem?_eq_some_iff.1 hhandle
  · exact hlt.trans_le hp.textures
  · exact hlt.trans_le hp.matrices
  · exact hlt.trans_le hp.interpolated
  · exact hlt.trans_le hp.attributes

namespace Filed

theorem kept_given (h : p.Filed given) {r : ResourceKind × Nat} {a : Argument}
    (ha : p.kept? r = some a) : a ∈ given := by
  obtain ⟨kind, id⟩ := r
  cases kind <;> obtain ⟨handle, hhandle, rfl⟩ := Option.map_eq_some_iff.1 ha
  · exact h.textures.given hhandle
  · exact h.matrices.given hhandle
  · exact h.interpolated.given hhandle
  · exact h.attributes.given hhandle

/-- A resource is kept under one number. -/
theorem kept_injective (h : p.Filed given) {r r' : ResourceKind × Nat} {a a' : Argument}
    (ha : p.kept? r = some a) (ha' : p.kept? r' = some a') (hsame : a.identity? = a'.identity?) :
    r = r' := by
  obtain ⟨kind, id⟩ := r
  obtain ⟨kind', id'⟩ := r'
  obtain ⟨key, hkey⟩ := kept?_kind ha
  obtain ⟨key', hkey'⟩ := kept?_kind ha'
  obtain ⟨rfl, rfl⟩ : kind = kind' ∧ key = key' := by simpa [hkey, hkey'] using hsame
  cases kind
  all_goals
    obtain ⟨handle, hhandle, rfl⟩ := Option.map_eq_some_iff.1 ha
    obtain ⟨handle', hhandle', rfl⟩ := Option.map_eq_some_iff.1 ha'
    have hkeys : handle.key = handle'.key := by
      simp only [Argument.identity?, Option.some.injEq, Prod.mk.injEq, true_and] at hkey hkey'
      rw [hkey, hkey']
  · rw [h.textures.distinct hhandle hhandle' hkeys]
  · rw [h.matrices.distinct hhandle hhandle' hkeys]
  · rw [h.interpolated.distinct hhandle hhandle' hkeys]
  · rw [h.attributes.distinct hhandle hhandle' hkeys]

end Filed

end Program

namespace Argument.StandsFor

variable {a a' : Argument} {part part' : Part}

/-- The number of a resource leads to one of the same identity. -/
theorem kept (h : a.StandsFor p part) {r : ResourceKind × Nat} (hr : part.resource? = some r) :
    ∃ kept, p.kept? r = some kept ∧ kept.identity? = a.identity? := by
  cases h with
  | resource hr' hkept hidentity =>
    obtain rfl := Option.some.inj (hr.symm.trans hr')
    exact ⟨_, hkept, hidentity⟩
  | name _ _ | literal _ | relation _ | number _ _ _ | uniform _ _ => cases hr

/-- The slot of a name has its base. -/
theorem named (h : a.StandsFor p part) {i : Nat} (hi : part.slot? = some i) :
    ∃ base, a.base? = some base ∧ (Place.slot i).IsNamed p base := by
  cases h with
  | @name text name place hparse hplace =>
    cases place with
    | builtin b => cases hi
    | slot j =>
      obtain rfl : j = i := Option.some.inj hi
      exact ⟨name.base, by rw [base?, hparse, Option.map_some], hplace⟩
  | @uniform text j huniform hplace =>
    obtain rfl : j = i := Option.some.inj hi
    refine ⟨text, ?_, hplace⟩
    rw [base?, OperandName.parse?_of_isUniform huniform, Option.map_some]
  | resource hr _ _ =>
    rw [Part.slot?_of_resource? hr] at hi
    cases hi
  | literal _ | relation _ | number _ _ _ => cases hi

/-- Two operands have one number exactly if they are the same resource. -/
theorem resource_eq_iff (hp : p.Filed given) (h : a.StandsFor p part)
    (h' : a'.StandsFor p part') {r r' : ResourceKind × Nat} (hr : part.resource? = some r)
    (hr' : part'.resource? = some r') : r = r' ↔ a.identity? = a'.identity? := by
  obtain ⟨kept, hkept, hidentity⟩ := h.kept hr
  obtain ⟨kept', hkept', hidentity'⟩ := h'.kept hr'
  rw [← hidentity, ← hidentity']
  constructor
  · rintro rfl
    obtain rfl := Option.some.inj (hkept.symm.trans hkept')
    rfl
  · exact hp.kept_injective hkept hkept'

/-- Two names have one slot exactly if they have the same base. -/
theorem slot_eq_iff (hp : p.Tables) (h : a.StandsFor p part) (h' : a'.StandsFor p part')
    {i j : Nat} (hi : part.slot? = some i) (hj : part'.slot? = some j) :
    i = j ↔ a.base? = a'.base? := by
  obtain ⟨base, hbase, hnamed⟩ := h.named hi
  obtain ⟨base', hbase', hnamed'⟩ := h'.named hj
  rw [hbase, hbase', Option.some.injEq]
  constructor
  · rintro rfl
    obtain ⟨d, hd, rfl⟩ := hnamed
    obtain ⟨d', hd', rfl⟩ := hnamed'
    rw [Option.some.inj (hd.symm.trans hd')]
  · rintro rfl
    exact hp.isNamed_injective hnamed hnamed'

/-- Sixteen bits hold the number of a resource. -/
theorem resource_toUInt16 (hp : p.Tables) (h : a.StandsFor p part) {r : ResourceKind × Nat}
    (hr : part.resource? = some r) : r.2.toUInt16.toNat = r.2 := by
  obtain ⟨_, hkept, -⟩ := h.kept hr
  exact UInt16.toNat_ofNat_of_lt (Program.lt_of_kept? hp hkept)

/-- Sixteen bits hold the number of a slot. -/
theorem slot_toUInt16 (hp : p.Tables) (h : a.StandsFor p part) {i : Nat}
    (hi : part.slot? = some i) : i.toUInt16.toNat = i := by
  obtain ⟨_, -, d, hd, -⟩ := h.named hi
  obtain ⟨hlt, -⟩ := Array.getElem?_eq_some_iff.1 hd
  exact UInt16.toNat_ofNat_of_lt (hlt.trans_le hp.declarations)

end Argument.StandsFor

/-- Among some operands, those that hand in a resource of the same identity hand in the same
object. -/
def Argument.Identified (given : List Argument) : Prop :=
  ∀ a ∈ given, ∀ b ∈ given, ∀ identity, a.identity? = some identity →
    b.identity? = some identity → a = b

namespace Program

/-! ## The pushes of a history -/

/-- A push that was accepted: what was written, the number that it answered, and the
instruction that the builder made. -/
structure Push where
  name : String
  args : List Argument
  number : Nat
  built : Instruction

/-- The operands of a push, each with the part that was made for it. -/
def Push.citations (push : Push) : List (Argument × Part) := push.args.zip push.built.parts

/-- The push that an edit is, if it is one and is accepted. -/
def pushed? (p : Program) : Edit → Option Push
  | .push name args =>
    match (p.push name args).result, ((Build.instruction name args).run p).1 with
    | .ok number, .ok ins => some ⟨name, args, number, ins⟩
    | _, _ => none
  | _ => none

/-- The pushes among some edits that are accepted, in order. -/
def pushes : Program → List Edit → List Push
  | _, [] => []
  | p, e :: rest => (p.pushed? e).toList ++ (p.edit e).pushes rest

theorem pushes_append (edits more : List Edit) :
    p.pushes (edits ++ more) = p.pushes edits ++ (edits.foldl edit p).pushes more := by
  induction edits generalizing p with
  | nil => rfl
  | cons e edits ih => rw [List.cons_append, pushes, ih, ← List.append_assoc]; rfl

theorem GrownBy.instructions (h : p.GrownBy given q) : q.instructions = p.instructions := by
  induction h with
  | refl => rfl
  | tail _ hstep ih => cases hstep <;> exact ih

/-- An edit appends an instruction as an accepted push, made of parts that the operands stand
for. -/
structure Appends (p : Program) (e : Edit) (push : Push) : Prop where
  code : (p.edit e).instructions = p.instructions.push push.built
  number : push.number = p.length + 1
  standsFor : List.Forall₂ (Argument.StandsFor (p.edit e)) push.args push.built.parts

theorem invalidate_instructions (p : Program) (reason : ProgramError) :
    (p.invalidate reason).1.instructions = p.instructions := by
  rw [invalidate_program]

theorem executeInPlace_instructions {ι : Type} [Invocation ι] (p : Program) (i : ι) :
    (p.executeInPlace i).program.instructions = p.instructions := by
  rcases execute_program i p.registers with h | ⟨reason, h⟩
  · rw [executeInPlace, h]
  · rw [executeInPlace, h]
    exact invalidate_instructions p reason

/-- A push is accepted, or leaves the instructions alone. -/
theorem push_appends (p : Program) (name : String) (args : List Argument) :
    (∃ push, p.pushed? (.push name args) = some push ∧ p.Appends (.push name args) push) ∨
      p.pushed? (.push name args) = none ∧
        (p.push name args).program.instructions = p.instructions := by
  cases hvalid : p.isInvalid with
  | true =>
    refine .inr ⟨?_, ?_⟩ <;> simp [pushed?, push, hvalid, Outcome.refuse]
  | false =>
    obtain ⟨hgrown, hmade⟩ :=
      Build.instruction_makes name (List.Subset.refl args) p (.refl p)
    rcases hrun : (Build.instruction name args).run p with ⟨result, q⟩
    rw [hrun] at hgrown hmade
    cases result with
    | error e =>
      refine .inr ⟨?_, ?_⟩
      · simp [pushed?, push, hvalid, hrun, Outcome.fail]
      · have hpush : (p.push name args).program = (q.invalidate e).1 := by
          simp [push, hvalid, hrun, Outcome.fail]
        rw [hpush, invalidate_instructions, hgrown.instructions]
    | ok ins =>
      have hpush : p.push name args = .ok (q.length + 1) (q.append ins) := by
        simp [push, hvalid, hrun]
      refine .inl ⟨⟨name, args, q.length + 1, ins⟩, ?_, ?_⟩
      · simp [pushed?, hpush, hrun, Outcome.ok]
      · have hedit : p.edit (.push name args) = q.append ins := by rw [edit, hpush]; rfl
        constructor
        · rw [hedit, ← hgrown.instructions]
          rfl
        · rw [length, hgrown.instructions]
          rfl
        · rw [hedit]
          exact (hmade ins rfl).imp fun _ _ h => h.mono { Offers.refl q with }

/-- Unless it starts over, an edit is an accepted push, or leaves the instructions alone. -/
theorem edit_appends {e : Edit} (he : e ≠ .reset) :
    (∃ push, p.pushed? e = some push ∧ p.Appends e push) ∨
      p.pushed? e = none ∧ (p.edit e).instructions = p.instructions := by
  match e with
  | .push name args => exact p.push_appends name args
  | .seal =>
    refine .inr ⟨rfl, ?_⟩
    simp only [edit, Program.seal]
    split
    · rfl
    · split
      · exact invalidate_instructions p _
      · rfl
  | .reset => exact absurd rfl he
  | .withColor color => exact .inr ⟨rfl, rfl⟩
  | .updateUniforms source =>
    refine .inr ⟨rfl, ?_⟩
    simp only [edit, Program.updateUniforms]
    split
    · rfl
    · split
      · exact invalidate_instructions _ _
      · split
        · exact invalidate_instructions _ _
        · rfl
  | .invalidate reason => exact .inr ⟨rfl, invalidate_instructions p reason⟩
  | .runFragment f => exact .inr ⟨rfl, executeInPlace_instructions p f⟩
  | .runVertex v => exact .inr ⟨rfl, executeInPlace_instructions p v⟩

/-- The instructions are what was built by the accepted pushes, in order, behind those that were
there. -/
theorem edits_code {edits : List Edit} (hedits : .reset ∉ edits) :
    (edits.foldl edit p).instructions.toList =
      p.instructions.toList ++ (p.pushes edits).map Push.built := by
  induction edits generalizing p with
  | nil => simp [pushes]
  | cons e edits ih =>
    rw [List.mem_cons, not_or] at hedits
    rw [List.foldl_cons, ih hedits.2, pushes]
    rcases edit_appends (p := p) (Ne.symm hedits.1) with ⟨push, hpushed, happends⟩ | ⟨hnone, hcode⟩
    · rw [hpushed, happends.code]
      simp
    · rw [hnone, hcode]
      simp

/-- Accepted pushes answer one number after the other. -/
theorem pushes_number {edits : List Edit} (hedits : .reset ∉ edits) :
    (p.pushes edits).map Push.number =
      List.range' (p.length + 1) (p.pushes edits).length := by
  induction edits generalizing p with
  | nil => rfl
  | cons e edits ih =>
    rw [List.mem_cons, not_or] at hedits
    have hrest := ih (p := p.edit e) hedits.2
    rw [pushes]
    rcases edit_appends (p := p) (Ne.symm hedits.1) with ⟨push, hpushed, happends⟩ | ⟨hnone, hcode⟩
    · rw [length, happends.code, Array.size_push] at hrest
      simp [hpushed, happends.number, hrest, List.range'_succ, length]
    · rw [length, hcode] at hrest
      simpa [hnone, length] using hrest

/-- What the operands of a push stand for they stand for later as well. -/
theorem pushes_standsFor (hp : p.WellFormed) {edits : List Edit} (hedits : .reset ∉ edits) :
    ∀ push ∈ p.pushes edits,
      List.Forall₂ (Argument.StandsFor (edits.foldl edit p)) push.args push.built.parts := by
  induction edits generalizing p with
  | nil => simp [pushes]
  | cons e edits ih =>
    rw [List.mem_cons, not_or] at hedits
    have hafter := edit_wellFormed hp e
    intro push hpush
    rw [pushes, List.mem_append, Option.mem_toList] at hpush
    rcases hpush with hpushed | hlater
    · have hcontinues := edits_continue hafter hedits.2
      rcases edit_appends (p := p) (Ne.symm hedits.1) with ⟨push', hpushed', happends⟩ | ⟨hnone, -⟩
      · obtain rfl := Option.some.inj (hpushed'.symm.trans hpushed)
        exact happends.standsFor.imp fun _ _ h => h.mono hcontinues.toOffers
      · rw [hnone] at hpushed
        cases hpushed
    · exact ih hafter hedits.2 push hlater

theorem pushes_arguments {edits : List Edit} (hedits : .reset ∉ edits) :
    ∀ push ∈ p.pushes edits, push.args ⊆ edits.flatMap Edit.arguments := by
  induction edits generalizing p with
  | nil => simp [pushes]
  | cons e edits ih =>
    rw [List.mem_cons, not_or] at hedits
    intro push hpush
    rw [pushes, List.mem_append, Option.mem_toList] at hpush
    rw [List.flatMap_cons]
    rcases hpush with hpushed | hlater
    · have hargs : push.args = e.arguments := by
        unfold pushed? at hpushed
        split at hpushed
        · split at hpushed
          · exact Option.some.inj hpushed ▸ rfl
          · cases hpushed
        · cases hpushed
      rw [hargs]
      exact List.subset_append_left _ _
    · exact List.subset_append_of_subset_right _ (ih hedits.2 push hlater)

/-- The operands of the accepted pushes among some edits, each with the part that was made for
it. -/
def citations (p : Program) (edits : List Edit) : List (Argument × Part) :=
  (p.pushes edits).flatMap Push.citations

theorem citations_standsFor (hp : p.WellFormed) {edits : List Edit} (hedits : .reset ∉ edits)
    {a : Argument} {part : Part} (hmem : (a, part) ∈ p.citations edits) :
    a.StandsFor (edits.foldl edit p) part ∧ a ∈ edits.flatMap Edit.arguments := by
  obtain ⟨push, hpush, hcited⟩ := List.mem_flatMap.1 hmem
  refine ⟨List.forall₂_zip (pushes_standsFor hp hedits push hpush) hcited, ?_⟩
  exact pushes_arguments hedits push hpush (List.of_mem_zip hcited).1

/-- References never drift, whatever is done to a program after it was new or started over: it is
pushed to, sealed, filled and run, with success or not. Its instructions are those that the
builder made for the accepted pushes, in order; a push answered the place of its own, and is
the same whenever one looks. Each operand stands for its part as the program is now: a name for
the slot that is declared under its base, a handle for the number that leads to one of its
identity, which is the very handle if there is one object to an identity. Any two operands
have one number exactly if they are the same resource of one kind, and one slot exactly if
they have the same base; no number is too large for sixteen bits, in which two of them could
be taken for one. -/
theorem references_stay (stage : Stage) (color : ColorTransform) (edits : List Edit)
    (hedits : .reset ∉ edits) :
    let start := (new stage).withColor color
    let p := edits.foldl edit start
    p.instructions.toList = (start.pushes edits).map Push.built ∧
    (start.pushes edits).map Push.number = List.range' 1 (start.pushes edits).length ∧
    (∀ earlier, earlier <+: edits → start.pushes earlier <+: start.pushes edits) ∧
    (∀ push ∈ start.pushes edits,
      List.Forall₂ (Argument.StandsFor p) push.args push.built.parts) ∧
    (∀ a part a' part', (a, part) ∈ start.citations edits → (a', part') ∈ start.citations edits →
      (∀ r r', part.resource? = some r → part'.resource? = some r' →
        (r = r' ↔ a.identity? = a'.identity?)) ∧
      (∀ i j, part.slot? = some i → part'.slot? = some j → (i = j ↔ a.base? = a'.base?))) ∧
    (∀ a part, (a, part) ∈ start.citations edits →
      (∀ r, part.resource? = some r → r.2.toUInt16.toNat = r.2) ∧
      (∀ i, part.slot? = some i → i.toUInt16.toNat = i)) ∧
    (Argument.Identified (edits.flatMap Edit.arguments) →
      ∀ a part r, (a, part) ∈ start.citations edits → part.resource? = some r →
        p.kept? r = some a) := by
  intro start p
  have hstart : start.Reachable := (Reachable.new stage).edit (.withColor color)
  have htables : p.Tables := (hstart.foldl edits).wellFormed.tables
  have hnew : start.Filed (edits.flatMap Edit.arguments) := { Filed.new stage with }
  have hfiled : p.Filed (edits.flatMap Edit.arguments) := edits_filed hnew (List.Subset.refl _)
  refine ⟨edits_code hedits, pushes_number hedits, ?_, pushes_standsFor hstart.wellFormed hedits,
    fun a part a' part' hmem hmem' => ?_, fun a part hmem => ?_,
    fun hidentified a part r hmem hr => ?_⟩
  · rintro earlier ⟨later, rfl⟩
    rw [pushes_append]
    exact List.prefix_append _ _
  · have hstands := (citations_standsFor hstart.wellFormed hedits hmem).1
    have hstands' := (citations_standsFor hstart.wellFormed hedits hmem').1
    exact ⟨fun r r' hr hr' => hstands.resource_eq_iff hfiled hstands' hr hr',
      fun i j hi hj => hstands.slot_eq_iff htables hstands' hi hj⟩
  · have hstands := (citations_standsFor hstart.wellFormed hedits hmem).1
    exact ⟨fun _ => hstands.resource_toUInt16 htables, fun _ => hstands.slot_toUInt16 htables⟩
  · obtain ⟨hstands, hgiven⟩ := citations_standsFor hstart.wellFormed hedits hmem
    obtain ⟨kept, hkept, hidentity⟩ := hstands.kept hr
    obtain ⟨key, hkey⟩ := kept?_kind hkept
    rw [hkept, hidentified kept (hfiled.kept_given hkept) a hgiven _ hkey (hidentity ▸ hkey)]

/-- Pushes of two textures, one of them twice, with a variable and a uniform of one
identifier. -/
def sampled (red blue : Handle Texture) : List Edit :=
  [.push "sampler" [.name "a", .texture red, .name "txCoord"],
    .push "=" [.name "b", .name ".a"],
    .seal,
    .push "sampler" [.name "fragColor", .texture blue, .name "a.xy"],
    .updateUniforms fun _ => some (.int 1),
    .push "samplerYUV" [.name "a.x", .texture red, .name "b"],
    .push "goto" [.name ".a"]]

/-- The texture that comes twice is kept once, and the variable and the uniform have a slot each. -/
theorem references_stay_sampled :
    let red : Handle Texture := ⟨7, Texture.solid ⟨1, 0, 0, 1⟩⟩
    let blue : Handle Texture := ⟨9, Texture.solid ⟨0, 0, 1, 1⟩⟩
    let edits := sampled red blue
    let start := (new .fragment).withColor default
    let p := edits.foldl edit start
    .reset ∉ edits ∧ Argument.Identified (edits.flatMap Edit.arguments) ∧
      p.instructions.toList = (start.pushes edits).map Push.built ∧
      (start.pushes edits).map Push.number = [1, 2, 3, 4, 5] ∧
      (start.citations edits).filterMap (fun c => c.2.resource?) =
        [(.texture, 0), (.texture, 1), (.texture, 0)] ∧
      (start.citations edits).filterMap (fun c => c.2.slot?) = [0, 1, 2, 0, 0, 1, 2] ∧
      ∀ a part r, (a, part) ∈ start.citations edits → part.resource? = some r →
        p.kept? r = some a := by
  intro red blue edits start p
  have hreset : .reset ∉ edits := by simp [edits, sampled]
  have hhandles : ∀ a ∈ edits.flatMap Edit.arguments, ∀ identity, a.identity? = some identity →
      a = .texture red ∧ identity = (.texture, 7) ∨
        a = .texture blue ∧ identity = (.texture, 9) := by
    simp [edits, sampled, Edit.arguments, Argument.identity?, red, blue]
  have hidentified : Argument.Identified (edits.flatMap Edit.arguments) := by
    intro a ha b hb identity hidentity hidentity'
    rcases hhandles a ha identity hidentity with ⟨rfl, rfl⟩ | ⟨rfl, rfl⟩ <;>
      rcases hhandles b hb _ hidentity' with ⟨rfl, h⟩ | ⟨rfl, h⟩ <;> first | rfl | simp at h
  obtain ⟨hcode, -, -, -, -, -, hkept⟩ := references_stay .fragment default edits hreset
  exact ⟨hreset, hidentified, hcode, by decide +kernel, by decide +kernel, by decide +kernel,
    hkept hidentified⟩

end Program

end Shading
