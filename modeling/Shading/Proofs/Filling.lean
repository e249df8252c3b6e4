import Shading.Proofs.Jumps

/- What filling the uniforms comes to. The declarations are gone through with their numbers,
   and the first uniform without a value ends it; so it goes through exactly if the host
   has a value for each (`fillUniforms_eq_none_iff`). No two declarations have the same
   number, so what is stored for one uniform is not overwritten for another, and each
   ends up with its own value (`Program.filled_slot`). An update is accepted exactly if
   besides that each jump through a uniform leads into the program on the file so filled
   (`Program.updateUniforms_eq_ok_iff`). -/
namespace Shading

namespace Program

variable {p : Program} {source : UniformSource}

/-! ## One declaration after the other -/

section

variable {l : List (Declaration × Nat)} {r : Registers}

theorem fillUniforms_uniform {d : Declaration} {value : Value} (hd : d.isUniform = true)
    (hvalue : source d.hostName = some value) (i : Nat) :
    fillUniforms source ((d, i) :: l) r = fillUniforms source l (r.store i value) := by
  simp only [fillUniforms, hd, hvalue, if_true]

theorem fillUniforms_missing {d : Declaration} (hd : d.isUniform = true)
    (hvalue : source d.hostName = none) (i : Nat) :
    fillUniforms source ((d, i) :: l) r = (r, some d.name) := by
  simp only [fillUniforms, hd, hvalue, if_true]

theorem fillUniforms_variable {d : Declaration} (hd : d.isUniform = false) (i : Nat) :
    fillUniforms source ((d, i) :: l) r = fillUniforms source l r := by
  simp only [fillUniforms, hd, Bool.false_eq_true, if_false]

/-- Filling goes through exactly if each uniform has a value. -/
theorem fillUniforms_eq_none_iff : (fillUniforms source l r).2 = none ↔
    ∀ e ∈ l, e.1.isUniform = true → (source e.1.hostName).isSome = true := by
  induction l generalizing r with
  | nil => simp [fillUniforms]
  | cons e l ih =>
    obtain ⟨d, i⟩ := e
    cases hd : d.isUniform with
    | false =>
      rw [fillUniforms_variable hd, ih]
      simp [hd]
    | true =>
      cases hvalue : source d.hostName with
      | none =>
        rw [fillUniforms_missing hd hvalue]
        simp [hd, hvalue]
      | some value =>
        rw [fillUniforms_uniform hd hvalue, ih]
        simp [hvalue]

theorem fillUniforms_anchors : (fillUniforms source l r).1.anchors = r.anchors := by
  induction l generalizing r with
  | nil => rfl
  | cons e l ih =>
    obtain ⟨d, i⟩ := e
    simp only [fillUniforms]
    split
    · split
      · exact ih
      · rfl
    · exact ih

/-- What belongs to no uniform is left alone. -/
theorem fillUniforms_other {i : Nat} (h : ∀ d, (d, i) ∈ l → d.isUniform = false) :
    (fillUniforms source l r).1.slot? i = r.slot? i := by
  induction l generalizing r with
  | nil => rfl
  | cons e l ih =>
    obtain ⟨d, j⟩ := e
    have hrest := fun d' hd' => h d' (List.mem_cons_of_mem _ hd')
    simp only [fillUniforms]
    split
    · next hd =>
      have hj : j ≠ i := by
        rintro rfl
        rw [h d List.mem_cons_self] at hd
        cases hd
      split
      · rw [ih hrest, Registers.slot?_store_ne hj]
      · rfl
    · exact ih hrest

/-- Where filling goes through, the slot of a uniform holds its value. -/
theorem fillUniforms_slot {d : Declaration} {i : Nat} (hfilled : (fillUniforms source l r).2 = none)
    (hmem : (d, i) ∈ l) (hdistinct : (l.map Prod.snd).Nodup) (hd : d.isUniform = true)
    (hi : i < r.slots.size) : (fillUniforms source l r).1.slot? i = source d.hostName := by
  induction l generalizing r with
  | nil => cases hmem
  | cons e l ih =>
    obtain ⟨d', j⟩ := e
    rw [List.map_cons, List.nodup_cons] at hdistinct
    rcases List.mem_cons.1 hmem with heq | hmem
    · obtain ⟨rfl, rfl⟩ := Prod.mk.inj heq
      cases hvalue : source d.hostName with
      | none =>
        rw [fillUniforms_missing hd hvalue] at hfilled
        cases hfilled
      | some value =>
        -- nothing behind has the same number, so the value is there at the end
        have hother : ∀ d', (d', i) ∈ l → d'.isUniform = false := fun d' hd' =>
          absurd (List.mem_map.2 ⟨_, hd', rfl⟩) hdistinct.1
        rw [fillUniforms_uniform hd hvalue, fillUniforms_other hother,
          Registers.slot?_store_self hi]
    · cases hd' : d'.isUniform with
      | false =>
        rw [fillUniforms_variable hd'] at hfilled ⊢
        exact ih hfilled hmem hdistinct.2 hi
      | true =>
        cases hvalue : source d'.hostName with
        | none =>
          rw [fillUniforms_missing hd' hvalue] at hfilled
          cases hfilled
        | some value =>
          rw [fillUniforms_uniform hd' hvalue] at hfilled ⊢
          refine ih hfilled hmem hdistinct.2 ?_
          rwa [Registers.store, Array.size_setIfInBounds]

end

/-! ## The whole table -/

/-- The canonical registers with the uniforms filled, as far as the host has values. -/
def filled (p : Program) (source : UniformSource) : Registers :=
  (fillUniforms source p.declarations.toList.zipIdx p.registers).1

/-- The host has a value for each uniform. -/
def Supplied (p : Program) (source : UniformSource) : Prop :=
  ∀ d ∈ p.declarations, d.isUniform = true → (source d.hostName).isSome = true

theorem mem_zipIdx {d : Declaration} {i : Nat} :
    (d, i) ∈ p.declarations.toList.zipIdx ↔ p.declarations[i]? = some d := by
  rw [List.mk_mem_zipIdx_iff_getElem?, Array.getElem?_toList]

theorem fillUniforms_all_iff :
    (fillUniforms source p.declarations.toList.zipIdx p.registers).2 = none ↔
      p.Supplied source := by
  rw [fillUniforms_eq_none_iff]
  constructor
  · intro h d hd
    obtain ⟨i, hi⟩ := Array.mem_iff_getElem?.1 hd
    exact h (d, i) (mem_zipIdx.2 hi)
  · rintro h ⟨d, i⟩ hmem
    exact h d (Array.mem_of_getElem? (mem_zipIdx.1 hmem))

/-- Each uniform has the value that the host gives it, and everything else what it had. -/
theorem filled_slot (hslots : p.registers.slots.size = p.declarations.size)
    (h : p.Supplied source) {i : Nat} {d : Declaration} (hd : p.declarations[i]? = some d) :
    (p.filled source).slot? i =
      if d.isUniform then source d.hostName else p.registers.slot? i := by
  cases huniform : d.isUniform with
  | false =>
    refine fillUniforms_other fun d' hd' => ?_
    obtain rfl := Option.some.inj (hd.symm.trans (mem_zipIdx.1 hd'))
    exact huniform
  | true =>
    have hi : i < p.declarations.size := (Array.getElem?_eq_some_iff.1 hd).1
    refine fillUniforms_slot (fillUniforms_all_iff.2 h) (mem_zipIdx.2 hd) ?_ huniform
      (hslots ▸ hi)
    rw [List.zipIdx_map_snd]
    exact List.nodup_range'

/-- There is nothing to fill behind the last declaration. -/
theorem filled_undeclared {i : Nat} (hi : p.declarations[i]? = none) :
    (p.filled source).slot? i = p.registers.slot? i := by
  refine fillUniforms_other fun d hd => ?_
  rw [mem_zipIdx, hi] at hd
  cases hd

theorem filled_anchors : (p.filled source).anchors = p.registers.anchors :=
  fillUniforms_anchors

/-- The program with its uniforms filled. -/
def withFilled (p : Program) (source : UniformSource) : Program :=
  { p with registers := p.filled source }

theorem WellFormed.withFilled (h : p.WellFormed) (source : UniformSource) :
    (p.withFilled source).WellFormed :=
  h.withRegisters (fillUniforms_suits source p.declarations.toList.zipIdx h.suits)

theorem updateUniforms_of_valid (hvalid : p.isInvalid = false) : p.updateUniforms source =
    match (fillUniforms source p.declarations.toList.zipIdx p.registers).2 with
    | some name => .fail (.unknownUniform name) (p.withFilled source)
    | none =>
      match (p.withFilled source).badUniformJump? p.instructions.toList with
      | some e => .fail e (p.withFilled source)
      | none => .ok () (p.withFilled source) := by
  unfold updateUniforms
  rw [if_neg (ne_true_of_eq_false hvalid)]
  rfl

theorem badUniformJump?_filled :
    (p.withFilled source).badUniformJump? p.instructions.toList = none ↔
      p.Resolves (p.filled source) := by
  rw [badUniformJump?_eq_none_iff]
  simp only [Array.mem_toList_iff]
  rfl

/-- An update is accepted exactly if the program is not invalid, the host has a value for each
uniform, and with these each jump through a uniform leads into the program. -/
theorem updateUniforms_eq_ok_iff : (p.updateUniforms source).result = .ok () ↔
    p.isInvalid = false ∧ p.Supplied source ∧ p.Resolves (p.filled source) := by
  rw [← fillUniforms_all_iff, ← badUniformJump?_filled]
  cases hvalid : p.isInvalid with
  | true => simp [updateUniforms, hvalid, Outcome.refuse]
  | false =>
    rw [updateUniforms_of_valid hvalid]
    cases (fillUniforms source p.declarations.toList.zipIdx p.registers).2 with
    | some name => simp [Outcome.fail]
    | none =>
      cases (p.withFilled source).badUniformJump? p.instructions.toList with
      | some e => simp [Outcome.fail]
      | none => simp [Outcome.ok]

/-- An update that is accepted fills the uniforms and does nothing else. -/
theorem updateUniforms_of_ok (h : (p.updateUniforms source).result = .ok ()) :
    p.updateUniforms source = .ok () (p.withFilled source) := by
  obtain ⟨hvalid, hsupplied, hresolves⟩ := updateUniforms_eq_ok_iff.1 h
  rw [updateUniforms_of_valid hvalid, fillUniforms_all_iff.2 hsupplied]
  dsimp only
  rw [badUniformJump?_filled.2 hresolves]

end Program

end Shading
