import Mathlib.Data.List.Forall2
import Shading.Proofs.Growth
import Shading.Proofs.History

/- What an instruction refers to, as against what was written. An instruction has a part for each
   of its operands (`Instruction.parts`), in the order in which they are written, and the
   builder makes a part that the operand stands for (`Argument.StandsFor`): a slot has the
   base of the name, a number of a resource leads to the handle. `Build.Makes` says of a
   step of building that it brings in one thing after the other and what its answer is
   written as; there is one lemma for each step, up to the instruction as a whole
   (`Build.instruction_makes`). What an operand stands for it stands for while the tables
   get longer (`Argument.StandsFor.mono`). -/
namespace Shading

/-! ## Parts and operands -/

/-- A part of an instruction that an operand is written for. A destination is the name that a
source would be. -/
inductive Part where
  | source (src : Source)
  | texture (id : Nat)
  | matrix (id : Nat)
  | relation (cmp : Comparison)
  | target (target : JumpTarget)

/-- The parts of an operation, in the order in which its operands are written. -/
def Operation.parts : Operation → List Part
  | .arith _ dst src | .convert _ dst src => [.source (.name dst), .source src]
  | .transform id dst => [.source (.name dst), .matrix id]
  | .compare _ dst lhs rhs => [.source (.name dst), .source lhs, .source rhs]
  | .sample id _ dst coords => [.source (.name dst), .texture id, .source coords]
  | .call _ dst src none => [.source (.name dst), .source src]
  | .call _ dst src (some second) => [.source (.name dst), .source src, .source second]
  | .print src => [.source src]

/-- The parts of an instruction, in the order in which its operands are written. -/
def Instruction.parts : Instruction → List Part
  | .operation o => o.parts
  | .ifThen c | .elseIf c => [.source (.name c.lhs), .relation c.cmp, .source c.rhs]
  | .goto target => [.target target]
  | .discard | .otherwise | .endIf => []

/-- The four kinds of resources. An attribute to interpolate is another than one to read per
vertex. -/
inductive ResourceKind where
  | texture | matrix | interpolated | fetched
  deriving DecidableEq, Repr

/-- What tells the resource that an operand hands in from every other: its kind and its key. -/
def Argument.identity? : Argument → Option (ResourceKind × Nat)
  | .texture h => some (.texture, h.key)
  | .matrix h => some (.matrix, h.key)
  | .interpolated h => some (.interpolated, h.key)
  | .attribute h => some (.fetched, h.key)
  | .name _ | .literal _ => none

/-- The base of an operand that is a name. -/
def Argument.base? : Argument → Option String
  | .name text => (OperandName.parse? text).map OperandName.base
  | _ => none

namespace Part

/-- The resource that a part refers to: its kind and its number. -/
def resource? : Part → Option (ResourceKind × Nat)
  | .texture id => some (.texture, id)
  | .matrix id => some (.matrix, id)
  | .source (.interpolated id) => some (.interpolated, id)
  | .source (.attribute id) => some (.fetched, id)
  | _ => none

/-- The slot that a part refers to. -/
def slot? : Part → Option Nat
  | .source (.name ⟨.slot i, _⟩) | .target (.uniform i) => some i
  | _ => none

end Part

/-- The resource that a program keeps under a number, as the operand it was handed in by. -/
def Program.kept? (p : Program) : ResourceKind × Nat → Option Argument
  | (.texture, id) => p.textures[id]?.map .texture
  | (.matrix, id) => p.matrices[id]?.map .matrix
  | (.interpolated, id) => p.interpolated[id]?.map .interpolated
  | (.fetched, id) => p.attributes[id]?.map .attribute

/-- A place is the one that a base names: a built-in, or the slot that is declared under it. -/
def Place.IsNamed (p : Program) (base : String) : Place → Prop
  | .builtin b => Builtin.ofName? base = some b
  | .slot i => ∃ d, p.declarations[i]? = some d ∧ d.name = base

/-- An operand stands for a part of an instruction of a program. -/
inductive Argument.StandsFor (p : Program) : Argument → Part → Prop
  | name {text : String} {name : OperandName} {place : Place} :
    OperandName.parse? text = some name → place.IsNamed p name.base →
    StandsFor p (.name text) (.source (.name ⟨place, name.mask⟩))
  | literal (value : Operand) : StandsFor p (.literal value) (.source (.literal value))
  | resource {arg kept : Argument} {part : Part} {r : ResourceKind × Nat} :
    part.resource? = some r → p.kept? r = some kept → kept.identity? = arg.identity? →
    StandsFor p arg part
  | relation {text : String} {cmp : Comparison} :
    Comparison.ofName? text = some cmp → StandsFor p (.name text) (.relation cmp)
  | number {value : Operand} {scalar : Value} {mask : Mask} {n : Int} :
    value = scalar.operand mask → scalar.whole? = some n → 1 ≤ n →
    StandsFor p (.literal value) (.target (.index (n - 1).toNat))
  | uniform {text : String} {i : Nat} :
    OperandName.isUniform text = true → (Place.slot i).IsNamed p text →
    StandsFor p (.name text) (.target (.uniform i))

/-- An operand is written, and stands for a part. -/
def Argument.Filled (p : Program) (arg : Option Argument) (part : Part) : Prop :=
  ∃ a, arg = some a ∧ a.StandsFor p part

/-- The operands that are written stand for the parts of an instruction, one for each. -/
structure Instruction.Cites (p : Program) (args : List Argument) (ins : Instruction) : Prop where
  count : ins.parts.length = ins.operandCount
  filled : List.Forall₂ (Argument.Filled p) ((List.range ins.parts.length).map (args[·]?))
    ins.parts

variable {p q : Program}

theorem Place.IsNamed.mono {base : String} {place : Place} (h : place.IsNamed p base)
    (hq : p.Offers q) : place.IsNamed q base := by
  cases place with
  | builtin b => exact h
  | slot i =>
    obtain ⟨d, hd, hname⟩ := h
    exact ⟨d, hq.declarations.getElem? hd, hname⟩

/-- A name is declared once. -/
theorem Program.Tables.isNamed_injective (h : p.Tables) {i j : Nat} {base : String}
    (hi : (Place.slot i).IsNamed p base) (hj : (Place.slot j).IsNamed p base) : i = j := by
  obtain ⟨d, hd, hname⟩ := hi
  obtain ⟨d', hd', hname'⟩ := hj
  have hnames : (p.declarations.toList.map Declaration.name)[i]? =
      (p.declarations.toList.map Declaration.name)[j]? := by
    rw [List.getElem?_map, List.getElem?_map, Array.getElem?_toList, Array.getElem?_toList, hd, hd',
      Option.map_some, Option.map_some, hname, hname']
  have hlt : i < (p.declarations.toList.map Declaration.name).length := by
    have := (Array.getElem?_eq_some_iff.1 hd).1
    simpa using this
  exact (List.getElem?_inj hlt h.distinct).1 hnames

theorem Program.kept?_mono {r : ResourceKind × Nat} {kept : Argument}
    (h : p.kept? r = some kept) (hq : p.Offers q) : q.kept? r = some kept := by
  obtain ⟨kind, id⟩ := r
  cases kind <;> obtain ⟨handle, hhandle, rfl⟩ := Option.map_eq_some_iff.1 h
  · rw [kept?, hq.textures.getElem? hhandle, Option.map_some]
  · rw [kept?, hq.matrices.getElem? hhandle, Option.map_some]
  · rw [kept?, hq.interpolated.getElem? hhandle, Option.map_some]
  · rw [kept?, hq.attributes.getElem? hhandle, Option.map_some]

namespace Argument

theorem StandsFor.mono {a : Argument} {part : Part} (h : a.StandsFor p part) (hq : p.Offers q) :
    a.StandsFor q part := by
  cases h with
  | name hparse hplace => exact .name hparse (hplace.mono hq)
  | literal value => exact .literal value
  | resource hr hkept hidentity => exact .resource hr (Program.kept?_mono hkept hq) hidentity
  | relation hcmp => exact .relation hcmp
  | number hvalue hwhole hlow => exact .number hvalue hwhole hlow
  | uniform huniform hplace => exact .uniform huniform (hplace.mono hq)

theorem Filled.mono {arg : Option Argument} {part : Part} (h : Filled p arg part)
    (hq : p.Offers q) : Filled q arg part := by
  obtain ⟨a, ha, hstands⟩ := h
  exact ⟨a, ha, hstands.mono hq⟩

end Argument

theorem Instruction.Cites.mono {args : List Argument} {ins : Instruction} (h : ins.Cites p args)
    (hq : p.Offers q) : ins.Cites q args :=
  ⟨h.count, h.filled.imp fun _ _ hfilled => hfilled.mono hq⟩

/-- Where there are no operands too many, each stands for its part. -/
theorem Instruction.Cites.forall₂ {args : List Argument} {ins : Instruction} (h : ins.Cites p args)
    (hcount : args.length ≤ ins.operandCount) :
    List.Forall₂ (Argument.StandsFor p) args ins.parts := by
  obtain ⟨-, hfilled⟩ := List.forall₂_iff_get.1 h.filled
  have hget : ∀ (i : Nat) (hi : i < ins.parts.length), Argument.Filled p args[i]? ins.parts[i] := by
    intro i hi
    have hi' : i < ((List.range ins.parts.length).map (args[·]?)).length := by simpa using hi
    simpa using hfilled i hi' hi
  have hlength : args.length = ins.parts.length := by
    refine Nat.le_antisymm (h.count ▸ hcount) (Nat.le_of_not_lt fun hlt => ?_)
    obtain ⟨a, ha, -⟩ := hget args.length hlt
    simp at ha
  refine List.forall₂_iff_get.2 ⟨hlength, fun i hi hi' => ?_⟩
  obtain ⟨a, ha, hstands⟩ := hget i hi'
  obtain ⟨_, rfl⟩ := List.getElem?_eq_some_iff.1 ha
  exact hstands

theorem MathFunction.arity_eq (f : MathFunction) : f.arity = 1 ∨ f.arity = 2 := by
  cases f <;> simp [arity]

namespace Build

variable {α β : Type} {given : List Argument}

/-- Taken in a program that offers what `p` does, a step of building brings in one thing after
the other, and answers only what meets `post`. -/
def Makes (given : List Argument) (p : Program) (x : Build α) (post : α → Program → Prop) :
    Prop :=
  ∀ q, p.Offers q →
    q.GrownBy given (x.run q).2 ∧ ∀ a, (x.run q).1 = .ok a → post a (x.run q).2

namespace Makes

variable {x : Build α} {f : α → Build β} {mid post : α → Program → Prop}
  {goal : β → Program → Prop}

theorem pure {a : α} (h : ∀ q, p.Offers q → post a q) : Makes given p (pure a) post :=
  fun q hq => ⟨.refl, fun _ hb => Except.ok.inj hb ▸ h q hq⟩

theorem pure_eq {a : α} : Makes given p (Pure.pure a : Build α) fun b _ => b = a :=
  pure fun _ _ => rfl

theorem throw {e : ProgramError} : Makes given p (throw e) post :=
  fun _ _ => ⟨.refl, fun _ hb => by cases hb⟩

theorem get : Makes given p (get : Build Program) fun a q => a = q :=
  fun _ _ => ⟨.refl, fun _ ha => (Except.ok.inj ha).symm⟩

theorem weaken (h : Makes given p x mid) (hpost : ∀ a q, p.Offers q → mid a q → post a q) :
    Makes given p x post := by
  intro q hq
  obtain ⟨hgrown, hmid⟩ := h q hq
  exact ⟨hgrown, fun a ha => hpost a _ (hq.trans hgrown.offers) (hmid a ha)⟩

theorem bind (hx : Makes given p x mid)
    (hf : ∀ a q, p.Offers q → mid a q → Makes given q (f a) goal) :
    Makes given p (x >>= f) goal := by
  intro q hq
  obtain ⟨hgrown, hmid⟩ := hx q hq
  rw [run_bind]
  rcases hrun : x.run q with ⟨result, r⟩
  rw [hrun] at hgrown hmid
  cases result with
  | error e => exact ⟨hgrown, fun b hb => by cases hb⟩
  | ok a =>
    obtain ⟨hgrown', hgoal⟩ := hf a r (hq.trans hgrown.offers) (hmid a rfl) r (.refl r)
    exact ⟨hgrown.trans hgrown', hgoal⟩

theorem map {g : α → β} (h : Makes given p x mid)
    (hgoal : ∀ a q r, mid a q → q.Offers r → goal (g a) r) : Makes given p (g <$> x) goal := by
  show Makes given p (x >>= fun a => Pure.pure (g a)) goal
  exact bind h fun a q _ hmid => pure fun r hr => hgoal a q r hmid hr

theorem ite {c : Prop} [Decidable c] {y : Build α} (hx : c → Makes given p x post)
    (hy : ¬c → Makes given p y post) : Makes given p (if c then x else y) post := by
  split
  · next h => exact hx h
  · next h => exact hy h

end Makes

/-! ## Names and resources -/

theorem isNamed_of_slotOf? {name : String} {i : Nat} (h : p.slotOf? name = some i) :
    (Place.slot i).IsNamed p name := by
  obtain ⟨hi, hname, -⟩ := Array.findIdx?_eq_some_iff_getElem.1 h
  exact ⟨_, Array.getElem?_eq_getElem hi, beq_iff_eq.1 hname⟩

theorem slot_makes {name : String} {isUniform : Bool}
    (hproper : (⟨name, isUniform⟩ : Declaration).Proper) :
    Makes given p (slot name isUniform) fun i q => (Place.slot i).IsNamed q name := by
  intro q _
  rw [run_slot]
  cases hslot : q.slotOf? name with
  | some i => exact ⟨.refl, fun a ha => Except.ok.inj ha ▸ isNamed_of_slotOf? hslot⟩
  | none =>
    dsimp only
    rw [run_declare]
    split
    · refine ⟨.single (.declaration hslot hproper), fun a ha => ?_⟩
      obtain rfl : q.declarations.size = a := Except.ok.inj ha
      exact ⟨_, Array.getElem?_push_size, rfl⟩
    · exact ⟨.refl, fun a ha => by cases ha⟩

/-- The number of a handle leads to one with its key. -/
theorem intern_makes {γ : Type} {t : HandleTable γ} {h : Handle γ} {arg : Argument}
    {part : Nat → Part}
    (hadds : ∀ q : Program, h.find? (t.handles q) = none → q.Adds given (t.enter q h))
    (hstands : ∀ (q : Program) (id : Nat) (kept : Handle γ), (t.handles q)[id]? = some kept →
      kept.key = h.key → arg.StandsFor q (part id)) :
    Makes given p (intern t h) fun id q => arg.StandsFor q (part id) := by
  intro q _
  rw [run_intern]
  cases hfind : h.find? (t.handles q) with
  | some i =>
    refine ⟨.refl, fun id hid => ?_⟩
    obtain rfl : i = id := Except.ok.inj hid
    obtain ⟨kept, hkept, hkey⟩ := Handle.key_of_find? hfind
    exact hstands q i kept hkept hkey
  | none =>
    dsimp only
    split
    · refine ⟨.single (hadds q hfind), fun id hid => ?_⟩
      obtain rfl : (t.handles q).size = id := Except.ok.inj hid
      refine hstands _ _ h ?_ rfl
      rw [t.handles_enter]
      exact Array.getElem?_push_size
    · exact ⟨.refl, fun id hid => by cases hid⟩

theorem internTexture_makes {h : Handle Texture} (hgiven : .texture h ∈ given) :
    Makes given p (intern .textures h)
      fun id q => Argument.StandsFor q (.texture h) (.texture id) :=
  intern_makes (fun _ hnew => .texture hgiven hnew) fun _ _ _ hkept hkey =>
    .resource rfl (congrArg (Option.map Argument.texture) hkept)
      (by simp [Argument.identity?, hkey])

theorem internMatrix_makes {h : Handle Transform} (hgiven : .matrix h ∈ given) :
    Makes given p (intern .matrices h)
      fun id q => Argument.StandsFor q (.matrix h) (.matrix id) :=
  intern_makes (fun _ hnew => .matrix hgiven hnew) fun _ _ _ hkept hkey =>
    .resource rfl (congrArg (Option.map Argument.matrix) hkept)
      (by simp [Argument.identity?, hkey])

theorem internAttribute_makes {h : Handle Attribute} (hgiven : .attribute h ∈ given) :
    Makes given p (intern .attributes h)
      fun id q => Argument.StandsFor q (.attribute h) (.source (.attribute id)) :=
  intern_makes (fun _ hnew => .fetched hgiven hnew) fun _ _ _ hkept hkey =>
    .resource rfl (congrArg (Option.map Argument.attribute) hkept)
      (by simp [Argument.identity?, hkey])

theorem internInterpolated_makes {h : Handle Attribute} (hgiven : .interpolated h ∈ given) :
    Makes given p (intern .interpolated h)
      fun id q => Argument.StandsFor q (.interpolated h) (.source (.interpolated id)) :=
  intern_makes (fun _ hnew => .interpolated hgiven hnew) fun _ _ _ hkept hkey =>
    .resource rfl (congrArg (Option.map Argument.interpolated) hkept)
      (by simp [Argument.identity?, hkey])

/-! ## Checks -/

theorem require_makes {holds : Bool} {e : ProgramError} :
    Makes given p (require holds e) fun _ _ => holds = true := by
  unfold require
  exact Makes.ite (fun h => Makes.pure fun _ _ => h) fun _ => Makes.throw

theorem requireStage_makes {op : String} {stage : Stage} :
    Makes given p (requireStage op stage) fun _ _ => True :=
  Makes.bind Makes.get fun _ _ _ _ => Makes.weaken require_makes fun _ _ _ _ => trivial

theorem requireOwn_makes {op : String} {b : Builtin} :
    Makes given p (requireOwn op b) fun _ _ => True := by
  unfold requireOwn
  cases b.stage? with
  | none => exact Makes.pure fun _ _ => trivial
  | some stage => exact requireStage_makes

theorem operandName_makes {text : String} :
    Makes given p (operandName text) fun name _ => OperandName.parse? text = some name := by
  unfold operandName
  cases h : OperandName.parse? text with
  | some name => exact Makes.pure fun _ _ => rfl
  | none => exact Makes.throw

theorem noteWritten_makes {b : Builtin} : Makes given p (noteWritten b) fun _ _ => True := by
  unfold noteWritten
  refine Makes.ite (fun _ => ?_) fun _ => Makes.pure fun _ _ => trivial
  exact fun q _ => ⟨.single .depth, fun _ _ => trivial⟩

/-! ## Names -/

theorem destinationName_makes {op text : String} : Makes given p (destinationName op text)
    fun r q => Argument.StandsFor q (.name text) (.source (.name r)) := by
  unfold destinationName
  refine Makes.bind operandName_makes fun name q₁ _ hname => ?_
  cases hb : Builtin.ofName? name.base with
  | some b =>
    refine Makes.bind requireOwn_makes fun _ q₂ _ _ => ?_
    refine Makes.bind require_makes fun _ q₃ _ _ => ?_
    refine Makes.bind require_makes fun _ q₄ _ _ => ?_
    exact Makes.bind noteWritten_makes fun _ q₅ _ _ => Makes.pure fun q _ => .name hname hb
  | none =>
    refine Makes.bind require_makes fun _ q₂ _ _ => ?_
    refine Makes.bind require_makes fun _ q₃ _ hidentifier => ?_
    exact Makes.bind (slot_makes hidentifier) fun i q₄ _ hi => Makes.pure fun q hq =>
      .name hname (hi.mono hq)

theorem sourceName_makes {op text : String} : Makes given p (sourceName op text)
    fun r q => Argument.StandsFor q (.name text) (.source (.name r)) := by
  unfold sourceName
  refine Makes.bind operandName_makes fun name q₁ _ hname => ?_
  cases hb : Builtin.ofName? name.base with
  | some b =>
    refine Makes.bind requireOwn_makes fun _ q₂ _ _ => ?_
    exact Makes.bind require_makes fun _ q₃ _ _ => Makes.pure fun q _ => .name hname hb
  | none =>
    refine Makes.ite (fun _ => ?_) fun _ => ?_
    · refine Makes.bind require_makes fun _ q₂ _ huniform => ?_
      exact Makes.bind (slot_makes huniform) fun i q₃ _ hi => Makes.pure fun q hq =>
        .name hname (hi.mono hq)
    · refine Makes.bind Makes.get fun now q₂ _ hnow => ?_
      cases hslot : now.slotOf? name.base with
      | none => exact Makes.throw
      | some i =>
        refine Makes.pure fun q hq => .name hname ?_
        subst hnow
        exact (isNamed_of_slotOf? hslot).mono hq

theorem destination_makes {op : String} {arg : Option Argument} :
    Makes given p (destination op arg) fun r q => Argument.Filled q arg (.source (.name r)) := by
  unfold destination
  match arg with
  | some (.name text) =>
    exact Makes.weaken destinationName_makes fun r q _ hr => ⟨_, rfl, hr⟩
  | some (.literal _) | some (.texture _) | some (.matrix _) | some (.interpolated _)
  | some (.attribute _) | none => exact Makes.throw

/-! ## Sources -/

/-- The part that a source, or a matrix in its place, becomes. -/
def Supply.part : Supply → Part
  | .source src => .source src
  | .matrix id => .matrix id

section

variable {arg : Option Argument}

theorem supply_makes {op : String} (harg : ∀ a, arg = some a → a ∈ given) :
    Makes given p (supply op arg) fun s q => Argument.Filled q arg (Supply.part s) := by
  unfold supply
  match arg with
  | none => exact Makes.throw
  | some (.name text) =>
    exact Makes.bind sourceName_makes fun r _ _ hr => Makes.pure fun _ hq =>
      ⟨_, rfl, hr.mono hq⟩
  | some (.literal value) => exact Makes.pure fun _ _ => ⟨_, rfl, .literal value⟩
  | some (.texture h) => exact Makes.throw
  | some (.matrix h) =>
    exact Makes.bind (internMatrix_makes (harg _ rfl)) fun id _ _ hid => Makes.pure fun _ hq =>
      ⟨_, rfl, hid.mono hq⟩
  | some (.interpolated h) =>
    refine Makes.bind requireStage_makes fun _ _ _ _ => ?_
    exact Makes.bind (internInterpolated_makes (harg _ rfl)) fun id _ _ hid =>
      Makes.pure fun _ hq => ⟨_, rfl, hid.mono hq⟩
  | some (.attribute h) =>
    refine Makes.bind requireStage_makes fun _ _ _ _ => ?_
    exact Makes.bind (internAttribute_makes (harg _ rfl)) fun id _ _ hid =>
      Makes.pure fun _ hq => ⟨_, rfl, hid.mono hq⟩

theorem requireSource_makes {op : String} {s : Supply}
    (hs : Argument.Filled p arg (Supply.part s)) :
    Makes given p (requireSource op s) fun src q => Argument.Filled q arg (.source src) := by
  cases s with
  | source src => exact Makes.pure fun _ hq => hs.mono hq
  | matrix id => exact Makes.throw

theorem source_makes {op : String} (harg : ∀ a, arg = some a → a ∈ given) :
    Makes given p (source op arg) fun src q => Argument.Filled q arg (.source src) :=
  Makes.bind (supply_makes harg) fun _ _ _ hs => requireSource_makes hs

theorem conditionName_makes {op : String} (harg : ∀ a, arg = some a → a ∈ given) :
    Makes given p (conditionName op arg)
      fun r q => Argument.Filled q arg (.source (.name r)) := by
  refine Makes.bind (supply_makes harg) fun s q₁ _ hs => ?_
  match s, hs with
  | .source (.name r), hs => exact Makes.pure fun _ hq => hs.mono hq
  | .source (.literal _), _ | .source (.interpolated _), _ | .source (.attribute _), _
  | .matrix _, _ => exact Makes.throw

theorem secondSource_makes {op : String} (harg : ∀ a, arg = some a → a ∈ given) :
    Makes given p (secondSource op arg) fun src q => Argument.Filled q arg (.source src) := by
  unfold secondSource
  split
  · exact Makes.throw
  · exact Makes.throw
  · refine Makes.bind (supply_makes harg) fun s q₁ _ hs => ?_
    match s, hs with
    | .source (.name ⟨.slot i, mask⟩), hs => exact Makes.pure fun q hq => hs.mono hq
    | .source (.name ⟨.builtin _, _⟩), _ | .source (.literal _), _
    | .source (.interpolated _), _ | .source (.attribute _), _ | .matrix _, _ =>
      exact Makes.throw

theorem comparison_makes {op : String} :
    Makes given p (comparison op arg) fun cmp q => Argument.Filled q arg (.relation cmp) := by
  unfold comparison
  match arg with
  | some (.name text) =>
    dsimp only
    cases hcmp : Comparison.ofName? text with
    | some cmp => exact Makes.pure fun _ _ => ⟨_, rfl, .relation hcmp⟩
    | none => exact Makes.throw
  | some (.literal _) | some (.texture _) | some (.matrix _) | some (.interpolated _)
  | some (.attribute _) | none => exact Makes.throw

theorem textureArgument_makes {op : String} (harg : ∀ a, arg = some a → a ∈ given) :
    Makes given p (textureArgument op arg)
      fun id q => Argument.Filled q arg (.texture id) := by
  unfold textureArgument
  match arg with
  | some (.texture h) =>
    exact Makes.weaken (internTexture_makes (harg _ rfl)) fun _ _ _ hid => ⟨_, rfl, hid⟩
  | some (.name _) | some (.literal _) | some (.matrix _) | some (.interpolated _)
  | some (.attribute _) | none => exact Makes.throw

/-- The number of an instruction is written as a scalar. -/
theorem fixedTarget_makes {value : Operand} {scalar : Value} {mask : Mask} {number : Int}
    (hvalue : value = scalar.operand mask) (hnumber : scalar.whole? = some number) :
    Makes given p (fixedTarget number)
      fun target q => Argument.Filled q (some (.literal value)) (.target target) := by
  refine Makes.bind Makes.get fun _ _ _ _ => ?_
  exact Makes.bind require_makes fun _ _ _ hlow => Makes.pure fun _ _ =>
    ⟨_, rfl, .number hvalue hnumber (of_decide_eq_true hlow)⟩

theorem jumpTarget_makes :
    Makes given p (jumpTarget arg) fun target q => Argument.Filled q arg (.target target) := by
  unfold jumpTarget
  match arg with
  | some (.literal (.int i)) =>
    have hvalue : Operand.int i = (Value.int i).operand Mask.xyzq := rfl
    exact fixedTarget_makes hvalue rfl
  | some (.literal (.float s)) =>
    refine Makes.ite (fun hwhole => ?_) fun _ => Makes.throw
    have hvalue : Operand.float s = (Value.float s).operand Mask.xyzq := rfl
    exact fixedTarget_makes hvalue (if_pos hwhole)
  | some (.name text) =>
    refine Makes.bind require_makes fun _ q₁ _ huniform => ?_
    exact Makes.bind (slot_makes huniform) fun i q₂ _ hi => Makes.pure fun q hq =>
      ⟨_, rfl, .uniform huniform (hi.mono hq)⟩
  | some (.literal (.bool _)) | some (.literal (.vec _ _)) | some (.texture _) | some (.matrix _)
  | some (.interpolated _) | some (.attribute _) | none => exact Makes.throw

end

/-! ## Instructions -/

section

variable {args : List Argument}

theorem mem_of_arg (hargs : args ⊆ given) {i : Nat} :
    ∀ a, args[i]? = some a → a ∈ given :=
  fun _ ha => hargs (List.mem_of_getElem? ha)

theorem arith_makes {op : Arith} (hargs : args ⊆ given) :
    Makes given p (arith op args) fun ins q => ins.Cites q args := by
  unfold arith
  refine Makes.bind destination_makes fun dst q₁ _ hdst => ?_
  refine Makes.bind (supply_makes (mem_of_arg hargs)) fun s q₂ h₂ hs => ?_
  cases s with
  | source src =>
    exact Makes.pure fun q hq =>
      ⟨rfl, .cons (hdst.mono (h₂.trans hq)) (.cons (hs.mono hq) .nil)⟩
  | matrix id =>
    refine Makes.bind require_makes fun _ q₃ h₃ _ => ?_
    refine Makes.bind require_makes fun _ q₄ h₄ _ => Makes.pure fun q hq => ?_
    have h := (h₃.trans h₄).trans hq
    exact ⟨rfl, .cons (hdst.mono (h₂.trans h)) (.cons (hs.mono h) .nil)⟩

theorem condition_makes {op : String} (hargs : args ⊆ given) :
    Makes given p (condition op args)
      fun c q => (Instruction.ifThen c).Cites q args ∧ (Instruction.elseIf c).Cites q args := by
  refine Makes.bind (conditionName_makes (mem_of_arg hargs)) fun lhs q₁ _ hlhs => ?_
  refine Makes.bind comparison_makes fun cmp q₂ h₂ hcmp => ?_
  refine Makes.bind (source_makes (mem_of_arg hargs)) fun rhs q₃ h₃ hrhs =>
    Makes.pure fun q hq => ?_
  have h := h₃.trans hq
  have hfilled : List.Forall₂ (Argument.Filled q) [args[0]?, args[1]?, args[2]?]
      [.source (.name lhs), .relation cmp, .source rhs] :=
    .cons (hlhs.mono (h₂.trans h)) (.cons (hcmp.mono h) (.cons (hrhs.mono hq) .nil))
  exact ⟨⟨rfl, hfilled⟩, ⟨rfl, hfilled⟩⟩

theorem compare_makes {cmp : Comparison} (hargs : args ⊆ given) :
    Makes given p (compare cmp args) fun ins q => ins.Cites q args := by
  refine Makes.bind destination_makes fun dst q₁ _ hdst => ?_
  refine Makes.bind (supply_makes (mem_of_arg hargs)) fun lhs q₂ h₂ hlhs => ?_
  refine Makes.bind (supply_makes (mem_of_arg hargs)) fun rhs q₃ h₃ hrhs => ?_
  refine Makes.bind (requireSource_makes (hlhs.mono h₃)) fun a q₄ h₄ ha => ?_
  refine Makes.bind (requireSource_makes (hrhs.mono h₄)) fun b q₅ h₅ hb => ?_
  refine Makes.pure fun q hq => ?_
  have hdst := hdst.mono ((((h₂.trans h₃).trans h₄).trans h₅).trans hq)
  exact ⟨rfl, .cons hdst (.cons (ha.mono (h₅.trans hq)) (.cons (hb.mono hq) .nil))⟩

theorem sample_makes {model : ColorModel} (hargs : args ⊆ given) :
    Makes given p (sample model args) fun ins q => ins.Cites q args := by
  refine Makes.bind destination_makes fun dst q₁ _ hdst => ?_
  refine Makes.bind (textureArgument_makes (mem_of_arg hargs)) fun id q₂ h₂ hid => ?_
  refine Makes.bind (source_makes (mem_of_arg hargs)) fun coords q₃ h₃ hcoords =>
    Makes.pure fun q hq => ?_
  have h := h₃.trans hq
  exact ⟨rfl, .cons (hdst.mono (h₂.trans h)) (.cons (hid.mono h) (.cons (hcoords.mono hq) .nil))⟩

theorem convert_makes {model : ColorModel} (hargs : args ⊆ given) :
    Makes given p (convert model args) fun ins q => ins.Cites q args := by
  refine Makes.bind destination_makes fun dst q₁ _ hdst => ?_
  refine Makes.bind (source_makes (mem_of_arg hargs)) fun src q₂ h₂ hsrc => ?_
  refine Makes.bind require_makes fun _ q₃ h₃ _ => Makes.pure fun q hq => ?_
  have h := h₃.trans hq
  exact ⟨rfl, .cons (hdst.mono (h₂.trans h)) (.cons (hsrc.mono h) .nil)⟩

/-- The checks of a function call, once its operands are taken. -/
theorem callChecks_makes {f : MathFunction} {dst : Reference} {src : Source}
    {second : Option Source} {c c' : Bool} {e e' : ProgramError}
    (hcites : (Instruction.operation (.call f dst src second)).Cites p args) :
    Makes given p (do
      require c e
      require c' e'
      return .operation (.call f dst src second)) fun ins q => Instruction.Cites q args ins := by
  refine Makes.bind require_makes fun _ q₁ h₁ _ => ?_
  exact Makes.bind require_makes fun _ q₂ h₂ _ => Makes.pure fun q hq =>
    hcites.mono ((h₁.trans h₂).trans hq)

theorem call_makes {f : MathFunction} (hargs : args ⊆ given) :
    Makes given p (call f args) fun ins q => ins.Cites q args := by
  refine Makes.bind destination_makes fun dst q₁ _ hdst => ?_
  refine Makes.bind (source_makes (mem_of_arg hargs)) fun src q₂ h₂ hsrc => ?_
  refine Makes.ite (fun harity => ?_) fun harity => ?_
  · have hsecond : Makes given q₂ (some <$> secondSource f.name args[2]?) fun second q =>
        ∃ s, second = some s ∧ Argument.Filled q args[2]? (.source s) :=
      Makes.map (secondSource_makes (mem_of_arg hargs)) fun s _ _ hs hr => ⟨s, rfl, hs.mono hr⟩
    refine Makes.bind hsecond fun second q₃ h₃ hsecond => ?_
    obtain ⟨s, rfl, hs⟩ := hsecond
    refine callChecks_makes ⟨?_, .cons (hdst.mono (h₂.trans h₃)) (.cons (hsrc.mono h₃)
      (.cons hs .nil))⟩
    show 3 = 1 + f.arity
    omega
  · refine Makes.bind Makes.pure_eq fun second q₃ h₃ hsecond => ?_
    subst hsecond
    refine callChecks_makes ⟨?_, .cons (hdst.mono (h₂.trans h₃)) (.cons (hsrc.mono h₃) .nil)⟩
    show 2 = 1 + f.arity
    have harity := f.arity_eq
    omega

theorem discard_makes : Makes given p discard fun ins q => ins.Cites q args :=
  Makes.bind requireStage_makes fun _ _ _ _ => Makes.pure fun _ _ => ⟨rfl, .nil⟩

theorem instructionOf_makes {name : String} (hargs : args ⊆ given) :
    Makes given p (instructionOf name args) fun ins q => ins.Cites q args := by
  unfold instructionOf
  split
  iterate 10 · exact arith_makes hargs
  · exact Makes.bind (condition_makes hargs) fun c _ _ hc => Makes.pure fun _ hq =>
      hc.1.mono hq
  · exact Makes.bind (condition_makes hargs) fun c _ _ hc => Makes.pure fun _ hq =>
      hc.2.mono hq
  · exact Makes.pure fun _ _ => ⟨rfl, .nil⟩
  · exact Makes.pure fun _ _ => ⟨rfl, .nil⟩
  · exact discard_makes
  · exact Makes.bind jumpTarget_makes fun target _ _ h => Makes.pure fun _ hq =>
      ⟨rfl, .cons (h.mono hq) .nil⟩
  · exact sample_makes hargs
  · exact sample_makes hargs
  · exact convert_makes hargs
  · exact convert_makes hargs
  · exact Makes.bind (source_makes (mem_of_arg hargs)) fun src _ _ h => Makes.pure fun _ hq =>
      ⟨rfl, .cons (h.mono hq) .nil⟩
  · split
    · exact compare_makes hargs
    · split
      · exact call_makes hargs
      · exact Makes.throw

/-- An instruction that is accepted has a part for each operand, which the operand stands for. -/
theorem instruction_makes (name : String) (hargs : args ⊆ given) :
    Makes given p (instruction name args)
      fun ins q => List.Forall₂ (Argument.StandsFor q) args ins.parts := by
  refine Makes.bind (instructionOf_makes hargs) fun ins q₁ _ hins => ?_
  exact Makes.bind require_makes fun _ q₂ h₂ hcount => Makes.pure fun _ hq =>
    (hins.mono (h₂.trans hq)).forall₂ (of_decide_eq_true hcount)

end

end Build

namespace Program

/-! ## What edits keep -/

/-- The operands that an edit hands in. -/
def Edit.arguments : Edit → List Argument
  | .push _ args => args
  | _ => []

namespace Filed

variable {given : List Argument}

theorem invalidate (h : p.Filed given) (reason : ProgramError) :
    (p.invalidate reason).1.Filed given := by
  rw [invalidate_program]
  exact { h with }

theorem withRegisters (h : p.Filed given) (r : Registers) :
    Filed given { p with registers := r } :=
  { h with }

/-- A push files the operands up to the one that is refused. -/
theorem push (h : p.Filed given) (name : String) {args : List Argument} (hargs : args ⊆ given) :
    (p.push name args).program.Filed given := by
  unfold Program.push
  split
  · exact h
  · have hgrown := (Build.instruction_makes name hargs p (.refl p)).1
    rcases hrun : (Build.instruction name args).run p with ⟨result, q⟩
    rw [hrun] at hgrown
    have hq := hgrown.filed h
    cases result with
    | error e => exact hq.invalidate e
    | ok ins => exact { hq with }

theorem executeInPlace {ι : Type} [Invocation ι] (h : p.Filed given) (i : ι) :
    (p.executeInPlace i).program.Filed given := by
  rcases execute_program i p.registers with hsame | ⟨reason, hmarked⟩
  · rw [Program.executeInPlace, hsame]
    exact h.withRegisters _
  · rw [Program.executeInPlace, hmarked]
    exact (h.invalidate reason).withRegisters _

end Filed

/-- One edit keeps the names of a program proper and each resource under one number. -/
theorem edit_filed {given : List Argument} (h : p.Filed given) {e : Edit}
    (he : e.arguments ⊆ given) : (p.edit e).Filed given := by
  match e with
  | .push name args => exact h.push name he
  | .seal =>
    simp only [edit, Program.seal]
    split
    · exact h
    · split
      · exact h.invalidate _
      · exact { h with }
  | .reset => exact { Filed.new p.stage with }
  | .withColor color => exact { h with }
  | .updateUniforms source =>
    have hfilled := h.withRegisters
      (fillUniforms source p.declarations.toList.zipIdx p.registers).1
    simp only [edit, Program.updateUniforms]
    split
    · exact h
    · split
      · exact hfilled.invalidate _
      · split
        · exact hfilled.invalidate _
        · exact hfilled
  | .invalidate reason => exact h.invalidate reason
  | .runFragment f => exact h.executeInPlace f
  | .runVertex v => exact h.executeInPlace v

theorem edits_filed {given : List Argument} (h : p.Filed given) {edits : List Edit}
    (hedits : edits.flatMap Edit.arguments ⊆ given) : (edits.foldl edit p).Filed given := by
  induction edits generalizing p with
  | nil => exact h
  | cons e edits ih =>
    rw [List.flatMap_cons, List.append_subset] at hedits
    exact ih (edit_filed h hedits.1) hedits.2

theorem Reachable.filed (h : p.Reachable) : ∃ given, p.Filed given := by
  induction h with
  | new stage => exact ⟨[], .new stage⟩
  | edit _ e ih =>
    obtain ⟨given, hgiven⟩ := ih
    exact ⟨given ++ e.arguments, edit_filed (hgiven.mono (List.subset_append_left _ _))
      (List.subset_append_right _ _)⟩

/-- Whatever a program comes of, its names are proper. -/
theorem Reachable.proper (h : p.Reachable) : ∀ d ∈ p.declarations, d.Proper := by
  obtain ⟨given, hgiven⟩ := h.filed
  exact hgiven.proper

end Program

end Shading
