import Shading.Proofs.Fits

/- Building, step by step. `Build.Meets p x post` says of a step `x` taken at any
   later moment in the building of `p`: whether it succeeds or fails, the tables
   keep step and only get longer, and what it answers meets `post`. Each step
   of the builder has one lemma; an operand accepted earlier stays accepted,
   because what fits a program fits what it grows into. -/
namespace Shading

namespace Build

variable {α β : Type} {p : Program}

/-- Taken in a program that offers what `p` does, a step of building keeps the tables
in step, lengthens them at most, and answers only what meets `post`. -/
def Meets (p : Program) (x : Build α) (post : α → Program → Prop) : Prop :=
  ∀ q, p.Offers q → q.Tables →
    (x.run q).2.Tables ∧ q.Grows (x.run q).2 ∧ ∀ a, (x.run q).1 = .ok a → post a (x.run q).2

theorem run_bind (x : Build α) (f : α → Build β) (q : Program) :
    (x >>= f).run q =
      match x.run q with
      | (.ok a, r) => (f a).run r
      | (.error e, r) => (.error e, r) := by
  simp only [ExceptT.run, bind, ExceptT.bind, ExceptT.mk, ExceptT.bindCont, StateT.bind]
  cases x q with
  | mk result r => cases result <;> rfl

theorem run_get_bind {f : Program → Build β} (q : Program) :
    ((get : Build Program) >>= f).run q = (f q).run q := rfl

namespace Meets

variable {x : Build α} {f : α → Build β} {mid post : α → Program → Prop}
  {goal : β → Program → Prop}

theorem pure {a : α} (h : ∀ q, p.Offers q → post a q) : Meets p (pure a) post :=
  fun q hq ht => ⟨ht, .refl q, fun _ hb => Except.ok.inj hb ▸ h q hq⟩

theorem throw {e : ProgramError} : Meets p (throw e) post :=
  fun q _ ht => ⟨ht, .refl q, fun _ hb => by cases hb⟩

theorem weaken (h : Meets p x mid) (hpost : ∀ a q, p.Offers q → mid a q → post a q) :
    Meets p x post := by
  intro q hq ht
  obtain ⟨htables, hgrows, hmid⟩ := h q hq ht
  exact ⟨htables, hgrows, fun a ha => hpost a _ (hq.trans hgrows.toOffers) (hmid a ha)⟩

theorem bind (hx : Meets p x mid) (hf : ∀ a q, p.Offers q → mid a q → Meets q (f a) goal) :
    Meets p (x >>= f) goal := by
  intro q hq ht
  obtain ⟨htables, hgrows, hmid⟩ := hx q hq ht
  rw [run_bind]
  rcases hrun : x.run q with ⟨result, r⟩
  rw [hrun] at htables hgrows hmid
  cases result with
  | error e => exact ⟨htables, hgrows, fun b hb => by cases hb⟩
  | ok a =>
    -- the second step starts from what the first one left
    obtain ⟨htables', hgrows', hgoal⟩ :=
      hf a r (hq.trans hgrows.toOffers) (hmid a rfl) r (.refl r) htables
    exact ⟨htables', hgrows.trans hgrows', hgoal⟩

theorem pure_eq {a : α} : Meets p (Pure.pure a : Build α) fun b _ => b = a :=
  pure fun _ _ => rfl

theorem map {g : α → β} (h : Meets p x mid) :
    Meets p (g <$> x) fun b q => ∃ a, b = g a ∧ mid a q := by
  intro q hq ht
  obtain ⟨htables, hgrows, hmid⟩ := h q hq ht
  have hrun : (g <$> x).run q = (g <$> (x.run q).1, (x.run q).2) := by
    show (x >>= fun a => Pure.pure (g a)).run q = _
    rw [run_bind]
    rcases x.run q with ⟨result, r⟩
    cases result <;> rfl
  rw [hrun]
  refine ⟨htables, hgrows, fun b hb => ?_⟩
  cases hresult : (x.run q).1 with
  | error e => rw [hresult] at hb; cases hb
  | ok a =>
    rw [hresult] at hb
    exact ⟨a, (Except.ok.inj hb).symm, hmid a hresult⟩

theorem get : Meets p (get : Build Program) fun a q => a = q :=
  fun q _ ht => ⟨ht, .refl q, fun _ ha => (Except.ok.inj ha).symm⟩

theorem ite {c : Prop} [Decidable c] {y : Build α} (hx : c → Meets p x post)
    (hy : ¬c → Meets p y post) : Meets p (if c then x else y) post := by
  split
  · next h => exact hx h
  · next h => exact hy h

end Meets

/-! ## Variables and resources -/

/-- A variable is declared while there is a number for it. -/
theorem run_declare (name : String) (isUniform : Bool) (q : Program) :
    (declare name isUniform).run q =
      if q.declarations.size < Program.capacity then
        (.ok q.declarations.size, q.declare name isUniform)
      else (.error .tooManyVariables, q) := by
  by_cases h : q.declarations.size < Program.capacity
  · rw [if_pos h]
    show (require (decide (q.declarations.size < Program.capacity)) _ >>= _ : Build Nat).run q = _
    rw [decide_eq_true h]
    rfl
  · rw [if_neg h]
    show (require (decide (q.declarations.size < Program.capacity)) _ >>= _ : Build Nat).run q = _
    rw [decide_eq_false h]
    rfl

theorem run_slot (name : String) (isUniform : Bool) (q : Program) :
    (slot name isUniform).run q =
      match q.slotOf? name with
      | some i => (.ok i, q)
      | none => (declare name isUniform).run q := by
  unfold slot
  rw [run_bind]
  show (match q.slotOf? name with
      | some i => pure i
      | none => declare name isUniform : Build Nat).run q = _
  cases q.slotOf? name <;> rfl

theorem tables_declare {q : Program} (ht : q.Tables) {name : String} {isUniform : Bool}
    (hroom : q.declarations.size < Program.capacity) (hnew : q.slotOf? name = none)
    (hb : Builtin.ofName? name = none) (hu : isUniform = OperandName.hasDot name) :
    (q.declare name isUniform).Tables :=
  { ht with
    slots := by simp [Program.declare, Registers.addSlot, ht.slots]
    distinct := by
      have hother : ∀ d ∈ q.declarations, d.name ≠ name := by
        intro d hd
        have := Array.findIdx?_eq_none_iff.1 hnew d hd
        simpa using this
      simp only [Program.declare, Array.toList_push, List.map_append, List.map_cons, List.map_nil]
      refine List.nodup_append.2 ⟨ht.distinct, by simp, ?_⟩
      intro a ha b hb
      obtain ⟨d, hd, rfl⟩ := List.mem_map.1 ha
      rw [List.mem_singleton.1 hb]
      exact hother d (Array.mem_toList_iff.1 hd)
    notBuiltin := by
      intro d hd
      rcases Array.mem_push.1 hd with hd | rfl
      · exact ht.notBuiltin d hd
      · exact hb
    uniform := by
      intro d hd
      rcases Array.mem_push.1 hd with hd | rfl
      · exact ht.uniform d hd
      · exact hu
    declarations := by
      rw [Program.declare, Array.size_push]
      exact hroom }

/-- The slot of a name is declared under that name. -/
theorem slot_meets {name : String} {isUniform : Bool} (hb : Builtin.ofName? name = none)
    (hu : isUniform = OperandName.hasDot name) :
    Meets p (slot name isUniform) fun i q => q.declarations[i]? = some ⟨name, isUniform⟩ := by
  intro q _ ht
  rw [run_slot]
  cases hslot : q.slotOf? name with
  | some i =>
    refine ⟨ht, .refl q, fun a ha => ?_⟩
    obtain rfl : i = a := Except.ok.inj ha
    -- the name decides whether the declaration is that of a uniform
    obtain ⟨hi, hname, -⟩ := Array.findIdx?_eq_some_iff_getElem.1 hslot
    have hmem : q.declarations[i] ∈ q.declarations := Array.getElem_mem hi
    have huni := ht.uniform _ hmem
    rw [beq_iff_eq] at hname
    rw [hname, ← hu] at huni
    show q.declarations[i]? = some ⟨name, isUniform⟩
    rw [Array.getElem?_eq_getElem hi, ← hname, ← huni]
  | none =>
    dsimp only
    rw [run_declare]
    split
    · next hroom =>
      refine ⟨tables_declare ht hroom hslot hb hu, ?_, fun a ha => ?_⟩
      · exact { Program.Grows.refl q with
          declarations := .push _ _
          slots := ⟨1, rfl⟩ }
      · obtain rfl : q.declarations.size = a := Except.ok.inj ha
        exact Array.getElem?_push_size
    · exact ⟨ht, .refl q, fun a ha => by cases ha⟩

theorem run_intern {γ : Type} (t : HandleTable γ) (h : Handle γ) (q : Program) :
    (intern t h).run q =
      match h.find? (t.handles q) with
      | some i => (.ok i, q)
      | none =>
        if (t.handles q).size < Program.capacity then (.ok (t.handles q).size, t.enter q h)
        else (.error .tooManyHandles, q) := by
  unfold intern
  rw [run_bind]
  show (match h.find? (t.handles q) with
      | some i => pure i
      | none => require (decide ((t.handles q).size < Program.capacity)) _ >>= _ :
        Build Nat).run q = _
  cases h.find? (t.handles q) with
  | some i => rfl
  | none =>
    by_cases hroom : (t.handles q).size < Program.capacity
    · simp only [hroom, decide_true, if_true]
      rfl
    · simp only [hroom, decide_false, if_false]
      rfl

/-- The number of a handle is one of its table, into which handles can be entered. -/
theorem intern_meets {γ : Type} {t : HandleTable γ} {h : Handle γ}
    (htables : ∀ q : Program, q.Tables → ((t.handles q).push h).size ≤ Program.capacity →
      (t.enter q h).Tables)
    (hgrows : ∀ q : Program, q.Grows (t.enter q h)) :
    Meets p (intern t h) fun id q => id < (t.handles q).size := by
  intro q _ ht
  rw [run_intern]
  cases hfind : h.find? (t.handles q) with
  | some i =>
    refine ⟨ht, .refl q, fun a ha => ?_⟩
    exact Except.ok.inj ha ▸ (Array.findIdx?_eq_some_iff_getElem.1 hfind).1
  | none =>
    dsimp only
    split
    · next hroom =>
      have hsize : ((t.handles q).push h).size ≤ Program.capacity := by
        rw [Array.size_push]
        exact hroom
      refine ⟨htables q ht hsize, hgrows q, fun a ha => ?_⟩
      obtain rfl : (t.handles q).size = a := Except.ok.inj ha
      rw [t.handles_enter, Array.size_push]
      exact Nat.lt_succ_self _
    · exact ⟨ht, .refl q, fun a ha => by cases ha⟩

theorem internTexture_meets (h : Handle Texture) :
    Meets p (intern .textures h) fun id q => id < q.textures.size :=
  intern_meets (fun _ ht hsize => { ht with textures := hsize })
    fun q => { Program.Grows.refl q with textures := .push _ _ }

theorem internMatrix_meets (h : Handle Transform) :
    Meets p (intern .matrices h) fun id q => id < q.matrices.size :=
  intern_meets (fun _ ht hsize => { ht with matrices := hsize })
    fun q => { Program.Grows.refl q with matrices := .push _ _ }

theorem internAttribute_meets (h : Handle Attribute) :
    Meets p (intern .attributes h) fun id q => id < q.attributes.size :=
  intern_meets (fun _ ht hsize => { ht with attributes := hsize })
    fun q => { Program.Grows.refl q with attributes := .push _ _ }

theorem internInterpolated_meets (h : Handle Attribute) :
    Meets p (intern .interpolated h) fun id q => id < q.interpolated.size :=
  intern_meets
    (fun q ht hsize => { ht with
      anchors := by simp [HandleTable.interpolated, Registers.addAnchor, ht.anchors]
      interpolated := hsize })
    fun q => { Program.Grows.refl q with
      interpolated := .push _ _
      anchors := ⟨1, rfl⟩ }

/-! ## Checks -/

theorem require_meets {holds : Bool} {e : ProgramError} :
    Meets p (require holds e) fun _ _ => holds = true := by
  unfold require
  exact Meets.ite (fun h => Meets.pure fun _ _ => h) (fun _ => Meets.throw)

theorem requireStage_meets {op : String} {stage : Stage} :
    Meets p (requireStage op stage) fun _ q => q.stage = stage := by
  unfold requireStage
  refine Meets.bind Meets.get fun own q _ hown => ?_
  refine Meets.weaken require_meets fun _ r hr hstage => ?_
  rw [hr.stage, ← hown]
  exact beq_iff_eq.1 hstage

theorem requireOwn_meets {op : String} {b : Builtin} :
    Meets p (requireOwn op b) fun _ q => b.isOf q.stage = true := by
  unfold requireOwn Builtin.isOf
  cases b.stage? with
  | none => exact Meets.pure fun _ _ => rfl
  | some stage =>
    refine Meets.weaken requireStage_meets fun _ q _ hstage => ?_
    simp [hstage]

theorem operandName_meets {text : String} :
    Meets p (operandName text) fun name _ => OperandName.parse? text = some name := by
  unfold operandName
  cases h : OperandName.parse? text with
  | some name => exact Meets.pure fun _ _ => rfl
  | none => exact Meets.throw

theorem requireSwizzle_meets {text : String} {b : Builtin} {mask : Option Mask} :
    Meets p (requireSwizzle text b mask) fun _ _ => mask.isSome = true → b.isVector = true := by
  refine Meets.weaken require_meets fun _ _ _ h hmask => ?_
  cases mask <;> simp_all

theorem noteWritten_meets {b : Builtin} : Meets p (noteWritten b) fun _ _ => True := by
  unfold noteWritten
  refine Meets.ite (fun _ => ?_) (fun _ => Meets.pure fun _ _ => trivial)
  exact fun q _ ht => ⟨{ ht with }, { Program.Grows.refl q with }, fun _ _ => trivial⟩

/-! ## Names -/

theorem hasDot_of_isUniform {text : String} (h : OperandName.isUniform text = true) :
    OperandName.hasDot text = true := by
  unfold OperandName.isUniform at h
  unfold OperandName.hasDot
  split at h
  · next rest htext => rw [htext]; rfl
  · simp at h

/-- No built-in has a dot in front. -/
theorem ofName?_of_hasDot {base : String} (h : OperandName.hasDot base = true) :
    Builtin.ofName? base = none := by
  unfold Builtin.ofName?
  split <;> first | rfl | (exact absurd h (by decide))

theorem fits_of_slot {q : Program} {i : Nat} {d : Declaration} {mask : Option Mask}
    (h : q.declarations[i]? = some d) : Reference.Fits q ⟨.slot i, mask⟩ :=
  (Array.getElem?_eq_some_iff.1 h).1

theorem destinationName_meets {op text : String} :
    Meets p (destinationName op text) fun r q => r.IsTarget q := by
  unfold destinationName
  refine Meets.bind operandName_meets fun name q₁ _ _ => ?_
  cases hb : Builtin.ofName? name.base with
  | some b =>
    refine Meets.bind requireOwn_meets fun _ q₂ _ hown => ?_
    refine Meets.bind require_meets fun _ q₃ h₃ hwritable => ?_
    refine Meets.bind requireSwizzle_meets fun _ q₄ h₄ hswizzle => ?_
    refine Meets.bind noteWritten_meets fun _ q₅ h₅ _ => Meets.pure fun q hq => ?_
    have hstage : q.stage = q₂.stage := (((h₃.trans h₄).trans h₅).trans hq).stage
    exact ⟨⟨by rw [hstage]; exact hown, hswizzle⟩, hwritable⟩
  | none =>
    refine Meets.bind require_meets fun _ q₂ _ hdot => ?_
    refine Meets.bind require_meets fun _ q₃ _ _ => ?_
    have hplain : false = OperandName.hasDot name.base := by simpa using hdot.symm
    refine Meets.bind (slot_meets hb hplain) fun i q₄ _ hi => Meets.pure fun q hq => ?_
    have hi := hq.declarations.getElem? hi
    exact ⟨fits_of_slot hi, _, hi, rfl⟩

theorem sourceName_meets {op text : String} :
    Meets p (sourceName op text) fun r q => r.Fits q := by
  unfold sourceName
  refine Meets.bind operandName_meets fun name q₁ _ _ => ?_
  cases hb : Builtin.ofName? name.base with
  | some b =>
    refine Meets.bind requireOwn_meets fun _ q₂ _ hown => ?_
    refine Meets.bind requireSwizzle_meets fun _ q₃ h₃ hswizzle => Meets.pure fun q hq => ?_
    have hstage : q.stage = q₂.stage := (h₃.trans hq).stage
    exact ⟨by rw [hstage]; exact hown, hswizzle⟩
  | none =>
    refine Meets.ite (fun hdot => ?_) (fun hdot => ?_)
    · refine Meets.bind require_meets fun _ q₂ _ _ => ?_
      refine Meets.bind (slot_meets hb hdot.symm) fun i q₃ _ hi => Meets.pure fun q hq => ?_
      exact fits_of_slot (hq.declarations.getElem? hi)
    · refine Meets.bind Meets.get fun now q₂ _ hnow => ?_
      cases hslot : now.slotOf? name.base with
      | none => exact Meets.throw
      | some i =>
        refine Meets.pure fun q hq => ?_
        have hi : i < now.declarations.size := (Array.findIdx?_eq_some_iff_getElem.1 hslot).1
        rw [hnow] at hi
        exact Nat.lt_of_lt_of_le hi hq.declarations.size_le

theorem destination_meets {op : String} {arg : Option Argument} :
    Meets p (destination op arg) fun r q => r.IsTarget q := by
  unfold destination
  match arg with
  | some (.name text) => exact destinationName_meets
  | some (.literal _) | some (.texture _) | some (.matrix _) | some (.interpolated _)
  | some (.attribute _) | none => exact Meets.throw

/-! ## Sources -/

/-- What a source turned out to be fits, a matrix being there. -/
def Supply.Fits (p : Program) : Supply → Prop
  | .source src => src.Fits p
  | .matrix id => id < p.matrices.size

theorem Supply.Fits.mono {s : Supply} {q : Program} (h : Supply.Fits p s) (hq : p.Offers q) :
    Supply.Fits q s := by
  cases s with
  | source src => exact Source.Fits.mono h hq
  | matrix id => exact Nat.lt_of_lt_of_le h hq.matrices.size_le

theorem supply_meets {op : String} {arg : Option Argument} :
    Meets p (supply op arg) fun s q => Supply.Fits q s := by
  unfold supply
  match arg with
  | none => exact Meets.throw
  | some (.name text) =>
    refine Meets.bind sourceName_meets fun r _ _ hr => Meets.pure fun _ hq => ?_
    exact Reference.Fits.mono hr hq
  | some (.literal value) => exact Meets.pure fun _ _ => trivial
  | some (.texture h) => exact Meets.throw
  | some (.matrix h) =>
    exact Meets.bind (internMatrix_meets h) fun id _ _ hid =>
      Meets.pure fun _ hq => Nat.lt_of_lt_of_le hid hq.matrices.size_le
  | some (.interpolated h) =>
    refine Meets.bind requireStage_meets fun _ q₁ _ hstage => ?_
    refine Meets.bind (internInterpolated_meets h) fun id q₂ h₂ hid => Meets.pure fun q hq => ?_
    exact ⟨(h₂.trans hq).stage.trans hstage, Nat.lt_of_lt_of_le hid hq.interpolated.size_le⟩
  | some (.attribute h) =>
    refine Meets.bind requireStage_meets fun _ q₁ _ hstage => ?_
    refine Meets.bind (internAttribute_meets h) fun id q₂ h₂ hid => Meets.pure fun q hq => ?_
    exact ⟨(h₂.trans hq).stage.trans hstage, Nat.lt_of_lt_of_le hid hq.attributes.size_le⟩

theorem requireSource_meets {op : String} {s : Supply} (h : Supply.Fits p s) :
    Meets p (requireSource op s) fun src q => src.Fits q := by
  cases s with
  | source src => exact Meets.pure fun _ hq => Source.Fits.mono h hq
  | matrix id => exact Meets.throw

theorem source_meets {op : String} {arg : Option Argument} :
    Meets p (source op arg) fun src q => src.Fits q :=
  Meets.bind supply_meets fun _ _ _ hs => requireSource_meets hs

theorem conditionName_meets {op : String} {arg : Option Argument} :
    Meets p (conditionName op arg) fun r q => r.Fits q := by
  refine Meets.bind supply_meets fun s q₁ _ hs => ?_
  match s, hs with
  | .source (.name r), hs => exact Meets.pure fun _ hq => Reference.Fits.mono hs hq
  | .source (.literal _), _ | .source (.interpolated _), _ | .source (.attribute _), _
  | .matrix _, _ => exact Meets.throw

theorem secondSource_meets {op : String} {arg : Option Argument} :
    Meets p (secondSource op arg) fun src q => src.Fits q ∧ src.IsSlot := by
  unfold secondSource
  split
  · exact Meets.throw
  · exact Meets.throw
  · refine Meets.bind supply_meets fun s q₁ _ hs => ?_
    match s, hs with
    | .source (.name ⟨.slot i, mask⟩), hs =>
      exact Meets.pure fun q hq => ⟨Source.Fits.mono hs hq, i, mask, rfl⟩
    | .source (.name ⟨.builtin _, _⟩), _ | .source (.literal _), _
    | .source (.interpolated _), _ | .source (.attribute _), _ | .matrix _, _ =>
      exact Meets.throw

/-! ## Instructions -/

theorem arith_meets {op : Arith} {args : List Argument} :
    Meets p (arith op args) fun ins q => ins.Fits q := by
  unfold arith
  refine Meets.bind destination_meets fun dst q₁ _ hdst => ?_
  refine Meets.bind supply_meets fun s q₂ h₂ hs => ?_
  cases s with
  | source src =>
    exact Meets.pure fun q hq => ⟨hdst.mono (h₂.trans hq), Source.Fits.mono hs hq⟩
  | matrix id =>
    refine Meets.bind require_meets fun _ q₃ h₃ _ => ?_
    refine Meets.bind require_meets fun _ q₄ h₄ _ => Meets.pure fun q hq => ?_
    have h := (h₃.trans h₄).trans hq
    exact ⟨hdst.mono (h₂.trans h), Nat.lt_of_lt_of_le hs h.matrices.size_le⟩

theorem comparison_meets {op : String} {arg : Option Argument} :
    Meets p (comparison op arg) fun _ _ => True := by
  unfold comparison
  match arg with
  | some (.name text) =>
    dsimp only
    cases Comparison.ofName? text with
    | some cmp => exact Meets.pure fun _ _ => trivial
    | none => exact Meets.throw
  | some (.literal _) | some (.texture _) | some (.matrix _) | some (.interpolated _)
  | some (.attribute _) | none => exact Meets.throw

theorem condition_meets {op : String} {args : List Argument} :
    Meets p (condition op args) fun c q => c.Fits q := by
  refine Meets.bind conditionName_meets fun lhs q₁ _ hlhs => ?_
  refine Meets.bind comparison_meets fun cmp q₂ h₂ _ => ?_
  refine Meets.bind source_meets fun rhs q₃ h₃ hrhs => Meets.pure fun q hq => ?_
  exact ⟨hlhs.mono ((h₂.trans h₃).trans hq), hrhs.mono hq⟩

theorem compare_meets {cmp : Comparison} {args : List Argument} :
    Meets p (compare cmp args) fun ins q => ins.Fits q := by
  refine Meets.bind destination_meets fun dst q₁ _ hdst => ?_
  refine Meets.bind supply_meets fun lhs q₂ h₂ hlhs => ?_
  refine Meets.bind supply_meets fun rhs q₃ h₃ hrhs => ?_
  refine Meets.bind (requireSource_meets (hlhs.mono h₃)) fun a q₄ h₄ ha => ?_
  refine Meets.bind (requireSource_meets (hrhs.mono h₄)) fun b q₅ h₅ hb => ?_
  refine Meets.pure fun q hq => ?_
  have hdst := hdst.mono ((((h₂.trans h₃).trans h₄).trans h₅).trans hq)
  exact ⟨hdst, ha.mono (h₅.trans hq), hb.mono hq⟩

theorem textureArgument_meets {op : String} {arg : Option Argument} :
    Meets p (textureArgument op arg) fun id q => id < q.textures.size := by
  unfold textureArgument
  match arg with
  | some (.texture h) => exact internTexture_meets h
  | some (.name _) | some (.literal _) | some (.matrix _) | some (.interpolated _)
  | some (.attribute _) | none => exact Meets.throw

theorem sample_meets {model : ColorModel} {args : List Argument} :
    Meets p (sample model args) fun ins q => ins.Fits q := by
  refine Meets.bind destination_meets fun dst q₁ _ hdst => ?_
  refine Meets.bind textureArgument_meets fun id q₂ h₂ hid => ?_
  refine Meets.bind source_meets fun coords q₃ h₃ hcoords => Meets.pure fun q hq => ?_
  have h := h₃.trans hq
  exact ⟨hdst.mono (h₂.trans h), Nat.lt_of_lt_of_le hid h.textures.size_le, hcoords.mono hq⟩

theorem convert_meets {model : ColorModel} {args : List Argument} :
    Meets p (convert model args) fun ins q => ins.Fits q := by
  refine Meets.bind destination_meets fun dst q₁ _ hdst => ?_
  refine Meets.bind source_meets fun src q₂ h₂ hsrc => ?_
  refine Meets.bind require_meets fun _ q₃ h₃ _ => Meets.pure fun q hq => ?_
  have h := h₃.trans hq
  exact ⟨hdst.mono (h₂.trans h), hsrc.mono h⟩

/-- The checks of a function call, once its operands are taken. -/
theorem callChecks_meets {f : MathFunction} {dst : Reference} {src : Source}
    {second : Option Source} {c c' : Bool} {e e' : ProgramError} (hdst : dst.IsTarget p)
    (hsrc : src.Fits p) (harity : second.isSome = true ↔ f.arity = 2)
    (hsecond : ∀ src ∈ second, src.Fits p ∧ src.IsSlot) :
    Meets p (do
      require c e
      require c' e'
      return .operation (.call f dst src second)) fun ins q => Instruction.Fits q ins := by
  refine Meets.bind require_meets fun _ q₁ h₁ _ => ?_
  refine Meets.bind require_meets fun _ q₂ h₂ _ => Meets.pure fun q hq => ?_
  have h := (h₁.trans h₂).trans hq
  exact ⟨hdst.mono h, hsrc.mono h, harity,
    fun s hs => ⟨(hsecond s hs).1.mono h, (hsecond s hs).2⟩⟩

theorem call_meets {f : MathFunction} {args : List Argument} :
    Meets p (call f args) fun ins q => ins.Fits q := by
  refine Meets.bind destination_meets fun dst q₁ _ hdst => ?_
  refine Meets.bind source_meets fun src q₂ h₂ hsrc => ?_
  refine Meets.ite (fun harity => ?_) (fun harity => ?_)
  · refine Meets.bind (Meets.map secondSource_meets) fun second q₃ h₃ hsecond => ?_
    obtain ⟨s, rfl, hs⟩ := hsecond
    refine callChecks_meets (hdst.mono (h₂.trans h₃)) (hsrc.mono h₃) (by simp [harity]) ?_
    rintro s ⟨⟩
    exact hs
  · refine Meets.bind Meets.pure_eq fun second q₃ h₃ hsecond => ?_
    subst hsecond
    exact callChecks_meets (hdst.mono (h₂.trans h₃)) (hsrc.mono h₃) (by simp [harity])
      (fun s hs => by simp at hs)

theorem run_fixedTarget (number : Int) (p : Program) : (fixedTarget number).run p =
    if 1 ≤ number then (.ok (.index (number - 1).toNat), p)
    else (.error (.badJumpTarget number p.length), p) := by
  unfold fixedTarget
  by_cases h : 1 ≤ number
  · simp only [h, decide_true, if_true]
    rfl
  · simp only [h, decide_false, if_false]
    rfl

theorem fixedTarget_meets {number : Int} :
    Meets p (fixedTarget number) fun target q => Instruction.Fits q (.goto target) := by
  refine Meets.bind Meets.get fun _ _ _ _ => ?_
  exact Meets.bind require_meets fun _ _ _ _ => Meets.pure fun _ _ => trivial

theorem jumpTarget_meets {arg : Option Argument} :
    Meets p (jumpTarget arg) fun target q => Instruction.Fits q (.goto target) := by
  unfold jumpTarget
  match arg with
  | some (.literal (.int i)) => exact fixedTarget_meets
  | some (.literal (.float s)) =>
    exact Meets.ite (fun _ => fixedTarget_meets) (fun _ => Meets.throw)
  | some (.name text) =>
    refine Meets.bind require_meets fun _ q₁ _ htext => ?_
    have hdot := hasDot_of_isUniform htext
    -- with its dot the name is that of no built-in, so it may be declared
    refine Meets.bind (slot_meets (ofName?_of_hasDot hdot) hdot.symm) fun i q₂ _ hi =>
      Meets.pure fun q hq => ?_
    exact ⟨_, hq.declarations.getElem? hi, rfl⟩
  | some (.literal (.bool _)) | some (.literal (.vec _ _)) | some (.texture _) | some (.matrix _)
  | some (.interpolated _) | some (.attribute _) | none => exact Meets.throw

theorem discard_meets : Meets p discard fun ins q => ins.Fits q :=
  Meets.bind requireStage_meets fun _ _ _ hstage => Meets.pure fun _ hq => hq.stage.trans hstage

theorem instructionOf_meets {name : String} {args : List Argument} :
    Meets p (instructionOf name args) fun ins q => ins.Fits q := by
  unfold instructionOf
  split
  -- the five operations of arithmetic, each under two names
  iterate 10 · exact arith_meets
  iterate 2
    · refine Meets.bind condition_meets fun c _ _ hc => Meets.pure fun _ hq => ?_
      exact Condition.Fits.mono hc hq
  · exact Meets.pure fun _ _ => trivial
  · exact Meets.pure fun _ _ => trivial
  · exact discard_meets
  · exact Meets.bind jumpTarget_meets fun target _ _ h => Meets.pure fun _ hq => h.mono hq
  · exact sample_meets
  · exact sample_meets
  · exact convert_meets
  · exact convert_meets
  · exact Meets.bind source_meets fun src _ _ h => Meets.pure fun _ hq => h.mono hq
  · split
    · exact compare_meets
    · split
      · exact call_meets
      · exact Meets.throw

theorem instruction_meets {name : String} {args : List Argument} :
    Meets p (instruction name args) fun ins q => ins.Fits q := by
  refine Meets.bind instructionOf_meets fun ins q₁ _ hins => ?_
  exact Meets.bind require_meets fun _ q₂ h₂ _ => Meets.pure fun _ hq => hins.mono (h₂.trans hq)

/-- Whether it is accepted or refused, an instruction brings at most new variables and
resources with it. -/
theorem grows_instruction (ht : p.Tables) (name : String) (args : List Argument) :
    p.Grows ((instruction name args).run p).2 :=
  (instruction_meets p (.refl p) ht).2.1

end Build

end Shading
