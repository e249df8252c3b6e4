import Shading.Proofs.Block
import Shading.Proofs.History

/- What one invocation carries to the next. A thread runs its invocations on one
   register file, so what the last one left in a variable is there for the next.
   A program that assigns each variable before it uses it does not read those
   leftovers, yet it may show them: an assignment keeps the type of an old scalar
   for a float, and the lanes of an old vector that a narrow source does not
   reach. Where what is assigned hides the leftovers (`Operand.hides`), two runs
   on different leftovers stay alike but for the variables that neither has come
   to (`State.Alike`), and nothing else tells them apart. -/
namespace Shading

/-! ## What an assignment hides -/

/-- Whether an assignment of an operand stores the same over either of two values. A
float takes the type of an old scalar, other scalars bring theirs along, a vector
of three floats or more covers every lane, one of two floats covers a scalar,
and one of fewer is as good as a float. -/
def Operand.hides (x : Operand) (a b : Value) : Bool :=
  a == b ||
    match x with
    | .float _ => a.typeName == b.typeName
    | .int _ | .bool _ => a.isVec == b.isVec
    | .vec _ mask =>
      3 ≤ mask.count ||
        !a.isVec && !b.isVec && (mask.count == 2 || a.typeName == b.typeName)

namespace Arith

/-- Three floats leave no lane of a vector as it was, because the last becomes one. -/
theorem ontoVec_assign_eq {mask : Mask} (hmask : 3 ≤ mask.count) (v old old' : Vec4) :
    assign.ontoVec old (.vec v mask) = assign.ontoVec old' (.vec v mask) := by
  have hlen : 3 ≤ (Operand.vec v mask).active.length := by
    rw [← Operand.count_vec v mask] at hmask
    exact hmask
  unfold ontoVec
  simp only [Operand.isScalar, Bool.false_eq_true, if_false]
  congr 1
  funext l
  split
  · rfl
  · next hnone =>
    have hl : l = .q := by
      have hindex := List.getElem?_eq_none_iff.1 hnone
      cases l <;> first | rfl | (simp only [Lane.index] at hindex; omega)
    simp [hl]

theorem combine_wide {mask : Mask} (hmask : 3 ≤ mask.count) (v : Vec4) (old : Value) :
    assign.combine old none (.vec v mask) = .vec (assign.ontoVec Vec4.zero (.vec v mask)) := by
  have hseveral : 1 < mask.count := by omega
  cases old with
  | vec w => exact congrArg Value.vec (ontoVec_assign_eq hmask v w Vec4.zero)
  | float _ | int _ | bool _ => simp only [combine, ontoScalar, hseveral, if_true]

theorem combine_scalar {old : Value} (hold : old.isVec = false) (v : Vec4) (mask : Mask) :
    assign.combine old none (.vec v mask) =
      if 1 < mask.count then .vec (assign.ontoVec Vec4.zero (.vec v mask))
      else assign.scalars old (.float (Operand.vec v mask).scalar) := by
  cases old with
  | vec w => simp [Value.isVec] at hold
  | float _ | int _ | bool _ => rfl

theorem scalars_float_eq {a b : Value} (h : a.typeName = b.typeName) (s : Float32) :
    assign.scalars a (.float s) = assign.scalars b (.float s) := by
  cases a <;> cases b <;> first | rfl | simp [Value.typeName] at h

/-- An assignment that hides what was there before stores the same over it. -/
theorem combine_eq_of_hides {x : Operand} {a b : Value} (h : x.hides a b = true) :
    assign.combine a none x = assign.combine b none x := by
  unfold Operand.hides at h
  rw [Bool.or_eq_true] at h
  rcases h with heq | h
  · rw [eq_of_beq heq]
  · cases x with
    | float s => cases a <;> cases b <;> first | rfl | simp [Value.typeName] at h
    | int i => cases a <;> cases b <;> first | rfl | simp [Value.isVec] at h
    | bool c => cases a <;> cases b <;> first | rfl | simp [Value.isVec] at h
    | vec v mask =>
      simp only [Bool.or_eq_true, Bool.and_eq_true, decide_eq_true_eq, Bool.not_eq_true',
        beq_iff_eq] at h
      rcases h with hwide | ⟨⟨ha, hb⟩, hnarrow⟩
      · rw [combine_wide hwide, combine_wide hwide]
      · rw [combine_scalar ha, combine_scalar hb]
        rcases hnarrow with htwo | htype
        · simp only [htwo, Nat.one_lt_two, if_true]
        · rw [scalars_float_eq htype]

end Arith

/-! ## The variables an instruction mentions -/

/-- The slot of a place, if it is one. -/
def Place.slots : Place → List Nat
  | .builtin _ => []
  | .slot v => [v]

/-- The slots that a source reads. -/
def Source.slots : Source → List Nat
  | .name r => r.place.slots
  | .literal _ | .interpolated _ | .attribute _ => []

/-- The slots that an operation mentions. -/
def Operation.slots (o : Operation) : List Nat :=
  o.destination?.toList.flatMap (fun dst => dst.place.slots) ++ o.sources.flatMap Source.slots

theorem Operation.mem_slots_assign {v w : Nat} {src : Source} :
    w ∈ (arith .assign ⟨.slot v, none⟩ src).slots ↔ w = v ∨ w ∈ src.slots := by
  simp [slots, destination?, sources, Place.slots]

/-- The slots that an instruction mentions. -/
def Instruction.slots : Instruction → List Nat
  | .operation o => o.slots
  | .ifThen c | .elseIf c => c.lhs.place.slots ++ c.rhs.slots
  | .goto (.uniform v) => [v]
  | .discard | .otherwise | .endIf | .goto (.index _) => []

variable {ι : Type} {p : Program}

namespace Program

/-- A slot is a variable, not a uniform. -/
def IsVariable (p : Program) (v : Nat) : Prop := (Place.slot v).Writable p

/-- The first instruction that mentions a variable comes behind some others and
assigns it a source that does not read it. -/
structure AssignsFirst (p : Program) (v : Nat) (before : List Instruction) (src : Source) :
    Prop where
  found : before ++ [.operation (.arith .assign ⟨.slot v, none⟩ src)] <+: p.instructions.toList
  first : ∀ ins ∈ before, v ∉ ins.slots
  apart : v ∉ src.slots

/-- The register files that the canonical one becomes by invocations of the
program. -/
inductive Carried (p : Program) : Registers → Prop
  | canonical : Carried p p.registers
  | execute {κ : Type} [Invocation κ] [CacheBlind κ] {r : Registers} (h : Carried p r) (i : κ) :
    Carried p (p.execute i r).registers

end Program

variable {v : Nat} {src : Source}

theorem Program.IsVariable.eq_zero (hv : p.IsVariable v) (hp : p.declarations.size = 1) :
    v = 0 := by
  obtain ⟨d, hd, -⟩ := hv
  have hlt := (Array.getElem?_eq_some_iff.1 hd).1
  omega

theorem Program.AssignsFirst.head
    (hp : p.instructions.toList.head? = some (.operation (.arith .assign ⟨.slot v, none⟩ src)))
    (hv : v ∉ src.slots) : p.AssignsFirst v [] src where
  found := by
    obtain ⟨rest, hrest⟩ := List.head?_eq_some_iff.1 hp
    exact ⟨rest, hrest.symm⟩
  first := by simp
  apart := hv

/-! ## Carried register files -/

namespace Program.Carried

variable {r : Registers}

theorem suits (hp : p.WellFormed) (h : p.Carried r) : r.Suits p := by
  induction h with
  | canonical => exact hp.suits
  | execute _ i ih => exact execute_suits i ih

/-- What is no variable holds the canonical value. -/
theorem slot (hp : p.WellFormed) (h : p.Carried r) {v : Nat} (hv : ¬p.IsVariable v) :
    r.slot? v = p.registers.slot? v := by
  induction h with
  | canonical => rfl
  | execute _ i ih => rw [execute_slot (hp.place_ne hv), ih]

end Program.Carried

/-! ## Two runs on different leftovers -/

/-- Two states of runs that started on the register files `r` and `r'`. They agree
but for some variables, which hold what was left in them. -/
structure State.Alike (p : Program) (r r' : Registers) (left : Nat → Prop) (s t : State ι) :
    Prop where
  invocation : s.invocation = t.invocation
  events : s.events = t.events
  suits : s.registers.Suits p ∧ t.registers.Suits p
  agree : ∀ v, ¬left v → s.registers.slot? v = t.registers.slot? v
  kept : ∀ v, left v → s.registers.slot? v = r.slot? v ∧ t.registers.slot? v = r'.slot? v

namespace State.Alike

variable {r r' : Registers} {left : Nat → Prop} {s t : State ι}

theorem mono {left' : Nat → Prop} (h : s.Alike p r r' left t) (hleft : ∀ v, left' v ↔ left v) :
    s.Alike p r r' left' t := by
  obtain rfl : left' = left := funext fun v => propext (hleft v)
  exact h

variable [Invocation ι]

theorem current (h : s.Alike p r r' left t) {place : Place} (hplace : ∀ v ∈ place.slots, ¬left v) :
    s.current place = t.current place := by
  cases place with
  | builtin b => rw [State.current, State.current, h.invocation]
  | slot v => rw [State.current, State.current, h.agree v (hplace v (by simp [Place.slots]))]

theorem read_interpolated [CacheBlind ι] (h : s.Alike p r r' left t) (id : Nat) :
    ((Source.interpolated id).read p s).1 = ((Source.interpolated id).read p t).1 ∧
      ((Source.interpolated id).read p s).2.Alike p r r' left
        ((Source.interpolated id).read p t).2 := by
  have hsize : s.registers.anchors.size = t.registers.anchors.size :=
    h.suits.1.anchors.trans h.suits.2.anchors.symm
  have hvalue := Source.read_interpolated_eq id h.invocation hsize h.suits.1.coherent
    h.suits.2.coherent
  have hsuits := And.intro (Source.read_suits (.interpolated id) h.suits.1)
    (Source.read_suits (.interpolated id) h.suits.2)
  obtain ⟨_, -, hs⟩ := (Source.interpolated id).read_frame (p := p) s
  obtain ⟨_, -, ht⟩ := (Source.interpolated id).read_frame (p := p) t
  rw [hs, ht] at hsuits ⊢
  exact ⟨hvalue, ⟨h.invocation, h.events, hsuits, h.agree, h.kept⟩⟩

/-- A source that reads no leftover reads the same in both. -/
theorem read [CacheBlind ι] (h : s.Alike p r r' left t) {src : Source}
    (hsrc : ∀ v ∈ src.slots, ¬left v) :
    (src.read p s).1 = (src.read p t).1 ∧
      (src.read p s).2.Alike p r r' left (src.read p t).2 := by
  match src, hsrc with
  | .literal value, _ => exact ⟨rfl, h⟩
  | .interpolated id, _ => exact h.read_interpolated id
  | .attribute id, _ =>
    refine ⟨?_, h⟩
    simp only [Source.read, h.invocation]
  | .name ⟨.builtin b, mask⟩, _ =>
    refine ⟨?_, h⟩
    simp only [Source.read, State.readName?, h.invocation]
  | .name ⟨.slot v, mask⟩, hsrc =>
    refine ⟨?_, h⟩
    have hv := h.agree v (hsrc v List.mem_cons_self)
    simp only [Source.read, State.readName?, hv]

/-- Storing the same in a place leaves them alike, and what was left in a slot is then
gone. -/
theorem store (h : s.Alike p r r' left t) (place : Place) (value : Value) :
    (s.store place value).Alike p r r' (fun v => left v ∧ v ∉ place.slots)
      (t.store place value) := by
  cases place with
  | builtin b =>
    refine ⟨?_, h.events, h.suits, fun v hv => h.agree v ?_, fun v hv => h.kept v hv.1⟩
    · simp only [State.store, h.invocation]
    · exact fun hleft => hv ⟨hleft, by simp [Place.slots]⟩
  | slot w =>
    have hsize := h.suits.1.slots.trans h.suits.2.slots.symm
    refine ⟨h.invocation, h.events, ⟨h.suits.1.store w value, h.suits.2.store w value⟩,
      fun v hv => ?_, fun v hv => ?_⟩
    · simp only [State.store, Registers.slot?_store, hsize]
      split
      · rfl
      · next hw => exact h.agree v fun hleft => hv ⟨hleft, by simpa [Place.slots] using Ne.symm hw⟩
    · have hw : w ≠ v := by simpa [Place.slots, eq_comm] using hv.2
      simp only [State.store, Registers.slot?_store, if_neg hw]
      exact h.kept v hv.1

theorem update (h : s.Alike p r r' left t) {place : Place}
    (hplace : ∀ v ∈ place.slots, ¬left v) (g : Value → Value) :
    (s.update place g).Alike p r r' left (t.update place g) := by
  rw [State.update, State.update, h.current hplace]
  exact (h.store place _).mono fun v => ⟨fun hv => ⟨hv, fun hmem => hplace v hmem hv⟩, And.left⟩

/-- An operation that mentions no leftover keeps two states alike. -/
theorem run [CacheBlind ι] (h : s.Alike p r r' left t) {o : Operation}
    (ho : ∀ v ∈ o.slots, ¬left v) : (o.run p s).Alike p r r' left (o.run p t) := by
  have hrespects : o.Respects p fun s t : State ι => s.Alike p r r' left t := {
    invocation h := h.invocation
    read src hsrc _ _ h := h.read fun v hv =>
      ho v (List.mem_append_right _ (List.mem_flatMap.2 ⟨src, hsrc, hv⟩))
    update dst hdst g _ _ h := h.update (fun v hv => ho v (List.mem_append_left _
      (List.mem_flatMap.2 ⟨dst, by simp [hdst], hv⟩))) g
    report _ _ _ _ _ h :=
      ⟨h.invocation, congrArg (Array.push · _) h.events, h.suits, h.agree, h.kept⟩ }
  exact hrespects.run h

/-- An assignment that hides a leftover does away with it. -/
theorem assign [CacheBlind ι] (h : s.Alike p r r' left t) {v : Nat} {src : Source}
    (hsrc : ∀ w ∈ src.slots, ¬left w) {x : Operand} (hx : (src.read p s).1 = some x)
    (hhides : x.hides ((r.slot? v).getD default) ((r'.slot? v).getD default) = true) :
    ((Operation.arith .assign ⟨.slot v, none⟩ src).run p s).Alike p r r'
      (fun w => left w ∧ w ≠ v) ((Operation.arith .assign ⟨.slot v, none⟩ src).run p t) := by
  obtain ⟨hvalue, hstate⟩ := h.read hsrc
  rcases hs : src.read p s with ⟨y, s'⟩
  rcases ht : src.read p t with ⟨z, t'⟩
  rw [hs] at hx
  obtain rfl : y = some x := hx
  rw [hs, ht] at hvalue hstate
  obtain rfl : some x = z := hvalue
  have hsame : Arith.assign.combine (s'.current (.slot v)) none x =
      Arith.assign.combine (t'.current (.slot v)) none x := by
    -- a leftover is what it was when the runs began
    by_cases hv : left v
    · obtain ⟨hs, ht⟩ := hstate.kept v hv
      rw [State.current, State.current, hs, ht]
      exact Arith.combine_eq_of_hides hhides
    · rw [State.current, State.current, hstate.agree v hv]
  simp only [Operation.run, Source.andThen, hs, ht, State.update, hsame]
  exact (hstate.store (.slot v) _).mono fun w => by simp [Place.slots]

end State.Alike

namespace Program

/-- A variable that some instructions do not mention. -/
def Untouched (p : Program) (before : List Instruction) (v : Nat) : Prop :=
  p.IsVariable v ∧ ∀ ins ∈ before, v ∉ ins.slots

theorem takeWhile_eq_before {v : Nat} {before : List Instruction} {ins : Instruction}
    (hbefore : ∀ ins ∈ before, v ∉ ins.slots) (hins : v ∈ ins.slots) (rest : List Instruction) :
    (before ++ ins :: rest).takeWhile (fun ins => decide (v ∉ ins.slots)) = before := by
  rw [List.takeWhile_append_of_pos (by simpa using hbefore),
    List.takeWhile_cons_of_neg (by simpa using hins), List.append_nil]

/-- The first instruction that mentions a variable is the one that assigns it. -/
theorem AssignsFirst.eq_of_mem_slots {v : Nat} {before : List Instruction} {src : Source}
    (h : p.AssignsFirst v before src) {before' rest : List Instruction} {ins : Instruction}
    (hp : p.instructions.toList = before' ++ ins :: rest)
    (hbefore : ∀ ins ∈ before', v ∉ ins.slots) (hins : v ∈ ins.slots) :
    before = before' ∧ ins = .operation (.arith .assign ⟨.slot v, none⟩ src) := by
  obtain ⟨rest', hrest⟩ := h.found
  have hv : v ∈ (Instruction.operation (.arith .assign ⟨.slot v, none⟩ src)).slots :=
    Operation.mem_slots_assign.2 (.inl rfl)
  rw [hp, List.append_assoc, List.singleton_append] at hrest
  have hsame : before = before' := by
    rw [← takeWhile_eq_before h.first hv rest', hrest, takeWhile_eq_before hbefore hins]
  subst hsame
  exact ⟨rfl, (List.cons.inj (List.append_cancel_left hrest)).1.symm⟩

variable [Invocation ι] {r r' : Registers}

theorem runLinear_append (p : Program) : ∀ (l l' : List Instruction) (s : State ι),
    p.runLinear (l ++ l') s = (p.runLinear l s).andThen (p.runLinear l') := by
  intro l l'
  induction l with
  | nil => exact fun _ => rfl
  | cons ins l ih =>
    intro s
    cases ins with
    | operation o => exact ih (o.run p s)
    | discard => rfl
    | ifThen _ | elseIf _ | otherwise | endIf | goto _ => exact ih s

/-- If the run comes to the first assignment of a variable, then there is something to
assign, and it hides what two register files hold in the variable. -/
def Overwrites (p : Program) (i : ι) (r r' : Registers) (v : Nat) (before : List Instruction)
    (src : Source) : Prop :=
  (p.runLinear before ⟨i, r, #[]⟩).ending = .completed →
    ∃ x, (src.read p (p.runLinear before ⟨i, r, #[]⟩).state).1 = some x ∧
      x.hides ((r.slot? v).getD default) ((r'.slot? v).getD default) = true

section

variable [CacheBlind ι] {i : ι}
  (hfirst : ∀ v, p.IsVariable v → (∃ ins ∈ p.instructions, v ∈ ins.slots) →
    ∃ before src, p.AssignsFirst v before src ∧ p.Overwrites i r r' v before src)

include hfirst

/-- One operation keeps two states alike, and what it mentions is then no leftover. -/
theorem alike_step {before rest : List Instruction} {o : Operation} {s t : State ι}
    (hp : p.instructions.toList = before ++ .operation o :: rest)
    (hrun : p.runLinear before ⟨i, r, #[]⟩ = ⟨s, .completed⟩)
    (h : s.Alike p r r' (p.Untouched before) t) :
    (o.run p s).Alike p r r' (p.Untouched (before ++ [.operation o])) (o.run p t) := by
  have hins : .operation o ∈ p.instructions := by
    rw [← Array.mem_toList_iff, hp]
    simp
  -- an untouched variable that is mentioned here is assigned here
  have hassign : ∀ v ∈ o.slots, p.Untouched before v → ∃ src, v ∉ src.slots ∧
      o = .arith .assign ⟨.slot v, none⟩ src ∧ p.Overwrites i r r' v before src := by
    intro v hv hleft
    obtain ⟨before', src, hassigns, hover⟩ := hfirst v hleft.1 ⟨_, hins, hv⟩
    obtain ⟨rfl, ho⟩ := hassigns.eq_of_mem_slots hp hleft.2 hv
    exact ⟨src, hassigns.apart, Instruction.operation.inj ho, hover⟩
  have huntouched : ∀ w, p.Untouched (before ++ [.operation o]) w ↔
      p.Untouched before w ∧ w ∉ o.slots := by
    intro w
    simp [Untouched, and_assoc, or_imp, forall_and, Instruction.slots]
  by_cases hmention : ∃ v ∈ o.slots, p.Untouched before v
  · obtain ⟨v, hv, hleft⟩ := hmention
    obtain ⟨src, hapart, rfl, hover⟩ := hassign v hv hleft
    -- the source reads no other leftover, or this would be the first assignment of two
    have hsrc : ∀ w ∈ src.slots, ¬p.Untouched before w := by
      intro w hw hwleft
      obtain ⟨_, -, heq, -⟩ := hassign w (Operation.mem_slots_assign.2 (.inr hw)) hwleft
      obtain ⟨-, hdst, -⟩ := Operation.arith.inj heq
      have hvw := Place.slot.inj (congrArg Reference.place hdst)
      exact hapart (hvw ▸ hw)
    rw [Overwrites, hrun] at hover
    obtain ⟨x, hx, hhides⟩ := hover rfl
    refine (h.assign hsrc hx hhides).mono fun w => ?_
    rw [huntouched, Operation.mem_slots_assign, not_or]
    exact ⟨fun hw => ⟨hw.1, hw.2.1⟩, fun hw => ⟨hw.1, hw.2, fun hmem => hsrc w hmem hw.1⟩⟩
  · refine (h.run fun v hv hleft => hmention ⟨v, hv, hleft⟩).mono fun w => ?_
    rw [huntouched]
    exact ⟨And.left, fun hw => ⟨hw, fun hmem => hmention ⟨w, hmem, hw⟩⟩⟩

/-- Two runs that are alike where they stand end alike. -/
theorem runLinear_alike (hlinear : ∀ ins ∈ p.instructions, ins.isBranch = false) :
    ∀ (rest before : List Instruction) {s t : State ι}, p.instructions.toList = before ++ rest →
      p.runLinear before ⟨i, r, #[]⟩ = ⟨s, .completed⟩ →
      s.Alike p r r' (p.Untouched before) t →
      (p.runLinear rest s).ending = (p.runLinear rest t).ending ∧
        (p.runLinear rest s).state.invocation = (p.runLinear rest t).state.invocation ∧
        (p.runLinear rest s).state.events = (p.runLinear rest t).state.events := by
  intro rest
  induction rest with
  | nil => exact fun _ _ _ _ _ h => ⟨rfl, h.invocation, h.events⟩
  | cons ins rest ih =>
    intro before s t hp hrun h
    have hins : ins.isBranch = false := by
      refine hlinear ins ?_
      rw [← Array.mem_toList_iff, hp]
      simp
    cases ins with
    | operation o =>
      have hp' : p.instructions.toList = (before ++ [.operation o]) ++ rest := by simp [hp]
      have hrun' : p.runLinear (before ++ [.operation o]) ⟨i, r, #[]⟩ =
          ⟨o.run p s, .completed⟩ := by
        rw [runLinear_append, hrun]
        rfl
      exact ih _ hp' hrun' (alike_step hfirst hp hrun h)
    | discard => exact ⟨rfl, congrArg Invocation.discard h.invocation, h.events⟩
    | ifThen _ | elseIf _ | otherwise | endIf | goto _ => simp [Instruction.isBranch] at hins

end

end Program

/-- A program without branches that assigns each of its variables before it uses them,
over leftovers that this assignment hides, gives the same for an invocation
whatever earlier invocations left in the registers. -/
theorem execute_carried [Invocation ι] [CacheBlind ι] {r r' : Registers} {i : ι}
    (hp : p.Reachable) (hlinear : ∀ ins ∈ p.instructions, ins.isBranch = false)
    (hr : p.Carried r) (hr' : p.Carried r')
    (hfirst : ∀ v, p.IsVariable v → (∃ ins ∈ p.instructions, v ∈ ins.slots) →
      ∃ before src, p.AssignsFirst v before src ∧ p.Overwrites i r r' v before src) :
    (p.execute i r).isValid = (p.execute i r').isValid ∧
      (p.execute i r).invocation = (p.execute i r').invocation ∧
      (p.execute i r).events = (p.execute i r').events := by
  have hwell := hp.wellFormed
  have hbranches : p.hasBranches = false := by
    rw [hwell.branches, Array.any_eq_false']
    exact fun ins hins => ne_true_of_eq_false (hlinear ins hins)
  have hrun : ∀ s : State ι, p.run s = p.runLinear p.instructions.toList s := by
    intro s
    rw [Program.run, hbranches]
    rfl
  have hstart : (State.mk i r #[]).Alike p r r' (p.Untouched []) (State.mk i r' #[]) := {
    invocation := rfl
    events := rfl
    suits := ⟨hr.suits hwell, hr'.suits hwell⟩
    agree v hv := by
      have hv : ¬p.IsVariable v := fun hvar => hv ⟨hvar, by simp⟩
      exact (hr.slot hwell hv).trans (hr'.slot hwell hv).symm
    kept _ _ := ⟨rfl, rfl⟩ }
  obtain ⟨hending, hinvocation, hevents⟩ :=
    Program.runLinear_alike hfirst hlinear p.instructions.toList [] rfl rfl hstart
  unfold Program.execute
  split
  · simp only [hrun, hending, hinvocation, hevents, and_self]
  · exact ⟨rfl, rfl, rfl⟩

/-- A variable that counts on and stays a float. -/
def counting : Program :=
  [.push "=" [.name "v", .literal (.float 2.5)],
    .push "=" [.name "fragColor", .name "v"],
    .push "+=" [.name "v", .literal (.float 1)],
    .seal].foldl Program.edit (Program.new .fragment)

theorem execute_carried_counting :
    let first := counting.execute (Fragment.ofPosition 0 0) counting.registers
    let second := counting.execute (Fragment.ofPosition 1 0) first.registers
    first.registers ≠ counting.registers ∧
      second.invocation =
        (counting.execute (Fragment.ofPosition 1 0) counting.registers).invocation := by
  have hlinear : ∀ ins ∈ counting.instructions, ins.isBranch = false := by decide +kernel
  have hreach : counting.Reachable := (Program.Reachable.new .fragment).foldl _
  refine ⟨by decide +kernel, (execute_carried hreach hlinear
    (.execute .canonical (Fragment.ofPosition 0 0)) .canonical fun v hv _ => ?_).2.1⟩
  obtain rfl := hv.eq_zero (by decide +kernel)
  exact ⟨[], .literal (.float 2.5), .head (by decide +kernel) (by decide),
    fun _ => ⟨.float 2.5, rfl, by decide +kernel⟩⟩

/-! ## Leftovers that show -/

/-- A variable that is a float when it is shown and an integer afterwards. -/
def retagging : Program :=
  [.push "=" [.name "v", .literal (.float 2.5)],
    .push "=" [.name "fragColor", .name "v"],
    .push "=" [.name "v", .literal (.int 1)],
    .seal].foldl Program.edit (Program.new .fragment)

/-- To assign each variable before it is used is not enough: a float that is assigned to
a variable which an earlier invocation left as an integer is cut off. -/
theorem leftover_type_shows : retagging.Reachable ∧ retagging.isSealed = true ∧
    (∀ ins ∈ retagging.instructions, ins.isBranch = false) ∧
    (∀ v, retagging.IsVariable v → (∃ ins ∈ retagging.instructions, v ∈ ins.slots) →
      ∃ before src, retagging.AssignsFirst v before src ∧
        ∀ s : State Fragment, (src.read retagging s).1.isSome = true) ∧
    ∃ r r', retagging.Carried r ∧ retagging.Carried r' ∧
      (retagging.execute (Fragment.ofPosition 0 0) r).invocation ≠
        (retagging.execute (Fragment.ofPosition 0 0) r').invocation := by
  refine ⟨(Program.Reachable.new .fragment).foldl _, by decide +kernel, by decide +kernel,
    fun v hv _ => ?_, _, _, .canonical, .execute .canonical (Fragment.ofPosition 0 0), ?_⟩
  · obtain rfl := hv.eq_zero (by decide +kernel)
    exact ⟨[], .literal (.float 2.5), .head (by decide +kernel) (by decide), fun _ => rfl⟩
  · decide +kernel

end Shading
