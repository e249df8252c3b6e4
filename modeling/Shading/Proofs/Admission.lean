import Shading.Proofs.Invalid

/- What a device takes in. The check counts the blocks that are open; the grammar of
   blocks (`Balanced`) knows no counter. Behind the instructions of a balanced block the
   check stands where it stood before them (`Balanced.checkBlocks_append`), and what it
   passes with so many open blocks closes them all, one after the other (`Closes`). So a
   program passes exactly if its blocks are balanced and its fixed jumps stay inside it
   (`Program.checkStructure_eq_ok_iff`).

   A device has the check made only for a program that is not sealed yet, and that is
   where the invalid flag is looked at. One that became invalid after it was sealed is
   taken in all the same, though it never runs (`Device.create_admits`). -/
namespace Shading

/-! ## The grammar of blocks -/

/-- Whether an instruction neither opens nor divides nor closes a block. -/
def Instruction.isPlain : Instruction → Bool
  | .operation _ | .discard | .goto _ => true
  | .ifThen _ | .elseIf _ | .otherwise | .endIf => false

mutual

/-- Every block that these instructions open they close, and no other. -/
inductive Balanced : List Instruction → Prop
  | nil : Balanced []
  | plain {ins : Instruction} {rest : List Instruction} :
    ins.isPlain = true → Balanced rest → Balanced (ins :: rest)
  | block {cond : Condition} {body arms rest : List Instruction} :
    Balanced body → BalancedArms arms → Balanced rest →
    Balanced (.ifThen cond :: (body ++ (arms ++ rest)))

/-- What follows the first arm of a block: further arms and the end. -/
inductive BalancedArms : List Instruction → Prop
  | endIf : BalancedArms [.endIf]
  | elseIf {cond : Condition} {body arms : List Instruction} :
    Balanced body → BalancedArms arms → BalancedArms (.elseIf cond :: (body ++ arms))
  | otherwise {body arms : List Instruction} :
    Balanced body → BalancedArms arms → BalancedArms (.otherwise :: (body ++ arms))

end

/-- The jumps of these instructions to a fixed target stay in a program of some length. -/
def JumpsInside (length : Nat) (l : List Instruction) : Prop :=
  ∀ i, .goto (.index i) ∈ l → i < length

/-! ## What is balanced passes the check -/

section

variable {length : Nat} {l l' : List Instruction}

theorem jumpsInside_cons {ins : Instruction} : JumpsInside length (ins :: l) ↔
    JumpsInside length [ins] ∧ JumpsInside length l := by
  simp only [JumpsInside, List.mem_cons, List.not_mem_nil, or_false, or_imp, forall_and]

theorem jumpsInside_append :
    JumpsInside length (l ++ l') ↔ JumpsInside length l ∧ JumpsInside length l' := by
  simp only [JumpsInside, List.mem_append, or_imp, forall_and]

/-- A plain instruction is passed over, unless it jumps out of the program. -/
theorem checkBlocks_plain {ins : Instruction} (hins : ins.isPlain = true) (depth : Nat) :
    checkBlocks length depth (ins :: l) = .ok () ↔
      JumpsInside length [ins] ∧ checkBlocks length depth l = .ok () := by
  cases ins with
  | operation o => simp [checkBlocks, JumpsInside]
  | discard => simp [checkBlocks, JumpsInside]
  | goto target =>
    cases target with
    | uniform i => simp [checkBlocks, JumpsInside]
    | index i =>
      simp only [checkBlocks, JumpsInside, List.mem_singleton, Instruction.goto.injEq,
        JumpTarget.index.injEq, forall_eq]
      split <;> simp [*]
  | ifThen _ | elseIf _ | otherwise | endIf => cases hins

mutual

/-- Behind balanced instructions the check stands where it stood before. -/
theorem Balanced.checkBlocks_append : ∀ {l : List Instruction}, Balanced l →
    ∀ (depth : Nat) (rest : List Instruction), checkBlocks length depth (l ++ rest) = .ok () ↔
      JumpsInside length l ∧ checkBlocks length depth rest = .ok ()
  | _, .nil, depth, rest => by simp [JumpsInside]
  | _, @Balanced.plain ins l hins hl, depth, rest => by
    rw [List.cons_append, checkBlocks_plain hins, hl.checkBlocks_append, jumpsInside_cons (l := l),
      and_assoc]
  | _, @Balanced.block cond body arms l hbody harms hl, depth, rest => by
    have hif : JumpsInside length [.ifThen cond] := by simp [JumpsInside]
    rw [jumpsInside_cons, jumpsInside_append, jumpsInside_append, List.cons_append,
      List.append_assoc, List.append_assoc, checkBlocks, hbody.checkBlocks_append,
      harms.checkBlocks_append, hl.checkBlocks_append]
    tauto

/-- Behind the end of a block one block fewer is open. -/
theorem BalancedArms.checkBlocks_append : ∀ {l : List Instruction}, BalancedArms l →
    ∀ (depth : Nat) (rest : List Instruction),
      checkBlocks length (depth + 1) (l ++ rest) = .ok () ↔
        JumpsInside length l ∧ checkBlocks length depth rest = .ok ()
  | _, .endIf, depth, rest => by simp [JumpsInside, checkBlocks]
  | _, @BalancedArms.elseIf cond body arms hbody harms, depth, rest => by
    have helse : JumpsInside length [.elseIf cond] := by simp [JumpsInside]
    rw [jumpsInside_cons, jumpsInside_append, List.cons_append, List.append_assoc, checkBlocks,
      hbody.checkBlocks_append, harms.checkBlocks_append]
    tauto
  | _, @BalancedArms.otherwise body arms hbody harms, depth, rest => by
    have helse : JumpsInside length [.otherwise] := by simp [JumpsInside]
    rw [jumpsInside_cons, jumpsInside_append, List.cons_append, List.append_assoc, checkBlocks,
      hbody.checkBlocks_append, harms.checkBlocks_append]
    tauto

end

/-! ## What passes the check is balanced -/

/-- These instructions close so many blocks that are open before them, and are balanced
apart from that. -/
def Closes : Nat → List Instruction → Prop
  | 0, l => Balanced l
  | depth + 1, l => ∃ body arms rest, Balanced body ∧ BalancedArms arms ∧ Closes depth rest ∧
    l = body ++ (arms ++ rest)

/-- What may stand in front of balanced instructions may stand in front of these. -/
theorem Closes.prepend (start : List Instruction)
    (hstart : ∀ body, Balanced body → Balanced (start ++ body)) :
    ∀ {depth : Nat}, Closes depth l → Closes depth (start ++ l)
  | 0, h => hstart l h
  | _ + 1, ⟨body, arms, rest, hbody, harms, hrest, hl⟩ =>
    ⟨start ++ body, arms, rest, hstart body hbody, harms, hrest,
      by rw [hl, List.append_assoc]⟩

theorem closes_of_checkBlocks : ∀ (l : List Instruction) {depth : Nat},
    checkBlocks length depth l = .ok () → Closes depth l := by
  intro l
  induction l with
  | nil =>
    intro depth h
    cases depth with
    | zero => exact .nil
    | succ depth => simp [checkBlocks] at h
  | cons ins l ih =>
    intro depth h
    cases ins with
    | operation _ | discard | goto _ =>
      have hl := ih ((checkBlocks_plain rfl depth).1 h).2
      exact hl.prepend [_] fun body hbody => .plain rfl hbody
    | ifThen cond =>
      rw [checkBlocks] at h
      obtain ⟨body, arms, rest, hbody, harms, hrest, rfl⟩ := ih h
      -- the block that is opened here is closed in front of the rest
      have hblock := hrest.prepend (.ifThen cond :: (body ++ arms)) fun after hafter => by
        rw [List.cons_append, List.append_assoc]
        exact .block hbody harms hafter
      simpa using hblock
    | elseIf cond =>
      cases depth with
      | zero => simp [checkBlocks] at h
      | succ depth =>
        obtain ⟨body, arms, rest, hbody, harms, hrest, rfl⟩ := ih (by simpa [checkBlocks] using h)
        exact ⟨[], .elseIf cond :: (body ++ arms), rest, .nil, .elseIf hbody harms, hrest,
          by simp⟩
    | otherwise =>
      cases depth with
      | zero => simp [checkBlocks] at h
      | succ depth =>
        obtain ⟨body, arms, rest, hbody, harms, hrest, rfl⟩ := ih (by simpa [checkBlocks] using h)
        exact ⟨[], .otherwise :: (body ++ arms), rest, .nil, .otherwise hbody harms, hrest,
          by simp⟩
    | endIf =>
      cases depth with
      | zero => simp [checkBlocks] at h
      | succ depth =>
        exact ⟨[], [.endIf], l, .nil, .endIf, ih (by simpa [checkBlocks] using h), rfl⟩

end

namespace Program

variable {p : Program}

/-- A program passes the check exactly if its blocks are balanced and its fixed jumps stay
inside it. -/
theorem checkStructure_eq_ok_iff : p.checkStructure = .ok () ↔
    Balanced p.instructions.toList ∧ JumpsInside p.length p.instructions.toList := by
  have hiff (hbalanced : Balanced p.instructions.toList) : p.checkStructure = .ok () ↔
      JumpsInside p.length p.instructions.toList := by
    have h : checkBlocks p.length 0 (p.instructions.toList ++ []) = .ok () ↔ _ :=
      hbalanced.checkBlocks_append 0 []
    rw [List.append_nil] at h
    simpa [checkStructure, checkBlocks] using h
  constructor
  · intro h
    have hbalanced : Balanced p.instructions.toList := closes_of_checkBlocks _ h
    exact ⟨hbalanced, (hiff hbalanced).1 h⟩
  · rintro ⟨hbalanced, hjumps⟩
    exact (hiff hbalanced).2 hjumps

/-- Sealing is refused for an invalid program, and makes a program that does not pass the
check invalid. -/
theorem seal_cases (p : Program) :
    (p.isInvalid = true ∧ p.seal = .refuse .invalidProgram p) ∨
      (∃ e, p.checkStructure = .error e ∧ p.seal = .fail e p) ∨
      (p.isInvalid = false ∧ p.checkStructure = .ok () ∧
        p.seal = .ok () { p with
          hasBranches := p.instructions.any Instruction.isBranch
          isSealed := true }) := by
  unfold Program.seal
  split
  · next hinvalid => exact .inl ⟨hinvalid, rfl⟩
  · next hvalid =>
    cases hcheck : p.checkStructure with
    | error e => exact .inr (.inl ⟨e, rfl, rfl⟩)
    | ok _ => exact .inr (.inr ⟨eq_false_of_ne_true hvalid, rfl, rfl⟩)

/-- Sealing changes nothing about a program that passes the check but that it is sealed. -/
theorem seal_of_checked (hp : p.WellFormed) (hvalid : p.isInvalid = false)
    (hcheck : p.checkStructure = .ok ()) : p.seal = .ok () { p with isSealed := true } := by
  rw [Program.seal, if_neg (ne_true_of_eq_false hvalid), hcheck, ← hp.branches]

/-- No other program can be sealed. -/
theorem seal_error (h : ¬(p.isInvalid = false ∧ p.checkStructure = .ok ())) :
    ∃ e, p.seal.result = .error e := by
  rcases p.seal_cases with ⟨-, hseal⟩ | ⟨e, -, hseal⟩ | ⟨hvalid, hcheck, -⟩
  · exact ⟨_, by rw [hseal]; rfl⟩
  · exact ⟨e, by rw [hseal]; rfl⟩
  · exact absurd ⟨hvalid, hcheck⟩ h

end Program

/-! ## Taking programs in -/

namespace Device

variable {p : Program}

/-- A device takes a program in if it is sealed already or can be sealed. -/
def Admits (p : Program) : Prop :=
  p.isSealed = true ∨ (p.isInvalid = false ∧ p.checkStructure = .ok ())

theorem create_of_admits (hp : p.WellFormed) (h : Admits p) (d : Device) :
    d.create p =
      ⟨.ok d.entries.size,
        { d with
          entries := d.entries.push
            (some ⟨{ p with isSealed := true }, ThreadStorage.ofThreads d.config.threads⟩) },
        #[]⟩ := by
  cases hsealed : p.isSealed with
  | true =>
    have hsame : ({ p with isSealed := true } : Program) = p := by rw [← hsealed]
    simp only [Device.create, hsealed, if_true, Outcome.ok, hsame]
  | false =>
    obtain ⟨hvalid, hcheck⟩ := h.resolve_left (ne_true_of_eq_false hsealed)
    simp only [Device.create, hsealed, Bool.false_eq_true, if_false,
      Program.seal_of_checked hp hvalid hcheck, Outcome.ok]

theorem create_of_not_admits (h : ¬Admits p) (d : Device) :
    ∃ e events, d.create p = ⟨.error e, d, events⟩ := by
  obtain ⟨hsealed, hrefused⟩ := not_or.1 h
  obtain ⟨e, he⟩ := Program.seal_error hrefused
  exact ⟨e, p.seal.events, by simp only [Device.create, if_neg hsealed, he]⟩

theorem admits_iff (hp : p.WellFormed) : Admits p ↔
    (p.isInvalid = true → p.isSealed = true) ∧ Balanced p.instructions.toList ∧
      JumpsInside p.length p.instructions.toList := by
  have hstructured := hp.structured
  rw [← Program.checkStructure_eq_ok_iff, Admits]
  cases hsealed : p.isSealed with
  | true => simp [hstructured hsealed]
  | false => simp

/-- A device takes a program in exactly if its blocks are balanced, its fixed jumps stay
inside it, and it is not invalid, or was sealed before it became so. The program gets a new
number and is sealed; it can run exactly if it is not invalid, and refuses everything
otherwise. The other programs stay as they are, and all of them do if the program is not
taken in. -/
theorem create_admits (hp : p.Reachable) (d : Device) :
    let done := d.create p
    let q : Program := { p with isSealed := true }
    ((∃ id, done.result = .ok id) ↔
      (p.isInvalid = true → p.isSealed = true) ∧ Balanced p.instructions.toList ∧
        JumpsInside p.length p.instructions.toList) ∧
    (∀ id, done.result = .ok id →
      d.program? id = none ∧ done.device.program? id = some q ∧
        (∀ other, other ≠ id → done.device.entry? other = d.entry? other) ∧
        q.isRunnable = !p.isInvalid ∧ (p.isInvalid = true → q.Refuses)) ∧
    (∀ e, done.result = .error e → done.device = d) := by
  have hwell := hp.wellFormed
  intro done q
  by_cases h : Admits p
  · have hdone : done = _ := create_of_admits hwell h d
    rw [hdone]
    refine ⟨⟨fun _ => (admits_iff hwell).1 h, fun _ => ⟨_, rfl⟩⟩, ?_, fun e he => ?_⟩
    · rintro id ⟨⟩
      refine ⟨?_, ?_, fun other hother => ?_, rfl, fun h => Program.refuses_of_isInvalid h⟩
      · simp [program?, entry?]
      · simp [program?, entry?, q]
      · unfold entry?
        rw [Array.getElem?_push, if_neg hother]
    · cases he
  · obtain ⟨e, events, hdone⟩ := create_of_not_admits h d
    have hdone : done = _ := hdone
    rw [hdone]
    refine ⟨⟨?_, fun hadmits => absurd ((admits_iff hwell).2 hadmits) h⟩, fun id hid => ?_,
      fun _ _ => rfl⟩
    · rintro ⟨id, hid⟩
      cases hid
    · cases hid

/-- A program that was sealed before an instruction was refused. -/
def spoiled : Program :=
  [.push "=" [.name "fragColor", .literal (.float 1)], .seal, .push "bogus" []].foldl
    Program.edit (Program.new .fragment)

theorem create_admits_spoiled :
    let done := (ofConfig ⟨1, 8⟩).create spoiled
    spoiled.Reachable ∧ done.result = .ok 0 ∧
      ∃ q, done.device.program? 0 = some q ∧ q.isRunnable = false ∧ q.Refuses := by
  intro done
  have hreach : spoiled.Reachable := (Program.Reachable.new .fragment).foldl _
  have hinvalid : spoiled.isInvalid = true := by decide +kernel
  obtain ⟨-, hstored, -⟩ := create_admits hreach (ofConfig ⟨1, 8⟩)
  have hresult : done.result = .ok 0 := by
    have hsealed : spoiled.isSealed = true := by decide +kernel
    rw [show done = _ from create_of_admits hreach.wellFormed (.inl hsealed) _]
    rfl
  obtain ⟨-, hprogram, -, hrunnable, hrefuses⟩ := hstored 0 hresult
  exact ⟨hreach, hresult, _, hprogram, by rw [hrunnable, hinvalid]; rfl, hrefuses hinvalid⟩

/-- Not every program that a device takes in can run. -/
theorem create_stores_spoiled :
    ¬∀ (p : Program) (d : Device) (id : Nat), p.Reachable → (d.create p).result = .ok id →
      p.isInvalid = false ∧
        ∃ q, (d.create p).device.program? id = some q ∧ q.isRunnable = true := by
  intro h
  have hreach : spoiled.Reachable := (Program.Reachable.new .fragment).foldl _
  have hsealed : spoiled.isSealed = true := by decide +kernel
  have hinvalid : spoiled.isInvalid = true := by decide +kernel
  have hcreate := create_of_admits hreach.wellFormed (.inl hsealed) (ofConfig ⟨1, 8⟩)
  obtain ⟨hvalid, -⟩ := h spoiled (ofConfig ⟨1, 8⟩) 0 hreach (by rw [hcreate]; rfl)
  rw [hinvalid] at hvalid
  cases hvalid

end Device

end Shading
