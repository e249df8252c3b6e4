import Shading.Proofs.Admission

/- Why a program cannot be sealed. The grammar of blocks says which programs can be
   (`Program.checkStructure_eq_ok_iff`); here is what becomes of the others. Behind some
   instructions a block is open if an `if` stands among them and all that follows it are
   bodies, divided by `else` and `elseif` (`Inside`). An instruction offends if it divides
   or ends a block where none is open, or jumps to a fixed target past the end
   (`Offends`), and the first one that does decides the error.

   The check knows neither, only a number of open blocks. As long as nothing has offended
   that number is the number of blocks left open (`Opens`): each instruction offends and is
   refused, or takes that number to the one behind it (`checkBlocks_step`). So the check
   comes to the first offender, or to the end (`checkBlocks_eq_error_iff`). -/
namespace Shading

/-! ## Open blocks -/

/-- The arms of a block that is still open: bodies, divided by `else` and `elseif`. -/
inductive Unclosed : List Instruction → Prop
  | body {body : List Instruction} : Balanced body → Unclosed body
  | elseIf {arms body : List Instruction} {cond : Condition} : Unclosed arms → Balanced body →
    Unclosed (arms ++ .elseIf cond :: body)
  | otherwise {arms body : List Instruction} : Unclosed arms → Balanced body →
    Unclosed (arms ++ .otherwise :: body)

/-- Behind these instructions a block is open. -/
def Inside (l : List Instruction) : Prop :=
  ∃ start cond arms, Unclosed arms ∧ l = start ++ .ifThen cond :: arms

/-- These instructions open so many blocks that they do not close, and are balanced apart
from that. -/
def Opens : Nat → List Instruction → Prop
  | 0, l => Balanced l
  | depth + 1, l => ∃ start cond arms, Opens depth start ∧ Unclosed arms ∧
    l = start ++ .ifThen cond :: arms

section

variable {length depth : Nat} {l before arms block : List Instruction} {ins : Instruction}

theorem Balanced.append : ∀ {l : List Instruction}, Balanced l → Balanced block →
    Balanced (l ++ block)
  | _, .nil, h => h
  | _, .plain hins hrest, h => .plain hins (hrest.append h)
  | _, .block hbody harms hrest, h => by
    rw [List.cons_append, List.append_assoc, List.append_assoc]
    exact .block hbody harms (hrest.append h)

theorem Balanced.single (h : ins.isPlain = true) : Balanced [ins] := .plain h .nil

theorem Unclosed.append (h : Unclosed arms) (hblock : Balanced block) :
    Unclosed (arms ++ block) := by
  cases h with
  | body hbody => exact .body (hbody.append hblock)
  | elseIf harms hbody =>
    rw [List.append_assoc, List.cons_append]
    exact .elseIf harms (hbody.append hblock)
  | otherwise harms hbody =>
    rw [List.append_assoc, List.cons_append]
    exact .otherwise harms (hbody.append hblock)

/-- An open block has a first arm, and ends as its other arms do. -/
theorem Unclosed.exists_body (h : Unclosed arms) : ∃ body others, Balanced body ∧
    arms = body ++ others ∧ ∀ rest, BalancedArms rest → BalancedArms (others ++ rest) := by
  induction h with
  | body hbody => exact ⟨_, [], hbody, (List.append_nil _).symm, fun _ h => h⟩
  | @elseIf _ last cond _ hlast ih =>
    obtain ⟨body, others, hbody, rfl, hothers⟩ := ih
    refine ⟨body, others ++ .elseIf cond :: last, hbody, List.append_assoc .., fun rest h => ?_⟩
    rw [List.append_assoc]
    exact hothers _ (.elseIf hlast h)
  | @otherwise _ last _ hlast ih =>
    obtain ⟨body, others, hbody, rfl, hothers⟩ := ih
    refine ⟨body, others ++ .otherwise :: last, hbody, List.append_assoc .., fun rest h => ?_⟩
    rw [List.append_assoc]
    exact hothers _ (.otherwise hlast h)

/-- An open block that ends is balanced. -/
theorem Unclosed.close (h : Unclosed arms) (cond : Condition) :
    Balanced (.ifThen cond :: (arms ++ [.endIf])) := by
  obtain ⟨body, others, hbody, rfl, hothers⟩ := h.exists_body
  have hblock : Balanced (.ifThen cond :: (body ++ (others ++ [.endIf] ++ []))) :=
    .block hbody (hothers _ .endIf) .nil
  rwa [List.append_nil, ← List.append_assoc] at hblock

namespace Opens

theorem append (h : Opens depth l) (hblock : Balanced block) : Opens depth (l ++ block) := by
  cases depth with
  | zero => exact Balanced.append h hblock
  | succ depth =>
    obtain ⟨start, cond, arms, hstart, harms, rfl⟩ := h
    exact ⟨start, cond, arms ++ block, hstart, harms.append hblock, by simp⟩

theorem ifThen (h : Opens depth l) (cond : Condition) : Opens (depth + 1) (l ++ [.ifThen cond]) :=
  ⟨l, cond, [], h, .body .nil, rfl⟩

theorem elseIf (h : Opens (depth + 1) l) (cond : Condition) :
    Opens (depth + 1) (l ++ [.elseIf cond]) := by
  obtain ⟨start, cond', arms, hstart, harms, rfl⟩ := h
  exact ⟨start, cond', arms ++ [.elseIf cond], hstart, .elseIf harms .nil, by simp⟩

theorem otherwise (h : Opens (depth + 1) l) : Opens (depth + 1) (l ++ [.otherwise]) := by
  obtain ⟨start, cond, arms, hstart, harms, rfl⟩ := h
  exact ⟨start, cond, arms ++ [.otherwise], hstart, .otherwise harms .nil, by simp⟩

theorem endIf (h : Opens (depth + 1) l) : Opens depth (l ++ [.endIf]) := by
  obtain ⟨start, cond, arms, hstart, harms, rfl⟩ := h
  have hclosed := hstart.append (harms.close cond)
  rwa [List.append_assoc, List.cons_append]

end Opens

/-! ## Balanced instructions leave no block open -/

theorem exists_jumpsInside (l : List Instruction) : ∃ length, JumpsInside length l := by
  induction l with
  | nil => exact ⟨0, by simp [JumpsInside]⟩
  | cons ins l ih =>
    obtain ⟨length, hl⟩ := ih
    match ins with
    | .goto (.index i) =>
      refine ⟨max length (i + 1), fun j hj => ?_⟩
      rcases List.mem_cons.1 hj with heq | hj
      · cases heq
        exact Nat.lt_of_lt_of_le (Nat.lt_succ_self i) (Nat.le_max_right ..)
      · exact Nat.lt_of_lt_of_le (hl j hj) (Nat.le_max_left ..)
    | .goto (.uniform _) | .operation _ | .discard | .ifThen _ | .elseIf _ | .otherwise
    | .endIf => exact ⟨length, fun j hj => hl j (by simpa using hj)⟩

/-- What passes the check passes it from each of its points on, with so many blocks open as
there are. -/
theorem checkBlocks_of_append : ∀ (start : List Instruction) {depth : Nat},
    checkBlocks length depth (start ++ l) = .ok () →
      ∃ depth', checkBlocks length depth' l = .ok () := by
  intro start
  induction start with
  | nil => exact fun h => ⟨_, h⟩
  | cons ins start ih =>
    intro depth h
    rw [List.cons_append] at h
    cases ins with
    | operation _ | discard | goto _ => exact ih ((checkBlocks_plain rfl depth).1 h).2
    | ifThen cond =>
      rw [checkBlocks] at h
      exact ih h
    | elseIf _ | otherwise | endIf =>
      cases depth with
      | zero => simp [checkBlocks] at h
      | succ depth =>
        rw [checkBlocks] at h
        exact ih h

theorem Unclosed.checkBlocks_eq_ok_iff (h : Unclosed arms) (depth : Nat) (rest : List Instruction) :
    checkBlocks length (depth + 1) (arms ++ rest) = .ok () ↔
      JumpsInside length arms ∧ checkBlocks length (depth + 1) rest = .ok () := by
  induction h generalizing rest with
  | body hbody => exact hbody.checkBlocks_append _ rest
  | @elseIf _ last cond _ hlast ih =>
    have helse : JumpsInside length [.elseIf cond] := by simp [JumpsInside]
    rw [List.append_assoc, ih, List.cons_append, checkBlocks, hlast.checkBlocks_append,
      jumpsInside_append, jumpsInside_cons (l := last)]
    tauto
  | @otherwise _ last _ hlast ih =>
    have helse : JumpsInside length [.otherwise] := by simp [JumpsInside]
    rw [List.append_assoc, ih, List.cons_append, checkBlocks, hlast.checkBlocks_append,
      jumpsInside_append, jumpsInside_cons (l := last)]
    tauto

/-- In a program long enough for its jumps, balanced instructions pass the check, and would not
if a block were open behind them. -/
theorem Balanced.not_inside (h : Balanced l) : ¬Inside l := by
  rintro ⟨start, cond, arms, harms, hl⟩
  -- the check is only a way to count here, so its length is chosen to suit the jumps
  obtain ⟨length, hjumps⟩ := exists_jumpsInside l
  have hok : checkBlocks length 0 (l ++ []) = .ok () := (h.checkBlocks_append 0 []).2 ⟨hjumps, rfl⟩
  rw [List.append_nil, hl] at hok
  obtain ⟨depth, hblock⟩ := checkBlocks_of_append start hok
  rw [checkBlocks, ← List.append_nil arms, harms.checkBlocks_eq_ok_iff] at hblock
  simp [checkBlocks] at hblock

theorem Opens.inside_iff (h : Opens depth l) : Inside l ↔ depth ≠ 0 := by
  cases depth with
  | zero => simp [Balanced.not_inside h]
  | succ depth =>
    obtain ⟨start, cond, arms, -, harms, hl⟩ := h
    simp only [ne_eq, Nat.add_one_ne_zero, not_false_eq_true, iff_true]
    exact ⟨start, cond, arms, harms, hl⟩

/-! ## The first offender -/

/-- In a program of some length an instruction behind some others is refused, and why. -/
inductive Offends (length : Nat) (before : List Instruction) : Instruction → ProgramError → Prop
  | elseIf {cond : Condition} : ¬Inside before →
    Offends length before (.elseIf cond) .unbalancedBranches
  | otherwise : ¬Inside before → Offends length before .otherwise .unbalancedBranches
  | endIf : ¬Inside before → Offends length before .endIf .unbalancedBranches
  | goto {i : Nat} : length ≤ i →
    Offends length before (.goto (.index i)) (.badJumpTarget (i + 1) length)

/-- The instruction at a position is refused, and why. -/
def OffendsAt (length : Nat) (l : List Instruction) (k : Nat) (e : ProgramError) : Prop :=
  ∃ ins, l[k]? = some ins ∧ Offends length (l.take k) ins e

/-- Of the instructions from a position on, the first that is refused is refused for this
reason. -/
def FirstOffence (length : Nat) (l : List Instruction) (k : Nat) (e : ProgramError) : Prop :=
  ∃ j, k ≤ j ∧ OffendsAt length l j e ∧ ∀ i, k ≤ i → i < j → ∀ e', ¬OffendsAt length l i e'

/-- From a position on no instruction is refused, but at the end a block is open. -/
def LeftOpen (length : Nat) (l : List Instruction) (k : Nat) : Prop :=
  (∀ j, k ≤ j → ∀ e, ¬OffendsAt length l j e) ∧ Inside l

theorem Offends.unique {e e' : ProgramError} (h : Offends length before ins e)
    (h' : Offends length before ins e') : e = e' := by
  cases h <;> cases h' <;> rfl

/-- An instruction is refused, or the check goes on with the number of blocks that are open
behind it. -/
theorem checkBlocks_step (length : Nat) (h : Opens depth before) (ins : Instruction)
    (rest : List Instruction) :
    (∃ e, Offends length before ins e ∧ checkBlocks length depth (ins :: rest) = .error e) ∨
      ((∀ e, ¬Offends length before ins e) ∧ ∃ depth', Opens depth' (before ++ [ins]) ∧
        checkBlocks length depth (ins :: rest) = checkBlocks length depth' rest) := by
  have hinside := h.inside_iff
  match ins with
  | .operation _ | .discard | .goto (.uniform _) =>
    exact .inr ⟨nofun, depth, h.append (.single rfl), by rw [checkBlocks]⟩
  | .goto (.index i) =>
    rcases Nat.lt_or_ge i length with hi | hi
    · refine .inr ⟨?_, depth, h.append (.single rfl), by rw [checkBlocks, if_pos hi]⟩
      intro e hoffends
      cases hoffends with
      | goto hle => exact absurd hi (Nat.not_lt.2 hle)
    · exact .inl ⟨_, .goto hi, by rw [checkBlocks, if_neg (Nat.not_lt.2 hi)]⟩
  | .ifThen cond => exact .inr ⟨nofun, depth + 1, h.ifThen cond, by rw [checkBlocks]⟩
  | .elseIf cond =>
    cases depth with
    | zero => exact .inl ⟨_, .elseIf (by simp [hinside]), by rw [checkBlocks]⟩
    | succ depth =>
      refine .inr ⟨?_, depth + 1, h.elseIf cond, by rw [checkBlocks]⟩
      intro e hoffends
      cases hoffends with
      | elseIf houtside => exact houtside (hinside.2 (Nat.add_one_ne_zero depth))
  | .otherwise =>
    cases depth with
    | zero => exact .inl ⟨_, .otherwise (by simp [hinside]), by rw [checkBlocks]⟩
    | succ depth =>
      refine .inr ⟨?_, depth + 1, h.otherwise, by rw [checkBlocks]⟩
      intro e hoffends
      cases hoffends with
      | otherwise houtside => exact houtside (hinside.2 (Nat.add_one_ne_zero depth))
  | .endIf =>
    cases depth with
    | zero => exact .inl ⟨_, .endIf (by simp [hinside]), by rw [checkBlocks]⟩
    | succ depth =>
      refine .inr ⟨?_, depth, h.endIf, by rw [checkBlocks]⟩
      intro e hoffends
      cases hoffends with
      | endIf houtside => exact houtside (hinside.2 (Nat.add_one_ne_zero depth))

section

variable {k : Nat} {e : ProgramError}

/-- A position from which on nothing is refused may as well be the next one. -/
theorem firstOffence_succ (h : ∀ e', ¬OffendsAt length l k e') :
    FirstOffence length l k e ↔ FirstOffence length l (k + 1) e := by
  constructor
  · rintro ⟨j, hk, hj, hbefore⟩
    have hne : k ≠ j := by
      rintro rfl
      exact h e hj
    exact ⟨j, by omega, hj, fun i hi => hbefore i (by omega)⟩
  · rintro ⟨j, hk, hj, hbefore⟩
    refine ⟨j, by omega, hj, fun i hi hlt => ?_⟩
    rcases Nat.eq_or_lt_of_le hi with rfl | hi
    · exact h
    · exact hbefore i hi hlt

theorem leftOpen_succ (h : ∀ e', ¬OffendsAt length l k e') :
    LeftOpen length l k ↔ LeftOpen length l (k + 1) := by
  refine and_congr_left fun _ => ⟨fun hall j hj => hall j (by omega), fun hall j hj => ?_⟩
  rcases Nat.eq_or_lt_of_le hj with rfl | hj
  · exact h
  · exact hall j hj

/-- From a position that was reached without an offence, the check fails at the first offender,
or at the end if a block is open there. -/
theorem checkBlocks_eq_error_iff : ∀ (rest : List Instruction) {k depth : Nat},
    l.drop k = rest → Opens depth (l.take k) →
    (checkBlocks length depth rest = .error e ↔
      FirstOffence length l k e ∨ (e = .unbalancedBranches ∧ LeftOpen length l k)) := by
  intro rest
  induction rest with
  | nil =>
    intro k depth hdrop hopens
    have hlen : l.length ≤ k := List.drop_eq_nil_iff.1 hdrop
    have hnone : ∀ j, k ≤ j → ∀ e', ¬OffendsAt length l j e' := by
      rintro j hj e' ⟨ins, hins, -⟩
      rw [List.getElem?_eq_none (Nat.le_trans hlen hj)] at hins
      cases hins
    rw [List.take_of_length_le hlen] at hopens
    have hfirst : ¬FirstOffence length l k e := fun ⟨j, hj, hoffends, _⟩ => hnone j hj e hoffends
    simp only [hfirst, false_or, LeftOpen, and_iff_right hnone, hopens.inside_iff]
    cases depth with
    | zero => simp [checkBlocks]
    | succ depth => simp [checkBlocks, eq_comm]
  | cons ins rest ih =>
    intro k depth hdrop hopens
    have hins : l[k]? = some ins := by rw [← List.head?_drop, hdrop]; rfl
    have hrest : l.drop (k + 1) = rest := by rw [← List.tail_drop, hdrop]; rfl
    have htake : l.take (k + 1) = l.take k ++ [ins] := by
      rw [List.take_add_one, hins]
      rfl
    rcases checkBlocks_step length hopens ins rest with
      ⟨e', hoffends, hcheck⟩ | ⟨hnone, depth', hopens', hcheck⟩
    -- refused here, so no later position comes first
    · have hat : OffendsAt length l k e' := ⟨ins, hins, hoffends⟩
      have hopen : ¬LeftOpen length l k := fun h => h.1 k (Nat.le_refl k) e' hat
      have hfirst : FirstOffence length l k e ↔ e' = e := by
        constructor
        · rintro ⟨j, hk, ⟨ins', hins', hoffends'⟩, hbefore⟩
          rcases Nat.eq_or_lt_of_le hk with rfl | hlt
          · obtain rfl := Option.some.inj (hins.symm.trans hins')
            exact hoffends.unique hoffends'
          · exact absurd hat (hbefore k (Nat.le_refl k) hlt e')
        · rintro rfl
          exact ⟨k, Nat.le_refl k, hat, fun i hi hlt => absurd hi (Nat.not_le.2 hlt)⟩
      simp only [hcheck, hopen, hfirst, and_false, or_false, Except.error.injEq]
    -- passed, so the rest decides
    · have hat : ∀ e', ¬OffendsAt length l k e' := by
        rintro e' ⟨ins', hins', hoffends⟩
        obtain rfl := Option.some.inj (hins.symm.trans hins')
        exact hnone e' hoffends
      rw [hcheck, ih hrest (htake ▸ hopens'), firstOffence_succ hat, leftOpen_succ hat]

end

end

namespace Program

variable {p : Program}

theorem checkStructure_eq_error_iff {e : ProgramError} : p.checkStructure = .error e ↔
    FirstOffence p.length p.instructions.toList 0 e ∨
      (e = .unbalancedBranches ∧ LeftOpen p.length p.instructions.toList 0) :=
  checkBlocks_eq_error_iff _ rfl Balanced.nil

/-- Sealing accepts exactly the block grammar. A program that is not invalid is sealed just if
its blocks are balanced and its fixed jumps stay inside it, and then knows whether it has
branches. Otherwise the first instruction that offends decides the error: one that divides or
ends a block where none is open, or a jump past the end, which is reported by its number
counted from one. If none offends, a block is open at the end, and that is the error. -/
theorem seal_grammar {p : Program} (h : p.isInvalid = false) :
    let done := p.seal
    let code := p.instructions.toList
    (done.result = .ok () ↔ Balanced code ∧ JumpsInside p.length code) ∧
    (done.result = .ok () → done.program.isSealed = true ∧
      (done.program.hasBranches = true ↔ ∃ ins ∈ code, ins.isBranch = true)) ∧
    (∀ e, done.result = .error e ↔
      (∃ k, OffendsAt p.length code k e ∧ ∀ j < k, ∀ e', ¬OffendsAt p.length code j e') ∨
        ((∀ k e', ¬OffendsAt p.length code k e') ∧ Inside code ∧ e = .unbalancedBranches)) := by
  intro done code
  have herror : ∀ e, p.checkStructure = .error e ↔
      (∃ k, OffendsAt p.length code k e ∧ ∀ j < k, ∀ e', ¬OffendsAt p.length code j e') ∨
        ((∀ k e', ¬OffendsAt p.length code k e') ∧ Inside code ∧ e = .unbalancedBranches) := by
    intro e
    rw [checkStructure_eq_error_iff]
    simp only [FirstOffence, LeftOpen, Nat.zero_le, true_and, forall_const, code]
    rw [and_comm (a := e = .unbalancedBranches), and_assoc]
  rw [← checkStructure_eq_ok_iff]
  simp only [← herror]
  rcases p.seal_cases with ⟨hinvalid, -⟩ | ⟨e, hcheck, hseal⟩ | ⟨-, hcheck, hseal⟩
  · rw [h] at hinvalid
    cases hinvalid
  · simp [done, hseal, hcheck, Outcome.fail]
  · have hbranches : p.instructions.any Instruction.isBranch = true ↔
        ∃ ins ∈ code, ins.isBranch = true := by
      rw [← Array.any_toList, List.any_eq_true]
    simp [done, hseal, hcheck, Outcome.ok, hbranches]

/-- A jump out of the program inside a block, before an end too many. -/
def unbalanced : Program :=
  [.push "if" [.name "fragX", .name "<", .literal (.int 1)],
    .push "goto" [.literal (.int 9)],
    .push "end" [],
    .push "end" []].foldl Program.edit (Program.new .fragment)

theorem seal_grammar_unbalanced :
    let code := unbalanced.instructions.toList
    unbalanced.isInvalid = false ∧
      unbalanced.seal.result = .error (.badJumpTarget 9 4) ∧
      (∃ k, OffendsAt 4 code k (.badJumpTarget 9 4) ∧ ∀ j < k, ∀ e, ¬OffendsAt 4 code j e) ∧
      ¬(Balanced code ∧ JumpsInside 4 code) := by
  intro code
  have hvalid : unbalanced.isInvalid = false := by decide +kernel
  have hlength : unbalanced.length = 4 := by decide +kernel
  have hresult : unbalanced.seal.result = .error (.badJumpTarget 9 4) := by decide +kernel
  obtain ⟨hok, -, herror⟩ := seal_grammar hvalid
  rw [hlength] at hok herror
  refine ⟨hvalid, hresult, ?_, fun h => ?_⟩
  · exact ((herror _).1 hresult).resolve_right fun hopen => by simp at hopen
  · rw [hok.2 h] at hresult
    cases hresult

end Program

end Shading
