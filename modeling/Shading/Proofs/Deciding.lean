import Shading.Proofs.Naming
import Shading.Proofs.Places

/- Conditions and comparisons. A condition keeps its left side as a place with a swizzle,
   like a destination, and a comparison keeps it as a source; each is read in a way of its
   own. Both ways give one operand (`State.readName?_eq_some`), so an `if`, an `elseif` that
   is reached undecided and a comparison that is stored decide alike
   (`comparisons_decide_alike`). Their operands are taken alike too: what is accepted in a
   condition is accepted behind the destination of a comparison, and comes to the same
   (`Build.run_compare_eq_ok_iff`). -/
namespace Shading

/-! ## Operands of either -/

namespace Build

variable {α β : Type} {p p' q : Program} {op op' text : String}

theorem run_bind_eq_ok_iff {x : Build α} {f : α → Build β} {b : β} :
    (x >>= f).run p = (.ok b, q) ↔ ∃ a p', x.run p = (.ok a, p') ∧ (f a).run p' = (.ok b, q) := by
  constructor
  · exact run_bind_ok
  · rintro ⟨a, p', hx, hf⟩
    rw [run_bind, hx]
    exact hf

theorem run_pure_eq_ok_iff {a b : α} :
    (pure a : Build α).run p = (.ok b, q) ↔ a = b ∧ p = q := by
  constructor
  · rintro ⟨⟩
    exact ⟨rfl, rfl⟩
  · rintro ⟨rfl, rfl⟩
    rfl

theorem run_throw_eq_ok_iff {e : ProgramError} {b : α} :
    (throw e : Build α).run p = (.ok b, q) ↔ False :=
  ⟨nofun, False.elim⟩

theorem run_require_eq_ok_iff {holds : Bool} {e : ProgramError} {u : Unit} :
    (require holds e).run p = (.ok u, q) ↔ holds = true ∧ p = q := by
  cases holds with
  | true => exact run_pure_eq_ok_iff.trans (by simp)
  | false => exact run_throw_eq_ok_iff.trans (by simp)

theorem run_requireOwn_eq_ok_iff {b : Builtin} {u : Unit} :
    (requireOwn op b).run p = (.ok u, q) ↔ b.isOf p.stage = true ∧ p = q := by
  unfold requireOwn Builtin.isOf
  cases b.stage? with
  | none => exact run_pure_eq_ok_iff.trans (by simp)
  | some stage =>
    show (require (p.stage == stage) _).run p = (.ok u, q) ↔ _
    rw [run_require_eq_ok_iff, beq_iff_eq, Option.all_some, beq_iff_eq, eq_comm (a := p.stage)]

theorem run_supply_eq_ok_iff {s : Supply} :
    (supply op (some (.name text))).run p = (.ok s, q) ↔
      ∃ r, s = .source (.name r) ∧ (sourceName op text).run p = (.ok r, q) := by
  show (sourceName op text >>= fun r => (pure (.source (.name r)) : Build Supply)).run p = _ ↔ _
  simp only [run_bind_eq_ok_iff, run_pure_eq_ok_iff]
  constructor
  · rintro ⟨r, _, hrun, rfl, rfl⟩
    exact ⟨r, rfl, hrun⟩
  · rintro ⟨r, rfl, hrun⟩
    exact ⟨r, q, hrun, rfl, rfl⟩

theorem run_unsupported_eq_ok_iff {reason : Misfit} {a : α} :
    (unsupported op reason : Build α).run p = (.ok a, q) ↔ False :=
  run_throw_eq_ok_iff

/-- Only the errors of a source tell for which instruction it was taken. -/
theorem run_sourceName_op {r : Reference}
    (h : (sourceName op text).run p = (.ok r, q)) : (sourceName op' text).run p = (.ok r, q) := by
  rw [sourceName, run_bind_eq_ok_iff] at h ⊢
  obtain ⟨name, p', hname, hrest⟩ := h
  refine ⟨name, p', hname, ?_⟩
  cases hb : Builtin.ofName? name.base with
  | none => simpa only [hb] using hrest
  | some b =>
    simpa only [hb, run_bind_eq_ok_iff, run_requireOwn_eq_ok_iff] using hrest

theorem run_supply_op {arg : Option Argument} {s : Supply}
    (h : (supply op arg).run p = (.ok s, q)) : (supply op' arg).run p = (.ok s, q) := by
  match arg with
  | none => exact (run_throw_eq_ok_iff.1 h).elim
  | some (.name text) =>
    rw [run_supply_eq_ok_iff] at h ⊢
    obtain ⟨r, rfl, hr⟩ := h
    exact ⟨r, rfl, run_sourceName_op hr⟩
  | some (.literal _) | some (.matrix _) => exact h
  | some (.texture _) => exact (run_unsupported_eq_ok_iff.1 h).elim
  | some (.interpolated _) | some (.attribute _) =>
    simp only [supply, requireStage, run_bind_eq_ok_iff, run_require_eq_ok_iff] at h ⊢
    exact h

theorem run_requireSource_eq_ok_iff {s : Supply} {src : Source} :
    (requireSource op s).run p = (.ok src, q) ↔ s = .source src ∧ p = q := by
  cases s with
  | source src' => exact run_pure_eq_ok_iff.trans (by simp)
  | matrix id => exact run_unsupported_eq_ok_iff.trans (by simp)

/-- The left side of a condition is a source that is a name. -/
theorem run_conditionName_eq_ok_iff_supply {arg : Option Argument} {r : Reference} :
    (conditionName op arg).run p = (.ok r, q) ↔
      (supply op arg).run p = (.ok (.source (.name r)), q) := by
  rw [conditionName, run_bind_eq_ok_iff]
  constructor
  · rintro ⟨s, p', hs, hr⟩
    rcases s with ⟨r' | _ | _ | _⟩ | _
    · obtain ⟨rfl, rfl⟩ := run_pure_eq_ok_iff.1 hr
      exact hs
    all_goals exact (run_unsupported_eq_ok_iff.1 hr).elim
  · exact fun hs => ⟨_, q, hs, run_pure_eq_ok_iff.2 ⟨rfl, rfl⟩⟩

theorem run_source_eq_ok_iff {arg : Option Argument} {src : Source} :
    (source op arg).run p = (.ok src, q) ↔ (supply op arg).run p = (.ok (.source src), q) := by
  simp only [source, run_bind_eq_ok_iff, run_requireSource_eq_ok_iff]
  constructor
  · rintro ⟨_, _, hs, rfl, rfl⟩
    exact hs
  · exact fun hs => ⟨_, _, hs, rfl, rfl⟩

/-- Behind its destination a comparison takes the operands that a condition takes, and makes of
them what a condition does. -/
theorem run_compare_eq_ok_iff {dst : Reference} {t a b : Argument} {name : String} {c : Condition}
    (ht : (destination "compare" (some t)).run p = (.ok dst, p'))
    (hname : Comparison.ofName? name = some c.cmp) :
    (compare c.cmp [t, a, b]).run p =
        (.ok (.operation (.compare c.cmp dst (.name c.lhs) c.rhs)), q) ↔
      (condition op [a, .name name, b]).run p' = (.ok c, q) := by
  have hcmp : ∀ {p₁ p₂ : Program} {cmp},
      (comparison op (some (.name name))).run p₁ = (.ok cmp, p₂) ↔ c.cmp = cmp ∧ p₁ = p₂ := by
    intro p₁ p₂ cmp
    rw [comparison, hname]
    exact run_pure_eq_ok_iff
  have hcompare : (compare c.cmp [t, a, b]).run p =
        (.ok (.operation (.compare c.cmp dst (.name c.lhs) c.rhs)), q) ↔
      ∃ p'', (supply "compare" (some a)).run p' = (.ok (.source (.name c.lhs)), p'') ∧
        (supply "compare" (some b)).run p'' = (.ok (.source c.rhs), q) := by
    simp only [compare, run_bind_eq_ok_iff, run_requireSource_eq_ok_iff, run_pure_eq_ok_iff]
    constructor
    · rintro ⟨_, _, hdst, _, p'', ha, _, _, hb, _, _, ⟨rfl, rfl⟩, _, _, ⟨rfl, rfl⟩, heq, rfl⟩
      cases ht.symm.trans hdst
      cases heq
      exact ⟨p'', ha, hb⟩
    · rintro ⟨p'', ha, hb⟩
      exact ⟨_, _, ht, _, _, ha, _, _, hb, _, _, ⟨rfl, rfl⟩, _, _, ⟨rfl, rfl⟩, rfl, rfl⟩
  have hcondition : (condition op [a, .name name, b]).run p' = (.ok c, q) ↔
      ∃ p'', (supply op (some a)).run p' = (.ok (.source (.name c.lhs)), p'') ∧
        (supply op (some b)).run p'' = (.ok (.source c.rhs), q) := by
    simp only [condition, run_bind_eq_ok_iff, run_conditionName_eq_ok_iff_supply,
      run_source_eq_ok_iff, run_pure_eq_ok_iff]
    constructor
    · rintro ⟨_, p'', ha, _, _, hcmp', _, _, hb, rfl, rfl⟩
      obtain ⟨-, rfl⟩ := hcmp.1 hcmp'
      exact ⟨p'', ha, hb⟩
    · rintro ⟨p'', ha, hb⟩
      exact ⟨_, _, ha, _, _, hcmp.2 ⟨rfl, rfl⟩, _, _, hb, rfl, rfl⟩
  rw [hcompare, hcondition]
  exact ⟨fun ⟨p'', ha, hb⟩ => ⟨p'', run_supply_op ha, run_supply_op hb⟩,
    fun ⟨p'', ha, hb⟩ => ⟨p'', run_supply_op ha, run_supply_op hb⟩⟩

end Build

/-! ## What is decided -/

variable {ι : Type} [Invocation ι] {p : Program}

/-- A condition decides for its arm in a state, or against it, and the state after reading its
sides is the second one. Behind an `if` that is not skipped, and behind an `elseif` that is
reached while no arm of its block was run, the machine goes on with the next instruction, and
skips unless the condition holds. -/
structure Condition.Decides (p : Program) (c : Condition) (s : State ι) (holds : Bool)
    (s' : State ι) : Prop where
  ifThen : ∀ (position : Nat) (nesting : Nesting), nesting.isSkipping = false →
    ∃ nesting', p.advance (.ifThen c) ⟨position, nesting, s⟩ = .next ⟨position + 1, nesting', s'⟩ ∧
      nesting'.isSkipping = !holds
  elseIf : ∀ (position : Nat) (nesting : Nesting), nesting.isPending = true →
    ∃ nesting', p.advance (.elseIf c) ⟨position, nesting, s⟩ = .next ⟨position + 1, nesting', s'⟩ ∧
      nesting'.isSkipping = !holds

theorem Condition.decides_test (p : Program) (c : Condition) (s : State ι) :
    c.Decides p s (c.test p s).1 (c.test p s).2 where
  ifThen position nesting hrun := by
    refine ⟨_, Program.advance_ifThen hrun c, ?_⟩
    cases (c.test p s).1 with
    | true => exact hrun
    | false => rfl
  elseIf position nesting hpending := by
    refine ⟨_, Program.advance_elseIf hpending c, ?_⟩
    cases (c.test p s).1 with
    | true => rfl
    | false => exact Nesting.isSkipping_of_isPending hpending

/-- A truth value as it is stored over a value: as itself over a scalar, and over a vector in each
of its lanes as a number. -/
def Value.ofTruth (old : Value) (holds : Bool) : Value :=
  match old with
  | .vec _ => .vec (Vec4.splat (if holds then 1 else 0))
  | _ => .bool holds

theorem Arith.combine_bool (old : Value) (holds : Bool) :
    Arith.assign.combine old none (.bool holds) = old.ofTruth holds := by
  cases old with
  | vec v => rfl
  | float _ | int _ | bool _ => rfl

/-- A comparison with two sides that have a value stores what the condition of the same sides
decides. -/
theorem Operation.run_compare {c : Condition} {s : State ι} {a b : Operand}
    (ha : s.readName? c.lhs = some a) (hb : (c.rhs.read p s).1 = some b) {i : Nat} {old : Value}
    (hold : s.registers.slot? i = some old) :
    (Operation.compare c.cmp ⟨.slot i, none⟩ (.name c.lhs) c.rhs).run p s =
      (c.test p s).2.store (.slot i) (old.ofTruth (c.cmp.holds a b)) := by
  have hcurrent : (c.rhs.read p s).2.current (.slot i) = old := by
    rw [State.current, Source.read_slot, hold, Option.getD_some]
  have hlhs : (Source.name c.lhs).read p s = (some a, s) := by rw [Source.read, ha]
  simp only [run, hlhs, hb, State.update, hcurrent, Arith.combine_bool, Condition.test_state]

theorem Condition.test_eq {c : Condition} {s : State ι} {a b : Operand}
    (ha : s.readName? c.lhs = some a) (hb : (c.rhs.read p s).1 = some b) :
    (c.test p s).1 = c.cmp.holds a b := by
  obtain ⟨rfl, -⟩ := State.readName?_eq_some.1 ha
  unfold Condition.test
  rcases hread : c.rhs.read p s with ⟨value, s'⟩
  rw [hread] at hb
  obtain rfl : value = some b := hb
  rfl

/-- A condition and a comparison decide alike. The operands of a condition are accepted just if
they are accepted behind the destination of a comparison, and come to the same sides. In any
state in which these have a value, the left side reads as a source what the condition compares;
and what an `if` decides, and an `elseif` that is reached undecided, is what the comparison
stores: over a scalar in a variable the truth value, over a vector a one or a zero in each
lane. Nothing else tells the states afterwards apart. -/
theorem comparisons_decide_alike (p : Program) :
    (∀ (q q' q'' : Program) (op name : String) (t a b : Argument) (dst : Reference) (c : Condition),
      (Build.destination "compare" (some t)).run q = (.ok dst, q') →
      Comparison.ofName? name = some c.cmp →
      ((Build.compare c.cmp [t, a, b]).run q =
          (.ok (.operation (.compare c.cmp dst (.name c.lhs) c.rhs)), q'') ↔
        (Build.condition op [a, .name name, b]).run q' = (.ok c, q''))) ∧
    ∀ (c : Condition) (s : State ι) (a b : Operand), s.readName? c.lhs = some a →
      (c.rhs.read p s).1 = some b →
      s.readDestination c.lhs = a ∧
      ∃ s', c.Decides p s (c.cmp.holds a b) s' ∧
        ∀ i old, s.registers.slot? i = some old →
          let t := (Operation.compare c.cmp ⟨.slot i, none⟩ (.name c.lhs) c.rhs).run p s
          t = s'.store (.slot i) (old.ofTruth (c.cmp.holds a b)) ∧
            t.registers.slot? i = some (old.ofTruth (c.cmp.holds a b)) := by
  refine ⟨fun _ _ _ _ _ _ _ _ _ _ => Build.run_compare_eq_ok_iff, fun c s a b ha hb => ?_⟩
  have hdecides := c.decides_test p s
  rw [Condition.test_eq ha hb] at hdecides
  refine ⟨(State.readName?_eq_some.1 ha).1, _, hdecides, fun i old hold => ?_⟩
  have hrun := Operation.run_compare ha hb hold
  refine ⟨hrun, ?_⟩
  have hi : i < (c.test p s).2.registers.slots.size := by
    rw [Condition.test_state]
    have hslot := (c.rhs.read_slot (p := p) s i).trans hold
    exact (Array.getElem?_eq_some_iff.1 hslot).1
  rw [hrun]
  exact Registers.slot?_store_self hi _

/-- The pixel of a fragment, which shows two lanes when it is read without a swizzle, is compared
with a vector of two lanes. The program has no variable yet, so the comparison brings its own. -/
theorem comparisons_decide_alike_pixel :
    let q := Program.new .fragment
    let q' := q.declare "t" false
    let c : Condition := ⟨⟨.builtin .pixelCoord, none⟩, .lt, .literal (.vec ⟨4, 3, 0, 0⟩ Mask.xy)⟩
    let args : List Argument := [.name "txCoordi", .name "<", .literal (.vec ⟨4, 3, 0, 0⟩ Mask.xy)]
    let s : State Fragment := ⟨.ofPosition 3 2, ⟨#[.vec ⟨5, 6, 7, 8⟩], #[]⟩, #[]⟩
    (Build.condition "if" args).run q' = (.ok c, q') ∧
      (Build.compare .lt (.name "t" :: args.eraseIdx 1)).run q =
        (.ok (.operation (.compare .lt ⟨.slot 0, none⟩ (.name c.lhs) c.rhs)), q') ∧
      s.readDestination c.lhs = .vec ⟨3, 2, 0, 0⟩ Mask.xy ∧
      (∃ s', c.Decides q' s true s') ∧
      ((Operation.compare .lt ⟨.slot 0, none⟩ (.name c.lhs) c.rhs).run q' s).registers.slot? 0 =
        some (.vec (Vec4.splat 1)) := by
  intro q q' c args s
  have hdst :
      (Build.destination "compare" (some (.name "t"))).run q = (.ok ⟨.slot 0, none⟩, q') := by
    with_unfolding_all rfl
  have hcondition : (Build.condition "if" args).run q' = (.ok c, q') := by
    with_unfolding_all rfl
  obtain ⟨hbuilt, hdecides⟩ := comparisons_decide_alike (ι := Fragment) q'
  obtain ⟨hread, s', hs', hstored⟩ := hdecides c s (.vec ⟨3, 2, 0, 0⟩ Mask.xy)
    (.vec ⟨4, 3, 0, 0⟩ Mask.xy) (by decide) (by decide)
  have hholds : c.cmp.holds (.vec ⟨3, 2, 0, 0⟩ Mask.xy) (.vec ⟨4, 3, 0, 0⟩ Mask.xy) = true := by
    decide
  rw [hholds] at hs' hstored
  refine ⟨hcondition, ?_, hread, ⟨s', hs'⟩, (hstored 0 _ rfl).2⟩
  exact (hbuilt q q' q' "if" "<" (.name "t") _ _ _ c hdst rfl).2 hcondition

end Shading
