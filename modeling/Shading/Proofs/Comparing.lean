import Shading.Proofs.Deciding
import Shading.Proofs.History
import Shading.Proofs.Nearest

/- Integers compared. They are compared as floats, so each is rounded to the nearest integer
   that a float holds, and the relation is exactly that of what comes of this
   (`Comparison.holds_int`). Rounding keeps the order and leaves integers of no more than 24
   bits as they are, so only integers that are rounded to the same one are told apart wrongly:
   they count as equal (`Comparison.testInt_nearest`). Operands are integers by what they
   read in a state: a variable or a uniform that holds one, a literal, the index of a primitive
   or of a vertex. -/
namespace Shading

namespace Comparison

theorem holds_int (cmp : Comparison) (a b : Int32) : cmp.holds (.int a) (.int b) =
    cmp.testInt (Single.nearest a.toInt) (Single.nearest b.toInt) := by
  rw [← Single.test_eq (Single.isInteger_ofInt a) (Single.isInteger_ofInt b)]
  exact Bool.and_true _

/-- Integers that are equal, or are not rounded to the same one, stand in a relation just if
they do when they are rounded. -/
theorem testInt_nearest (cmp : Comparison) {a b : Int}
    (h : a = b ∨ Single.nearest a ≠ Single.nearest b) :
    cmp.testInt (Single.nearest a) (Single.nearest b) = cmp.testInt a b := by
  rcases Int.lt_trichotomy a b with hlt | rfl | hgt
  · have hne := h.resolve_left (Int.ne_of_lt hlt)
    have hmono := Single.nearest_mono (Int.le_of_lt hlt)
    cases cmp <;> simp only [testInt] <;> grind
  · cases cmp <;> simp [testInt]
  · have hne := h.resolve_left (Int.ne_of_gt hgt)
    have hmono := Single.nearest_mono (Int.le_of_lt hgt)
    cases cmp <;> simp only [testInt] <;> grind

end Comparison

/-- What every comparison of two integers comes to. -/
structure ComparesAs (p : Program) (ι : Type) [Invocation ι] (a b : Int32)
    (holds : Comparison → Bool) : Prop where
  /-- A condition decides so, behind an `if` that is not skipped and behind an `elseif` that is
  reached undecided. -/
  condition : ∀ (c : Condition) (s : State ι), s.readDestination c.lhs = .int a →
    (c.rhs.read p s).1 = some (.int b) → c.Decides p s (holds c.cmp) (c.test p s).2
  /-- A comparison stores that truth value. -/
  operation : ∀ (cmp : Comparison) (dst : Reference) (lhs rhs : Source) (s s' s'' : State ι),
    lhs.read p s = (some (.int a), s') → rhs.read p s' = (some (.int b), s'') →
      (Operation.compare cmp dst lhs rhs).run p s =
        s''.update dst.place fun old => Arith.assign.combine old dst.mask (.bool (holds cmp))

theorem comparesAs_holds (p : Program) (ι : Type) [Invocation ι] (a b : Int32) :
    ComparesAs p ι a b fun cmp => cmp.holds (.int a) (.int b) where
  condition c s ha hb := by
    have hdecides := c.decides_test p s
    have htest : (c.test p s).1 = c.cmp.holds (.int a) (.int b) := by
      unfold Condition.test
      rcases hread : c.rhs.read p s with ⟨value, s'⟩
      rw [hread] at hb
      obtain rfl : value = some (.int b) := hb
      simp only [ha]
    rwa [htest] at hdecides
  operation cmp dst lhs rhs s s' s'' ha hb := by simp only [Operation.run, ha, hb]

/-- Two integers, wherever they are read, compare as the nearest integers that a float holds, in
conditions and in comparisons that are stored. So they compare as themselves if they are equal or
are not rounded to the same integer, above all if neither is beyond 24 bits; and two that are
rounded to the same integer count as equal. -/
theorem integers_compared (p : Program) (ι : Type) [Invocation ι] (a b : Int32) :
    ComparesAs p ι a b (fun cmp =>
      cmp.testInt (Single.nearest a.toInt) (Single.nearest b.toInt)) ∧
    (a.toInt.natAbs ≤ 2 ^ 24 ∧ b.toInt.natAbs ≤ 2 ^ 24 ∨ a = b ∨
        Single.nearest a.toInt ≠ Single.nearest b.toInt →
      ComparesAs p ι a b fun cmp => cmp.testInt a.toInt b.toInt) := by
  have hrounded : ComparesAs p ι a b fun cmp =>
      cmp.testInt (Single.nearest a.toInt) (Single.nearest b.toInt) := by
    have hholds := comparesAs_holds p ι a b
    simpa only [Comparison.holds_int] using hholds
  refine ⟨hrounded, fun h => ?_⟩
  have hsame : ∀ cmp : Comparison, cmp.testInt (Single.nearest a.toInt) (Single.nearest b.toInt) =
      cmp.testInt a.toInt b.toInt := by
    intro cmp
    rcases h with ⟨ha, hb⟩ | rfl | hne
    · rw [Single.nearest_eq_self ha, Single.nearest_eq_self hb]
    · exact cmp.testInt_nearest (.inl rfl)
    · exact cmp.testInt_nearest (.inr hne)
  simpa only [hsame] using hrounded

/-- Far beyond 24 bits, the index of a primitive is less than an integer that is rounded to another
float, in a condition and as a truth value that is stored. -/
theorem integers_compared_index :
    let c : Condition := ⟨⟨.builtin .primitiveIndex, none⟩, .lt, .literal (.int 2000000100)⟩
    let p := Program.new .fragment
    let s : State Fragment :=
      ⟨{ Fragment.ofPosition 0 0 with primitive := 2000000001 }, ⟨#[.int 5], #[]⟩, #[]⟩
    (Single.nearest 2000000001, Single.nearest 2000000100) = (2000000000, 2000000128) ∧
      c.Decides p s true (c.test p s).2 ∧
      ((Operation.compare .lt ⟨.slot 0, none⟩ (.name c.lhs) c.rhs).run p s).registers.slots =
        #[.bool true] := by
  intro c p s
  obtain ⟨-, hexact⟩ := integers_compared p Fragment 2000000001 2000000100
  have hcompares := hexact (.inr (.inr (by decide)))
  refine ⟨by decide, hcompares.condition c s (by decide) (by decide), ?_⟩
  rw [hcompares.operation .lt ⟨.slot 0, none⟩ (.name c.lhs) c.rhs s s s rfl rfl]
  decide

/-- Two integers that are rounded to the same one. The first is stored in a variable and compared
with the second, and they count as equal. -/
theorem integers_compared_rounded :
    let p := ([.push "=" [.name "a", .literal (.int 16777217)],
      .push "==" [.name "r", .name "a", .literal (.int 16777216)],
      .push "if" [.name "a", .name "==", .literal (.int 16777216)],
      .push "=" [.name "s", .literal (.int 1)], .push "end" [], .seal] :
        List Program.Edit).foldl Program.edit (Program.new .fragment)
    let done := p.execute (Fragment.ofPosition 0 0) p.registers
    done.registers.slots = #[.int 16777217, .bool true, .int 1] ∧
      Comparison.eq.testInt (16777217 : Int32).toInt (16777216 : Int32).toInt = false := by
  decide +kernel

end Shading
