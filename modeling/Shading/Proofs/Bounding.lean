import Shading.Proofs.History
import Shading.Proofs.Nearest

/- Integers held in a range. They are held there as floats: the integer and its bounds are rounded
   to single precision, the bounds are met, and the float goes back to an integer, which stops
   at the end of the 32-bit range. Rounding keeps the order, so what comes of this is the integer
   that is held between the bounds, rounded (`Value.clamp_int`). Floats that are integers
   go back to themselves (`IsInteger.toInt`). The largest integer is rounded up, out of the range,
   and comes back as it was.

   An integer that came of this is rounded to what it was before it went back, so it is left as
   it is when it is held there again. This is so even if the variable is one of its own bounds
   (`clamp_integers`). -/
namespace Shading

namespace Single

open Float.Model Float.Model.UnpackedFloat

/-! ## Back from floats -/

theorem Shows.isNaN {u : UnpackedFloat} {a : Int} (h : Shows u a) : u.isNaN = false := by
  cases h <;> rfl

/-- The integer part of a float that is an integer: the mantissa is shifted to where the
exponent is zero, and on the way right nothing is lost. -/
theorem Shows.toInt_eq {u : UnpackedFloat} {a : Int} (h : Shows u a) (least largest : Int) :
    u.toInt least largest = a := by
  cases h with
  | zero s => rfl
  | @finite s m k n h hlow hhigh hk hmul =>
    have hleft : ((k : Int) - 23 - 0).toNat = k - 23 := by omega
    have hright : (0 - ((k : Int) - 23 - (k - 23 : Nat))).toNat = 23 - k := by omega
    have hvalue : m * 2 ^ (k - 23) / 2 ^ (23 - k) = n := by
      refine Nat.div_eq_of_eq_mul_left (Nat.two_pow_pos _) ?_
      refine Nat.eq_of_mul_eq_mul_right (Nat.two_pow_pos (min k 23)) ?_
      rw [Nat.mul_assoc, Nat.mul_assoc, ← Nat.pow_add, ← Nat.pow_add,
        show k - 23 + min k 23 = k by omega, show 23 - k + min k 23 = 23 by omega, hmul]
    simp only [UnpackedFloat.toInt, roundToInt, decreaseExponent, shiftToExponent, hleft, hright]
    rw [← hvalue, ← Nat.shiftLeft_eq, ← shifted_mantissa]
    rfl

theorem isInteger_zero : IsInteger 0 0 := isInteger_pack (.zero .positive)

namespace IsInteger

variable {x y : Float32} {a b : Int}

theorem isNaN (h : IsInteger x a) : x.isNaN = false := Shows.isNaN h

theorem lt_iff (hx : IsInteger x a) (hy : IsInteger y b) : x < y ↔ a < b :=
  decide_eq_decide.1 (test_eq hx hy .lt)

theorem toUInt64 (h : IsInteger x a) : x.toUInt64.toNat = min (2 ^ 64 - 1) a.toNat := by
  show (UInt64.ofNatClamp (x.toModel.unpack.toInt 0 (UInt64.size - 1)).toNat).toNat = _
  rw [h.toInt_eq, UInt64.ofNatClamp]
  split
  · next hlt =>
    rw [UInt64.toNat_ofNatLT]
    simp only [UInt64.size] at hlt
    omega
  · next hge =>
    simp only [UInt64.size] at hge
    rw [Nat.min_eq_left (by omega)]
    rfl

theorem truncate (h : IsInteger x a) :
    truncate x = max Int64.minValue.toInt (min Int64.maxValue.toInt a) := by
  have hmin : Int64.minValue.toInt = -2 ^ 63 := rfl
  have hmax : Int64.maxValue.toInt = 2 ^ 63 - 1 := rfl
  rw [Single.truncate]
  split
  · next hneg =>
    have hlt : a < 0 := (h.lt_iff isInteger_zero).1 hneg
    rw [h.neg.toUInt64]
    omega
  · next hpos =>
    have hge : ¬a < 0 := mt (h.lt_iff isInteger_zero).2 hpos
    rw [h.toUInt64]
    omega

/-- A float that is an integer goes to that integer, or to the nearer end of the range. -/
theorem toInt (h : IsInteger x a) :
    (Single.toInt x).toInt = max Int32.minValue.toInt (min Int32.maxValue.toInt a) := by
  have hmin : Int64.minValue.toInt = -2 ^ 63 := rfl
  have hmax : Int64.maxValue.toInt = 2 ^ 63 - 1 := rfl
  have hmin' : Int32.minValue.toInt = -2 ^ 31 := rfl
  have hmax' : Int32.maxValue.toInt = 2 ^ 31 - 1 := rfl
  rw [Single.toInt, h.truncate, Int32.toInt_ofInt_of_le (by omega) (by omega)]
  omega

theorem maximum (hx : IsInteger x a) (hy : IsInteger y b) : IsInteger (maximum x y) (max a b) := by
  simp only [Single.maximum, hx.isNaN, hy.isNaN, Bool.false_eq_true, if_false, hx.lt_iff hy]
  split
  · next hlt => rwa [Int.max_eq_right (Int.le_of_lt hlt)]
  · next hge => rwa [Int.max_eq_left (Int.not_lt.1 hge)]

theorem minimum (hx : IsInteger x a) (hy : IsInteger y b) : IsInteger (minimum x y) (min a b) := by
  simp only [Single.minimum, hx.isNaN, hy.isNaN, Bool.false_eq_true, if_false, hy.lt_iff hx]
  split
  · next hlt => rwa [Int.min_eq_right (Int.le_of_lt hlt)]
  · next hge => rwa [Int.min_eq_left (Int.not_lt.1 hge)]

end IsInteger

/-! ## Rounded and stored -/

theorem monotone_nearest : Monotone nearest := fun _ _ h => nearest_mono h

theorem nearest_of_short {g : Int} (h : Short g) : nearest g = g := by
  have := nearest_le g h
  omega

theorem short_iff {g : Int} : Short g ↔ nearest g = g :=
  ⟨nearest_of_short, fun h => h ▸ short_nearest g⟩

/-- The integer that is stored for one that is rounded on the way. -/
def restored (a : Int) : Int := min Int32.maxValue.toInt (nearest a)

theorem restored_eq_self_iff {a : Int} (h : a ≤ Int32.maxValue.toInt) :
    restored a = a ↔ Short a ∨ a = Int32.maxValue.toInt := by
  have hlargest : nearest Int32.maxValue.toInt = 2 ^ 31 := by decide
  have hmax : Int32.maxValue.toInt = 2 ^ 31 - 1 := rfl
  have hle := nearest_mono h
  rw [short_iff, restored]
  -- what is rounded stays in the range, but for what goes to `2 ^ 31` and comes back as the largest
  grind

/-- What is stored is rounded to what would have been stored in a wider range. -/
theorem nearest_restored {a : Int} (h : a ≤ Int32.maxValue.toInt) :
    nearest (restored a) = nearest a := by
  rw [restored, monotone_nearest.map_min, nearest_of_short (short_nearest a)]
  exact Int.min_eq_right (nearest_mono h)

end Single

/-! ## Clamping -/

/-- An integer held between two others. Where these are crossed it is the upper one. -/
def between (i lo hi : Int32) : Int := min (max i.toInt lo.toInt) hi.toInt

theorem between_le (i lo hi : Int32) : between i lo hi ≤ Int32.maxValue.toInt :=
  Int.le_trans (Int.min_le_right _ _) hi.toInt_le

theorem between_eq_self {i lo hi : Int32} (hlo : lo ≤ i) (hhi : i ≤ hi) :
    between i lo hi = i.toInt := by
  have := Int32.le_iff_toInt_le.1 hlo
  have := Int32.le_iff_toInt_le.1 hhi
  rw [between]
  omega

theorem nearest_between (i lo hi : Int32) : Single.nearest (between i lo hi) =
    min (max (Single.nearest i.toInt) (Single.nearest lo.toInt)) (Single.nearest hi.toInt) := by
  rw [between, Single.monotone_nearest.map_min, Single.monotone_nearest.map_max]

theorem isInteger_hold (i lo hi : Int32) :
    Single.IsInteger (hold (.int lo) (.int hi) 0 (Single.ofInt i))
      (Single.nearest (between i lo hi)) := by
  rw [nearest_between]
  exact ((Single.isInteger_ofInt i).maximum (Single.isInteger_ofInt lo)).minimum
    (Single.isInteger_ofInt hi)

/-- An integer that is held between two others is the one between them, restored. -/
theorem Value.clamp_int (i lo hi : Int32) : ∃ k : Int32,
    Value.clamp (.int lo) (.int hi) none (.int i) = .int k ∧
      k.toInt = Single.restored (between i lo hi) := by
  refine ⟨_, rfl, ?_⟩
  -- only the upper end of the range is ever met, since the least integer is not rounded
  have hleast : Single.nearest Int32.minValue.toInt = Int32.minValue.toInt := by decide
  have hbetween : Int32.minValue.toInt ≤ between i lo hi := by
    have hmin : Int32.minValue.toInt = -2 ^ 31 := rfl
    have := i.le_toInt
    have := hi.le_toInt
    rw [between]
    omega
  have hge := Single.nearest_mono hbetween
  rw [hleast] at hge
  rw [(isInteger_hold i lo hi).toInt, Int.max_eq_right]
  · rfl
  · exact Int.le_min.2 ⟨by decide, hge⟩

/-- Held there once more, where a bound that was the integer itself may have changed with it. -/
theorem between_again {i lo hi k lo' hi' : Int32} (hk : k.toInt = Single.restored (between i lo hi))
    (hlo : lo' = lo ∨ lo = i ∧ lo' = k) (hhi : hi' = hi ∨ hi = i ∧ hi' = k) :
    Single.restored (between k lo' hi') = Single.restored (between i lo hi) := by
  have hnearest : Single.nearest k.toInt = Single.nearest (between i lo hi) := by
    rw [hk, Single.nearest_restored (between_le i lo hi)]
  rw [Single.restored, Single.restored, nearest_between k]
  congr 1
  rw [nearest_between] at hnearest ⊢
  -- each bound is what it was, or was the integer and is what was stored
  rcases hlo with rfl | ⟨rfl, rfl⟩ <;> rcases hhi with rfl | ⟨rfl, rfl⟩ <;> omega

section

variable {ι : Type} [Invocation ι] {p : Program} {s : State ι} {v : Nat} {i : Int32}

/-- What reads an integer changes nothing. Where another integer is stored in place of one, it reads
the same again, unless it reads just that. -/
theorem Source.read_int {src : Source} {b : Int32} (hv : s.registers.slot? v = some (.int i))
    (hread : (src.read p s).1 = some (.int b)) :
    src.read p s = (some (.int b), s) ∧ ∀ k : Int32, ∃ b' : Int32,
      (src.read p (s.store (.slot v) (.int k))).1 = some (.int b') ∧ (b' = b ∨ b = i ∧ b' = k) := by
  match src with
  | .literal value =>
    obtain rfl : value = .int b := Option.some.inj hread
    exact ⟨rfl, fun k => ⟨b, rfl, .inl rfl⟩⟩
  | .name ⟨.builtin builtin, mask⟩ =>
    exact ⟨Prod.ext hread rfl, fun k => ⟨b, hread, .inl rfl⟩⟩
  | .name ⟨.slot j, mask⟩ =>
    refine ⟨Prod.ext hread rfl, fun k => ?_⟩
    by_cases hj : v = j
    · subst hj
      obtain ⟨hsize, -⟩ := Array.getElem?_eq_some_iff.1 hv
      have hslot := Registers.slot?_store_self hsize (.int k)
      have hsame : Operand.int i = .int b :=
        Option.some.inj ((congrArg (Option.map (Value.operand _)) hv).symm.trans hread)
      cases hsame
      exact ⟨k, congrArg (Option.map (Value.operand _)) hslot, .inr ⟨rfl, rfl⟩⟩
    · have hslot := Registers.slot?_store_ne hj s.registers (.int k)
      exact ⟨b, (congrArg (Option.map (Value.operand _)) hslot).trans hread, .inl rfl⟩
  | .interpolated id =>
    -- an attribute that is interpolated reads a vector
    rw [Source.read] at hread
    split at hread
    · obtain ⟨v, -, hvec⟩ := Option.map_eq_some_iff.1 hread
      cases hvec
    · cases hread
  | .attribute id =>
    obtain ⟨a, -, hfetch⟩ := Option.bind_eq_some_iff.1 hread
    obtain ⟨v, -, hvec⟩ := Option.map_eq_some_iff.1 hfetch
    cases hvec

variable {lower upper : Source} {lo hi : Int32}

theorem Operation.run_clamp_int (hv : s.registers.slot? v = some (.int i))
    (hlo : (lower.read p s).1 = some (.int lo)) (hhi : (upper.read p s).1 = some (.int hi)) :
    (Operation.call .clamp ⟨.slot v, none⟩ lower (some upper)).run p s =
      s.store (.slot v) (Value.clamp (.int lo) (.int hi) none (.int i)) := by
  simp only [run, Source.andThen, (Source.read_int hv hlo).1, (Source.read_int hv hhi).1, storeCall,
    State.update, State.current, hv, Option.getD_some]

/-- A slot that was clamped is left as it is when it is clamped again. -/
theorem Operation.run_clamp_again {k : Int32} (hv : s.registers.slot? v = some (.int i))
    (hlo : (lower.read p s).1 = some (.int lo)) (hhi : (upper.read p s).1 = some (.int hi))
    (hk : k.toInt = Single.restored (between i lo hi)) :
    (Operation.call .clamp ⟨.slot v, none⟩ lower (some upper)).run p (s.store (.slot v) (.int k)) =
      s.store (.slot v) (.int k) := by
  obtain ⟨hsize, -⟩ := Array.getElem?_eq_some_iff.1 hv
  have hstored : (s.store (.slot v) (.int k)).registers.slot? v = some (.int k) :=
    Registers.slot?_store_self hsize _
  obtain ⟨lo', hlo', hlower⟩ := (Source.read_int hv hlo).2 k
  obtain ⟨hi', hhi', hupper⟩ := (Source.read_int hv hhi).2 k
  obtain ⟨k', hclamp, hk'⟩ := Value.clamp_int k lo' hi'
  have hsame : k' = k := by
    rw [← Int32.toInt_inj, hk', hk]
    exact between_again hk hlower hupper
  rw [run_clamp_int hstored hlo' hhi', hclamp, hsame]
  simp only [State.store, Registers.store, Array.setIfInBounds_setIfInBounds]

/-- A variable that holds an integer is clamped between sources that bring integers, variables or
others, without a swizzle. The integer that lies between them is stored, rounded to single
precision and kept in the range: just that integer, if it has no more than 24 significant
bits or is the largest, and otherwise another. So it is with an integer that lies between them
already. To clamp it there again changes nothing, even if a bound is the variable itself. -/
theorem clamp_integers (hv : s.registers.slot? v = some (.int i))
    (hlo : (lower.read p s).1 = some (.int lo)) (hhi : (upper.read p s).1 = some (.int hi)) :
    let clamp := Operation.call .clamp ⟨.slot v, none⟩ lower (some upper)
    ∃ k : Int32, clamp.run p s = s.store (.slot v) (.int k) ∧
      k.toInt = Single.restored (between i lo hi) ∧
      (k.toInt = between i lo hi ↔ Single.Short (between i lo hi) ∨
        between i lo hi = Int32.maxValue.toInt) ∧
      (lo ≤ i → i ≤ hi → (k = i ↔ Single.Short i.toInt ∨ i = Int32.maxValue)) ∧
      clamp.run p (clamp.run p s) = clamp.run p s := by
  intro clamp
  obtain ⟨k, hclamp, hk⟩ := Value.clamp_int i lo hi
  have hrun : clamp.run p s = s.store (.slot v) (.int k) := by
    rw [← hclamp]
    exact Operation.run_clamp_int hv hlo hhi
  have hsame : k.toInt = between i lo hi ↔ Single.Short (between i lo hi) ∨
      between i lo hi = Int32.maxValue.toInt := by
    rw [hk]
    exact Single.restored_eq_self_iff (between_le i lo hi)
  refine ⟨k, hrun, hk, hsame, fun hli hih => ?_, ?_⟩
  · rwa [between_eq_self hli hih, Int32.toInt_inj, Int32.toInt_inj] at hsame
  · rw [hrun]
    exact Operation.run_clamp_again hv hlo hhi hk

end

/-- Far above its lower bound and far below its upper one an integer is rounded upward, and that is
all. -/
theorem clamp_integers_rounded :
    let s : State Fragment :=
      ⟨Fragment.ofPosition 0 0, ⟨#[.int 16777219, .int (-5), .int 2147483647], #[]⟩, #[]⟩
    let lower : Source := .name ⟨.slot 1, none⟩
    let upper : Source := .name ⟨.slot 2, none⟩
    let clamp := Operation.call .clamp ⟨.slot 0, none⟩ lower (some upper)
    let p := Program.new .fragment
    let t := clamp.run p s
    t.registers.slots = #[.int 16777220, .int (-5), .int 2147483647] ∧ clamp.run p t = t := by
  intro s lower upper clamp p t
  have hv : s.registers.slot? 0 = some (.int 16777219) := rfl
  have hlo : (lower.read p s).1 = some (.int (-5)) := rfl
  have hhi : (upper.read p s).1 = some (.int 2147483647) := rfl
  obtain ⟨k, hrun, hk, -, -, hagain⟩ := clamp_integers hv hlo hhi
  have hvalue : Single.restored (between 16777219 (-5) 2147483647) = 16777220 := by decide
  obtain rfl : k = 16777220 := Int32.toInt_inj.1 (hk.trans hvalue)
  exact ⟨congrArg (fun t => t.registers.slots) hrun, hagain⟩

/-- An integer between its bounds that is not left as it was. -/
theorem clamp_integers_inside :
    let p := ([.push "=" [.name "v", .literal (.int 16777217)],
      .push "=" [.name "lo", .literal (.int 0)], .push "=" [.name "hi", .literal (.int 20000000)],
      .push "clamp" [.name "v", .name "lo", .name "hi"], .seal] :
        List Program.Edit).foldl Program.edit (Program.new .fragment)
    let done := p.execute (Fragment.ofPosition 0 0) p.registers
    done.registers.slots = #[.int 16777216, .int 0, .int 20000000] ∧
      between 16777217 0 20000000 = 16777217 := by
  decide +kernel

end Shading
