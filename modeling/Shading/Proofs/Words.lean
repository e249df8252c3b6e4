import Mathlib
import Shading.Proofs.Careful.Drawing
import Shading.Proofs.Schedule

/- Batches in machine words. How many spans a batch has, where each begins and how much of it
   is left there are counted in words of some width, where a sum or a product may be too large
   and a difference may be below zero. Here every such step says so (`Word.add?`, `Word.sub?`,
   `Word.mul?`), and there is none: whatever the length of a batch and of its spans, the words
   are the spans (`Job.exists_list?`). These lie one behind the other from the beginning of the
   batch to its end, so that each index is in one of them and in no other. -/
namespace Shading

variable {w : Nat}

/-! ## Steps of counting that may fail -/

namespace Word

/-- The sum of two words, unless it is too large. -/
def add? (a b : BitVec w) : Option (BitVec w) :=
  if a.uaddOverflow b then none else some (a + b)

/-- The difference of two words, unless it is below zero. -/
def sub? (a b : BitVec w) : Option (BitVec w) :=
  if a.usubOverflow b then none else some (a - b)

/-- The product of two words, unless it is too large. -/
def mul? (a b : BitVec w) : Option (BitVec w) :=
  if a.umulOverflow b then none else some (a * b)

/-- The quotient of two words rounded up: one more than the quotient, if anything is left. -/
def divCeil? (a b : BitVec w) : Option (BitVec w) :=
  if b = 0 then none
  else if a % b = 0 then some (a / b)
  else add? (a / b) 1

/-- The larger of two words. -/
def larger (a b : BitVec w) : BitVec w := if a ≤ b then b else a

/-- The smaller of two words. -/
def smaller (a b : BitVec w) : BitVec w := if a ≤ b then a else b

variable {a b : BitVec w}

theorem toNat_larger (a b : BitVec w) : (larger a b).toNat = max a.toNat b.toNat := by
  unfold larger
  split
  · next h => rw [Nat.max_eq_right (BitVec.le_def.1 h)]
  · next h =>
    rw [BitVec.not_le] at h
    rw [Nat.max_eq_left (Nat.le_of_lt (BitVec.lt_def.1 h))]

theorem toNat_smaller (a b : BitVec w) : (smaller a b).toNat = min a.toNat b.toNat := by
  unfold smaller
  split
  · next h => rw [Nat.min_eq_left (BitVec.le_def.1 h)]
  · next h =>
    rw [BitVec.not_le] at h
    rw [Nat.min_eq_right (Nat.le_of_lt (BitVec.lt_def.1 h))]

theorem exists_add? (h : a.toNat + b.toNat < 2 ^ w) :
    ∃ c, add? a b = some c ∧ c.toNat = a.toNat + b.toNat := by
  refine ⟨a + b, ?_, ?_⟩
  · have hfits : a.uaddOverflow b = false := by simpa [BitVec.uaddOverflow] using h
    rw [add?, hfits]
    rfl
  · rw [BitVec.toNat_add, Nat.mod_eq_of_lt h]

theorem exists_sub? (h : b.toNat ≤ a.toNat) :
    ∃ c, sub? a b = some c ∧ c.toNat = a.toNat - b.toNat := by
  refine ⟨a - b, ?_, BitVec.toNat_sub_of_le h⟩
  have hfits : a.usubOverflow b = false := by simpa [BitVec.usubOverflow] using h
  rw [sub?, hfits]
  rfl

theorem exists_mul? (h : a.toNat * b.toNat < 2 ^ w) :
    ∃ c, mul? a b = some c ∧ c.toNat = a.toNat * b.toNat := by
  refine ⟨a * b, ?_, ?_⟩
  · have hfits : a.umulOverflow b = false := by simpa [BitVec.umulOverflow] using h
    rw [mul?, hfits]
    rfl
  · rw [BitVec.toNat_mul, Nat.mod_eq_of_lt h]

/-- A quotient that is rounded up is no larger than what is divided, so it fits. -/
theorem exists_divCeil? (hw : 0 < w) (hb : b ≠ 0) :
    ∃ c, divCeil? a b = some c ∧ c.toNat = (a.toNat + b.toNat - 1) / b.toNat := by
  have hpos : 0 < b.toNat := Nat.pos_of_ne_zero fun h => hb (BitVec.eq_of_toNat_eq h)
  have hmod := Nat.div_add_mod a.toNat b.toNat
  have hlow := Nat.mod_lt a.toNat hpos
  rw [divCeil?, if_neg hb]
  by_cases hrest : a % b = 0
  · have hzero : a.toNat % b.toNat = 0 := by
      rw [← BitVec.toNat_umod, hrest]
      rfl
    refine ⟨a / b, if_pos hrest, ?_⟩
    rw [BitVec.toNat_udiv, eq_comm, Nat.div_eq_iff hpos]
    rw [hzero, Nat.mul_comm] at hmod
    constructor <;> omega
  · have hne : a.toNat % b.toNat ≠ 0 := fun h => hrest (BitVec.eq_of_toNat_eq h)
    have hone : (1 : BitVec w).toNat = 1 := Nat.mod_eq_of_lt (Nat.one_lt_two_pow (by omega))
    have hquotient : (a / b).toNat + (1 : BitVec w).toNat < 2 ^ w := by
      -- something is left over, so the divisor is at least two
      have htwo : 2 ≤ b.toNat := by omega
      have hhalf : a.toNat / b.toNat ≤ a.toNat / 2 := Nat.div_le_div_left htwo (by decide)
      rw [BitVec.toNat_udiv, hone]
      have ha := a.isLt
      omega
    obtain ⟨c, hc, hsum⟩ := exists_add? hquotient
    refine ⟨c, by rw [if_neg hrest, hc], ?_⟩
    rw [hsum, BitVec.toNat_udiv, hone, eq_comm, Nat.div_eq_iff hpos]
    rw [Nat.mul_comm] at hmod
    rw [Nat.add_mul, Nat.one_mul]
    constructor <;> omega

end Word

/-! ## The spans of a batch, in words -/

/-- A span whose beginning and size are words. -/
structure Job (w : Nat) where
  start : BitVec w
  size : BitVec w

namespace Job

/-- The span that these words are. -/
def span (job : Job w) : Span := ⟨job.start.toNat, job.size.toNat⟩

/-- The span of some number in a batch, as long as the others unless less is left. -/
def at? (length size i : BitVec w) : Option (Job w) := do
  let start ← Word.mul? i size
  let rest ← Word.sub? length (← Word.mul? i size)
  return ⟨start, Word.smaller size rest⟩

/-- The spans of a batch. -/
def list? (length size : BitVec w) : Option (List (Job w)) := do
  let size := Word.larger size 1
  let count ← Word.divCeil? length size
  (List.range count.toNat).mapM fun i => at? length size (BitVec.ofNat w i)

variable {length size i : BitVec w}

/-- A span that begins inside the batch is counted without a mishap. -/
theorem exists_at? (h : i.toNat * size.toNat < length.toNat) :
    ∃ job, at? length size i = some job ∧ job.span =
      ⟨i.toNat * size.toNat, min size.toNat (length.toNat - i.toNat * size.toNat)⟩ := by
  have hlength := length.isLt
  obtain ⟨start, hstart, hproduct⟩ := Word.exists_mul? (Nat.lt_trans h hlength)
  have hle : start.toNat ≤ length.toNat := by omega
  obtain ⟨rest, hrest, hdifference⟩ := Word.exists_sub? hle
  refine ⟨⟨start, Word.smaller size rest⟩, ?_, ?_⟩
  · simp only [at?, hstart, hrest, Option.bind_eq_bind, Option.bind_some, Option.pure_def]
  · rw [span, Word.toNat_smaller, hdifference, hproduct]

theorem exists_mapM {α β γ : Type} {f : α → Option β} {view : β → γ} {g : α → γ} :
    ∀ {l : List α}, (∀ x ∈ l, ∃ y, f x = some y ∧ view y = g x) →
      ∃ ys, l.mapM f = some ys ∧ ys.map view = l.map g := by
  intro l
  induction l with
  | nil => exact fun _ => ⟨[], rfl, rfl⟩
  | cons x rest ih =>
    intro h
    obtain ⟨⟨y, hy, hview⟩, hrest⟩ := List.forall_mem_cons.1 h
    obtain ⟨ys, hys, hviews⟩ := ih hrest
    refine ⟨y :: ys, ?_, ?_⟩
    · rw [List.mapM_cons, hy, hys]
      rfl
    · rw [List.map_cons, List.map_cons, hview, hviews]

/-- No step of counting the spans of a batch fails, and the words are the spans. -/
theorem exists_list? (hw : 0 < w) (length size : BitVec w) :
    ∃ jobs, list? length size = some jobs ∧
      jobs.map span = spans length.toNat size.toNat := by
  have hone : (1 : BitVec w).toNat = 1 := Nat.mod_eq_of_lt (Nat.one_lt_two_pow (by omega))
  have hsize : (Word.larger size 1).toNat = max size.toNat 1 := by
    rw [Word.toNat_larger, hone]
  have hpos : 0 < (Word.larger size 1).toNat := by omega
  have hne : Word.larger size 1 ≠ 0 := fun h => by
    rw [h] at hpos
    exact Nat.lt_irrefl 0 hpos
  obtain ⟨count, hcount, hquotient⟩ := Word.exists_divCeil? (a := length) hw hne
  have hat : ∀ i ∈ List.range count.toNat, ∃ job,
      at? length (Word.larger size 1) (BitVec.ofNat w i) = some job ∧ job.span =
        ⟨i * max size.toNat 1, min (max size.toNat 1) (length.toNat - i * max size.toNat 1)⟩ := by
    intro i hi
    have hstart : i * (Word.larger size 1).toNat < length.toNat := by
      refine mul_lt_of_lt_spans hpos ?_
      rw [← hquotient]
      exact List.mem_range.1 hi
    have hfits : (BitVec.ofNat w i).toNat = i := by
      -- the number of a span is no larger than where it begins
      have hle := Nat.le_mul_of_pos_right i hpos
      have hlength := length.isLt
      exact Nat.mod_eq_of_lt (by omega)
    have hbefore : (BitVec.ofNat w i).toNat * (Word.larger size 1).toNat < length.toNat := by
      rwa [hfits]
    have hjob := exists_at? hbefore
    rwa [hfits, hsize] at hjob
  obtain ⟨jobs, hjobs, hspans⟩ := exists_mapM hat
  refine ⟨jobs, ?_, ?_⟩
  · simp only [list?, hcount, Option.bind_eq_bind, Option.bind_some, hjobs]
  · rw [hspans, hquotient, hsize]
    rfl

end Job

/-! ## Spans lie one behind the other -/

section

variable {length size : Nat} {span : Span}

theorem size_of_mem_spans (h : span ∈ spans length size) :
    1 ≤ span.size ∧ span.size ≤ max size 1 := by
  obtain ⟨i, hi, rfl⟩ := List.mem_map.1 h
  have hstart : i * max size 1 < length := mul_lt_of_lt_spans (by omega) (List.mem_range.1 hi)
  dsimp only
  omega

/-- Each span but the last is as long as it may be, so the next one begins where it ends. -/
theorem isChain_spans (length size : Nat) :
    (spans length size).IsChain fun a b => a.start + a.size = b.start := by
  rw [List.isChain_iff_getElem]
  intro i hi
  rw [spans, List.length_map, List.length_range] at hi
  have hnext : (i + 1) * max size 1 < length := mul_lt_of_lt_spans (by omega) hi
  simp only [spans, List.getElem_map, List.getElem_range]
  rw [Nat.add_mul, Nat.one_mul] at hnext ⊢
  omega

theorem pairwise_spans (length size : Nat) :
    (spans length size).Pairwise fun a b => a.start + a.size ≤ b.start := by
  rw [List.pairwise_iff_getElem]
  intro i j _ _ hij
  have hle : (i + 1) * max size 1 ≤ j * max size 1 := Nat.mul_le_mul_right _ hij
  simp only [spans, List.getElem_map, List.getElem_range]
  rw [Nat.add_mul, Nat.one_mul] at hle
  omega

end

/-- The spans of a batch partition it. Counted in words of any width, whatever the length of the
batch and the size that is asked for, no step is too large or below zero. Each span lies inside
the batch and is neither empty nor longer than that size, of which zero counts as one. The first
begins where the batch does, each next one where the one before it ends, no two overlap, and in
order they hold each index of the batch once. -/
theorem spans_partition (hw : 0 < w) (length size : BitVec w) :
    ∃ jobs : List (Job w), Job.list? length size = some jobs ∧
      jobs.map Job.span = spans length.toNat size.toNat ∧
      (∀ job ∈ jobs, job.start.toNat + job.size.toNat ≤ length.toNat ∧ 1 ≤ job.size.toNat ∧
        job.size.toNat ≤ max size.toNat 1) ∧
      (jobs.map Job.span).IsChain (fun a b => a.start + a.size = b.start) ∧
      (jobs.map Job.span).Pairwise (fun a b => a.start + a.size ≤ b.start) ∧
      (jobs.map Job.span).flatMap Span.indices = List.range length.toNat := by
  obtain ⟨jobs, hjobs, hspans⟩ := Job.exists_list? hw length size
  refine ⟨jobs, hjobs, hspans, fun job hjob => ?_, ?_⟩
  · have hspan : job.span ∈ spans length.toNat size.toNat :=
      hspans ▸ List.mem_map_of_mem hjob
    exact ⟨le_of_mem_spans hspan, size_of_mem_spans hspan⟩
  · rw [hspans]
    exact ⟨isChain_spans _ _, pairwise_spans _ _, spans_indices _ _⟩

/-- The largest batch that 64 bits can count, in spans that are one shorter: their sum is beyond
any word. -/
theorem spans_partition_largest :
    let length : BitVec 64 := 18446744073709551615
    let size : BitVec 64 := 18446744073709551614
    length.uaddOverflow size = true ∧ ∃ jobs, Job.list? length size = some jobs ∧
      jobs.map Job.span = [⟨0, 18446744073709551614⟩, ⟨18446744073709551614, 1⟩] := by
  intro length size
  obtain ⟨jobs, hjobs, hspans, -⟩ := spans_partition (by decide) length size
  exact ⟨by decide, jobs, hjobs, hspans.trans (by decide)⟩

end Shading
