import Mathlib.Data.List.Forall2
import Shading.Proofs.Careful.Lanes
import Shading.Proofs.Spelling

/- The letters of swizzles. Four families of letters name the lanes in order, one of them two
   ways of writing the last lane (`Mask.families`). Some letters are a swizzle if there is
   one at least, each of them names a lane, and no two of them name the same, be they of one
   family or of two (`Mask.IsSwizzle`). Just those are read. What is read depends on the
   lanes that are named and on nothing else, neither on the order of the letters nor on the
   family that each is taken from (`Mask.parse?_congr`).

   There is no bound on the length of what is read, because there are no more than four lanes
   to name. To look at the size of a string beforehand, which is counted in bytes and not in
   letters, turns away nothing that could be read (`Mask.parseSized?_eq`). -/
namespace Shading.Mask

variable {m n : Mask} {c d : Char} {l k : Lane} {letters letters' : List Char}

/-! ## Names of lanes -/

/-- The families of letters, each in the order of the lanes. -/
def families : List (List Char) :=
  [['x', 'y', 'z', 'q'], ['x', 'y', 'z', 'w'], ['r', 'g', 'b', 'a'], ['s', 't', 'p']]

/-- A letter names a lane: it stands at the place of the lane in some family. -/
def Names (c : Char) (l : Lane) : Prop := ∃ family ∈ families, family[l.index]? = some c

instance : Decidable (Names c l) :=
  inferInstanceAs (Decidable (∃ family ∈ families, family[l.index]? = some c))

theorem laneOfLetter?_eq_some_iff : laneOfLetter? c = some l ↔ Names c l := by
  constructor
  · intro h
    unfold laneOfLetter? at h
    split at h <;> cases h <;> decide
  · rintro ⟨family, hfamily, hc⟩
    simp only [families, List.mem_cons, List.not_mem_nil, or_false] at hfamily
    rcases hfamily with rfl | rfl | rfl | rfl <;> cases l <;> cases hc <;> rfl

/-- A letter names one lane at most. -/
theorem Names.unique (h : Names c l) (h' : Names c k) : l = k := by
  rw [← laneOfLetter?_eq_some_iff] at h h'
  exact Option.some.inj (h.symm.trans h')

/-- No lane is named by both of two letters. -/
def Apart (c d : Char) : Prop := ∀ l, Names c l → ¬Names d l

theorem Apart.symm (h : Apart c d) : Apart d c := fun l hd hc => h l hc hd

/-- Two letters name the same lane, or neither names any. -/
def Synonymous (c d : Char) : Prop := ∀ l, Names c l ↔ Names d l

/-- Some letters are a swizzle: there are any, each names a lane, and no two name the same. -/
structure IsSwizzle (letters : List Char) : Prop where
  nonempty : letters ≠ []
  named : ∀ c ∈ letters, ∃ l, Names c l
  apart : letters.Pairwise Apart

/-! ## Letter by letter -/

@[simp] theorem has_empty : empty.has l = false := has_ofLanes _ l

@[simp] theorem has_insert : (m.insert l).has k = (decide (k = l) || m.has k) := has_ofLanes _ k

/-- A lane that is not there yet makes one more. -/
theorem count_insert (h : m.has l = false) : (m.insert l).count = m.count + 1 := by
  have hnot : l ∉ m.lanes := by simp [h]
  have hperm : (m.insert l).lanes.Perm (l :: m.lanes) := by
    refine (List.perm_ext_iff_of_nodup (Careful.nodup_lanes _)
      (List.nodup_cons.2 ⟨hnot, Careful.nodup_lanes m⟩)).2 fun k => ?_
    simp
  exact hperm.length_eq

/-- Letters go into a mask if each names a lane that is not there yet, and no two the same. -/
theorem isSome_insertLetters? : (m.insertLetters? letters).isSome = true ↔
    (∀ c ∈ letters, ∃ l, Names c l ∧ m.has l = false) ∧ letters.Pairwise Apart := by
  induction letters generalizing m with
  | nil => simp [insertLetters?]
  | cons c rest ih =>
    rw [insertLetters?, List.forall_mem_cons, List.pairwise_cons]
    split
    · next hnone =>
      have hnameless : ∀ l, ¬Names c l := fun l hl => by
        rw [← laneOfLetter?_eq_some_iff, hnone] at hl
        cases hl
      simp [hnameless]
    · next l hl =>
      rw [laneOfLetter?_eq_some_iff] at hl
      split
      · next hhas =>
        have hthere : ¬∃ k, Names c k ∧ m.has k = false := by
          rintro ⟨k, hk, hnot⟩
          rw [hl.unique hk, hnot] at hhas
          cases hhas
        simp [hthere]
      · next hhas =>
        have hfresh : ∃ k, Names c k ∧ m.has k = false := ⟨l, hl, Bool.not_eq_true _ ▸ hhas⟩
        -- the rest has to keep clear of the lane of this letter too
        have hrest : (∀ d ∈ rest, ∃ k, Names d k ∧ (m.insert l).has k = false) ↔
            (∀ d ∈ rest, ∃ k, Names d k ∧ m.has k = false) ∧ ∀ d ∈ rest, Apart c d := by
          rw [← forall₂_and]
          refine forall₂_congr fun d _ => ?_
          simp only [has_insert, Bool.or_eq_false_iff, decide_eq_false_iff_not]
          constructor
          · rintro ⟨k, hk, hne, hnot⟩
            exact ⟨⟨k, hk, hnot⟩, fun j hj hd => hne (hk.unique hd ▸ hj.unique hl)⟩
          · rintro ⟨⟨k, hk, hnot⟩, hapart⟩
            exact ⟨k, hk, fun heq => hapart l hl (heq ▸ hk), hnot⟩
        rw [ih, hrest]
        simp only [hfresh, true_and, and_assoc]

theorem count_insertLetters? (h : m.insertLetters? letters = some n) :
    n.count = m.count + letters.length := by
  induction letters generalizing m with
  | nil =>
    obtain rfl := Option.some.inj h
    rfl
  | cons c rest ih =>
    rw [insertLetters?] at h
    split at h
    · cases h
    · split at h
      · cases h
      · next hhas =>
        rw [ih h, count_insert (Bool.not_eq_true _ ▸ hhas), List.length_cons]
        omega

/-! ## What is read -/

theorem ofLetters?_of_ne_nil (h : letters ≠ []) :
    ofLetters? letters = empty.insertLetters? letters := by
  cases letters with
  | nil => exact absurd rfl h
  | cons c rest => rfl

/-- Swizzles are read, and nothing else. -/
theorem isSome_ofLetters? : (ofLetters? letters).isSome = true ↔ IsSwizzle letters := by
  by_cases h : letters = []
  · subst h
    exact ⟨nofun, fun hs => absurd rfl hs.nonempty⟩
  · rw [ofLetters?_of_ne_nil h, isSome_insertLetters?]
    simp only [has_empty, and_true]
    exact ⟨fun ⟨hnamed, hapart⟩ => ⟨h, hnamed, hapart⟩, fun hs => ⟨hs.named, hs.apart⟩⟩

theorem count_ofLetters? (h : ofLetters? letters = some m) : m.count = letters.length := by
  have hne : letters ≠ [] := (isSome_ofLetters?.1 (h ▸ rfl)).nonempty
  rw [ofLetters?_of_ne_nil hne] at h
  rw [count_insertLetters? h]
  exact Nat.zero_add _

variable {text other : String}

theorem mem_lanes_of_parse? (h : parse? text = some m) :
    l ∈ m.lanes ↔ ∃ c ∈ text.toList, Names c l := by
  simp only [mem_lanes, has_of_parse? h, laneOfLetter?_eq_some_iff]

/-- Two strings are read alike if both are swizzles, or neither, and they name the same lanes. -/
theorem parse?_congr (hswizzle : IsSwizzle other.toList ↔ IsSwizzle text.toList)
    (hlanes : ∀ l, (∃ c ∈ other.toList, Names c l) ↔ ∃ c ∈ text.toList, Names c l) :
    parse? other = parse? text := by
  have hsome : (parse? other).isSome = (parse? text).isSome := by
    rw [Bool.eq_iff_iff]
    exact isSome_ofLetters?.trans (hswizzle.trans isSome_ofLetters?.symm)
  match hother : parse? other, htext : parse? text with
  | none, none => rfl
  | none, some _ | some _, none =>
    rw [hother, htext] at hsome
    cases hsome
  | some m, some n =>
    refine congrArg some (ext_has fun l => ?_)
    rw [Bool.eq_iff_iff, ← mem_lanes, ← mem_lanes, mem_lanes_of_parse? hother,
      mem_lanes_of_parse? htext, hlanes]

/-! ## Other ways of writing a swizzle -/

theorem IsSwizzle.perm (h : letters.Perm letters') (hs : IsSwizzle letters) :
    IsSwizzle letters' where
  nonempty hnil := hs.nonempty (List.perm_nil.1 (hnil ▸ h))
  named c hc := hs.named c (h.mem_iff.2 hc)
  apart := (h.pairwise_iff Apart.symm).1 hs.apart

theorem parse?_perm (h : text.toList.Perm other.toList) : parse? other = parse? text :=
  parse?_congr ⟨.perm h.symm, .perm h⟩ fun _ => by simp only [h.mem_iff]

/-- Letters that are replaced by others for the same lanes name the same lanes. -/
theorem exists_names_of_synonymous (h : List.Forall₂ Synonymous letters letters') :
    (∃ c ∈ letters, Names c l) ↔ ∃ d ∈ letters', Names d l := by
  induction h with
  | nil => rfl
  | cons hcd _ ih => simp only [List.exists_mem_cons_iff, hcd l, ih]

theorem IsSwizzle.synonymous (h : List.Forall₂ Synonymous letters letters')
    (hs : IsSwizzle letters) : IsSwizzle letters' := by
  obtain ⟨hne, hnamed, hapart⟩ := hs
  refine ⟨fun hnil => hne (List.forall₂_nil_right_iff.1 (hnil ▸ h)), ?_, ?_⟩
  · clear hne hapart
    induction h with
    | nil => simp
    | cons hcd _ ih =>
      rw [List.forall_mem_cons] at hnamed ⊢
      exact ⟨hnamed.1.imp fun l => (hcd l).1, ih hnamed.2⟩
  · clear hne hnamed
    induction h with
    | nil => exact .nil
    | @cons c d rest rest' hcd hrest ih =>
      rw [List.pairwise_cons] at hapart ⊢
      refine ⟨fun e he l hd hl => ?_, ih hapart.2⟩
      obtain ⟨b, hb, hbl⟩ := (exists_names_of_synonymous hrest).2 ⟨e, he, hl⟩
      exact hapart.1 b hb l ((hcd l).2 hd) hbl

theorem parse?_synonymous (h : List.Forall₂ Synonymous text.toList other.toList) :
    parse? other = parse? text := by
  have hback : List.Forall₂ Synonymous other.toList text.toList :=
    (h.imp fun _ _ hcd l => (hcd l).symm).flip
  exact parse?_congr ⟨.synonymous hback, .synonymous h⟩ fun _ => exists_names_of_synonymous hback

/-! ## Sizes -/

/-- Letters that name lanes take a byte each. -/
theorem utf8ByteSize_of_named (h : ∀ c ∈ letters, ∃ l, Names c l) :
    (String.ofList letters).utf8ByteSize = letters.length := by
  induction letters with
  | nil => rfl
  | cons c rest ih =>
    obtain ⟨⟨l, hl⟩, hrest⟩ := List.forall_mem_cons.1 h
    have hone : (String.ofList [c]).utf8ByteSize = 1 := by
      obtain ⟨family, hfamily, hc⟩ := hl
      revert hc
      simp only [families, List.mem_cons, List.not_mem_nil, or_false] at hfamily
      rcases hfamily with rfl | rfl | rfl | rfl <;> cases l <;> rintro ⟨⟩ <;> rfl
    rw [← List.singleton_append, String.ofList_append, String.utf8ByteSize_append, hone, ih hrest,
      List.length_append, List.length_singleton]

/-- Reads the text of a swizzle after a look at its size in bytes, of which there are at least one
and at most four. -/
def parseSized? (text : String) : Option Mask :=
  if text.utf8ByteSize = 0 ∨ 4 < text.utf8ByteSize then none
  else empty.insertLetters? text.toList

/-- The size turns away nothing that could be read. -/
theorem parseSized?_eq (text : String) : parseSized? text = parse? text := by
  unfold parseSized?
  by_cases hempty : text.toList = []
  · obtain rfl := String.toList_eq_nil_iff.1 hempty
    rfl
  · have hread : parse? text = empty.insertLetters? text.toList := ofLetters?_of_ne_nil hempty
    rw [← hread]
    cases hparse : parse? text with
    | none => exact ite_self none
    | some m =>
      have hswizzle : IsSwizzle text.toList := isSome_ofLetters?.1 (congrArg Option.isSome hparse)
      have hcount : m.count = text.toList.length := count_ofLetters? hparse
      have hsize : text.utf8ByteSize = text.toList.length := by
        rw [← utf8ByteSize_of_named hswizzle.named, String.ofList_toList]
      have hle := m.count_le
      have hpos := List.length_pos_iff.2 hempty
      rw [if_neg (by omega)]

/-- Reading accepts just the swizzles. A string is read as a mask if and only if it has letters,
each of them names a lane, and no two of them name the same; a look at its size in bytes makes
no difference. The mask has the lanes that are named, one for each letter. The letters may be
put in another order, and each may be replaced by another one for its lane, of whichever
family, without a change to what is read. -/
theorem swizzles_parsed (text : String) :
    parseSized? text = parse? text ∧
    ((parse? text).isSome = true ↔ IsSwizzle text.toList) ∧
    (∀ m, parse? text = some m →
      (∀ l, l ∈ m.lanes ↔ ∃ c ∈ text.toList, Names c l) ∧ m.count = text.length) ∧
    (∀ other : String, text.toList.Perm other.toList → parse? other = parse? text) ∧
    ∀ other : String, List.Forall₂ Synonymous text.toList other.toList →
      parse? other = parse? text := by
  refine ⟨parseSized?_eq text, isSome_ofLetters?, fun m hm => ⟨fun l => ?_, ?_⟩,
    fun other => parse?_perm, fun other => parse?_synonymous⟩
  · exact mem_lanes_of_parse? hm
  · rw [← String.length_toList]
    exact count_ofLetters? hm

/-- Letters of three families, out of order and with another letter for the last lane. -/
theorem swizzles_parsed_mixed :
    let m : Mask := ⟨true, false, true, true⟩
    parse? "brw" = some m ∧ m.count = "brw".length ∧ IsSwizzle "brw".toList ∧
      ("brw".toList.Perm "wbr".toList ∧ parse? "wbr" = some m) ∧
      List.Forall₂ Synonymous "brw".toList "pxa".toList ∧ parse? "pxa" = some m := by
  intro m
  obtain ⟨-, hswizzle, hmask, hperm, hsynonymous⟩ := swizzles_parsed "brw"
  have hm : parse? "brw" = some m := by decide +kernel
  have hreordered : "brw".toList.Perm "wbr".toList := by decide +kernel
  have hreplaced : List.Forall₂ Synonymous "brw".toList "pxa".toList :=
    .cons (fun l => by cases l <;> decide) <| .cons (fun l => by cases l <;> decide) <|
    .cons (fun l => by cases l <;> decide) .nil
  exact ⟨hm, (hmask m hm).2, hswizzle.1 (hm ▸ rfl), ⟨hreordered, (hperm _ hreordered).trans hm⟩,
    hreplaced, (hsynonymous _ hreplaced).trans hm⟩

/-- Two letters for one lane are no swizzle, whichever families they are of. -/
example : parse? "sx" = none ∧ parse? "qgaz" = none := by decide +kernel

end Shading.Mask
