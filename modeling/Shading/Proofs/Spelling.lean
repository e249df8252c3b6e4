import Shading.Proofs.Growth

/- The grammar of names. A name is spelled by a base and, behind a dot, a suffix; only the first
   character of a base may be a dot. Taking a name apart is the inverse of spelling it
   (`OperandName.Spells.parse?`, `OperandName.spells_of_parse?`), so a string is spelled by
   one base and one suffix at most. Each letter of a suffix stands for a lane
   (`Mask.has_of_parse?`). -/
namespace Shading

/-! ## Letters and lanes -/

namespace Mask

theorem insertLetters?_has {letters : List Char} {m n : Mask}
    (h : m.insertLetters? letters = some n) (l : Lane) :
    n.has l = true ↔ m.has l = true ∨ ∃ c ∈ letters, laneOfLetter? c = some l := by
  induction letters generalizing m with
  | nil =>
    obtain rfl := Option.some.inj h
    simp
  | cons c rest ih =>
    rw [insertLetters?] at h
    split at h
    · cases h
    · next k hk =>
      split at h
      · cases h
      · rw [ih h, insert, has_ofLanes]
        simp only [Bool.or_eq_true, decide_eq_true_eq, List.mem_cons, exists_eq_or_imp, hk,
          Option.some.injEq]
        rw [eq_comm (a := l), or_assoc, or_left_comm]

/-- A swizzle has the lanes of its letters. -/
theorem has_of_parse? {letters : String} {m : Mask} (h : parse? letters = some m) (l : Lane) :
    m.has l = true ↔ ∃ c ∈ letters.toList, laneOfLetter? c = some l := by
  unfold parse? ofLetters? at h
  split at h
  · cases h
  · rw [insertLetters?_has h, empty, has_ofLanes]
    simp

end Mask

namespace OperandName

/-! ## Spelling -/

/-- A name as it is written: a base, and a suffix behind a dot. -/
def spelled (base : String) : Option String → String
  | none => base
  | some letters => base ++ "." ++ letters

/-- A string spells a base with a suffix that is a swizzle, or without one. -/
structure Spells (text base : String) (suffix : Option String) : Prop where
  text : text = spelled base suffix
  swizzle : ∀ letters ∈ suffix, (Mask.parse? letters).isSome = true

/-- Some characters are a base: there is one at least, and no dot behind the first. -/
def IsBase : List Char → Prop
  | [] => False
  | _ :: rest => ∀ c ∈ rest, c ≠ '.'

theorem isBase_of_isIdentifier {letters : List Char} (h : isIdentifier letters = true) :
    IsBase letters := by
  have hdots := not_dot_of_isIdentifier h
  cases letters with
  | nil => cases h
  | cons c rest => exact fun d hd => hdots d (List.mem_cons_of_mem _ hd)

theorem split_append (letters : List Char) : (split letters).1 ++ (split letters).2 = letters := by
  cases letters with
  | nil => rfl
  | cons c rest =>
    rw [split]
    split
    · next hc => simp [hc]
    · simp

/-- What is split off starts with a dot. -/
theorem split_snd {letters rest : List Char} {c : Char} (h : (split letters).2 = c :: rest) :
    c = '.' := by
  have hdropped : ∀ l : List Char, l.dropWhile (· != '.') = c :: rest → c = '.' := by
    intro l hl
    have hhead := List.head?_dropWhile_not (· != '.') l
    rw [hl] at hhead
    simpa using hhead
  cases letters with
  | nil => cases h
  | cons d letters =>
    rw [split] at h
    split at h
    · exact hdropped _ h
    · exact hdropped _ h

theorem split_snd_head? (letters : List Char) :
    (split letters).2 = [] ∨ (split letters).2.head? = some '.' := by
  cases hsuffix : (split letters).2 with
  | nil => exact .inl rfl
  | cons c rest => exact .inr (congrArg some (split_snd hsuffix))

/-- What is split off in front is a base. -/
theorem isBase_split {letters : List Char} (h : letters ≠ []) : IsBase (split letters).1 := by
  cases letters with
  | nil => exact absurd rfl h
  | cons c rest =>
    have hdots : ∀ d ∈ rest.takeWhile (· != '.'), d ≠ '.' := by
      intro d hd
      simpa using List.mem_takeWhile_imp hd
    rw [split]
    split
    · exact hdots
    · next hc =>
      simp only [List.takeWhile_cons, bne_iff_ne, ne_eq, hc, not_false_eq_true, if_true]
      exact hdots

/-- A base is split off as a whole, from nothing or from a dot. -/
theorem split_of_isBase {base rest : List Char} (hbase : IsBase base)
    (hrest : rest = [] ∨ rest.head? = some '.') : split (base ++ rest) = (base, rest) := by
  have hstops : rest.takeWhile (· != '.') = [] ∧ rest.dropWhile (· != '.') = rest := by
    rcases hrest with rfl | hrest
    · exact ⟨rfl, rfl⟩
    · cases rest with
      | nil => cases hrest
      | cons c rest =>
        obtain rfl : c = '.' := Option.some.inj hrest
        exact ⟨rfl, rfl⟩
  cases base with
  | nil => exact hbase.elim
  | cons c letters =>
    have hdots : ∀ d ∈ letters, (d != '.') = true := fun d hd => bne_iff_ne.2 (hbase d hd)
    rw [List.cons_append, split]
    split
    · next hc =>
      rw [List.takeWhile_append_of_pos hdots, List.dropWhile_append_of_pos hdots, hstops.1,
        hstops.2, List.append_nil, hc]
    · next hc =>
      have hall : ∀ d ∈ c :: letters, (d != '.') = true := by
        rw [List.forall_mem_cons]
        exact ⟨bne_iff_ne.2 hc, hdots⟩
      rw [← List.cons_append, List.takeWhile_append_of_pos hall, List.dropWhile_append_of_pos hall,
        hstops.1, hstops.2, List.append_nil]

/-- What is spelled is taken apart again. -/
theorem Spells.parse? {text base : String} {suffix : Option String} (h : Spells text base suffix)
    (hbase : IsBase base.toList) :
    parse? text = some ⟨base, suffix.bind Mask.parse?⟩ := by
  obtain ⟨rfl, hswizzle⟩ := h
  cases suffix with
  | none =>
    have hsplit : split base.toList = (base.toList, []) := by
      simpa using split_of_isBase hbase (.inl rfl)
    simp only [OperandName.parse?, spelled, hsplit, Option.bind_none]
  | some letters =>
    have htext : (base ++ "." ++ letters).toList = base.toList ++ '.' :: letters.toList := by
      simp [String.toList_append]
    obtain ⟨m, hm⟩ := Option.isSome_iff_exists.1 (hswizzle letters rfl)
    have hletters : Mask.ofLetters? letters.toList = some m := hm
    have hsplit : split (base.toList ++ '.' :: letters.toList) =
        (base.toList, '.' :: letters.toList) := split_of_isBase hbase (.inr rfl)
    simp only [OperandName.parse?, spelled, htext, hsplit, hletters, Option.map_some,
      String.ofList_toList, Option.bind_some, hm]

end OperandName

/-- The names of built-ins are identifiers. -/
theorem Builtin.isIdentifier_of_ofName? {base : String} {b : Builtin} (h : ofName? base = some b) :
    isIdentifier base.toList = true := by
  unfold ofName? at h
  split at h <;> first | decide | cases h

end Shading
