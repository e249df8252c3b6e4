import Mathlib.Logic.Equiv.Basic
import Shading.Proofs.Spelling

/- Programs under other names. A host may give other names to its variables and uniforms, as long
   as no two get the same one and none that of a built-in (`Respelling`). What it writes then
   has other bases; dots, swizzles and what is no identifier stay as they are
   (`OperandName.parse?_respell`). -/
namespace Shading

/-- Other names for identifiers. No two get the same one, built-ins keep theirs, and no other
identifier gets the name of a built-in. -/
structure Respelling (f : String → String) : Prop where
  identifier : ∀ {name}, isIdentifier name.toList = true → Builtin.ofName? name = none →
    isIdentifier (f name).toList = true ∧ Builtin.ofName? (f name) = none
  builtin : ∀ {name b}, Builtin.ofName? name = some b → f name = name
  injective : ∀ {a b}, isIdentifier a.toList = true → isIdentifier b.toList = true →
    f a = f b → a = b

/-- Two variables may exchange their names. -/
theorem Respelling.exchanging {a b : String} (ha : isIdentifier a.toList = true)
    (hb : isIdentifier b.toList = true) (ha' : Builtin.ofName? a = none)
    (hb' : Builtin.ofName? b = none) : Respelling (Equiv.swap a b) where
  identifier {name} hname hplain := by
    rw [Equiv.swap_apply_def]
    split
    · exact ⟨hb, hb'⟩
    · split
      · exact ⟨ha, ha'⟩
      · exact ⟨hname, hplain⟩
  builtin {name builtin} hname := by
    refine Equiv.swap_apply_of_ne_of_ne ?_ ?_
    · rintro rfl
      rw [ha'] at hname
      cases hname
    · rintro rfl
      rw [hb'] at hname
      cases hname
  injective _ _ h := (Equiv.swap a b).injective h

/-! ## Names as they are written -/

namespace OperandName

section

variable (f : String → String)

/-- Letters under the other name, if they are an identifier. -/
def respellIdentifier (letters : List Char) : List Char :=
  if isIdentifier letters then (f (String.ofList letters)).toList else letters

/-- The letters of a base under the other name, behind the dot if there is one. -/
def respellLetters : List Char → List Char
  | '.' :: letters => '.' :: respellIdentifier f letters
  | letters => respellIdentifier f letters

/-- A base under the other name. -/
def respellBase (base : String) : String := String.ofList (respellLetters f base.toList)

/-- What is written for an operand, with its base under the other name. -/
def respell (text : String) : String :=
  let parts := split text.toList
  String.ofList (respellLetters f parts.1 ++ parts.2)

end

variable {f : String → String} {letters : List Char} {c : Char}

theorem respellLetters_dot : respellLetters f ('.' :: letters) =
    '.' :: respellIdentifier f letters := rfl

theorem respellLetters_of_ne (hc : c ≠ '.') : respellLetters f (c :: letters) =
    respellIdentifier f (c :: letters) := by
  unfold respellLetters
  split
  · next heq => exact absurd (List.cons.inj heq).1 hc
  · rfl

theorem not_isIdentifier_dot : isIdentifier ('.' :: letters) = false := by
  simp [isIdentifier, isIdentifierStart]

/-- Letters stand behind a dot, or there is none in front. -/
theorem dotted_or_plain (letters : List Char) :
    (∃ rest, letters = '.' :: rest) ∨ letters.head? ≠ some '.' := by
  by_cases hdot : letters.head? = some '.'
  · exact .inl (List.head?_eq_some_iff.1 hdot)
  · exact .inr hdot

/-- Without a dot in front a base is respelled as an identifier is. -/
theorem respellLetters_of_head (h : letters.head? ≠ some '.') :
    respellLetters f letters = respellIdentifier f letters := by
  cases letters with
  | nil => rfl
  | cons c rest => exact respellLetters_of_ne fun hc => h (congrArg some hc)

end OperandName

namespace Respelling

variable {f : String → String} (hf : Respelling f)

include hf

open OperandName

theorem isIdentifier {name : String} (h : Shading.isIdentifier name.toList = true) :
    Shading.isIdentifier (f name).toList = true := by
  cases hb : Builtin.ofName? name with
  | none => exact (hf.identifier h hb).1
  | some b => rwa [hf.builtin hb]

theorem isIdentifier_ofList {letters : List Char} (h : Shading.isIdentifier letters = true) :
    Shading.isIdentifier (f (String.ofList letters)).toList = true :=
  hf.isIdentifier (by rwa [String.toList_ofList])

theorem isIdentifier_respellIdentifier (letters : List Char) :
    Shading.isIdentifier (respellIdentifier f letters) = Shading.isIdentifier letters := by
  unfold respellIdentifier
  split
  · next h =>
    rw [h]
    exact hf.isIdentifier_ofList h
  · rfl

theorem respellIdentifier_injective : Function.Injective (respellIdentifier f) := by
  intro a b hab
  have hsame : Shading.isIdentifier a = Shading.isIdentifier b := by
    rw [← hf.isIdentifier_respellIdentifier a, hab, hf.isIdentifier_respellIdentifier]
  unfold respellIdentifier at hab
  rw [hsame] at hab
  split at hab
  · next hb =>
    have hnames := hf.injective (a := String.ofList a) (b := String.ofList b)
      (by rwa [String.toList_ofList, hsame]) (by rwa [String.toList_ofList])
      (String.toList_inj.1 hab)
    exact String.ofList_inj.1 hnames
  · exact hab

theorem head?_respellIdentifier (letters : List Char) :
    (respellIdentifier f letters).head? = some '.' ↔ letters.head? = some '.' := by
  unfold respellIdentifier
  split
  · next h =>
    have hnew := hf.isIdentifier_ofList h
    refine iff_of_false (fun hhead => ?_) fun hhead => ?_
    · exact not_dot_of_isIdentifier hnew _ (List.mem_of_head? hhead) rfl
    · exact not_dot_of_isIdentifier h _ (List.mem_of_head? hhead) rfl
  · rfl

theorem head?_respellLetters (letters : List Char) :
    (respellLetters f letters).head? = some '.' ↔ letters.head? = some '.' := by
  rcases dotted_or_plain letters with ⟨rest, rfl⟩ | hplain
  · exact Iff.rfl
  · rw [respellLetters_of_head hplain, hf.head?_respellIdentifier]

theorem isIdentifier_respellLetters (letters : List Char) :
    Shading.isIdentifier (respellLetters f letters) = Shading.isIdentifier letters := by
  rcases dotted_or_plain letters with ⟨rest, rfl⟩ | hplain
  · rw [respellLetters_dot, not_isIdentifier_dot, not_isIdentifier_dot]
  · rw [respellLetters_of_head hplain, hf.isIdentifier_respellIdentifier]

theorem respellLetters_injective : Function.Injective (respellLetters f) := by
  intro a b hab
  have hsame : a.head? = some '.' ↔ b.head? = some '.' := by
    rw [← hf.head?_respellLetters, hab, hf.head?_respellLetters]
  -- the other name shows whether there was a dot, so the cases do not mix
  rcases dotted_or_plain a with ⟨rest, rfl⟩ | hplain
  · obtain ⟨rest', rfl⟩ := List.head?_eq_some_iff.1 (hsame.1 rfl)
    rw [respellLetters_dot, respellLetters_dot] at hab
    rw [hf.respellIdentifier_injective (List.cons.inj hab).2]
  · rw [respellLetters_of_head hplain, respellLetters_of_head (mt hsame.2 hplain)] at hab
    exact hf.respellIdentifier_injective hab

/-- No dot comes in behind the first character, where a swizzle would start. -/
theorem isBase_respellLetters {letters : List Char} (h : IsBase letters) :
    IsBase (respellLetters f letters) := by
  rcases dotted_or_plain letters with ⟨rest, rfl⟩ | hplain
  · rw [respellLetters_dot, respellIdentifier]
    split
    · next hrest => exact not_dot_of_isIdentifier (hf.isIdentifier_ofList hrest)
    · exact h
  · rw [respellLetters_of_head hplain, respellIdentifier]
    split
    · next hletters => exact isBase_of_isIdentifier (hf.isIdentifier_ofList hletters)
    · exact h

/-! ## Bases -/

theorem respellBase_injective : Function.Injective (respellBase f) := fun _ _ h =>
  String.toList_inj.1 (hf.respellLetters_injective (String.ofList_inj.1 h))

theorem hasDot_respellBase (base : String) : hasDot (respellBase f base) = hasDot base := by
  rw [hasDot, hasDot, Bool.eq_iff_iff, beq_iff_eq, beq_iff_eq, respellBase, String.toList_ofList]
  exact hf.head?_respellLetters _

theorem isIdentifier_respellBase (base : String) :
    Shading.isIdentifier (respellBase f base).toList = Shading.isIdentifier base.toList := by
  rw [respellBase, String.toList_ofList, hf.isIdentifier_respellLetters]

theorem isUniform_respellBase (base : String) :
    isUniform (respellBase f base) = isUniform base := by
  by_cases hdot : hasDot base = true
  · obtain ⟨rest, hrest⟩ := List.head?_eq_some_iff.1 (beq_iff_eq.1 hdot)
    unfold isUniform
    rw [respellBase, String.toList_ofList, hrest, respellLetters_dot]
    exact hf.isIdentifier_respellIdentifier rest
  · have hnot : isUniform base = false := Bool.eq_false_iff.2 (mt Build.hasDot_of_isUniform hdot)
    rw [← hf.hasDot_respellBase] at hdot
    rw [hnot]
    exact Bool.eq_false_iff.2 (mt Build.hasDot_of_isUniform hdot)

omit hf in
theorem respellBase_of_isIdentifier {base : String} (h : Shading.isIdentifier base.toList = true) :
    respellBase f base = f base := by
  have hdot : base.toList.head? ≠ some '.' := fun hhead =>
    not_dot_of_isIdentifier h _ (List.mem_of_head? hhead) rfl
  rw [respellBase, respellLetters_of_head hdot, respellIdentifier, if_pos h, String.ofList_toList,
    String.ofList_toList]

omit hf in
/-- The name of a uniform keeps its dot. -/
theorem respellBase_dotted {name : String} (h : Shading.isIdentifier name.toList = true) :
    respellBase f ("." ++ name) = "." ++ f name := by
  rw [← String.toList_inj, respellBase, String.toList_ofList, toList_dotted, toList_dotted,
    respellLetters_dot, respellIdentifier, if_pos h, String.ofList_toList]

theorem ofName?_respellBase (base : String) :
    Builtin.ofName? (respellBase f base) = Builtin.ofName? base := by
  cases hb : Builtin.ofName? base with
  | some b =>
    rw [respellBase_of_isIdentifier (Builtin.isIdentifier_of_ofName? hb), hf.builtin hb, hb]
  | none =>
    cases hb' : Builtin.ofName? (respellBase f base) with
    | none => rfl
    | some b =>
      -- it would be an identifier then, and so would the base
      have hnew := Builtin.isIdentifier_of_ofName? hb'
      rw [hf.isIdentifier_respellBase] at hnew
      rw [respellBase_of_isIdentifier hnew, (hf.identifier hnew hb).2] at hb'
      cases hb'

/-! ## What is written -/

/-- A name is taken apart where it was. -/
theorem split_respell (text : String) : split (respell f text).toList =
    (respellLetters f (split text.toList).1, (split text.toList).2) := by
  rw [respell, String.toList_ofList]
  cases text.toList with
  | nil => rfl
  | cons c rest =>
    have hbase : IsBase (split (c :: rest)).1 := isBase_split (List.cons_ne_nil c rest)
    exact split_of_isBase (hf.isBase_respellLetters hbase) (split_snd_head? _)

theorem parse?_respell (text : String) : parse? (respell f text) =
    (parse? text).map fun name => ⟨respellBase f name.base, name.mask⟩ := by
  have hsplit := hf.split_respell text
  have happend := split_append text.toList
  unfold parse?
  dsimp only
  rw [hsplit]
  -- without a suffix the base is all that is written
  cases hsuffix : (split text.toList).2 with
  | nil =>
    rw [hsuffix, List.append_nil] at happend
    simp only [Option.map_some, respell, respellBase, hsuffix, happend, List.append_nil]
  | cons c letters =>
    simp only [Option.map_map]
    refine congrArg (Option.map · _) (funext fun m => ?_)
    simp [respellBase]

end Respelling

/-- Names correspond to those under the other names, and slots keep their numbers. -/
def Renaming.respelling {f : String → String} (hf : Respelling f) : Renaming where
  Named name name' := name' = OperandName.respellBase f name
  Written text text' := text' = OperandName.respell f text
  number := id
  eq_iff := by
    rintro a _ a' _ rfl rfl
    exact hf.respellBase_injective.eq_iff.symm
  injective := Function.injective_id
  le_number := Nat.le_refl
  builtin := by
    rintro name _ rfl
    exact hf.ofName?_respellBase name
  hasDot := by
    rintro name _ rfl
    exact hf.hasDot_respellBase name
  isUniform := by
    rintro name _ rfl
    exact hf.isUniform_respellBase name
  isIdentifier := by
    rintro name _ rfl
    exact hf.isIdentifier_respellBase name
  parts := by
    rintro text _ rfl
    rw [hf.parse?_respell]
    cases OperandName.parse? text with
    | none => exact .none
    | some name => exact .some ⟨rfl, rfl⟩

end Shading
