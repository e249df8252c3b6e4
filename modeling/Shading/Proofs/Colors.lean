import Shading.Proofs.Endings

/- The color of a run. An operation that fits its program stores in its destination exactly
   if each of its sources has a value (`Operation.target?`), and a fragment gets its output
   tag by nothing else than storing in one of its two colors. So after some fetches the
   tag is that of the last of them that stored a color, and as it was at first if none
   did (`Program.Reaches.output`). -/
namespace Shading

variable {ι : Type} [Invocation ι] {p : Program}

/-! ## Where an operation stores -/

/-- Whether each of some sources that are read one after the other has a value. -/
def Source.allRead (p : Program) : List Source → State ι → Bool
  | [], _ => true
  | src :: rest, s => (src.read p s).1.isSome && allRead p rest (src.read p s).2

/-- The place in which an operation stores, if it stores: each of its sources has to have a
value. -/
def Operation.target? (p : Program) (o : Operation) (s : State ι) : Option Place :=
  if Source.allRead p o.sources s then o.destination?.map Reference.place else none

/-- The second state has the invocation of the first with something stored in a place, or
that same invocation if the place is none or a slot. -/
def State.StoredIn (s t : State ι) (place : Option Place) : Prop :=
  ∃ value, t.invocation =
    match place with
    | some (.builtin b) => Invocation.store s.invocation b value
    | some (.slot _) | none => s.invocation

namespace State.StoredIn

variable {s s' t : State ι} {place : Option Place}

theorem update (s : State ι) (place : Place) (g : Value → Value) :
    s.StoredIn (s.update place g) (some place) := by
  cases place with
  | builtin b => exact ⟨_, rfl⟩
  | slot i => exact ⟨default, rfl⟩

theorem none_of_eq (h : t.invocation = s.invocation) : s.StoredIn t none := ⟨default, h⟩

theorem after (h : s'.StoredIn t place) (hs : s'.invocation = s.invocation) :
    s.StoredIn t place := by
  obtain ⟨value, ht⟩ := h
  exact ⟨value, by rw [ht, hs]⟩

end State.StoredIn

theorem Source.read_eq (src : Source) (s : State ι) :
    ∃ value s', src.read p s = (value, s') ∧ s'.invocation = s.invocation :=
  ⟨_, _, rfl, src.read_invocation s⟩

/-- A source without a value ends an operation, and one with a value lets it go on. -/
theorem Source.andThen_storedIn {src : Source} {s : State ι} (rest : List Source)
    {use : Operand → State ι → State ι} {place : Place}
    (huse : ∀ value (s' : State ι), s'.StoredIn (use value s')
      (if allRead p rest s' then some place else none)) :
    s.StoredIn (src.andThen p s use) (if allRead p (src :: rest) s then some place else none) := by
  obtain ⟨value, s', hread, hs'⟩ := src.read_eq (p := p) s
  unfold Source.andThen Source.allRead
  rw [hread]
  cases value with
  | none => exact .none_of_eq hs'
  | some value => exact (huse value s').after hs'

/-- A function with as many sources as it takes has a value. -/
theorem Operation.storeCall_eq {f : MathFunction} (second : Option Operand)
    (h : second.isSome = true ↔ f.arity = 2) (dst : Reference) (a : Operand) (s : State ι) :
    ∃ g, storeCall f dst a second s = s.update dst.place g := by
  cases f with
  | unary g | normalize | length =>
    simp only [storeCall, MathFunction.evaluate]
    exact ⟨_, rfl⟩
  | binary g | clamp | distance | dot | cross =>
    obtain ⟨b, rfl⟩ := Option.isSome_iff_exists.1 (h.2 rfl)
    simp only [storeCall, MathFunction.evaluate]
    exact ⟨_, rfl⟩

/-- An operation that fits its program stores in its destination exactly if each of its
sources has a value. -/
theorem Operation.run_storedIn {o : Operation} (ho : o.Fits p) (s : State ι) :
    s.StoredIn (o.run p s) (o.target? p s) := by
  cases o with
  | arith op dst src | convert model dst src =>
    exact Source.andThen_storedIn [] fun value s' => .update s' dst.place _
  | transform id dst =>
    have hid : id < p.matrices.size := ho.2
    have hmatrix : p.matrix? id = some p.matrices[id].resource := by
      simp [Program.matrix?, hid]
    simp only [run, hmatrix]
    exact .update s dst.place _
  | sample id model dst coords =>
    have hid : id < p.textures.size := ho.2.1
    have htexture : p.texture? id = some p.textures[id].resource := by
      simp [Program.texture?, hid]
    simp only [run, htexture]
    exact Source.andThen_storedIn [] fun value s' => .update s' dst.place _
  | call f dst src second =>
    obtain ⟨-, -, harity, -⟩ := ho
    cases second with
    | none =>
      refine Source.andThen_storedIn [] fun a s' => ?_
      obtain ⟨g, hg⟩ := storeCall_eq none (by simpa using harity) dst a s'
      rw [hg]
      exact .update s' dst.place g
    | some src' =>
      refine Source.andThen_storedIn [src'] fun a s' => ?_
      refine Source.andThen_storedIn [] fun b s'' => ?_
      obtain ⟨g, hg⟩ := storeCall_eq (some b) (by simpa using harity) dst a s''
      rw [hg]
      exact .update s'' dst.place g
  | compare cmp dst lhs rhs =>
    obtain ⟨a, s', hlhs, hs'⟩ := lhs.read_eq (p := p) s
    obtain ⟨b, s'', hrhs, hs''⟩ := rhs.read_eq (p := p) s'
    have hread : s''.invocation = s.invocation := hs''.trans hs'
    simp only [run, target?, sources, Source.allRead, hlhs, hrhs]
    cases a with
    | none => exact .none_of_eq hread
    | some a =>
      cases b with
      | none => exact .none_of_eq hread
      | some b => exact (State.StoredIn.update s'' dst.place _).after hread
  | print src =>
    obtain ⟨value, s', hread, hs'⟩ := src.read_eq (p := p) s
    have hnone : (print src).target? p s = none := by simp [target?, destination?]
    simp only [run, hread, hnone]
    exact .none_of_eq hs'

/-! ## The output tag -/

/-- The color model in which a built-in is a color of the fragment, if it is one. -/
def Builtin.tag? : Builtin → Option OutputTag
  | .rgbColor => some .rgb
  | .yuvColor => some .yuv
  | _ => none

/-- The color model in which a place is a color of the fragment, if it is one. -/
def Place.tag? : Place → Option OutputTag
  | .builtin b => b.tag?
  | .slot _ => none

theorem Place.tag?_ne_invalid {place : Place} {tag : OutputTag} (h : place.tag? = some tag) :
    tag ≠ .invalid := by
  rintro rfl
  cases place with
  | builtin b => cases b <;> cases h
  | slot i => cases h

theorem Fragment.store_output (f : Fragment) (b : Builtin) (value : Value) :
    (f.store b value).output = b.tag?.getD f.output := by
  cases b <;> rfl

theorem State.StoredIn.output {s t : State Fragment} {place : Option Place}
    (h : s.StoredIn t place) :
    t.invocation.output = (place.bind Place.tag?).getD s.invocation.output := by
  obtain ⟨value, ht⟩ := h
  rw [ht]
  cases place with
  | none => rfl
  | some place =>
    cases place with
    | builtin b => exact s.invocation.store_output b value
    | slot i => rfl

/-- The color model in which an operation stores a color of the fragment, if it does. -/
def Operation.tag? (p : Program) (o : Operation) (s : State Fragment) : Option OutputTag :=
  (o.target? p s).bind Place.tag?

/-- The color model in which the next fetch stores a color of the fragment, if it does:
it has to execute an operation, not skip it. -/
def Cursor.tag? (p : Program) (c : Cursor Fragment) : Option OutputTag :=
  match p.instructions[c.position]? with
  | some (.operation o) => if c.nesting.isSkipping then none else o.tag? p c.state
  | _ => none

theorem Cursor.tag?_ne_invalid {c : Cursor Fragment} {tag : OutputTag}
    (h : c.tag? p = some tag) : tag ≠ .invalid := by
  unfold Cursor.tag? at h
  split at h
  · split at h
    · cases h
    · obtain ⟨place, -, hplace⟩ := Option.bind_eq_some_iff.1 h
      exact Place.tag?_ne_invalid hplace
  · cases h

namespace Program

theorem test_invocation (cond : Condition) (s : State ι) :
    (cond.test p s).2.invocation = s.invocation := by
  rw [Condition.test_state, Source.read_invocation]

/-- A step executes an operation, or it leaves the invocation as it is. -/
theorem advance_invocation {c d : Cursor ι} {ins : Instruction} (h : p.advance ins c = .next d) :
    (∃ o, ins = .operation o ∧ c.nesting.isSkipping = false ∧ d.state = o.run p c.state) ∨
      ((∀ o, ins = .operation o → c.nesting.isSkipping = true) ∧
        d.state.invocation = c.state.invocation) := by
  cases ins with
  | operation o =>
    simp only [advance] at h
    split at h
    · next hskip =>
      cases h
      exact .inr ⟨fun _ _ => hskip, rfl⟩
    · next hrun =>
      cases h
      exact .inl ⟨o, rfl, eq_false_of_ne_true hrun, rfl⟩
  | ifThen cond =>
    simp only [advance] at h
    refine .inr ⟨by simp, ?_⟩
    split at h <;> cases h
    · rfl
    · exact test_invocation cond c.state
  | elseIf cond =>
    simp only [advance] at h
    refine .inr ⟨by simp, ?_⟩
    split at h
    · cases h
      rfl
    · split at h <;> cases h
      · exact test_invocation cond c.state
      · rfl
  | otherwise | goto _ =>
    simp only [advance] at h
    refine .inr ⟨by simp, ?_⟩
    split at h
    · cases h
      rfl
    · split at h <;> cases h <;> rfl
  | endIf =>
    cases h
    exact .inr ⟨by simp, rfl⟩
  | discard =>
    simp only [advance] at h
    split at h <;> cases h
    exact .inr ⟨by simp, rfl⟩

section

variable (hfits : ∀ ins ∈ p.instructions, ins.Fits p)

include hfits

/-- A fetch that stores a color gives its tag to the fragment, and any other keeps the tag. -/
theorem advance_output {c d : Cursor Fragment} {ins : Instruction}
    (hins : p.instructions[c.position]? = some ins) (hadv : p.advance ins c = .next d) :
    d.state.invocation.output = (c.tag? p).getD c.state.invocation.output := by
  rcases advance_invocation hadv with ⟨o, rfl, hrun, hstate⟩ | ⟨hskip, hsame⟩
  · have ho : o.Fits p := hfits _ (Array.mem_of_getElem? hins)
    simp only [Cursor.tag?, hins, hrun, Bool.false_eq_true, if_false, hstate, Operation.tag?]
    exact (o.run_storedIn ho c.state).output
  · have hnone : c.tag? p = none := by
      unfold Cursor.tag?
      split
      · next o ho =>
        rw [if_pos (hskip o (Option.some.inj (hins.symm.trans ho)))]
      · rfl
    rw [hsame, hnone]
    rfl

end

/-! ## The last color -/

theorem Reaches.unique {n : Nat} {c d e : Cursor ι} (h : p.Reaches n c d) (h' : p.Reaches n c e) :
    d = e := by
  induction h generalizing e with
  | refl c =>
    cases h'
    rfl
  | step _ hins hadv ih =>
    cases h' with
    | step hreach' hins' hadv' =>
      obtain rfl := ih hreach'
      cases hins.symm.trans hins'
      cases hadv.symm.trans hadv'
      rfl

/-- On the way to a point the machine came through a fetch for each smaller number. -/
theorem Reaches.before {n m : Nat} {c e : Cursor ι} (h : p.Reaches m c e) (hn : n < m) :
    ∃ d ins, p.Reaches n c d ∧ p.instructions[d.position]? = some ins := by
  induction h with
  | refl c => exact absurd hn (Nat.not_lt_zero n)
  | @step m _ d _ ins hreach hins hadv ih =>
    rcases Nat.lt_succ_iff_lt_or_eq.1 hn with hlt | rfl
    · exact ih hlt
    · exact ⟨d, ins, hreach, hins⟩

/-- No color is stored by the fetches of a run from `n` on, as far as `m`. -/
def NoColor (p : Program) (c : Cursor Fragment) (n m : Nat) : Prop :=
  ∀ k d, n ≤ k → k < m → p.Reaches k c d → d.tag? p = none

/-- After some fetches a fragment has the tag of the last one that stored a color, or its
first one if none did. -/
theorem Reaches.output (hfits : ∀ ins ∈ p.instructions, ins.Fits p) {n : Nat}
    {c d : Cursor Fragment} (h : p.Reaches n c d) :
    (d.state.invocation.output = c.state.invocation.output ∧ p.NoColor c 0 n) ∨
      ∃ m e, m < n ∧ p.Reaches m c e ∧ e.tag? p = some d.state.invocation.output ∧
        p.NoColor c (m + 1) n := by
  induction h with
  | refl c => exact .inl ⟨rfl, fun _ _ _ hk => absurd hk (Nat.not_lt_zero _)⟩
  | @step n c d e ins hreach hins hadv ih =>
    have hlater := advance_output hfits hins hadv
    cases htag : d.tag? p with
    | some tag =>
      rw [htag] at hlater
      exact .inr ⟨n, d, Nat.lt_succ_self n, hreach, by rw [htag, hlater]; rfl,
        fun k _ hle hlt => absurd hlt (Nat.not_lt.2 hle)⟩
    | none =>
      rw [htag, Option.getD_none] at hlater
      -- this fetch stores no color either
      have hextend {m : Nat} (h : p.NoColor c m n) : p.NoColor c m (n + 1) := by
        intro k d' hle hlt hreach'
        rcases Nat.lt_succ_iff_lt_or_eq.1 hlt with hlt | rfl
        · exact h k d' hle hlt hreach'
        · rw [hreach'.unique hreach, htag]
      rcases ih with ⟨hkept, hnone⟩ | ⟨m, e', hm, hreach', htag', hnone⟩
      · exact .inl ⟨hlater.trans hkept, hextend hnone⟩
      · exact .inr ⟨m, e', Nat.lt_succ_of_lt hm, hreach', by rw [hlater, htag'], hextend hnone⟩

end Program

end Shading
