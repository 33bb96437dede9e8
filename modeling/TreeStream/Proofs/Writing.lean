import TreeStream.Proofs.World

/-!
# The serializer as a relation

The serializer runs in any monad. Run as a relation it says which JSON a value can give and which
rows it issues on the way, in the order of their ids, for all that a world leaves open. Nothing of
a host is left in this reading, so what it says about a row is about the row alone.
-/

namespace TreeStream

variable {κ α β : Type}

/-- A row that a position is deferred to: a segment that will be tried, or an error. -/
inductive Issue (κ : Type) where
  | segment (segment : SegmentId) (id : RowId) (query : Query κ)
  | error (id : RowId) (error : RenderError)

def Issue.id : Issue κ → RowId
  | segment _ id _ => id
  | error id _ => id

/-- The values that a computation can end with, each with the rows issued by then, oldest first. -/
def Writing (κ α : Type) : Type := α → List (Issue κ) → Prop

namespace Writing

instance : Monad (Writing κ) where
  pure a := fun b is => b = a ∧ is = []
  bind w k := fun b is => ∃ a is₁ is₂, w a is₁ ∧ k a b is₂ ∧ is = is₁ ++ is₂

instance : GivesUp (Writing κ) := ⟨fun _ _ => False⟩

def silent (ends : α → Prop) : Writing κ α := fun a is => ends a ∧ is = []

end Writing

/-- A computation that may be refused, as a relation. -/
abbrev Refusable (κ α : Type) := ExceptT RenderError (Writing κ) α

namespace Refusable

variable {w : Refusable κ α} {k : α → Refusable κ β} {is : List (Issue κ)} {e : RenderError}

theorem pure_ok {a b : α} :
    (pure a : Refusable κ α).run (.ok b) is ↔ b = a ∧ is = [] := by
  change (Except.ok b = Except.ok a ∧ is = []) ↔ _
  simp

theorem pure_error {a : α} : ¬ (pure a : Refusable κ α).run (.error e) is := by
  rintro ⟨h, -⟩
  cases h

theorem throw_ok {e' : RenderError} {a : α} :
    ¬ (throw e' : Refusable κ α).run (.ok a) is := by
  rintro ⟨h, -⟩
  cases h

theorem bind_ok {b : β} :
    (w >>= k).run (.ok b) is ↔
      ∃ a is₁ is₂, w.run (.ok a) is₁ ∧ (k a).run (.ok b) is₂ ∧ is = is₁ ++ is₂ := by
  constructor
  · rintro ⟨a, is₁, is₂, hw, hk, his⟩
    cases a with
    | error e => exact absurd hk.1 (by simp)
    | ok a => exact ⟨a, is₁, is₂, hw, hk, his⟩
  · rintro ⟨a, is₁, is₂, hw, hk, his⟩
    exact ⟨.ok a, is₁, is₂, hw, hk, his⟩

/-- A refusal comes from the first part or from what follows it. -/
theorem bind_error :
    (w >>= k).run (.error e) is ↔ w.run (.error e) is ∨
      ∃ a is₁ is₂, w.run (.ok a) is₁ ∧ (k a).run (.error e) is₂ ∧ is = is₁ ++ is₂ := by
  constructor
  · rintro ⟨a, is₁, is₂, hw, hk, his⟩
    cases a with
    | error e' =>
      obtain ⟨he, hnil⟩ := hk
      cases he
      subst hnil
      rw [his, List.append_nil]
      exact .inl hw
    | ok a => exact .inr ⟨a, is₁, is₂, hw, hk, his⟩
  · rintro (hw | ⟨a, is₁, is₂, hw, hk, his⟩)
    · exact ⟨.error e, is, [], hw, ⟨rfl, rfl⟩, (List.append_nil is).symm⟩
    · exact ⟨.ok a, is₁, is₂, hw, hk, his⟩

theorem lift_ok {v : Writing κ α} {a : α} :
    (ExceptT.lift v : Refusable κ α).run (.ok a) is ↔ v a is := by
  constructor
  · rintro ⟨b, is₁, is₂, hv, ⟨hb, hnil⟩, his⟩
    cases hb
    rw [his, hnil, List.append_nil]
    exact hv
  · intro hv
    exact ⟨a, is, [], hv, ⟨rfl, rfl⟩, (List.append_nil is).symm⟩

theorem lift_error {v : Writing κ α} : ¬ (ExceptT.lift v : Refusable κ α).run (.error e) is := by
  rintro ⟨b, is₁, is₂, hv, ⟨hb, -⟩, -⟩
  cases hb

theorem map_ok {f : α → β} {b : β} :
    (f <$> w).run (.ok b) is ↔ ∃ a, w.run (.ok a) is ∧ b = f a := by
  constructor
  · rintro ⟨a, is₁, is₂, hw, hk, his⟩
    cases a with
    | error e => exact absurd hk.1 (by simp)
    | ok a =>
      obtain ⟨hb, hnil⟩ := hk
      cases hb
      rw [his, hnil, List.append_nil]
      exact ⟨a, hw, rfl⟩
  · rintro ⟨a, hw, rfl⟩
    exact ⟨.ok a, is, [], hw, ⟨rfl, rfl⟩, (List.append_nil is).symm⟩

theorem map_error {f : α → β} : (f <$> w).run (.error e) is ↔ w.run (.error e) is := by
  constructor
  · rintro ⟨a, is₁, is₂, hw, hk, his⟩
    cases a with
    | ok a => exact absurd hk.1 (by simp)
    | error e' =>
      obtain ⟨he, hnil⟩ := hk
      cases he
      rw [his, hnil, List.append_nil]
      exact hw
  · intro hw
    exact ⟨.error e, is, [], hw, ⟨rfl, rfl⟩, (List.append_nil is).symm⟩

end Refusable

namespace World

variable (W : World κ)

def effects : CodeEffects κ (Writing κ) where
  render code props ref := .silent (W.render code props ref)
  load code := .silent (W.load code)
  toModel code := .silent (W.toModel code)

/-- The context of a request, as a relation: each deferred position issues one row. -/
def context (modules : ModuleSource κ) (strict : Bool) : SerializerContext κ (Writing κ) where
  suspend query _ := fun id is => ∃ s, is = [.segment s id query]
  emitError e := fun id is => is = [.error id e]
  metadata m := .silent (W.metadata modules m)
  strict := strict
  warn _ := .silent fun _ => True

/-- The outcomes of the serializer on a value, with the rows it issues. -/
def Serializes (modules : ModuleSource κ) (strict : Bool) (depth : Nat) (value : Model κ) :
    Writing κ (Except RenderError String) :=
  (Serializer.serialize W.effects (W.context modules strict) depth value).run

def Resolves (e : Element κ (Model κ)) (outcome : Resolution κ (Model κ)) : Prop :=
  Serializer.resolveElement W.effects e outcome []

def Starts : Query κ → Resolution κ (Model κ) → Prop
  | .model value, outcome => outcome = .ready value
  | .load code, outcome => W.load code outcome

end World

theorem Serializer.resolveRenderable_issues {W : World κ} {key : Option String} {props : Props κ}
    {renderable : Renderable κ (Model κ)} {outcome : Resolution κ (Model κ)}
    {is : List (Issue κ)}
    (h : resolveRenderable W.effects key props renderable outcome is) : is = [] := by
  induction renderable generalizing key with
  | memo inner ih => exact ih h
  | _ => exact h.2

end TreeStream
