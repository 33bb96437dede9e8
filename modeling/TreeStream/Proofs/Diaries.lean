import TreeStream.Proofs.TwinCalls

/-!
# Diaries

A user may keep a diary of the calls that are made, beside the state that scripts read and replace.
No script sees it, so runs with a diary are twins of the runs without one. Calls are entered in the
order in which they began, each with the calls that were made directly while it was answered.
-/

namespace TreeStream

variable {κ σ α : Type}

/-- A call that was answered, and the calls that were made directly meanwhile. -/
structure Made (κ : Type) where
  call : HostCall κ
  reply : call.Reply
  inner : List (HostCall κ)

/-- All calls that were made, and those that were made directly. -/
structure Diary (κ : Type) where
  log : List (Made κ) := []
  direct : List (HostCall κ) := []

/-- A call is entered before those that were made while it was answered. -/
def Diary.enter (outer : Diary κ) (c : HostCall κ) (reply : c.Reply) (inner : Diary κ) :
    Diary κ where
  log := outer.log ++ ⟨c, reply, inner.direct⟩ :: inner.log
  direct := outer.direct ++ [c]

/-- The same script for a user who keeps a diary. -/
def Script.kept : Script κ σ α → Script κ (σ × Diary κ) α
  | done a => done a
  | get next => get fun s => (next s.1).kept
  | put s next => get fun p => put (s, p.2) next.kept
  | call c next => call c fun reply => (next reply).kept

def UserCode.kept (user : UserCode κ σ) : UserCode κ (σ × Diary κ) where
  render code props ref := (user.render code props ref).kept
  load code := (user.load code).kept
  toModel code := (user.toModel code).kept
  await code onFulfilled onRejected := (user.await code onFulfilled onRejected).kept
  react code := (user.react code).kept
  metadata code m := (user.metadata code m).kept
  destination code c := (user.destination code c).kept

namespace Host

def keep (h : Host κ σ) (diary : Diary κ) : Host κ (σ × Diary κ) := h.withUser (h.user, diary)

def setDiary (diary : Diary κ) : HostM κ (σ × Diary κ) Unit :=
  modify fun h => { h with user := (h.user.1, diary) }

/-- Answers calls as they are performed, and enters them. -/
def watch (user : UserCode κ σ) : Nat → (c : HostCall κ) → HostM κ (σ × Diary κ) c.Reply
  | 0, _ => failure
  | n + 1, c => do
    let outer := (← get).user.2
    setDiary {}
    let reply ← answer user.kept n (watch user n) c
    setDiary (outer.enter c reply (← get).user.2)
    pure reply

variable {user : UserCode κ σ}

/-- The answer is found with an empty diary. -/
theorem run_watch (n : Nat) (c : HostCall κ) (h : Host κ (σ × Diary κ)) :
    watch user (n + 1) c h =
      (answer user.kept n (watch user n) c (h.withUser (h.user.1, {}))).map fun p =>
        (p.1, p.2.withUser (p.2.user.1, h.user.2.enter c p.1 p.2.user.2)) :=
  (Option.map_eq_bind (f := _)).symm

end Host

namespace Mirrors

open Host

variable {T : Twinning κ σ (σ × Diary κ)} {calls : RequestId → Nat} {tried : Tried}
  {user : UserCode κ σ} {call : (c : HostCall κ) → HostM κ σ c.Reply}
  {call' : Nat → (c : HostCall κ) → HostM κ (σ × Diary κ) c.Reply}
  (hread : ∀ P s s', T.state P s s' → s'.1 = s)
  (hwrite : ∀ P s s' t, T.state P s s' → T.state P t (t, s'.2))
include hread hwrite

theorem kept (hcall : ∀ c, Tracks T calls tried Eq (call c) fun n => call' n c)
    (x : Script κ σ α) : Tracks T calls tried Eq (x.run call) fun n => x.kept.run (call' n) := by
  induction x with
  | done a => exact pure rfl
  | get next ih => exact reading Prod.fst hread ih
  | put s next ih =>
    intro h a h₁ hrun
    obtain ⟨hsteady, hmatch⟩ := ih { h with user := s } hrun
    refine ⟨⟨hsteady.journal, hsteady.running⟩, fun h' ht hb hu => ?_⟩
    exact hmatch { h' with user := (s, h'.user.2) } { ht with state := hwrite _ _ _ s ht.state }
      hb hu
  | call c next ih => exact bind_eq (hcall c) ih

theorem users_kept (hcall : ∀ {calls tried}, Legal T calls tried → ∀ c,
      Tracks T calls tried Eq (call c) fun n => call' n c) :
    TwinUsers T user user.kept call call' := by
  have hscript : ∀ {calls tried}, Legal T calls tried → ∀ {β : Type} (x : Script κ σ β),
      Tracks T calls tried Eq (x.run call) fun n => x.kept.run (call' n) :=
    fun hl _ x => kept hread hwrite (hcall hl) x
  exact
    { asks := hcall
      render := fun hl _ _ _ => (hscript hl _).mono fun _ _ h => h ▸ .refl _
      load := fun hl _ => (hscript hl _).mono fun _ _ h => h ▸ .refl _
      toModel := fun hl _ => (hscript hl _).mono fun _ _ h => h ▸ .refl _
      await := fun hl _ _ _ => hscript hl _
      react := fun hl _ => hscript hl _
      metadata := fun hl _ _ => hscript hl _
      destination := fun hl _ _ => hscript hl _ }

end Mirrors
end TreeStream
