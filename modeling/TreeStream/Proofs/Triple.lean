import TreeStream.Proofs.World

/-!
# Partial correctness of host actions

A triple tells what holds after an action that gives a result, if something held before it. Both
may rely on the outcomes of promises at the very end: a promise settles once, so what its outcome
is then it was ever since, and a triple may be read backwards from the end of a run.
-/

namespace TreeStream

variable {κ σ α β : Type}

def PromiseStatus.outcome? : PromiseStatus κ → Option (Outcome κ)
  | .pending => none
  | .settled outcome => some outcome

def outcomeOf (promises : Array (PromiseCell κ)) (p : PromiseId) : Option (Outcome κ) :=
  promises[p.index]?.bind fun cell => cell.status.outcome?

/-- Every outcome is one that the world tells of. -/
def World.Agrees (W : World κ) (h : Host κ σ) : Prop :=
  ∀ p outcome, outcomeOf h.promises p = some outcome → W.fate p outcome

/-- A request that is new in the second host has the origin that the world tells of. -/
def World.Welcomes (W : World κ) (h h' : Host κ σ) : Prop :=
  ∀ r : RequestId, ∀ settings model, h.requests[r.index]? = none →
    h'.requests[r.index]? = some (.ofModel settings model) → W.origin r settings.modules model

namespace Host

/-- What is settled stays settled. -/
def Later (h h' : Host κ σ) : Prop :=
  ∀ p outcome, outcomeOf h.promises p = some outcome → outcomeOf h'.promises p = some outcome

theorem Later.rfl {h : Host κ σ} : h.Later h := fun _ _ ho => ho

theorem Later.trans {h₁ h₂ h₃ : Host κ σ} (h₁₂ : h₁.Later h₂) (h₂₃ : h₂.Later h₃) :
    h₁.Later h₃ :=
  fun p o ho => h₂₃ p o (h₁₂ p o ho)

theorem Later.of_promises_eq {h h' : Host κ σ} (he : h'.promises = h.promises) : h.Later h' := by
  intro p o ho
  rw [he]
  exact ho

end Host

theorem World.Agrees.of_later {W : World κ} {h h' : Host κ σ} (hl : h.Later h')
    (ha : W.Agrees h') : W.Agrees h :=
  fun p o ho => ha p o (hl p o ho)

/-- If the action gives a result, no settled promise has changed; and if the outcomes in the end
are those of the world, `P` before the action implies `Q` after it. -/
def Triple (W : World κ) (P : Host κ σ → Prop) (m : HostM κ σ α) (Q : α → Host κ σ → Prop) :
    Prop :=
  ∀ ⦃h a h'⦄, m h = some (a, h') → h.Later h' ∧ (W.Agrees h' → P h → Q a h')

def Grows (m : HostM κ σ α) : Prop := ∀ ⦃h a h'⦄, m h = some (a, h') → h.Later h'

namespace Triple

variable {W : World κ} {P P' : Host κ σ → Prop} {Q Q' : α → Host κ σ → Prop}
  {R : β → Host κ σ → Prop}

theorem conseq {m : HostM κ σ α} (ht : Triple W P m Q) (hp : ∀ h, P' h → P h)
    (hq : ∀ a h, Q a h → Q' a h) : Triple W P' m Q' := by
  intro h a h' hm
  obtain ⟨hl, hQ⟩ := ht hm
  exact ⟨hl, fun hw hP => hq a h' (hQ hw (hp h hP))⟩

theorem pre {m : HostM κ σ α} (ht : Triple W P m Q) (hp : ∀ h, P' h → P h) :
    Triple W P' m Q :=
  ht.conseq hp fun _ _ hQ => hQ

theorem post {m : HostM κ σ α} (ht : Triple W P m Q) (hq : ∀ a h, Q a h → Q' a h) :
    Triple W P m Q' :=
  ht.conseq (fun _ hP => hP) hq

theorem pure {a : α} (h : ∀ h, P h → Q a h) : Triple W P (Pure.pure a) Q := by
  intro s b s' hm
  cases hm
  exact ⟨.rfl, fun _ hP => h s hP⟩

theorem bind {m : HostM κ σ α} {k : α → HostM κ σ β} (hm : Triple W P m Q)
    (hk : ∀ a, Triple W (Q a) (k a) R) : Triple W P (m >>= k) R := by
  intro h b h'' hrun
  obtain ⟨⟨a, h'⟩, hfirst, hrest⟩ := Option.bind_eq_some_iff.mp hrun
  obtain ⟨hl, hQ⟩ := hm hfirst
  obtain ⟨hl', hR⟩ := hk a hrest
  exact ⟨hl.trans hl', fun hw hP => hR hw (hQ (hw.of_later hl') hP)⟩

theorem map {f : α → β} {m : HostM κ σ α} (hm : Triple W P m fun a => R (f a)) :
    Triple W P (f <$> m) R := by
  intro h b h' hrun
  obtain ⟨⟨a, h₁⟩, hfirst, hrest⟩ := Option.bind_eq_some_iff.mp hrun
  cases hrest
  exact hm hfirst

theorem failure : Triple W P (Alternative.failure : HostM κ σ α) Q := by
  intro h a h' hm
  cases hm

theorem grows {m : HostM κ σ α} (ht : Triple W P m Q) : Grows m := fun _ _ _ hm => (ht hm).1

/-- A fact that the state before the action implies can be assumed. -/
theorem assuming {φ : Prop} {m : HostM κ σ α} (hg : Grows m) (hp : ∀ h, P h → φ)
    (ht : φ → Triple W P m Q) : Triple W P m Q := by
  intro h a h' hm
  exact ⟨hg hm, fun hw hP => (ht (hp h hP) hm).2 hw hP⟩

/-- A witness of what held before the action can be fixed. -/
theorem of_exists {ι : Type} {φ : ι → Prop} {P : ι → Host κ σ → Prop} {m : HostM κ σ α}
    (hg : Grows m) (ht : ∀ i, φ i → Triple W (P i) m Q) :
    Triple W (fun h => ∃ i, φ i ∧ P i h) m Q := by
  intro h a h' hm
  refine ⟨hg hm, ?_⟩
  rintro hw ⟨i, hφ, hP⟩
  exact (ht i hφ hm).2 hw hP

theorem get {Q : Host κ σ → Host κ σ → Prop} (h : ∀ h, P h → Q h h) :
    Triple W P MonadState.get Q := by
  intro s b s' hm
  cases hm
  exact ⟨.rfl, fun _ hP => h s hP⟩

theorem update {Q : Unit → Host κ σ → Prop} {f : Host κ σ → Host κ σ}
    (hf : ∀ h, (f h).promises = h.promises) (h : ∀ h, P h → Q () (f h)) :
    Triple W P (modify f) Q := by
  intro s b s' hm
  cases hm
  exact ⟨.of_promises_eq (hf s), fun _ hP => h s hP⟩

/-- An action whose results are known and that changes no promise. -/
theorem of_run {m : HostM κ σ α}
    (hrun : ∀ ⦃h a h'⦄, m h = some (a, h') → h'.promises = h.promises ∧ (P h → Q a h')) :
    Triple W P m Q := by
  intro h a h' hm
  obtain ⟨hp, hQ⟩ := hrun hm
  exact ⟨.of_promises_eq hp, fun _ => hQ⟩

theorem forM {I : List α → Host κ σ → Prop} {f : α → HostM κ σ Unit}
    (hf : ∀ x xs, Triple W (I (x :: xs)) (f x) fun _ => I xs) (xs : List α) :
    Triple W (I xs) (xs.forM f) fun _ => I [] := by
  induction xs with
  | nil => exact pure fun _ hI => hI
  | cons x xs ih => exact (hf x xs).bind fun _ => ih

end Triple
end TreeStream
