import Mathlib.Logic.Function.Basic
import TreeStream.Proofs.Coherence
import TreeStream.Proofs.Effects

/-!
# Actions of the host are turns

At every moment each request is at some point of a course. What the host does to one request is a
turn of that request and invisible to the others; only what happens to a promise is seen by all.
-/

namespace TreeStream

variable {κ σ α : Type}

abbrev Hands (κ : Type) := RequestId → Hand κ

namespace Hands

def set (g : Hands κ) (r : RequestId) (x : Hand κ) : Hands κ := Function.update g r x

@[simp] theorem set_self (g : Hands κ) (r : RequestId) (x : Hand κ) : g.set r x r = x := by
  simp [set]

theorem set_ne (g : Hands κ) {r r' : RequestId} (h : r' ≠ r) (x : Hand κ) :
    g.set r x r' = g r' := by
  simp [set, h]

@[simp] theorem set_set (g : Hands κ) (r : RequestId) (x y : Hand κ) :
    (g.set r x).set r y = g.set r y := by
  simp [set]

@[simp] theorem set_eq_self (g : Hands κ) (r : RequestId) : g.set r (g r) = g := by
  simp [set]

/-- The pings of these callbacks are still to be made. -/
def owe (g : Hands κ) (callbacks : List (Callback κ)) : Hands κ :=
  fun r => { g r with pings := callbacks.filterMap (Callback.ping? r) ++ (g r).pings }

@[simp] theorem owe_nil (g : Hands κ) : g.owe [] = g := rfl

theorem owe_cons (g : Hands κ) (c : Callback κ) (cs : List (Callback κ)) :
    g.owe (c :: cs) = (g.owe cs).owe [c] := by
  funext r
  cases hc : c.ping? r <;> simp [owe, hc]

theorem owe_ping (g : Hands κ) (r : RequestId) (s : SegmentId) :
    g.owe [.ping r s] = g.set r { g r with pings := s :: (g r).pings } := by
  funext r'
  by_cases hr : r' = r
  · subst hr
    simp [owe, Callback.ping?]
  · have hne : ¬ r = r' := fun he => hr he.symm
    simp [owe, Callback.ping?, set_ne g hr, hne]

end Hands

namespace Host

variable {W : World κ} {g : Hands κ} {h h' : Host κ σ} {r : RequestId}
  {x y : Hand κ}

/-- Every request is at some point of a course, with its hand. -/
def At (W : World κ) (g : Hands κ) (h : Host κ σ) : Prop :=
  ∀ r, Course W r (g r) (h.view r)

theorem At.same (ha : At W g h) (hv : ∀ r, h'.view r = h.view r) : At W g h' :=
  fun r => hv r ▸ ha r

theorem At.turn (ha : At W (g.set r x) h) (ht : Turn W r x (h.view r) y (h'.view r))
    (hf : ∀ r' ≠ r, h'.view r' = h.view r') : At W (g.set r y) h' := by
  intro r'
  have hc := ha r'
  by_cases hr : r' = r
  · subst hr
    rw [Hands.set_self] at hc ⊢
    exact hc.turn ht
  · rw [Hands.set_ne g hr] at hc ⊢
    rw [hf r' hr]
    exact hc

theorem At.ghost (ha : At W (g.set r x) h) (ht : Turn W r x (h.view r) y (h.view r)) :
    At W (g.set r y) h :=
  ha.turn ht fun _ _ => rfl

theorem At.keep (ha : At W g h) (ht : Turn W r (g r) (h.view r) (g r) (h'.view r))
    (hf : ∀ r' ≠ r, h'.view r' = h.view r') : At W g h' := by
  rw [← Hands.set_eq_self g r] at ha ⊢
  exact ha.turn ht hf

theorem At.update {q : Request κ} {f : Request κ → Request κ} (ha : At W (g.set r x) h)
    (hq : h.requests[r.index]? = some q)
    (ht : Turn W r x (h.view r) y { h.view r with request := some (f q) }) :
    At W (g.set r y) (h.update r f) :=
  ha.turn (view_update_self hq f ▸ ht) fun _ hr => view_update_ne hr f

theorem At.exists_of_busy (ha : At W (g.set r x) h) (hb : x.Busy) :
    ∃ q, h.requests[r.index]? = some q :=
  (ha r).coherent.present (by rwa [Hands.set_self])

theorem At.inPass (ha : At W g h) (hp : (g r).passes ≠ []) : h.inPass = true :=
  (ha r).coherent.inPass hp

end Host
end TreeStream
