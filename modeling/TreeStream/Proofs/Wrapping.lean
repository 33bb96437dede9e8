import TreeStream.Proofs.Reentrance
import TreeStream.Proofs.TwinSessions

/-!
# Wrappers leave no trace

Values may be put into wrappers, or into memos of wrappers, wherever the serializer comes to them:
in models of requests, and in what components, loaders and custom values give. The whole run stays
the same, up to warnings, as long as no value is refused and no pass is nested. A nested pass may
try a segment in the middle of a try, and then it does make a difference: a wrapper around a value
is a layer that the segment keeps, and the value alone is not.
-/

namespace TreeStream

variable {κ σ : Type}

/-- Values may be in wrappers on either side, and warnings, which show them, do not count. -/
def wrapping (start : σ) : Twinning κ σ σ where
  wraps := true
  lax := false
  warned := false
  state _ s s' := s' = s
  spoils e := (∃ r, e = .began r true) ∨
    ∃ r id error, e = .completed r (Row.ofError id error) ∧ error.IsRefusal κ
  inhabited := ⟨start⟩
  unwarned h := absurd h Bool.false_ne_true
  nested _ r := .inl ⟨r, rfl⟩
  refused _ r id e he := .inr ⟨r, id, e, rfl, he⟩

def Event.isCalm : Event → Bool
  | .began _ nested => !nested
  | _ => true

def Event.isSound : Event → Bool
  | .completed _ row => row.kind = .model
  | _ => true

theorem Event.not_sound_of_error {r : RequestId} {id : RowId} {e : RenderError} :
    ¬ (Event.completed r (Row.ofError id e)).isSound = true :=
  Bool.false_ne_true

/-- What is read off the events that count is the same in twins. -/
theorem Host.Twin.filterMap {σ' β : Type} {T : Twinning κ σ σ'} {tried : Tried} {h : Host κ σ}
    {h' : Host κ σ'} (ht : h.Twin T tried h') {f : Event → Option β}
    (hf : ∀ e, T.counts e = false → f e = none) (r : RequestId) :
    (h'.view r).log.reverse.filterMap f = (h.view r).log.reverse.filterMap f := by
  have htold : ∀ log : List Event, (log.filter (Event.isOf r)).filterMap f =
      ((T.told log).filter (Event.isOf r)).filterMap f := by
    intro log
    rw [Twinning.told, List.filterMap_filter, List.filterMap_filter, List.filterMap_filter]
    refine List.filterMap_congr fun e _ => ?_
    cases hc : T.counts e with
    | true => rfl
    | false => simp [hf e hc]
  rw [List.filterMap_reverse, List.filterMap_reverse]
  change ((h'.journal.filter (Event.isOf r)).filterMap f).reverse = _
  rw [htold, ht.journal, ← htold]
  rfl

namespace Host

/-- Wrappers leave no trace. A session is repeated with models that are alike, in requests and from
user code, and its moves are the same otherwise. If no pass was nested and no value refused, then
all runs with a large bound end in a twin, and the consumers of streams receive the same: promises,
queues, segments and what was told are the same, and so are the ids, the completed rows and the rows
handed over. -/
theorem wrappers_traceless {user user' : UserCode κ σ} (hu : user.Alike true user')
    {xs xs' : List (Move κ σ)} (hxs : List.Forall₂ (Move.Alike true) xs xs') {start : σ}
    {outcomes : Array (Outcome κ)} {n : Nat} {received : List (Option Received)} {h : Host κ σ}
    (hrun : moves user n xs (fresh start outcomes) = some (received, h))
    (hnested : ∀ r, h.Unnested r)
    (hsound : ∀ r id reason, .completed r (Row.ofError id (.notSerializable reason)) ∉ h.journal) :
    ∃ N h', (∀ m ≥ N, moves user' m xs' (fresh start outcomes) = some (received, h')) ∧
      h.Twin (wrapping start) (fun _ => none) h' ∧
      ∀ r, h'.issued r = h.issued r ∧ h'.completed r = h.completed r ∧
        h'.handed r = h.handed r := by
  have hstart : (fresh start outcomes).Twin (wrapping start) (fun _ => none)
      (fresh start outcomes) :=
    { promises := rfl, queue := rfl, scheduled := rfl, tasks := rfl, inPass := rfl, size := rfl
      requests := fun r q q' hq => nomatch hq
      state := rfl, journal := rfl }
  have hunspoilt : h.Unspoilt (wrapping start) := by
    rintro e he (⟨r, rfl⟩ | ⟨r, id, error, rfl, herror⟩)
    · exact hnested r he
    · obtain ⟨reason, rfl⟩ := herror.exists_reason
      exact hsound r id reason he
  have hsame : ∀ (P : Array (PromiseCell κ)) s s', (wrapping start).state P s s' ↔ s' = s :=
    fun _ _ _ => Iff.rfl
  obtain ⟨-, hmatch⟩ := Matches.moves hsame hu n hxs hrun
  obtain ⟨N, h', hrun', ht⟩ := hmatch _ hstart hunspoilt
  have hquiet : ∀ {β : Type} {f : Event → Option β}, (∀ r text, f (.warning r text) = none) →
      ∀ e, (wrapping (κ := κ) start).counts e = false → f e = none := by
    intro β f hf e he
    cases e with
    | warning r text => exact hf r text
    | _ => cases he
  exact ⟨N, h', hrun', ht, fun r => ⟨ht.filterMap (hquiet fun _ _ => rfl) r,
    ht.filterMap (hquiet fun _ _ => rfl) r, ht.filterMap (hquiet fun _ _ => rfl) r⟩⟩

end Host

namespace Late

def late : Model Unit :=
  .element { renderable := .function "Late" ⟨(), .empty⟩, key := none, props := .empty }

/-- The array in a memo of a fragment, and the late component in it in a suspense boundary with a
key. -/
def wrapped : Model Unit :=
  let boundary : Element Unit (Model Unit) :=
    { renderable := .wrapper .suspense, key := some "late", props := .ofList [(childrenKey, late)] }
  .element
    { renderable := .memo (.wrapper .fragment), key := none
      props := .ofList [(childrenKey, .array [.element boundary])] }

theorem wrapped_alike : Model.Alike true model wrapped := by
  refine .outside rfl rfl (.array rfl fun p hp => ?_)
  obtain rfl := List.mem_singleton.mp hp
  exact .outside rfl rfl (.refl late)

def moves (model : Model Unit) : List (Move Unit Unit) :=
  [.create settings model, .script whole]

end Late

namespace Host

/-- The late component is rendered in wrappers. -/
theorem wrappers_traceless_late :
    ∃ (h h' : Host Unit Unit) (N : Nat),
      moves Late.user 20 (Late.moves Late.model) (fresh () #[]) = some ([none, none], h) ∧
      (∀ m ≥ N, moves Late.user m (Late.moves Late.wrapped) (fresh () #[]) =
        some ([none, none], h')) ∧
      (∀ r, h.Unnested r) ∧
      (∀ r id reason, .completed r (Row.ofError id (.notSerializable reason)) ∉ h.journal) ∧
      h.Twin (wrapping ()) (fun _ => none) h' ∧
      h'.completed ⟨0⟩ =
        [Row.ofModel (RowId.ofNat 0) "[\"$1\"]", Row.ofModel (RowId.ofNat 1) "\"done\""] := by
  have hplay : (moves Late.user 20 (Late.moves Late.model) (fresh () #[])).any (fun ended =>
      decide (ended.1 = [none, none] ∧ ended.2.journal.all Event.isCalm = true ∧
        ended.2.journal.all Event.isSound = true ∧ ended.2.completed ⟨0⟩ =
          [Row.ofModel (RowId.ofNat 0) "[\"$1\"]", Row.ofModel (RowId.ofNat 1) "\"done\""])) =
        true := by
    decide +kernel
  obtain ⟨⟨received, h⟩, hrun, hend⟩ := (Option.any_eq_true _ _).mp hplay
  obtain ⟨rfl, hcalm, hsound, hrows⟩ := of_decide_eq_true hend
  have hnested : ∀ r, h.Unnested r := fun r hmem => by
    cases List.all_eq_true.mp hcalm _ hmem
  have herrors : ∀ r id reason,
      .completed r (Row.ofError id (.notSerializable reason)) ∉ h.journal := fun r id reason hmem =>
    Event.not_sound_of_error (List.all_eq_true.mp hsound _ hmem)
  have hmoves : List.Forall₂ (Move.Alike true) (Late.moves Late.model)
      (Late.moves Late.wrapped) :=
    .cons (.create Late.settings Late.wrapped_alike) (.cons (.refl _) .nil)
  obtain ⟨N, h', hrun', ht, hsame⟩ :=
    wrappers_traceless (.refl Late.user) hmoves hrun hnested herrors
  exact ⟨h, h', N, hrun, hrun', hnested, herrors, ht, (hsame ⟨0⟩).2.1.trans hrows⟩

end Host

/-! ## A component that has its segment tried again -/

namespace Poking

structure State where
  firsts : Nat := 0
  pokes : Nat := 0
  waiting : List (Callback Bool) := []

def wakeAll {α : Type} (next : Script Bool State α) : Script Bool State α :=
  .get fun s => .put { s with waiting := [] }
    (s.waiting.foldr (fun callback rest => .call (.invoke callback) fun _ => rest) next)

/-- The component that has a pass run when it is rendered first, as the only item of an array. -/
def poke : Model Bool :=
  .array [.element
    { renderable := .function "Poke" ⟨false, .empty⟩, key := none, props := .empty }]

def wrapped : Model Bool :=
  .element { renderable := .wrapper .fragment, key := none, props := .ofList [(childrenKey, poke)] }

/-- The code `true` is a component that waits twice, then gives the value, and a text after that.
The code `false` is the one that wakes all who wait and has a pass run. -/
def user (value : Model Bool) : UserCode Bool State where
  render code _ _ :=
    if code.code then
      .get fun s => .put { s with firsts := s.firsts + 1 } (.done
        (if s.firsts < 2 then .suspended (.custom code)
        else if s.firsts = 2 then .ready value
        else .ready (.string "late")))
    else
      .get fun s => .put { s with pokes := s.pokes + 1 }
        (if s.pokes = 0 then
          wakeAll (.call (.performWork ⟨0⟩) fun _ => .done (.ready (.string "x")))
        else .done (.ready (.string "y")))
  load _ := .done (.ready .null)
  toModel _ := .done .null
  await _ onFulfilled onRejected :=
    .get fun s => .put { s with waiting := s.waiting ++ [onFulfilled, onRejected] } (.done ())
  react _ := .done ()
  metadata _ _ := .done (.ok .null)
  destination _ _ := .done .pass

def settings : RequestSettings Bool where
  modules := .manifest .empty

def model : Model Bool :=
  .element { renderable := .function "First" ⟨true, .empty⟩, key := none, props := .empty }

def moves : List (Move Bool State) :=
  [.create settings model,
    .script (.call (.startWork ⟨0⟩) fun _ => .call .runNext fun _ =>
      wakeAll (.call .runNext fun _ => .done ()))]

theorem wrapped_alike : Model.Alike true poke wrapped :=
  .outside rfl rfl (.refl poke)

theorem user_alike : (user poke).Alike true (user wrapped) where
  render code _ _ := by
    obtain ⟨first, captured⟩ := code
    cases first with
    | false => exact .refl .refl _
    | true =>
      refine .get fun s => .put _ (.done ?_)
      by_cases hfew : s.firsts < 2
      · simp only [if_pos hfew]
        exact .refl _
      · simp only [if_neg hfew]
        split
        · exact .ready wrapped_alike
        · exact .refl _
  load _ := .refl .refl _
  toModel _ := .refl .refl _
  await := rfl
  react := rfl
  metadata := rfl
  destination := rfl

end Poking

namespace Host

/-- A pass is nested while the value of the first component is walked. If the component gave the
value in a fragment, the segment starts there and the other component is rendered once more; if it
gave the value alone, the segment starts from the component. -/
theorem wrapper_seen :
    (Poking.user Poking.poke).Alike true (Poking.user Poking.wrapped) ∧
    ∃ h h' : Host Bool Poking.State,
      moves (Poking.user Poking.poke) 20 Poking.moves (fresh {} #[]) = some ([none, none], h) ∧
      moves (Poking.user Poking.wrapped) 20 Poking.moves (fresh {} #[]) =
        some ([none, none], h') ∧
      (∀ r id reason,
        .completed r (Row.ofError id (.notSerializable reason)) ∉ h.journal ++ h'.journal) ∧
      h.completed ⟨0⟩ =
        [Row.ofModel (RowId.ofNat 0) "\"late\"", Row.ofModel (RowId.ofNat 0) "[\"x\"]"] ∧
      h'.completed ⟨0⟩ =
        [Row.ofModel (RowId.ofNat 0) "[\"y\"]", Row.ofModel (RowId.ofNat 0) "[\"x\"]"] := by
  have hplain : (moves (Poking.user Poking.poke) 20 Poking.moves (fresh {} #[])).any (fun ended =>
      decide (ended.1 = [none, none] ∧ ended.2.journal.all Event.isSound = true ∧
        ended.2.completed ⟨0⟩ = [Row.ofModel (RowId.ofNat 0) "\"late\"",
          Row.ofModel (RowId.ofNat 0) "[\"x\"]"])) = true := by
    decide +kernel
  have hwrapped : (moves (Poking.user Poking.wrapped) 20 Poking.moves (fresh {} #[])).any
      (fun ended => decide (ended.1 = [none, none] ∧ ended.2.journal.all Event.isSound = true ∧
        ended.2.completed ⟨0⟩ = [Row.ofModel (RowId.ofNat 0) "[\"y\"]",
          Row.ofModel (RowId.ofNat 0) "[\"x\"]"])) = true := by
    decide +kernel
  obtain ⟨⟨received, h⟩, hrun, hend⟩ := (Option.any_eq_true _ _).mp hplain
  obtain ⟨⟨received', h'⟩, hrun', hend'⟩ := (Option.any_eq_true _ _).mp hwrapped
  obtain ⟨rfl, hsound, hrows⟩ := of_decide_eq_true hend
  obtain ⟨rfl, hsound', hrows'⟩ := of_decide_eq_true hend'
  refine ⟨Poking.user_alike, h, h', hrun, hrun', fun r id reason hmem => ?_, hrows, hrows'⟩
  rcases List.mem_append.mp hmem with hmem | hmem
  · exact Event.not_sound_of_error (List.all_eq_true.mp hsound _ hmem)
  · exact Event.not_sound_of_error (List.all_eq_true.mp hsound' _ hmem)

end Host
end TreeStream
