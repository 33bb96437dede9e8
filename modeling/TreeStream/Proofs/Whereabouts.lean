import TreeStream.Proofs.Nesting

/-!
# No segment is lost

Where every thenable is a promise, a segment is in one place at any time: completed, pinged, with a
pass, on its way to a promise or from one, or registered with one promise that is pending. This
takes no assumption on nested passes. It ends when nothing keeps the request alive any more.
-/

namespace TreeStream

variable {κ : Type} {W : World κ} {r : RequestId} {g g' : Hand κ} {v v' : View κ}

/-! ## Reactions -/

def Reaction.waits (r : RequestId) (s : SegmentId) (reaction : Reaction κ) : Bool :=
  reaction.onFulfilled.ping? r = some s && reaction.onRejected.ping? r = some s

/-- A reaction either has nothing to do with a request or is that of a segment that waits. -/
def Reaction.Kept (r : RequestId) (reaction : Reaction κ) : Prop :=
  reaction.Foreign r ∨ ∃ s, reaction = .ofWaiting r s

def PromiseStatus.isPending : PromiseStatus κ → Bool
  | .pending => true
  | .settled _ => false

/-- How often a segment is registered with a promise that is pending. -/
def PromiseCell.registrations (r : RequestId) (s : SegmentId) (cell : PromiseCell κ) : Nat :=
  if cell.status.isPending then cell.reactions.countP (Reaction.waits r s) else 0

def registrations (r : RequestId) (s : SegmentId) (promises : Array (PromiseCell κ)) : Nat :=
  (promises.toList.map (PromiseCell.registrations r s)).sum

theorem Reaction.waits_ofWaiting (r : RequestId) (s s' : SegmentId) :
    (Reaction.ofWaiting r s : Reaction κ).waits r s' = (s == s') := by
  simp [waits, ofWaiting, Callback.ping?, BEq.beq]

theorem Reaction.Foreign.waits {reaction : Reaction κ} (h : reaction.Foreign r) (s : SegmentId) :
    reaction.waits r s = false := by
  simp [Reaction.waits, h.1]

/-- Settling a promise turns its registrations into pings. -/
theorem count_pingsOf {reactions : List (Reaction κ)} (h : ∀ reaction ∈ reactions, reaction.Kept r)
    (outcome : Outcome κ) (s : SegmentId) :
    (pingsOf r reactions outcome).count s = reactions.countP (Reaction.waits r s) := by
  induction reactions with
  | nil => rfl
  | cons reaction rest ih =>
    have ih := ih fun reaction hmem => h reaction (List.mem_cons_of_mem _ hmem)
    rw [pingsOf] at ih ⊢
    rcases h reaction List.mem_cons_self with hforeign | ⟨s', rfl⟩
    · have hnone : (Host.Reaction.pick reaction outcome).ping? r = none := by
        cases outcome
        · exact hforeign.2
        · exact hforeign.1
      rw [List.map_cons, List.filterMap_cons, hnone, List.countP_cons, hforeign.waits s, ih]
      simp
    · have hsome : (Host.Reaction.pick (Reaction.ofWaiting r s' : Reaction κ) outcome).ping? r =
          some s' := by
        cases outcome <;> simp [Host.Reaction.pick, Reaction.ofWaiting, Callback.ping?]
      rw [List.map_cons, List.filterMap_cons, hsome, List.countP_cons, Reaction.waits_ofWaiting,
        List.count_cons, ih]

theorem registrations_modify {promises : Array (PromiseCell κ)} {p : Nat} {cell : PromiseCell κ}
    (hp : promises[p]? = some cell) (f : PromiseCell κ → PromiseCell κ) (s : SegmentId) :
    registrations r s (promises.modify p f) + cell.registrations r s =
      registrations r s promises + (f cell).registrations r s := by
  obtain ⟨hi, hget⟩ := Array.getElem?_eq_some_iff.mp hp
  obtain ⟨before, cell', after, hl, hlen, hm⟩ := List.exists_of_modify f
    (show p < promises.toList.length by simpa using hi)
  obtain rfl : cell' = cell := by
    rw [← Array.getElem?_toList, hl, ← hlen] at hp
    simpa using hp
  rw [registrations, registrations, Array.toList_modify, hm, hl]
  simp only [List.map_append, List.map_cons, List.sum_append, List.sum_cons]
  omega

theorem registrations_push (promises : Array (PromiseCell κ)) (s : SegmentId) :
    registrations r s (promises.push {}) = registrations r s promises := by
  simp [registrations, PromiseCell.registrations]

/-- Where scripts name no pings, reactions are of the two kinds. -/
theorem Course.kept (h : Course W r g v) (hfree : ¬ W.Free) {cell : PromiseCell κ}
    (hcell : cell ∈ v.promises) {reaction : Reaction κ} (hr : reaction ∈ cell.reactions) :
    reaction.Kept r := by
  have hmodify : ∀ {promises : Array (PromiseCell κ)} {p : Nat} {f : PromiseCell κ → PromiseCell κ},
      (∀ cell ∈ promises, ∀ reaction ∈ cell.reactions, reaction.Kept r) →
      (∀ cell ∈ promises, ∀ reaction ∈ (f cell).reactions, reaction.Kept r) →
      ∀ cell ∈ promises.modify p f, ∀ reaction ∈ cell.reactions, reaction.Kept r := by
    intro promises p f hold hnew cell hcell
    obtain ⟨i, hi⟩ := Array.getElem?_of_mem hcell
    rw [Array.getElem?_modify] at hi
    split at hi
    · obtain ⟨cell₀, hcell₀, rfl⟩ := Option.map_eq_some_iff.mp hi
      exact hnew cell₀ (Array.mem_of_getElem? hcell₀)
    · exact hold cell (Array.mem_of_getElem? hi)
  suffices hall : ∀ cell ∈ v.promises, ∀ reaction ∈ cell.reactions, reaction.Kept r from
    hall cell hcell reaction hr
  clear hcell hr
  induction h with
  | start hstart =>
    intro cell hcell reaction hr
    rw [(hstart cell hcell).1] at hr
    cases hr
  | turn hc ht ih =>
    cases ht with
    | ambient h =>
      cases h with
      | newPromise =>
        intro cell hcell
        rcases Array.mem_push.mp hcell with hcell | rfl
        · exact ih cell hcell
        · exact fun reaction hr => nomatch hr
      | settle outcome =>
        exact hmodify (f := fun _ => { status := .settled outcome, reactions := [] }) ih
          fun cell _ reaction hr => (nomatch hr)
      | @subscribe p cell reaction hp hs hforeign =>
        refine hmodify (f := fun cell => { cell with reactions := cell.reactions ++ [reaction] }) ih
          fun cell hcell reaction hr => ?_
        rcases List.mem_append.mp hr with hr | hr
        · exact ih cell hcell reaction hr
        · cases List.mem_singleton.mp hr
          exact .inl (hforeign.resolve_left hfree)
      | @register p cell s hp hs =>
        refine hmodify
          (f := fun cell => { cell with reactions := cell.reactions ++ [Reaction.ofWaiting r s] }) ih
          fun cell hcell reaction hr => ?_
        rcases List.mem_append.mp hr with hr | hr
        · exact ih cell hcell reaction hr
        · cases List.mem_singleton.mp hr
          exact .inr ⟨_, rfl⟩
      | _ => exact ih
    | visit h => cases h <;> exact ih
    | flushing h => cases h <;> exact ih
    | working h => cases h <;> exact ih

/-! ## Places -/

def completedIn (segments : Array (Segment κ)) (s : SegmentId) : Bool :=
  segments[s.index]?.any Segment.completed

def PassState.tries (b : PassState κ) : List SegmentId :=
  b.attempt.toList.map Attempt.segment ++ b.batch

/-- How often a segment of a request that is there is in the places where segments can be. -/
def Request.places (q : Request κ) (s : SegmentId) : Nat :=
  (completedIn q.segments s).toNat + q.pinged.count s

def View.places (r : RequestId) (g : Hand κ) (v : View κ) (s : SegmentId) : Nat :=
  (g.passes.flatMap PassState.tries).count s + g.pings.count s + registrations r s v.promises

/-- Every segment is in one place, and nothing that is no segment is anywhere. -/
def Found (r : RequestId) (g : Hand κ) (v : View κ) : Prop :=
  match v.request with
  | none => ∀ s, v.places r g s = 0
  | some q => ∀ s : SegmentId,
      q.places s + v.places r g s = if s.index < q.segments.size then 1 else 0

theorem Found.of_request {q : Request κ} (hq : v.request = some q)
    (h : ∀ s : SegmentId, q.places s + v.places r g s = if s.index < q.segments.size then 1 else 0) :
    Found r g v := by
  rw [Found, hq]
  exact h

theorem Found.request (hf : Found r g v) {q : Request κ} (hq : v.request = some q)
    (s : SegmentId) :
    q.places s + v.places r g s = if s.index < q.segments.size then 1 else 0 := by
  rw [Found, hq] at hf
  exact hf s

/-- What happens to the promises and pings of a request does not matter as long as its segments
stay in as many places. -/
theorem Found.same (hf : Found r g v) (hq : v'.request = v.request)
    (hp : ∀ s, v'.places r g' s = v.places r g s) : Found r g' v' := by
  rw [Found, hq]
  rw [Found] at hf
  cases hreq : v.request with
  | none =>
    rw [hreq] at hf
    intro s
    rw [hp]
    exact hf s
  | some q =>
    rw [hreq] at hf
    intro s
    rw [hp]
    exact hf s

/-- A request that changes in what has nothing to do with segments. -/
theorem Found.keep (hf : Found r g v) {q q' : Request κ} (hq : v.request = some q)
    (hq' : v'.request = some q') (hseg : q'.segments = q.segments)
    (hpinged : q'.pinged = q.pinged) (hp : ∀ s, v'.places r g' s = v.places r g s) :
    Found r g' v' := by
  refine Found.of_request hq' fun s => ?_
  have := hf.request hq s
  rw [hp, Request.places, hseg, hpinged]
  exact this

theorem count_erase_add {l : List SegmentId} {s : SegmentId} (h : s ∈ l) (s' : SegmentId) :
    (l.erase s).count s' + (if s == s' then 1 else 0) = l.count s' := by
  rw [(List.perm_cons_erase h).count_eq s', List.count_cons]

/-! ## Life and death -/

def View.Gone (v : View κ) : Prop :=
  ∃ q, v.request = some q ∧ q.held = false ∧ q.running = 0 ∧ v.passes = 0

theorem View.Gone.not_alive (h : v.Gone) : ¬ v.Alive := by
  obtain ⟨q, hq, hheld, hrunning, hpasses⟩ := h
  rintro ⟨q', hq', halive⟩
  cases hq.symm.trans hq'
  simp [hheld, hrunning, hpasses] at halive

theorem View.gone_of_not_alive {q : Request κ} (hq : v.request = some q) (h : ¬ v.Alive) :
    v.Gone := by
  refine ⟨q, hq, ?_, ?_, ?_⟩
  · exact Bool.eq_false_iff.mpr fun hheld => h ⟨q, hq, .inl hheld⟩
  · exact Nat.eq_zero_of_not_pos fun hrunning => h ⟨q, hq, .inr (.inl hrunning)⟩
  · exact Nat.eq_zero_of_not_pos fun hpasses => h ⟨q, hq, .inr (.inr hpasses)⟩

theorem Request.life_setRows (q : Request κ) (kind : RowKind) (rows : List Row) :
    (q.setRows kind rows).held = q.held ∧ (q.setRows kind rows).running = q.running := by
  cases kind <;> exact ⟨rfl, rfl⟩

theorem Course.gone (hc : Course W r g v) (ht : Turn W r g v g' v') (h : v.Gone) : v'.Gone := by
  obtain ⟨q, hq, hheld, hrunning, hpasses⟩ := id h
  have hfresh : g.fresh = 0 := by
    have := hc.running q hq
    rw [hrunning, Hand.calls] at this
    omega
  cases ht with
  | ambient ht =>
    cases ht with
    | create settings model hnone => cases hnone.symm.trans hq
    | adjust hq' sink fatal held hle =>
      cases hq.symm.trans hq'
      refine ⟨_, rfl, Bool.eq_false_iff.mpr fun hh => ?_, hrunning, hpasses⟩
      cases hheld.symm.trans (hle hh)
    | _ => exact ⟨q, hq, hheld, hrunning, hpasses⟩
  | visit ht =>
    cases ht with
    | enter hq' hh =>
      cases hq.symm.trans hq'
      cases hheld.symm.trans hh
    | leave hq' hpos | start hq' hpos => omega
    | pop hq' hpos => omega
    | ping hq' halive | firstPing hq' halive => exact absurd halive h.not_alive
    | flowAgain hq' => cases hq.symm.trans hq'; exact ⟨_, rfl, hheld, hrunning, hpasses⟩
    | ask | lostPing => exact ⟨q, hq, hheld, hrunning, hpasses⟩
  | flushing ht =>
    cases ht with
    | runDry | calling | called | unfinished => exact ⟨q, hq, hheld, hrunning, hpasses⟩
    | take kind hq' =>
      cases hq.symm.trans hq'
      obtain ⟨hh, hr⟩ := Request.life_setRows q kind ‹_›
      exact ⟨_, rfl, hh.trans hheld, hr.trans hrunning, hpasses⟩
    | openOwn hq' | openLast hq' | stop hq' | close hq' | shutOwn hq' | shutLast hq' =>
      cases hq.symm.trans hq'
      exact ⟨_, rfl, hheld, hrunning, hpasses⟩
  | working ht =>
    cases ht with
    | skip | attempt | leave | value | layer | wait | finish => exact ⟨q, hq, hheld, hrunning, hpasses⟩
    | begin hq' | memo _ _ _ hq' | defer _ _ _ _ hq' | report _ _ _ _ hq'
    | complete _ _ _ _ hq' | fail _ _ _ hq' =>
      cases hq.symm.trans hq'
      exact ⟨_, rfl, hheld, hrunning, hpasses⟩

/-! ## Turns -/

theorem View.places_cons {b : PassState κ} {bs : List (PassState κ)} (hb : g.passes = b :: bs)
    (s : SegmentId) :
    v.places r g s = b.tries.count s + (bs.flatMap PassState.tries).count s + g.pings.count s +
      registrations r s v.promises := by
  rw [View.places, hb, List.flatMap_cons, List.count_append]

theorem PassState.count_tries {b : PassState κ} {a : Attempt κ} (ha : b.attempt = some a)
    (s : SegmentId) :
    b.tries.count s = (if a.segment == s then 1 else 0) + b.batch.count s := by
  simp [PassState.tries, ha, List.count_cons, Nat.add_comm]

theorem PassState.count_tries_none {b : PassState κ} (ha : b.attempt = none) (s : SegmentId) :
    b.tries.count s = b.batch.count s := by
  simp [PassState.tries, ha]

theorem PromiseCell.registrations_pending (cell : PromiseCell κ) (hs : cell.status = .pending)
    (s : SegmentId) : cell.registrations r s = cell.reactions.countP (Reaction.waits r s) := by
  rw [PromiseCell.registrations, hs]
  rfl

theorem SegmentId.eq_zero_iff (s : SegmentId) : (⟨0⟩ : SegmentId) = s ↔ s.index < 1 := by
  cases s with
  | mk index => simp [SegmentId.mk.injEq, eq_comm]

theorem SegmentId.bound_succ (s : SegmentId) (n : Nat) :
    (if s.index < n + 1 then 1 else 0) =
      (if s.index < n then 1 else 0) + if (⟨n⟩ : SegmentId) == s then 1 else 0 := by
  cases s with
  | mk index =>
    by_cases hi : index = n
    · simp [hi]
    · have hn : ¬ n = index := fun h => hi h.symm
      have hlt : index < n + 1 ↔ index < n := by omega
      simp [hn, hlt]

theorem registrations_of_quiet {promises : Array (PromiseCell κ)}
    (h : ∀ cell ∈ promises, cell.reactions = []) (s : SegmentId) :
    registrations r s promises = 0 := by
  refine List.sum_eq_zero_iff_forall_eq_nat.mpr fun n hn => ?_
  obtain ⟨cell, hcell, rfl⟩ := List.mem_map.mp hn
  simp [PromiseCell.registrations, h cell (Array.mem_toList_iff.mp hcell)]

/-- What happens to promises moves segments from and to them. -/
theorem Ambient.found (h : Ambient W r g v g' v') (hfree : ¬ W.Free)
    (hkept : ∀ cell ∈ v.promises, ∀ reaction ∈ cell.reactions, reaction.Kept r)
    (hf : Found r g v) : Found r g' v' := by
  cases h with
  | mark | say => exact hf.same rfl fun s => rfl
  | newPromise =>
    refine hf.same rfl fun s => ?_
    simp only [View.places, registrations_push]
  | @settle p cell outcome hp hs =>
    refine hf.same rfl fun s => ?_
    have hsum := registrations_modify (r := r) hp
      (fun _ => { status := .settled outcome, reactions := [] }) s
    have hmoved := count_pingsOf (hkept cell (Array.mem_of_getElem? hp)) outcome s
    have hbefore := cell.registrations_pending (r := r) hs s
    have hafter : PromiseCell.registrations r s
        { status := .settled outcome, reactions := ([] : List (Reaction κ)) } = 0 := rfl
    simp only [View.places, List.count_append]
    omega
  | @subscribe p cell reaction hp hs hforeign =>
    refine hf.same rfl fun s => ?_
    have hsum := registrations_modify (r := r) hp
      (fun cell => { cell with reactions := cell.reactions ++ [reaction] }) s
    have hbefore := cell.registrations_pending (r := r) hs s
    have hafter := PromiseCell.registrations_pending (r := r)
      { cell with reactions := cell.reactions ++ [reaction] } hs s
    simp only [List.countP_append, List.countP_singleton,
      (hforeign.resolve_left hfree).waits s, Bool.false_eq_true, if_false] at hafter
    simp only [View.places]
    omega
  | @register p cell s' hp hs hmem =>
    refine hf.same rfl fun s => ?_
    have hsum := registrations_modify (r := r) hp
      (fun cell => { cell with reactions := cell.reactions ++ [Reaction.ofWaiting r s'] }) s
    have hbefore := cell.registrations_pending (r := r) hs s
    have hafter := PromiseCell.registrations_pending (r := r)
      { cell with reactions := cell.reactions ++ [Reaction.ofWaiting r s'] } hs s
    have herase := count_erase_add hmem s
    simp only [List.countP_append, List.countP_singleton, Reaction.waits_ofWaiting] at hafter
    simp only [View.places]
    omega
  | stray h => exact absurd h hfree
  | create settings model hnone =>
    refine Found.of_request rfl fun s => ?_
    rw [Found, hnone] at hf
    have hnowhere : View.places r g
        { v with
          request := some (.ofModel settings model)
          log := .issued r (RowId.ofNat 0) :: v.log } s = 0 := hf s
    have hcompleted : completedIn (Request.ofModel settings model).segments s = false := by
      cases hi : s.index <;> simp [completedIn, Request.ofModel, hi]
    rw [hnowhere, Request.places, hcompleted]
    simp [Request.ofModel, List.count_cons, SegmentId.eq_zero_iff]
  | adjust hq => exact hf.keep hq rfl rfl rfl fun s => rfl

theorem Visit.found (h : Visit r g v g' v') (halive : ¬ v.Gone) (hf : Found r g v) :
    Found r g' v' := by
  cases h with
  | enter hq | leave hq | pop hq | start hq | flowAgain hq =>
    exact hf.keep hq rfl rfl rfl fun s => rfl
  | ask => exact hf.same rfl fun s => rfl
  | @ping q s' hq ha hmem hne =>
    refine Found.of_request rfl fun s => ?_
    have := hf.request hq s
    have herase := count_erase_add hmem s
    simp only [Request.places, View.places, List.count_append, List.count_singleton] at this ⊢
    omega
  | @firstPing q s' hq ha hmem hnil =>
    refine Found.of_request rfl fun s => ?_
    have := hf.request hq s
    have herase := count_erase_add hmem s
    simp only [Request.places, View.places, hnil, List.count_nil, List.count_singleton] at this ⊢
    omega
  | @lostPing s' hdead hmem =>
    cases hreq : v.request with
    | some q => exact absurd (View.gone_of_not_alive hreq hdead) halive
    | none =>
      rw [Found, hreq] at hf
      have hnowhere := hf s'
      have hpos := List.count_pos_iff.mpr hmem
      simp only [View.places] at hnowhere
      omega

theorem Flushing.found (h : Flushing r g v g' v') (hf : Found r g v) : Found r g' v' := by
  cases h with
  | runDry | calling | called | unfinished => exact hf.same rfl fun s => rfl
  | take kind hq => cases kind <;> exact hf.keep hq rfl rfl rfl fun s => rfl
  | openOwn hq | openLast hq | stop hq | close hq | shutOwn hq =>
    exact hf.keep hq rfl rfl rfl fun s => rfl
  | @shutLast q d b bs hq hd hdone ho hb hs ha =>
    refine hf.keep hq rfl rfl rfl fun s => ?_
    rw [View.places_cons hb, PassState.count_tries_none ha, hs, List.count_nil, Nat.zero_add]
    rfl

theorem completedIn_query (segments : Array (Segment κ)) (i : Nat) (query : Query κ)
    (s : SegmentId) :
    completedIn (segments.modify i fun seg => { seg with query := query }) s =
      completedIn segments s := by
  rw [completedIn, Array.getElem?_modify]
  split
  · cases hs : segments[s.index]? <;> simp [completedIn, hs]
  · rfl

theorem completedIn_push (segments : Array (Segment κ)) (id : RowId) (query : Query κ)
    (s : SegmentId) :
    completedIn (segments.push { id := id, query := query }) s = completedIn segments s := by
  by_cases hs : s.index = segments.size
  · simp [completedIn, hs]
  · simp [completedIn, Array.getElem?_push, hs]

theorem completedIn_complete {segments : Array (Segment κ)} {s : SegmentId} {seg : Segment κ}
    (hs : segments[s.index]? = some seg) (hopen : completedIn segments s = false)
    (s' : SegmentId) :
    (completedIn (segments.modify s.index fun seg => { seg with completed := true }) s').toNat =
      (completedIn segments s').toNat + if s == s' then 1 else 0 := by
  by_cases he : s = s'
  · subst he
    rw [hopen]
    simp [completedIn, Array.getElem?_modify, hs]
  · have hi : ¬ s.index = s'.index := fun hi => he (SegmentId.eq_of_index hi)
    simp [completedIn, Array.getElem?_modify, hi, he]

/-- The end of an attempt moves its segment to the completed ones. -/
theorem Found.complete (hf : Found r g v) {q q' : Request κ} (hq : v.request = some q)
    {b : PassState κ} {bs : List (PassState κ)} {a : Attempt κ} {seg : Segment κ}
    (hb : g.passes = b :: bs) (ha : b.attempt = some a)
    (hseg : q.segments[a.segment.index]? = some seg) (hq' : v'.request = some q')
    (hsegs : q'.segments =
      q.segments.modify a.segment.index fun seg => { seg with completed := true })
    (hpinged : q'.pinged = q.pinged) (hg : g' = { g with passes := { b with attempt := none } :: bs })
    (hp : v'.promises = v.promises) : Found r g' v' := by
  have hopen : completedIn q.segments a.segment = false := by
    have := hf.request hq a.segment
    rw [Request.places, View.places_cons hb, PassState.count_tries ha, beq_self_eq_true,
      if_pos rfl] at this
    cases hc : completedIn q.segments a.segment with
    | false => rfl
    | true =>
      rw [hc, Bool.toNat_true] at this
      split at this <;> omega
  refine Found.of_request hq' fun s => ?_
  have := hf.request hq s
  rw [Request.places, View.places_cons hb, PassState.count_tries ha] at this
  rw [Request.places, hsegs, completedIn_complete hseg hopen, hpinged, Array.size_modify, hg,
    View.places_cons rfl, PassState.count_tries_none rfl, hp]
  simp only
  omega

/-- The steps of a pass move segments from its batch to where they go. -/
theorem Working.found (h : Working W r g v g' v') (hf : Found r g v) : Found r g' v' := by
  cases h with
  | @begin q hq =>
    refine Found.of_request rfl fun s => ?_
    have := hf.request hq s
    rw [View.places_cons rfl, PassState.count_tries_none rfl]
    simp only [Request.places, View.places, List.count_nil] at this ⊢
    omega
  | @skip q b bs s ss seg hb hs ha hq hseg hc =>
    have := hf.request hq s
    rw [View.places_cons hb, PassState.count_tries_none ha, hs, List.count_cons_self,
      Request.places, show completedIn q.segments s = true by simp [completedIn, hseg, hc],
      Bool.toNat_true] at this
    split at this <;> omega
  | attempt hb hs ha hq =>
    refine hf.same rfl fun s => ?_
    rw [View.places_cons hb, View.places_cons rfl, PassState.count_tries_none ha,
      PassState.count_tries rfl, hs, List.count_cons]
    simp only
    omega
  | leave hb =>
    refine hf.same rfl fun s => ?_
    rw [View.places_cons hb, View.places_cons rfl]
    rfl
  | value hb ha | layer hb ha =>
    refine hf.same rfl fun s => ?_
    rw [View.places_cons hb, View.places_cons rfl, PassState.count_tries ha,
      PassState.count_tries rfl]
  | memo hb ha hv hq =>
    refine Found.of_request rfl fun s => ?_
    have := hf.request hq s
    rw [Request.places, completedIn_query, Array.size_modify]
    exact this
  | wait hb ha =>
    refine hf.same rfl fun s => ?_
    rw [View.places_cons hb, View.places_cons rfl, PassState.count_tries ha,
      PassState.count_tries_none rfl, List.count_cons]
    simp only
    omega
  | @defer q b bs a query hb ha hv hq =>
    refine Found.of_request rfl fun s => ?_
    have := hf.request hq s
    rw [Request.places, View.places_cons hb, PassState.count_tries ha] at this
    rw [Request.places, completedIn_push, View.places_cons rfl, PassState.count_tries rfl,
      List.count_cons, Array.size_push, SegmentId.bound_succ]
    simp only
    omega
  | @report q b bs a e hb ha hv hq =>
    refine hf.keep hq rfl rfl rfl fun s => ?_
    rw [View.places_cons hb, View.places_cons rfl, PassState.count_tries ha,
      PassState.count_tries rfl]
  | complete hb ha hv hw hq hseg => exact hf.complete hq hb ha hseg rfl rfl rfl rfl rfl
  | fail hb ha hw hq hseg => exact hf.complete hq hb ha hseg rfl rfl rfl rfl rfl
  | finish hb hs ha =>
    refine hf.same rfl fun s => ?_
    rw [View.places_cons hb, PassState.count_tries_none ha, hs, List.count_nil, Nat.zero_add]
    rfl

/-- As long as a request is not gone, each of its segments is in one place. -/
theorem Course.found (h : Course W r g v) (hfree : ¬ W.Free) (hv : ¬ v.Gone) : Found r g v := by
  induction h with
  | start hstart =>
    intro s
    have := registrations_of_quiet (r := r) (fun cell hcell => (hstart cell hcell).1) s
    simpa [View.places] using this
  | @turn g v g' v' hc ht ih =>
    have halive : ¬ v.Gone := fun hgone => hv (hc.gone ht hgone)
    have hf := ih halive
    cases ht with
    | ambient h => exact h.found hfree (fun cell hcell reaction => hc.kept hfree hcell) hf
    | visit h => exact h.found halive hf
    | flushing h => exact h.found hf
    | working h => exact h.found hf

end TreeStream
