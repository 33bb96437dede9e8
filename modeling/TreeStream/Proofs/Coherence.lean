import TreeStream.Proofs.Course

/-!
# What stays as it is

A request never changes where its modules come from and which ids its segments have. So what a pass
has read of its request stays true until the pass ends, whatever user code does meanwhile.
-/

namespace TreeStream

variable {κ : Type} {W : World κ} {r : RequestId} {g g' : Hand κ} {v v' : View κ}

/-- What no turn changes of a segment: a completed one stays completed. -/
structure Segment.Lasts (seg seg' : Segment κ) : Prop where
  id : seg'.id = seg.id
  completed : seg.completed = true → seg'.completed = true

structure Request.Lasts (q q' : Request κ) : Prop where
  modules : q'.settings.modules = q.settings.modules
  segments : ∀ (i : Nat) (seg : Segment κ), q.segments[i]? = some seg →
    ∃ seg', q'.segments[i]? = some seg' ∧ seg.Lasts seg'

theorem Request.Lasts.of_eq {q q' : Request κ} (hm : q'.settings.modules = q.settings.modules)
    (hseg : q'.segments = q.segments) : q.Lasts q' :=
  ⟨hm, fun _ seg h => ⟨seg, by rw [hseg]; exact h, rfl, id⟩⟩

theorem Request.Lasts.of_modify {q q' : Request κ} {i : Nat} {f : Segment κ → Segment κ}
    (hseg : q'.segments = q.segments.modify i f) (hf : ∀ seg : Segment κ, seg.Lasts (f seg))
    (hm : q'.settings.modules = q.settings.modules) : q.Lasts q' := by
  refine ⟨hm, fun j seg h => ?_⟩
  rw [hseg, Array.getElem?_modify]
  split
  · exact ⟨f seg, by simp [h], hf seg⟩
  · exact ⟨seg, h, rfl, id⟩

theorem Request.Lasts.of_push {q q' : Request κ} {new : Segment κ}
    (hm : q'.settings.modules = q.settings.modules) (hseg : q'.segments = q.segments.push new) :
    q.Lasts q' := by
  refine ⟨hm, fun j seg h => ⟨seg, ?_, rfl, id⟩⟩
  obtain ⟨hj, -⟩ := Array.getElem?_eq_some_iff.mp h
  rw [hseg, Array.getElem?_push, if_neg (by omega)]
  exact h

theorem Segment.lasts_complete (seg : Segment κ) : seg.Lasts { seg with completed := true } :=
  ⟨rfl, fun _ => rfl⟩

theorem Segment.lasts_memo (query : Query κ) (seg : Segment κ) :
    seg.Lasts { seg with query := query } :=
  ⟨rfl, fun h => h⟩

theorem Request.settings_setRows (q : Request κ) (kind : RowKind) (rows : List Row) :
    (q.setRows kind rows).settings = q.settings := by
  cases kind <;> rfl

theorem Request.segments_setRows (q : Request κ) (kind : RowKind) (rows : List Row) :
    (q.setRows kind rows).segments = q.segments := by
  cases kind <;> rfl

/-- Only the steps of a pass touch segments. -/
structure Request.Keeps (q q' : Request κ) : Prop where
  modules : q'.settings.modules = q.settings.modules
  segments : q'.segments = q.segments

theorem Ambient.keeps (h : Ambient W r g v g' v') {q} (hq : v.request = some q) :
    ∃ q', v'.request = some q' ∧ q.Keeps q' := by
  cases h with
  | create settings model hnone => simp [hq] at hnone
  | adjust hq' => cases hq.symm.trans hq'; exact ⟨_, rfl, rfl, rfl⟩
  | _ => exact ⟨q, hq, rfl, rfl⟩

theorem Visit.keeps (h : Visit r g v g' v') {q} (hq : v.request = some q) :
    ∃ q', v'.request = some q' ∧ q.Keeps q' := by
  cases h with
  | ask | lostPing => exact ⟨q, hq, rfl, rfl⟩
  | pop hq' | enter hq' | leave hq' | start hq' | flowAgain hq' | ping hq' | firstPing hq' =>
    cases hq.symm.trans hq'
    exact ⟨_, rfl, rfl, rfl⟩

theorem Flushing.keeps (h : Flushing r g v g' v') {q} (hq : v.request = some q) :
    ∃ q', v'.request = some q' ∧ q.Keeps q' := by
  cases h with
  | runDry | calling | called | unfinished => exact ⟨q, hq, rfl, rfl⟩
  | take kind hq' =>
    cases hq.symm.trans hq'
    exact ⟨_, rfl, by simp [Request.settings_setRows], by simp [Request.segments_setRows]⟩
  | openOwn hq' | openLast hq' | stop hq' | close hq' | shutOwn hq' | shutLast hq' =>
    cases hq.symm.trans hq'
    exact ⟨_, rfl, rfl, rfl⟩

theorem Request.Keeps.lasts {q q' : Request κ} (h : q.Keeps q') : q.Lasts q' :=
  .of_eq h.modules h.segments

theorem Working.lasts (h : Working W r g v g' v') {q} (hq : v.request = some q) :
    ∃ q', v'.request = some q' ∧ q.Lasts q' := by
  cases h with
  | skip | attempt | leave | value | layer | wait | finish => exact ⟨q, hq, .of_eq rfl rfl⟩
  | begin hq' => cases hq.symm.trans hq'; exact ⟨_, rfl, .of_eq rfl rfl⟩
  | memo hb ha hv hq' =>
    cases hq.symm.trans hq'
    exact ⟨_, rfl, .of_modify rfl (Segment.lasts_memo _) rfl⟩
  | defer query hb ha hv hq' => cases hq.symm.trans hq'; exact ⟨_, rfl, .of_push rfl rfl⟩
  | report e hb ha hv hq' => cases hq.symm.trans hq'; exact ⟨_, rfl, .of_eq rfl rfl⟩
  | complete hb ha hv hw hq' hseg =>
    cases hq.symm.trans hq'
    exact ⟨_, rfl, .of_modify rfl Segment.lasts_complete rfl⟩
  | fail hb ha hw hq' hseg =>
    cases hq.symm.trans hq'
    exact ⟨_, rfl, .of_modify rfl Segment.lasts_complete rfl⟩

theorem Turn.lasts (h : Turn W r g v g' v') {q} (hq : v.request = some q) :
    ∃ q', v'.request = some q' ∧ q.Lasts q' := by
  cases h with
  | working h => exact h.lasts hq
  | ambient h =>
    obtain ⟨q', hq', hk⟩ := h.keeps hq
    exact ⟨q', hq', hk.lasts⟩
  | visit h =>
    obtain ⟨q', hq', hk⟩ := h.keeps hq
    exact ⟨q', hq', hk.lasts⟩
  | flushing h =>
    obtain ⟨q', hq', hk⟩ := h.keeps hq
    exact ⟨q', hq', hk.lasts⟩

/-- A request that was not there before has just been made. -/
theorem Turn.create_of_none (h : Turn W r g v g' v') (hnone : v.request = none) {q}
    (hq : v'.request = some q) :
    ∃ settings model, W.origin r settings.modules model ∧ q = .ofModel settings model ∧ g' = g ∧
      v' = { v with request := some q, log := .issued r (RowId.ofNat 0) :: v.log } := by
  cases h with
  | ambient h =>
    cases h with
    | create settings model _ ho => cases hq; exact ⟨settings, model, ho, rfl, rfl, rfl⟩
    | adjust hq' => cases hnone.symm.trans hq'
    | _ => cases hnone.symm.trans hq
  | visit h =>
    cases h with
    | ask | lostPing => cases hnone.symm.trans hq
    | pop hq' | enter hq' | leave hq' | start hq' | flowAgain hq' | ping hq' | firstPing hq' =>
      cases hnone.symm.trans hq'
  | flushing h =>
    cases h with
    | openOwn hq' | openLast hq' | take _ hq' | stop hq' | close hq' | shutOwn hq'
    | shutLast hq' => cases hnone.symm.trans hq'
    | runDry | calling | called | unfinished => cases hnone.symm.trans hq
  | working h =>
    cases h with
    | skip | attempt | leave | value | layer | wait | finish => cases hnone.symm.trans hq
    | begin hq' | memo _ _ _ hq' | defer _ _ _ _ hq' | report _ _ _ _ hq'
    | complete _ _ _ _ hq' | fail _ _ _ hq' => cases hnone.symm.trans hq'

theorem Turn.none_of_none (h : Turn W r g v g' v') (hnone : v'.request = none) :
    v.request = none := by
  by_contra hne
  obtain ⟨q, hq⟩ := Option.ne_none_iff_exists'.mp hne
  obtain ⟨q', hq', -⟩ := h.lasts hq
  cases hnone.symm.trans hq'

/-- What a pass has read of its request is still there. -/
structure PassState.Fits (b : PassState κ) (q : Request κ) : Prop where
  modules : b.modules = q.settings.modules
  ids : ∀ a, b.attempt = some a → ∀ s id query, Issue.segment s id query ∈ a.issues →
    ∃ seg, q.segments[s.index]? = some seg ∧ seg.id = id

theorem PassState.Fits.of_lasts {b : PassState κ} {q q' : Request κ} (h : b.Fits q)
    (hl : q.Lasts q') : b.Fits q' := by
  refine ⟨h.modules.trans hl.modules.symm, ?_⟩
  intro a ha s id query hi
  obtain ⟨seg, hseg, hid⟩ := h.ids a ha s id query hi
  obtain ⟨seg', hseg', hlasts⟩ := hl.segments _ _ hseg
  exact ⟨seg', hseg', hlasts.id.trans hid⟩

theorem PassState.Fits.of_issues {b b' : PassState κ} {q : Request κ} (h : b.Fits q)
    (hm : b'.modules = b.modules)
    (hi : ∀ a', b'.attempt = some a' → a'.issues = [] ∨
      ∃ a, b.attempt = some a ∧ a'.issues = a.issues) : b'.Fits q := by
  refine ⟨hm.trans h.modules, fun a' ha' s id query hmem => ?_⟩
  rcases hi a' ha' with hnil | ⟨a, ha, hsame⟩
  · rw [hnil] at hmem
    cases hmem
  · exact h.ids a ha s id query (hsame ▸ hmem)

theorem Hand.eq_top_of_mem {b b' c : PassState κ} {bs : List (PassState κ)}
    (hb : g.passes = b :: bs) (hb' : g'.passes = b' :: bs) (hc : c ∈ g'.passes)
    (hnew : c ∉ g.passes) : c = b' := by
  rw [hb'] at hc
  refine (List.mem_cons.mp hc).resolve_right fun hmem => hnew ?_
  rw [hb]
  exact List.mem_cons_of_mem b hmem

/-- Something is under way on the request. -/
def Hand.Busy (g : Hand κ) : Prop := 0 < g.fresh ∨ g.passes ≠ [] ∨ g.delivery ≠ none

/-- Only a request that is there is busy, it says itself whether it is flushed, hooks may be called
during a pass, and passes fit their request. -/
structure Coherent (g : Hand κ) (v : View κ) : Prop where
  present : g.Busy → ∃ q, v.request = some q
  flushing : ∀ q, v.request = some q → (q.flushing = true ↔ g.delivery ≠ none)
  inPass : g.passes ≠ [] → v.inPass = true
  fits : ∀ b ∈ g.passes, ∃ q, v.request = some q ∧ b.Fits q

/-- A request that is not flushed has no flush under way. -/
theorem Hand.delivery_eq_none {q : Request κ} (hf : q.flushing = true ↔ g.delivery ≠ none)
    (hidle : q.flushing = false) : g.delivery = none :=
  Classical.not_not.mp fun hne => absurd (hidle.symm.trans (hf.mpr hne)) Bool.false_ne_true

theorem Coherent.fits_later (hc : Coherent g v) (ht : Turn W r g v g' v') {b : PassState κ}
    (hb : b ∈ g.passes) : ∃ q, v'.request = some q ∧ b.Fits q := by
  obtain ⟨q, hq, hf⟩ := hc.fits b hb
  obtain ⟨q', hq', hl⟩ := ht.lasts hq
  exact ⟨q', hq', hf.of_lasts hl⟩

theorem Coherent.fits_top (hc : Coherent g v) {b : PassState κ} {l : List (PassState κ)}
    {q : Request κ} (hb : g.passes = b :: l) (hq : v.request = some q) : b.Fits q := by
  obtain ⟨q', hq', hf⟩ := hc.fits b (by simp [hb])
  cases hq.symm.trans hq'
  exact hf

/-- A segment that was just made has the id it was issued under. -/
theorem PassState.Fits.push_segment {b : PassState κ} {a : Attempt κ} {q : Request κ}
    (h : b.Fits q) (ha : b.attempt = some a) (query : Query κ) :
    PassState.Fits
      { b with
        attempt := some
          { a with issues := a.issues ++ [.segment ⟨q.segments.size⟩ q.nextId query] } }
      { q with
        pending := q.pending + 1
        nextId := q.nextId.next
        segments := q.segments.push { id := q.nextId, query := query } } := by
  refine ⟨h.modules, fun a' ha' s id query' hi => ?_⟩
  cases ha'
  rcases List.mem_append.mp hi with hi | hi
  · have hl : q.Lasts { q with
        pending := q.pending + 1
        nextId := q.nextId.next
        segments := q.segments.push { id := q.nextId, query := query } } := .of_push rfl rfl
    exact (h.of_lasts hl).ids a ha s id query' hi
  · cases List.mem_singleton.mp hi
    exact ⟨{ id := q.nextId, query := query }, by simp, rfl⟩

theorem PassState.Fits.push_error {b : PassState κ} {a : Attempt κ} {q : Request κ}
    (h : b.Fits q) (ha : b.attempt = some a) (e : RenderError) :
    PassState.Fits
      { b with attempt := some { a with issues := a.issues ++ [.error q.nextId e] } }
      { q with
        pending := q.pending + 1
        nextId := q.nextId.next
        errorRows := q.errorRows ++ [Row.ofError q.nextId e] } := by
  refine ⟨h.modules, fun a' ha' s id query hi => ?_⟩
  cases ha'
  rcases List.mem_append.mp hi with hi | hi
  · exact h.ids a ha s id query hi
  · exact nomatch List.mem_singleton.mp hi

theorem Ambient.hand_eq (h : Ambient W r g v g' v') :
    g'.passes = g.passes ∧ g'.delivery = g.delivery ∧ g'.fresh = g.fresh ∧ g'.due = g.due := by
  cases h <;> exact ⟨rfl, rfl, rfl, rfl⟩

theorem Visit.hand_eq (h : Visit r g v g' v') :
    g'.passes = g.passes ∧ g'.delivery = g.delivery := by
  cases h <;> exact ⟨rfl, rfl⟩

/-- What happens inside passes leaves the mark alone. -/
theorem Turn.inPass_of (hm : g.passes ≠ [] → v.inPass = true) (h : Turn W r g v g' v') :
    g'.passes ≠ [] → v'.inPass = true := by
  cases h with
  | ambient h =>
    cases h with
    | mark b hb =>
      intro hne
      exact hb.resolve_left hne
    | _ => exact hm
  | visit h => cases h <;> exact hm
  | flushing h =>
    cases h with
    | shutLast hq hd hdone ho hb => exact fun _ => hm (by simp [hb])
    | _ => exact hm
  | working h =>
    cases h with
    | begin hq hmark => exact fun _ => hmark
    | memo => exact hm
    | finish hb => exact fun _ => hm (by simp [hb])
    | skip hb | attempt hb | leave hb | value hb | layer hb | wait hb | defer _ hb | report _ hb
    | complete hb | fail hb => exact fun _ => hm (by simp [hb])

theorem Turn.busy (h : Turn W r g v g' v') (hbusy : g'.Busy) :
    g.Busy ∨ ∃ q, v.request = some q := by
  cases h with
  | ambient h =>
    obtain ⟨hp, hd, hf, -⟩ := h.hand_eq
    rw [Hand.Busy, hp, hd, hf] at hbusy
    exact .inl hbusy
  | visit h =>
    cases h with
    | pop hq | enter hq | leave hq | start hq | flowAgain hq | ping hq | firstPing hq =>
      exact .inr ⟨_, hq⟩
    | ask | lostPing => exact .inl hbusy
  | flushing h =>
    cases h with
    | openOwn hq | openLast hq | take _ hq | runDry _ hq | stop hq | unfinished hq | close hq
    | shutOwn hq | shutLast hq => exact .inr ⟨_, hq⟩
    | calling c hq hd => exact .inr ⟨_, hq⟩
    | called c answer hd => exact .inl (.inr (.inr (by simp [hd])))
  | working h =>
    cases h with
    | begin hq => exact .inr ⟨_, hq⟩
    | skip hb | attempt hb | leave hb | value hb | memo hb | layer hb | wait hb | defer _ hb
    | report _ hb | complete hb | fail hb | finish hb => exact .inl (.inr (.inl (by simp [hb])))

theorem Turn.flushing_iff (hc : Coherent g v) (h : Turn W r g v g' v') (q : Request κ)
    (hq : v'.request = some q) : q.flushing = true ↔ g'.delivery ≠ none := by
  cases h with
  | ambient h =>
    rw [h.hand_eq.2.1]
    cases h with
    | create settings model hnone =>
      cases hq
      have hidle : g.delivery = none := by
        by_contra hd
        obtain ⟨q, hq⟩ := hc.present (.inr (.inr hd))
        cases hnone.symm.trans hq
      simp [Request.ofModel, hidle]
    | adjust hq' => cases hq; exact (hc.flushing _ hq' :)
    | _ => exact hc.flushing q hq
  | visit h =>
    rw [h.hand_eq.2]
    cases h with
    | pop hq' | enter hq' | leave hq' | start hq' | flowAgain hq' | ping hq' | firstPing hq' =>
      cases hq
      exact (hc.flushing _ hq' :)
    | ask | lostPing => exact hc.flushing q hq
  | flushing h =>
    cases h with
    | openOwn | openLast | shutOwn | shutLast => cases hq; simp
    | take kind hq' hd =>
      cases hq
      cases kind <;> simpa [hd, Request.setRows] using hc.flushing _ hq'
    | runDry kind hq' hd | unfinished hq' hd => simpa [hd] using hc.flushing q hq
    | calling c hq' hd | called c answer hd => simpa [hd] using hc.flushing q hq
    | stop hq' hd | close hq' hd => cases hq; simpa [hd] using hc.flushing _ hq'
  | working h =>
    cases h with
    | begin hq' => cases hq; exact (hc.flushing _ hq' :)
    | memo hb ha hv hq' => cases hq; exact (hc.flushing _ hq' :)
    | defer query hb ha hv hq' => cases hq; exact (hc.flushing _ hq' :)
    | report e hb ha hv hq' => cases hq; exact (hc.flushing _ hq' :)
    | complete hb ha hv hw hq' => cases hq; exact (hc.flushing _ hq' :)
    | fail hb ha hw hq' => cases hq; exact (hc.flushing _ hq' :)
    | skip | attempt | leave | value | layer | wait | finish => exact hc.flushing q hq

theorem Coherent.turn (hc : Coherent g v) (ht : Turn W r g v g' v') : Coherent g' v' := by
  refine ⟨fun hbusy => ?_, ht.flushing_iff hc, ht.inPass_of hc.inPass, fun b hb => ?_⟩
  · obtain hold | ⟨q, hq⟩ := ht.busy hbusy
    · obtain ⟨q, hq⟩ := hc.present hold
      obtain ⟨q', hq', -⟩ := ht.lasts hq
      exact ⟨q', hq'⟩
    · obtain ⟨q', hq', -⟩ := ht.lasts hq
      exact ⟨q', hq'⟩
  by_cases hold : b ∈ g.passes
  · exact hc.fits_later ht hold
  have hlasts : ∀ q, v.request = some q → ∃ q', v'.request = some q' ∧ q.Lasts q' :=
    fun q hq => ht.lasts hq
  cases ht with
  | ambient h => exact absurd (h.hand_eq.1 ▸ hb) hold
  | visit h => exact absurd (h.hand_eq.1 ▸ hb) hold
  | flushing h =>
    cases h with
    | shutLast hq hd hdone ho hp =>
      exact absurd (by rw [hp]; exact List.mem_cons_of_mem _ hb) hold
    | _ => exact absurd hb hold
  | working h =>
    cases h with
    | memo => exact absurd hb hold
    | finish hp => exact absurd (by rw [hp]; exact List.mem_cons_of_mem _ hb) hold
    | begin hq =>
      obtain rfl := (List.mem_cons.mp hb).resolve_right hold
      exact ⟨_, rfl, rfl, fun a ha => nomatch ha⟩
    | skip hp hs hn hq =>
      obtain rfl := Hand.eq_top_of_mem hp rfl hb hold
      exact ⟨_, hq, (hc.fits_top hp hq).of_issues rfl fun a ha => .inr ⟨a, ha, rfl⟩⟩
    | attempt hp hs hn hq =>
      obtain rfl := Hand.eq_top_of_mem hp rfl hb hold
      exact ⟨_, hq, (hc.fits_top hp hq).of_issues rfl fun a ha => .inl (by cases ha; rfl)⟩
    | value hp hn | layer hp hn =>
      obtain rfl := Hand.eq_top_of_mem hp rfl hb hold
      obtain ⟨q, hq⟩ := hc.present (.inr (.inl (by simp [hp])))
      exact ⟨q, hq, (hc.fits_top hp hq).of_issues rfl fun a ha => .inr ⟨_, hn, by cases ha; rfl⟩⟩
    | leave hp hn =>
      obtain rfl := Hand.eq_top_of_mem hp rfl hb hold
      obtain ⟨q, hq⟩ := hc.present (.inr (.inl (by simp [hp])))
      exact ⟨q, hq, (hc.fits_top hp hq).of_issues rfl fun a ha => .inr ⟨a, ha, rfl⟩⟩
    | wait hp hn =>
      obtain rfl := Hand.eq_top_of_mem hp rfl hb hold
      obtain ⟨q, hq⟩ := hc.present (.inr (.inl (by simp [hp])))
      exact ⟨q, hq, (hc.fits_top hp hq).of_issues rfl fun a ha => nomatch ha⟩
    | defer query hp hn hv hq =>
      obtain rfl := Hand.eq_top_of_mem hp rfl hb hold
      exact ⟨_, rfl, (hc.fits_top hp hq).push_segment hn query⟩
    | report e hp hn hv hq =>
      obtain rfl := Hand.eq_top_of_mem hp rfl hb hold
      exact ⟨_, rfl, (hc.fits_top hp hq).push_error hn e⟩
    | complete hp hn hv hw hq | fail hp hn hw hq =>
      obtain rfl := Hand.eq_top_of_mem hp rfl hb hold
      obtain ⟨q', hq', hl⟩ := hlasts _ hq
      have hf := hc.fits_top hp hq
      exact ⟨q', hq', (hf.of_lasts hl).of_issues rfl fun a ha => nomatch ha⟩

theorem Course.coherent (h : Course W r g v) : Coherent g v := by
  induction h with
  | start =>
    refine ⟨fun hbusy => ?_, fun q hq => by simp at hq, fun hne => absurd rfl hne,
      fun b hb => nomatch hb⟩
    simp [Hand.Busy] at hbusy
  | turn _ ht ih => exact ih.turn ht

/-! ## Before and after a request is made -/

/-- Nothing is told of a request that is not there. -/
theorem Course.asides (h : Course W r g v) (hnone : v.request = none) {e : Event}
    (he : e ∈ v.log) : e.IsAside := by
  induction h generalizing e with
  | start => cases he
  | @turn g v g' v' hc ht ih =>
    have hbefore := ht.none_of_none hnone
    have hidle : ¬ g.Busy := fun hbusy => by
      obtain ⟨q, hq⟩ := hc.coherent.present hbusy
      cases hbefore.symm.trans hq
    cases ht with
    | ambient h =>
      cases h with
      | create | adjust => cases hnone
      | say e' haside =>
        rcases List.mem_cons.mp he with rfl | he
        · exact haside
        · exact ih hbefore he
      | _ => exact ih hbefore he
    | visit h =>
      cases h with
      | ask | lostPing => exact ih hbefore he
      | _ => cases hnone
    | flushing h =>
      cases h with
      | runDry | unfinished => exact ih hbefore he
      | calling c hq hd | called c answer hd => exact absurd (.inr (.inr (by simp [hd]))) hidle
      | _ => cases hnone
    | working h =>
      cases h with
      | value | layer | wait | finish => exact ih hbefore he
      | skip hb | attempt hb | leave hb => exact absurd (.inr (.inl (by simp [hb]))) hidle
      | _ => cases hnone

/-- A new request: nothing is under way on it, and nothing is told of it but its first id. -/
structure Created (r : RequestId) (g : Hand κ) (v : View κ) : Prop where
  idle : ¬ g.Busy
  log : ∃ log, v.log = .issued r (RowId.ofNat 0) :: log ∧ ∀ e ∈ log, e.IsAside

theorem Created.delivery (h : Created r g v) : g.delivery = none :=
  Classical.not_not.mp fun hd => h.idle (.inr (.inr hd))

theorem Created.passes (h : Created r g v) : g.passes = [] :=
  Classical.not_not.mp fun hp => h.idle (.inr (.inl hp))

/-- What holds of a request when it is made from its origin and is kept by every turn. -/
theorem Course.induct_origin {P : Hand κ → View κ → Request κ → Prop}
    (create : ∀ {g v} settings model, W.origin r settings.modules model → Created r g v →
      P g v (.ofModel settings model))
    (turn : ∀ {g v g' v' q q'}, Course W r g v → Turn W r g v g' v' → v.request = some q →
      v'.request = some q' → P g v q → P g' v' q')
    (h : Course W r g v) {q : Request κ} (hq : v.request = some q) : P g v q := by
  induction h generalizing q with
  | start => cases hq
  | @turn g v g' v' hc ht ih =>
    cases hbefore : v.request with
    | some q₀ => exact turn hc ht hbefore hq (ih hbefore)
    | none =>
      obtain ⟨settings, model, ho, rfl, rfl, rfl⟩ := ht.create_of_none hbefore hq
      refine create settings model ho
        ⟨fun hbusy => ?_, v.log, rfl, fun e he => hc.asides hbefore he⟩
      obtain ⟨q, hq⟩ := hc.coherent.present hbusy
      cases hbefore.symm.trans hq

/-- What holds of a new request and is kept by every turn. -/
theorem Course.induct {P : Hand κ → View κ → Request κ → Prop}
    (create : ∀ {g v} settings model, Created r g v → P g v (.ofModel settings model))
    (turn : ∀ {g v g' v' q q'}, Course W r g v → Turn W r g v g' v' → v.request = some q →
      v'.request = some q' → P g v q → P g' v' q')
    (h : Course W r g v) {q : Request κ} (hq : v.request = some q) : P g v q :=
  Course.induct_origin (fun settings model _ => create settings model) turn h hq

/-! ## Promises -/

def View.Settled (v : View κ) : Prop :=
  ∀ (p : Nat) (cell : PromiseCell κ), v.promises[p]? = some cell → cell.status ≠ .pending

theorem View.Settled.modify (h : v.Settled) {p : Nat} {cell : PromiseCell κ}
    (hp : v.promises[p]? = some cell) (hs : cell.status = .pending) : v'.Settled :=
  absurd hs (h p cell hp)

theorem Course.settled (h : Course W r g v) (ho : ¬ W.Opens) : v.Settled := by
  induction h with
  | start hstart =>
    intro p cell hp
    exact (hstart cell (Array.mem_of_getElem? hp)).2.resolve_left ho
  | turn hc ht ih =>
    cases ht with
    | ambient h =>
      cases h with
      | newPromise hopens => exact absurd hopens ho
      | settle outcome hp hs => exact ih.modify hp hs
      | subscribe hp hs => exact ih.modify hp hs
      | register hp hs => exact ih.modify hp hs
      | _ => exact ih
    | visit h => cases h <;> exact ih
    | flushing h => cases h <;> exact ih
    | working h => cases h <;> exact ih

end TreeStream
