import TreeStream.Proofs.References
import TreeStream.Proofs.Renderings

/-!
# Rows of pure models

A request over a model whose code is pure is followed through a course. Each segment that was
deferred comes to a tree, which no memo changes, and each finished row comes to the tree of its
segment once its references are replaced. Nothing depends on when a segment is tried again.
-/

namespace TreeStream

variable {κ : Type} {M : Meaning κ} {waits : Prop} {r : RequestId} {modules : ModuleSource κ}
  {model : Model κ} {tree : RowTree} {g g' : Hand κ} {v v' : View κ} {q q' : Request κ}

/-! ## Segments and what they come to -/

section

variable (M : Meaning κ) (modules : ModuleSource κ)

/-- The segment of this number comes to the tree. -/
def Request.ComesTo (q : Request κ) (s : SegmentId) (tree : RowTree) : Prop :=
  ∃ seg, q.segments[s.index]? = some seg ∧ M.Yields modules seg.query tree

/-- The segment of this number has the id, and comes to what the query yields. -/
def Request.Stores (q : Request κ) (s : SegmentId) (id : RowId) (query : Query κ) : Prop :=
  ∃ seg, q.segments[s.index]? = some seg ∧ seg.id = id ∧
    ∀ tree, M.Yields modules query tree ↔ M.Yields modules seg.query tree

/-- Segments keep their ids and what they come to. -/
def Request.Follows (q q' : Request κ) : Prop :=
  ∀ (s : SegmentId) (seg : Segment κ), q.segments[s.index]? = some seg →
    q'.Stores M modules s seg.id seg.query

/-- Each id of a segment is read as the tree that the segment comes to. -/
def Request.Fits (q : Request κ) (D : RowId → RowTree) : Prop :=
  ∀ (s : SegmentId) (seg : Segment κ), q.segments[s.index]? = some seg →
    M.Yields modules seg.query (D seg.id)

/-- An attempt has not lost what its segment comes to. -/
def Attempt.Reaches (a : Attempt κ) (tree : RowTree) : Prop :=
  M.Yields modules a.query tree ∧
    ∀ value, a.value = some value → M.Yields modules (.model value) tree

end

theorem Request.Follows.comesTo (h : q.Follows M modules q') {s : SegmentId}
    (hs : q.ComesTo M modules s tree) : q'.ComesTo M modules s tree := by
  obtain ⟨seg, hseg, hyields⟩ := hs
  obtain ⟨seg', hseg', -, hsame⟩ := h s seg hseg
  exact ⟨seg', hseg', (hsame tree).mp hyields⟩

theorem Request.Follows.stores (h : q.Follows M modules q') {s : SegmentId} {id : RowId}
    {query : Query κ} (hs : q.Stores M modules s id query) : q'.Stores M modules s id query := by
  obtain ⟨seg, hseg, rfl, hsame⟩ := hs
  obtain ⟨seg', hseg', hid, hsame'⟩ := h s seg hseg
  exact ⟨seg', hseg', hid, fun tree => (hsame tree).trans (hsame' tree)⟩

theorem Request.Follows.fits (h : q.Follows M modules q') {D : RowId → RowTree}
    (hd : q'.Fits M modules D) : q.Fits M modules D := by
  intro s seg hseg
  obtain ⟨seg', hseg', hid, hsame⟩ := h s seg hseg
  rw [← hid]
  exact (hsame _).mpr (hd s seg' hseg')

theorem Request.Stores.comesTo {s : SegmentId} {id : RowId} {query : Query κ}
    (h : q.Stores M modules s id query) (hy : M.Yields modules query tree) :
    q.ComesTo M modules s tree := by
  obtain ⟨seg, hseg, -, hsame⟩ := h
  exact ⟨seg, hseg, (hsame tree).mp hy⟩

theorem Request.Follows.of_eq (h : q'.segments = q.segments) : q.Follows M modules q' := by
  intro s seg hseg
  exact ⟨seg, by rwa [h], rfl, fun _ => Iff.rfl⟩

theorem Request.Follows.of_push {new : Segment κ} (h : q'.segments = q.segments.push new) :
    q.Follows M modules q' := by
  intro s seg hseg
  obtain ⟨hlt, -⟩ := Array.getElem?_eq_some_iff.mp hseg
  refine ⟨seg, ?_, rfl, fun _ => Iff.rfl⟩
  rw [h, Array.getElem?_push, if_neg (Nat.ne_of_lt hlt)]
  exact hseg

/-- One segment is changed to one that comes to the same. -/
theorem Request.Follows.of_modify {s : SegmentId} {f : Segment κ → Segment κ}
    (h : q'.segments = q.segments.modify s.index f)
    (hf : ∀ seg, q.segments[s.index]? = some seg → (f seg).id = seg.id ∧
      ∀ tree, M.Yields modules seg.query tree ↔ M.Yields modules (f seg).query tree) :
    q.Follows M modules q' := by
  intro s' seg hseg
  rw [Stores, h, Array.getElem?_modify]
  split
  · rename_i hindex
    obtain ⟨hid, hsame⟩ := hf seg (hindex ▸ hseg)
    exact ⟨f seg, by rw [hseg]; rfl, hid, hsame⟩
  · exact ⟨seg, hseg, rfl, fun _ => Iff.rfl⟩

/-- A segment keeps what it has come to instead of what it has started from. -/
theorem Request.Follows.memo {s : SegmentId} {value : Model κ} (hs : q.ComesTo M modules s tree)
    (hvalue : M.Yields modules (.model value) tree)
    (h : q'.segments = q.segments.modify s.index fun seg => { seg with query := .model value }) :
    q.Follows M modules q' := by
  obtain ⟨seg, hseg, hyields⟩ := hs
  refine .of_modify h fun seg' hseg' => ⟨rfl, fun tree' => ?_⟩
  cases hseg.symm.trans hseg'
  constructor
  · intro h'
    rwa [h'.unique hyields]
  · intro h'
    rwa [h'.unique hvalue]

theorem Request.Follows.complete {s : SegmentId}
    (h : q'.segments = q.segments.modify s.index fun seg => { seg with completed := true }) :
    q.Follows M modules q' :=
  .of_modify h fun _ _ => ⟨rfl, fun _ => Iff.rfl⟩

/-! ## Faithful requests -/

def issuesOf (current : Option (Attempt κ)) : List (Issue κ) :=
  (current.map Attempt.issues).getD []

/-- The tree of a row. What an error row holds is no value. -/
def Row.tree? (row : Row) : Option RowTree :=
  match row.kind with
  | .model => RowTree.read? row.body
  | .error => none

/-- The row comes to the tree that its id is read as. -/
def Row.Stands (M : Meaning κ) (modules : ModuleSource κ) (q : Request κ) (row : Row) : Prop :=
  ∃ tree, row.tree? = some tree ∧
    ∀ D, q.Fits M modules D → tree.fill? (fun id => some (D id)) = some (D row.id)

/-- The root comes to the tree of the model. Every segment comes to some tree or was issued by the
attempt under way, which has not lost what its own segment comes to, and every finished row stands
for the tree of its id or was issued by that attempt. -/
structure Faithful (M : Meaning κ) (modules : ModuleSource κ) (tree : RowTree)
    (current : Option (Attempt κ)) (rows : List Row) (q : Request κ) : Prop where
  source : q.settings.modules = modules
  root : ∃ seg, q.segments[0]? = some seg ∧ seg.id = .ofNat 0 ∧ M.Yields modules seg.query tree
  known : ∀ s : SegmentId, s.index < q.segments.size → (∃ tree, q.ComesTo M modules s tree) ∨
    ∃ id query, .segment s id query ∈ issuesOf current
  stored : ∀ s id query, .segment s id query ∈ issuesOf current → q.Stores M modules s id query
  trying : ∀ a, current = some a → ∃ tree, q.ComesTo M modules a.segment tree ∧
    a.Reaches M modules tree
  rows : ∀ row ∈ rows, row.Stands M modules q ∨ ∃ e, .error row.id e ∈ issuesOf current

namespace Faithful

variable {current current' : Option (Attempt κ)} {rows rows' : List Row}

theorem root_later (h : Faithful M modules tree current rows q) (hf : q.Follows M modules q') :
    ∃ seg, q'.segments[0]? = some seg ∧ seg.id = .ofNat 0 ∧ M.Yields modules seg.query tree := by
  obtain ⟨seg, hseg, hid, hyields⟩ := h.root
  obtain ⟨seg', hseg', hid', hsame⟩ := hf ⟨0⟩ seg hseg
  exact ⟨seg', hseg', hid'.trans hid, (hsame tree).mp hyields⟩

/-- An attempt goes on, perhaps with one more row issued. -/
theorem go (h : Faithful M modules tree current rows q) (hf : q.Follows M modules q')
    (hm : q'.settings.modules = q.settings.modules)
    (hissues : ∀ i ∈ issuesOf current, i ∈ issuesOf current')
    (hstored : ∀ s id query, .segment s id query ∈ issuesOf current' →
      .segment s id query ∈ issuesOf current ∨ q'.Stores M modules s id query)
    (hsize : ∀ s : SegmentId, s.index < q'.segments.size → s.index < q.segments.size ∨
      ∃ id query, .segment s id query ∈ issuesOf current')
    (htrying : ∀ a, current' = some a → ∃ tree, q'.ComesTo M modules a.segment tree ∧
      a.Reaches M modules tree)
    (hrows : ∀ row ∈ rows', row ∈ rows ∨ ∃ e, .error row.id e ∈ issuesOf current') :
    Faithful M modules tree current' rows' q' where
  source := hm.trans h.source
  root := h.root_later hf
  known s hs := by
    rcases hsize s hs with hold | hnew
    · rcases h.known s hold with ⟨tree, hcomes⟩ | ⟨id, query, hi⟩
      · exact .inl ⟨tree, hf.comesTo hcomes⟩
      · exact .inr ⟨id, query, hissues _ hi⟩
    · exact .inr hnew
  stored s id query hi :=
    (hstored s id query hi).elim (fun hold => hf.stores (h.stored s id query hold)) fun hs => hs
  trying := htrying
  rows row hrow := by
    rcases hrows row hrow with hold | hnew
    · rcases h.rows row hold with ⟨tree, htree, hstands⟩ | ⟨e, hi⟩
      · exact .inl ⟨tree, htree, fun D hd => hstands D (hf.fits hd)⟩
      · exact .inr ⟨e, hissues _ hi⟩
    · exact .inr hnew

theorem move (h : Faithful M modules tree current rows q)
    (hissues : issuesOf current' = issuesOf current)
    (htrying : ∀ a, current' = some a → ∃ tree, q.ComesTo M modules a.segment tree ∧
      a.Reaches M modules tree) : Faithful M modules tree current' rows q := by
  refine ⟨h.source, h.root, ?_, ?_, htrying, ?_⟩
  · rw [hissues]
    exact h.known
  · rw [hissues]
    exact h.stored
  · rw [hissues]
    exact h.rows

theorem still (h : Faithful M modules tree current rows q) (hk : q.Keeps q')
    (hrows : rows'.Perm rows) : Faithful M modules tree current rows' q' := by
  have hf : q.Follows M modules q' := .of_eq hk.segments
  apply h.go hf hk.modules (fun i hi => hi) (fun s id query hi => .inl hi)
  · intro s hs
    exact .inl (hk.segments ▸ hs)
  · intro a ha
    obtain ⟨tree, hcomes, hreaches⟩ := h.trying a ha
    exact ⟨tree, hf.comesTo hcomes, hreaches⟩
  · exact fun row hrow => .inl (hrows.mem_iff.mp hrow)

theorem advance {a : Attempt κ} {value : Model κ} (h : Faithful M modules tree (some a) rows q)
    (hreaches : ∀ tree, a.Reaches M modules tree →
      Attempt.Reaches M modules { a with value := some value } tree) :
    Faithful M modules tree (some { a with value := some value }) rows q := by
  obtain ⟨tree', hcomes, ha⟩ := h.trying a rfl
  refine h.move rfl fun a' ha' => ?_
  cases ha'
  exact ⟨tree', hcomes, hreaches tree' ha⟩

theorem issue {a : Attempt κ} (h : Faithful M modules tree (some a) rows q) (i : Issue κ)
    (hf : q.Follows M modules q') (hm : q'.settings.modules = q.settings.modules)
    (hstored : ∀ s id query, i = .segment s id query → q'.Stores M modules s id query)
    (hsize : ∀ s : SegmentId, s.index < q'.segments.size → s.index < q.segments.size ∨
      ∃ id query, i = .segment s id query)
    (hrows : ∀ row ∈ rows', row ∈ rows ∨ ∃ e, i = .error row.id e) :
    Faithful M modules tree (some { a with issues := a.issues ++ [i] }) rows' q' := by
  have hlast : i ∈ a.issues ++ [i] := List.mem_append_right _ List.mem_cons_self
  refine h.go hf hm (fun i hi => List.mem_append_left _ hi) (fun s id query hi => ?_)
    (fun s hs => ?_) (fun a' ha' => ?_) fun row hrow => ?_
  · rcases List.mem_append.mp hi with hold | hnew
    · exact .inl hold
    · exact .inr (hstored s id query (List.mem_singleton.mp hnew).symm)
  · rcases hsize s hs with hold | ⟨id, query, rfl⟩
    · exact .inl hold
    · exact .inr ⟨id, query, hlast⟩
  · cases ha'
    obtain ⟨tree', hcomes, hreaches⟩ := h.trying a rfl
    exact ⟨tree', hf.comesTo hcomes, hreaches⟩
  · rcases hrows row hrow with hold | ⟨e, rfl⟩
    · exact .inl hold
    · exact .inr ⟨e, hlast⟩

/-- An attempt ends and has issued only rows that will come to trees. -/
theorem done (h : Faithful M modules tree current rows q) (hf : q.Follows M modules q')
    (hm : q'.settings.modules = q.settings.modules)
    (hsize : q'.segments.size = q.segments.size)
    (hdeferred : ∀ i ∈ issuesOf current, M.Deferred modules waits i)
    (hrows : ∀ row ∈ rows', row ∈ rows ∨ row.Stands M modules q') :
    Faithful M modules tree none rows' q' where
  source := hm.trans h.source
  root := h.root_later hf
  known s hs := by
    rcases h.known s (hsize ▸ hs) with ⟨tree, hcomes⟩ | ⟨id, query, hi⟩
    · exact .inl ⟨tree, hf.comesTo hcomes⟩
    · obtain ⟨-, s', id', query', tree, heq, hyields⟩ := hdeferred _ hi
      cases heq
      exact .inl ⟨tree, hf.comesTo ((h.stored s id query hi).comesTo hyields)⟩
  stored s id query hi := by cases hi
  trying a ha := by cases ha
  rows row hrow := by
    rcases hrows row hrow with hold | hnew
    · rcases h.rows row hold with ⟨tree, htree, hstands⟩ | ⟨e, hi⟩
      · exact .inl ⟨tree, htree, fun D hd => hstands D (hf.fits hd)⟩
      · obtain ⟨-, s, id, query, tree, heq, -⟩ := hdeferred _ hi
        cases heq
    · exact .inl hnew

end Faithful

/-! ## Attempts -/

namespace Attempt.Reaches

variable {a : Attempt κ} {model₀ : Model κ} {modules₀ : ModuleSource κ}

theorem value {start : Model κ} (h : a.Reaches M modules tree)
    (hs : (M.world waits r modules₀ model₀).Starts a.query (.ready start)) :
    Attempt.Reaches M modules { a with value := some start } tree := by
  refine ⟨h.1, fun value hvalue => ?_⟩
  cases hvalue
  obtain ⟨value, j, hstart, hj, htree⟩ := h.1
  suffices start = value from ⟨value, j, by rw [this]; rfl, hj, htree⟩
  cases hquery : a.query with
  | model value' =>
    rw [hquery] at hs hstart
    cases hs
    cases hstart
    rfl
  | load code =>
    rw [hquery] at hs hstart
    rcases hs value hstart with hready | ⟨-, t, ht⟩
    · cases hready
      rfl
    · cases ht

/-- An element that comes to a tree is advanced to a value that comes to it too, if it does not have
to wait. -/
theorem resolves {e : Element κ (Model κ)} {outcome : Resolution κ (Model κ)}
    (h : M.Yields modules (.model (.element e)) tree)
    (ho : (M.world waits r modules₀ model₀).Resolves e outcome) :
    (∃ next, outcome = .ready next ∧ M.Yields modules (.model next) tree) ∨
      ∃ t, outcome = .suspended t := by
  obtain ⟨value, j, hstart, hj, rfl⟩ := h
  cases hstart
  cases hj.parts with
  | leaf hleaf => cases hleaf
  | layer hlayer hnext hsome =>
    rcases Meaning.resolves_layer hlayer ho with rfl | ⟨-, -, hwait⟩
    · exact .inl ⟨_, rfl, Meaning.yields_model hnext⟩
    · exact .inr hwait

theorem layer {e : Element κ (Model κ)} {next : Model κ} (h : a.Reaches M modules tree)
    (hv : a.value = some (.element e))
    (hr : (M.world waits r modules₀ model₀).Resolves e (.ready next)) :
    Attempt.Reaches M modules { a with value := some next } tree := by
  refine ⟨h.1, fun value hvalue => ?_⟩
  cases hvalue
  rcases resolves (h.2 _ hv) hr with ⟨next', hready, hyields⟩ | ⟨t, ht⟩
  · cases hready
    exact hyields
  · cases ht

theorem not_fails {e : RenderError} (h : a.Reaches M modules tree) :
    ¬ Attempt.Fails (M.world waits r modules₀ model₀) modules a e := by
  intro hfails
  cases hfails with
  | start hv hs =>
    obtain ⟨value, j, hstart, hj, -⟩ := h.1
    cases hquery : a.query with
    | model value' =>
      rw [hquery] at hs
      cases hs
    | load code =>
      rw [hquery] at hs hstart
      rcases hs value hstart with hready | ⟨-, t, ht⟩
      · cases hready
      · cases ht
  | layer hv hr =>
    rcases resolves (h.2 _ hv) hr with ⟨next, hready, -⟩ | ⟨t, ht⟩
    · cases hready
    · cases ht
  | refusal hv hw =>
    obtain ⟨value, j, hstart, hj, -⟩ := h.2 _ hv
    cases hstart
    rcases Refusable.bind_error.mp hw with hrefused | ⟨j', is₁, is₂, -, hend, -⟩
    · exact hj.not_refused hrefused
    · exact Refusable.pure_error hend

/-- The text that an attempt ends with stands for what its segment comes to. -/
theorem writes {value : Model κ} {strict : Bool} {depth : Nat} {json : String}
    (h : a.Reaches M modules tree) (hv : a.value = some value)
    (hw : (M.world waits r modules₀ model₀).Serializes modules strict depth value (.ok json)
      a.issues) :
    ∃ written, RowTree.read? json = some written ∧
      M.Stands modules waits a.issues fun D =>
        written.fill? (fun id => some (D id)) = some tree := by
  obtain ⟨value', j, hstart, hj, rfl⟩ := h.2 value hv
  cases hstart
  obtain ⟨j', is₁, is₂, hj', hend, his⟩ := Refusable.bind_ok.mp hw
  obtain ⟨rfl, rfl⟩ := Refusable.pure_ok.mp hend
  rw [List.append_nil] at his
  rw [his]
  exact ⟨_, RowTree.read?_text _, (Meaning.position_stands hj' j hj).2⟩

end Attempt.Reaches

/-! ## Turns -/

/-- The row of a completed segment stands for what the segment comes to. -/
theorem Faithful.completed {current : Option (Attempt κ)} {rows : List Row} {a : Attempt κ}
    {seg : Segment κ} {value : Model κ} {strict : Bool} {depth : Nat} {json : String}
    {model₀ : Model κ} {modules₀ : ModuleSource κ} (h : Faithful M modules tree current rows q)
    (ha : current = some a) (hv : a.value = some value)
    (hw : (M.world waits r modules₀ model₀).Serializes modules strict depth value (.ok json)
      a.issues)
    (hseg : q.segments[a.segment.index]? = some seg) :
    (∀ i ∈ issuesOf current, M.Deferred modules waits i) ∧
      (Row.ofModel seg.id json).Stands M modules q := by
  obtain ⟨tree, ⟨seg', hseg', hyields⟩, hreaches⟩ := h.trying a ha
  cases hseg.symm.trans hseg'
  obtain ⟨written, hread, hdeferred, hfills⟩ := hreaches.writes hv hw
  have hissues : issuesOf current = a.issues := by rw [ha]; rfl
  rw [hissues]
  refine ⟨hdeferred, written, hread, fun D hd => ?_⟩
  have hown : D seg.id = tree := (hd a.segment seg hseg).unique hyields
  rw [Row.ofModel, hown]
  apply hfills D
  intro s id query hi
  obtain ⟨seg', hseg', rfl, hsame⟩ := h.stored s id query (hissues ▸ hi)
  exact (hsame _).mpr (hd s seg' hseg')

theorem Working.rowsOf_eq {W : World κ} (h : Working W r g v g' v') (q : Request κ) :
    rowsOf g' v'.log q = rowsOf g v.log q := by
  have hcarried : g'.carried = g.carried := by
    cases h <;> exact Hand.carried_eq rfl
  have hhanded : Event.handedIn v'.log = Event.handedIn v.log := by
    cases h with
    | begin | skip | attempt | leave | defer | complete | fail => exact Event.handedIn_quiet rfl _
    | report => exact (Event.handedIn_quiet rfl _).trans (Event.handedIn_quiet rfl _)
    | _ => rfl
  rw [rowsOf, hcarried, hhanded]
  rfl

theorem Request.stores_push (new : Segment κ) (h : q'.segments = q.segments.push new) :
    q'.Stores M modules ⟨q.segments.size⟩ new.id new.query := by
  refine ⟨new, ?_, rfl, fun _ => Iff.rfl⟩
  rw [h]
  exact Array.getElem?_push_size

theorem Working.faithful (h : Working (M.world waits r modules model) r g v g' v')
    (hq : v.request = some q) (hq' : v'.request = some q')
    (hf : Faithful M modules tree g.attempt? (rowsOf g v.log q) q)
    (hbegin : 0 < g.fresh → v'.log = .began r (decide (1 < q.running)) :: v.log → g.passes = [])
    (hlone : ∀ {b bs}, g.passes = b :: bs → bs = [])
    (hmodules : ∀ {b bs}, g.passes = b :: bs → b.modules = q.settings.modules) :
    Faithful M modules tree g'.attempt? (rowsOf g' v'.log q') q' := by
  rw [h.rowsOf_eq q']
  cases h with
  | begin hq₀ hm hfresh =>
    cases hq.symm.trans hq₀
    cases hq'
    have hnil : g.attempt? = none := by
      rw [Hand.attempt?, hbegin hfresh rfl]
      rfl
    rw [hnil] at hf
    exact hf.still ⟨rfl, rfl⟩ (.refl _)
  | skip hb | leave hb =>
    cases hq.symm.trans hq'
    rw [attempt?_top hb] at hf
    exact hf
  | @attempt _ b bs s ss seg hb hs ha hq₀ hseg hc =>
    cases hq.symm.trans hq'
    cases hq.symm.trans hq₀
    rw [attempt?_top hb, ha] at hf
    obtain ⟨hlt, -⟩ := Array.getElem?_eq_some_iff.mp hseg
    refine hf.move rfl fun a' ha' => ?_
    cases ha'
    rcases hf.known s hlt with ⟨tree', seg', hseg', hyields⟩ | ⟨id, query, hi⟩
    · cases hseg.symm.trans hseg'
      refine ⟨tree', ⟨seg, hseg, hyields⟩, hyields, fun value hv => ?_⟩
      cases hv
    · cases hi
  | @value b bs a start hb ha hv hs =>
    cases hq.symm.trans hq'
    rw [attempt?_top hb, ha] at hf
    exact hf.advance fun _ hreaches => hreaches.value hs
  | @layer b bs a e next hb ha hv hr =>
    cases hq.symm.trans hq'
    rw [attempt?_top hb, ha] at hf
    exact hf.advance fun _ hreaches => hreaches.layer hv hr
  | @memo _ b bs a e hb ha hv hq₀ =>
    cases hq.symm.trans hq₀
    cases hq'
    rw [attempt?_top hb, ha] at hf ⊢
    obtain ⟨tree', hcomes, hreaches⟩ := hf.trying a rfl
    have hfollows : q.Follows M modules { q with
        segments := q.segments.modify a.segment.index fun seg =>
          { seg with query := .model (.element e) } } := .memo hcomes (hreaches.2 _ hv) rfl
    refine hf.go hfollows rfl (fun i hi => hi) (fun s id query hi => .inl hi)
      (fun s hs => .inl (by simpa using hs)) ?_ fun row hrow => .inl hrow
    intro a' ha'
    cases ha'
    exact ⟨tree', hfollows.comesTo hcomes, hreaches⟩
  | @wait b bs a hb ha hi =>
    cases hq.symm.trans hq'
    rw [attempt?_top hb, ha] at hf
    have hnone : ∀ i ∈ issuesOf (some a), M.Deferred modules waits i := by
      intro i hmem
      rw [show issuesOf (some a) = [] from hi] at hmem
      cases hmem
    exact hf.done (.of_eq rfl) rfl rfl hnone fun row hrow => .inl hrow
  | @defer _ b bs a query hb ha hv hq₀ =>
    cases hq.symm.trans hq₀
    cases hq'
    rw [attempt?_top hb, ha] at hf
    refine hf.issue (.segment ⟨q.segments.size⟩ q.nextId query) (.of_push rfl) rfl ?_ ?_
      fun row hrow => .inl hrow
    · intro s id query' hi
      cases hi
      exact Request.stores_push { id := q.nextId, query := query } rfl
    · intro s hs
      rw [Array.size_push] at hs
      rcases Nat.lt_succ_iff_lt_or_eq.mp hs with hold | hlast
      · exact .inl hold
      · obtain rfl : s = ⟨q.segments.size⟩ := SegmentId.eq_of_index hlast
        exact .inr ⟨q.nextId, query, rfl⟩
  | @report _ b bs a e hb ha hv hq₀ =>
    cases hq.symm.trans hq₀
    cases hq'
    rw [attempt?_top hb, ha] at hf
    have hrows : (rowsOf g v.log
        { q with errorRows := q.errorRows ++ [Row.ofError q.nextId e] }).Perm
          (Row.ofError q.nextId e :: rowsOf g v.log q) := rowsOf_cons (q.queued_error _)
    refine hf.issue (.error q.nextId e) (.of_eq rfl) rfl ?_ (fun s hs => .inl hs) ?_
    · intro s id query hi
      cases hi
    · intro row hrow
      rcases List.mem_cons.mp (hrows.mem_iff.mp hrow) with rfl | hold
      · exact .inr ⟨e, rfl⟩
      · exact .inl hold
  | @complete _ b bs a seg strict depth value json hb ha hv hw hq₀ hseg =>
    cases hq.symm.trans hq₀
    cases hq'
    rw [attempt?_top hb, ha] at hf
    rw [hmodules hb, hf.source] at hw
    obtain ⟨hdeferred, written, hread, hfills⟩ := hf.completed rfl hv hw hseg
    have hfollows : q.Follows M modules { q with
        segments := q.segments.modify a.segment.index fun seg => { seg with completed := true }
        modelRows := q.modelRows ++ [Row.ofModel seg.id json] } := .complete rfl
    have hrows : (rowsOf g v.log
        { q with modelRows := q.modelRows ++ [Row.ofModel seg.id json] }).Perm
          (Row.ofModel seg.id json :: rowsOf g v.log q) := rowsOf_cons (q.queued_model _)
    refine hf.done hfollows rfl (by simp) hdeferred ?_
    intro row hrow
    rcases List.mem_cons.mp (hrows.mem_iff.mp hrow) with rfl | hold
    · exact .inr ⟨written, hread, fun D hd => hfills D (hfollows.fits hd)⟩
    · exact .inl hold
  | @fail _ b bs a seg e hb ha hw hq₀ hseg =>
    rw [attempt?_top hb, ha] at hf
    obtain ⟨tree', -, hreaches⟩ := hf.trying a rfl
    rw [hmodules hb, hf.source] at hw
    exact absurd hw hreaches.not_fails
  | finish hb hs ha =>
    cases hq.symm.trans hq'
    rw [attempt?_top hb, ha] at hf
    rw [Hand.attempt?, hlone hb]
    exact hf

theorem Turn.faithful (hc : Course (M.world waits r modules model) r g v)
    (ht : Turn (M.world waits r modules model) r g v g' v') (hcalm : v'.Calm r)
    (hq : v.request = some q) (hq' : v'.request = some q')
    (hf : Faithful M modules tree g.attempt? (rowsOf g v.log q) q) :
    Faithful M modules tree g'.attempt? (rowsOf g' v'.log q') q' := by
  rcases ht.still_or_working hc hcalm hq hq' with ⟨hkeeps, hattempt, hstill⟩ | ht'
  · rw [hattempt]
    exact hf.still hkeeps hstill.rows
  · exact ht'.faithful hq hq' hf (fun hfresh hlog => hc.passes_of_began hq hfresh hcalm hlog)
      (hc.passes_eq (ht.calm hcalm)) fun hb => (hc.coherent.fits_top hb hq).modules

theorem Created.faithful (h : Created r g v) (settings : RequestSettings κ)
    (hmodel : M.Yields settings.modules (.model model) tree) :
    Faithful M settings.modules tree g.attempt? (rowsOf g v.log (.ofModel settings model))
      (.ofModel settings model) := by
  obtain ⟨log, hlog, hasides⟩ := h.log
  have hnone : g.attempt? = none := by
    rw [Hand.attempt?, h.passes]
    rfl
  have hrows : rowsOf g v.log (.ofModel settings model) = [] := by
    rw [rowsOf, Hand.carried, h.delivery, hlog, Event.handedIn_quiet rfl,
      (Event.IsAside.quiets hasides).2]
    rfl
  rw [hnone, hrows]
  constructor
  case source => rfl
  case root => exact ⟨_, rfl, rfl, hmodel⟩
  case known =>
    intro s hs
    obtain rfl : s = ⟨0⟩ := SegmentId.eq_of_index (Nat.lt_one_iff.mp hs)
    exact .inl ⟨tree, _, rfl, hmodel⟩
  case stored =>
    intro s id query hi
    cases hi
  case trying =>
    intro a ha
    cases ha
  case rows =>
    intro row hrow
    cases hrow

/-- Without nested passes a request over a pure model is faithful all along. -/
theorem Course.faithful (h : Course (M.world waits r modules model) r g v) (hcalm : v.Calm r)
    (hq : v.request = some q) (hmodel : M.Yields modules (.model model) tree) :
    Faithful M modules tree g.attempt? (rowsOf g v.log q) q := by
  refine Course.induct_origin (P := fun g v q => v.Calm r →
    Faithful M modules tree g.attempt? (rowsOf g v.log q) q) ?_ ?_ h hq hcalm
  · intro g v settings model' ho hnew _
    obtain ⟨rfl, rfl⟩ := ho rfl
    exact hnew.faithful settings hmodel
  · exact fun hc ht hq hq' ih hcalm => ht.faithful hc hcalm hq hq' (ih (ht.calm hcalm))

end TreeStream
