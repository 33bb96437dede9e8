import TreeStream.Proofs.View

/-!
# The courses that a request can take

A turn is one step that matters to a request, with the hand and the view before and after it. The
turns of four kinds are listed apart: what happens around the request, calls on it, the steps of a
flush and those of a work pass. A course is any number of turns from a host without the request on.
Nothing is assumed about nested passes or about the destination, and user code is only known as far
as the world tells.
-/

namespace TreeStream

variable {κ : Type}

section

variable (W : World κ) (r : RequestId)

/-- Steps around the request, and what user code does to its pings. -/
inductive Ambient : Hand κ → View κ → Hand κ → View κ → Prop
  | mark {g v} (b : Bool) (h : g.passes = [] ∨ b = true) : Ambient g v g { v with inPass := b }
  | newPromise {g v} (h : W.Opens) :
    Ambient g v g { v with promises := v.promises.push {} }
  | settle {g v p cell} (outcome : Outcome κ) (hp : v.promises[p]? = some cell)
    (hs : cell.status = .pending) :
    Ambient g v { g with pings := pingsOf r cell.reactions outcome ++ g.pings }
      { v with promises :=
          v.promises.modify p fun _ => { status := .settled outcome, reactions := [] } }
  | subscribe {g v p cell reaction} (hp : v.promises[p]? = some cell)
    (hs : cell.status = .pending) (h : W.Free ∨ reaction.Foreign r) :
    Ambient g v g
      { v with promises :=
          v.promises.modify p fun cell => { cell with reactions := cell.reactions ++ [reaction] } }
  | register {g v p cell s} (hp : v.promises[p]? = some cell) (hs : cell.status = .pending)
    (h : s ∈ g.pings) :
    Ambient g v { g with pings := g.pings.erase s }
      { v with promises :=
          v.promises.modify p fun cell =>
            { cell with reactions := cell.reactions ++ [Reaction.ofWaiting r s] } }
  | stray {g v} (h : W.Free) (pings : List SegmentId) : Ambient g v { g with pings := pings } v
  | create {g v} (settings : RequestSettings κ) (model : Model κ) (h : v.request = none)
    (ho : W.origin r settings.modules model) :
    Ambient g v g
      { v with
        request := some (.ofModel settings model)
        log := .issued r (RowId.ofNat 0) :: v.log }
  | adjust {g v q} (hq : v.request = some q) (sink : Sink) (fatal : Option RenderError)
    (held : Bool) (h : held = true → q.held = true) :
    Ambient g v g
      { v with
        request := some
          { q with settings := { q.settings with sink := sink }, fatal := fatal, held := held } }
  | say {g v} (e : Event) (h : e.IsAside) : Ambient g v g { v with log := e :: v.log }

/-- Steps of calls on the request and of its queue. -/
inductive Visit : Hand κ → View κ → Hand κ → View κ → Prop
  | enter {g v q} (hq : v.request = some q) (h : q.held = true) :
    Visit g v { g with fresh := g.fresh + 1 }
      { v with request := some { q with running := q.running + 1 } }
  | leave {g v q} (hq : v.request = some q) (h : 0 < g.fresh) :
    Visit g v { g with fresh := g.fresh - 1 }
      { v with request := some { q with running := q.running - 1 } }
  | pop {g v q} (hq : v.request = some q) (h : 0 < v.passes) :
    Visit g v { g with fresh := g.fresh + 1, due := g.due + 1 }
      { v with
        request := some { q with running := q.running + 1 }
        passes := v.passes - 1 }
  | ask {g v q} (hq : v.request = some q) (h : 0 < g.fresh) :
    Visit g v { g with due := g.due + 1 } v
  | start {g v q} (hq : v.request = some q) (h : 0 < g.fresh) :
    Visit g v g
      { v with
        request := some { q with flowing := true }
        passes := v.passes + 1
        log := .scheduled r :: .started r :: v.log }
  | flowAgain {g v q} (hq : v.request = some q) (h : q.flushing = true) :
    Visit g v g
      { v with
        request := some { q with flowing := true }
        log := .flowed r true :: v.log }
  | ping {g v q s} (hq : v.request = some q) (ha : v.Alive) (hs : s ∈ g.pings)
    (h : q.pinged ≠ []) :
    Visit g v { g with pings := g.pings.erase s }
      { v with
        request := some { q with pinged := q.pinged ++ [s] }
        log := .pinged r s :: v.log }
  | firstPing {g v q s} (hq : v.request = some q) (ha : v.Alive) (hs : s ∈ g.pings)
    (h : q.pinged = []) :
    Visit g v { g with pings := g.pings.erase s }
      { v with
        request := some { q with pinged := [s] }
        passes := v.passes + 1
        log := .scheduled r :: .pinged r s :: v.log }
  | lostPing {g v s} (ha : ¬ v.Alive) (hs : s ∈ g.pings) :
    Visit g v { g with pings := g.pings.erase s } v

/-- Steps of a flush. -/
inductive Flushing : Hand κ → View κ → Hand κ → View κ → Prop
  | openOwn {g v q} (hq : v.request = some q) (hf : q.flushing = false) (h : 0 < g.fresh) :
    Flushing g v
      { g with fresh := g.fresh - 1, delivery := some { ofPass := false, idle := q.closed } }
      { v with
        request := some { q with flowing := true, flushing := true }
        log := .flowed r false :: v.log }
  | openLast {g v q b l} (hq : v.request = some q) (hf : q.flushing = false)
    (hb : g.passes = b :: l) (hs : b.batch = []) (ha : b.attempt = none) (h : q.flowing = true)
    (hcur : b.current = none) :
    Flushing g v { g with delivery := some { ofPass := true, idle := q.closed } }
      { v with request := some { q with flushing := true } }
  | take {g v q d row rest} (kind : RowKind) (hq : v.request = some q) (hd : g.delivery = some d)
    (hn : d.Clear) (hs : d.stage = .writing) (hd' : d.decided = false)
    (hr : q.rows kind = row :: rest)
    (hw : kind = .error → d.saturated = true ∨ d.modelDry = true) :
    Flushing g v { g with delivery := some { d with row := some row } }
      { v with request := some { q.setRows kind rest with pending := q.pending - 1 } }
  | runDry {g v q d} (kind : RowKind) (hq : v.request = some q) (hd : g.delivery = some d)
    (hr : q.rows kind = []) :
    Flushing g v { g with delivery := some (d.runDry kind) } v
  | calling {g v q d} (c : SinkCall) (hq : v.request = some q) (hd : g.delivery = some d)
    (hc : d.Expects c) (hp : c = .close → q.pending = 0) :
    Flushing g v { g with delivery := some { d with asked := some c } }
      { v with log := .calling r c q.pending :: v.log }
  | called {g v} {d : Delivery} (c : SinkCall) (answer : Except RenderError Bool)
    (hd : g.delivery = some { d with asked := some c }) (hc : d.Expects c) :
    Flushing g v { g with delivery := some (d.called c answer) }
      { v with log := .called r c answer :: v.log }
  | stop {g v q d} (hq : v.request = some q) (hd : g.delivery = some d) (h : d.halting = true) :
    Flushing g v { g with delivery := some { d with halting := false } }
      { v with request := some { q with flowing := false } }
  | unfinished {g v q d} (hq : v.request = some q) (hd : g.delivery = some d) (hn : d.Clear)
    (hs : d.stage = .flushed) (h : q.pending ≠ 0) :
    Flushing g v { g with delivery := some { d with decided := true, stage := .over } } v
  | close {g v q d} (hq : v.request = some q) (hd : g.delivery = some d) (hn : d.Clear)
    (hs : d.stage = .flushed) (hi : d.idle = false) (hd' : d.decided = false)
    (h : q.pending = 0) :
    Flushing g v { g with delivery := some { d with decided := true, closing := true } }
      { v with request := some { q with closed := true } }
  | shutOwn {g v q d} (hq : v.request = some q) (hd : g.delivery = some d) (h : d.Done)
    (ho : d.ofPass = false) :
    Flushing g v { g with fresh := g.fresh + 1, delivery := none }
      { v with request := some { q with flushing := false } }
  | shutLast {g v q d b l} (hq : v.request = some q) (hd : g.delivery = some d) (h : d.Done)
    (ho : d.ofPass = true) (hb : g.passes = b :: l) (hs : b.batch = []) (ha : b.attempt = none)
    (hcur : b.current = none) :
    Flushing g v { g with fresh := g.fresh + 1, passes := l, delivery := none }
      { v with request := some { q with flushing := false } }

/-- Why an attempt ends with an error row. -/
inductive Attempt.Fails (modules : ModuleSource κ) (a : Attempt κ) (e : RenderError) : Prop
  | start (hv : a.value = none) (h : W.Starts a.query (.failed e))
  | layer {element} (hv : a.value = some (.element element)) (h : W.Resolves element (.failed e))
  | refusal {value strict depth} (hv : a.value = some value)
    (h : W.Serializes modules strict depth value (.error e) a.issues)

/-- Steps of a work pass. -/
inductive Working : Hand κ → View κ → Hand κ → View κ → Prop
  | begin {g v q} (hq : v.request = some q) (hm : v.inPass = true) (h : 0 < g.fresh) :
    Working g v
      { g with
        fresh := g.fresh - 1
        due := g.due - 1
        passes :=
          { modules := q.settings.modules, batch := q.pinged, inFlush := g.delivery.isSome } ::
            g.passes }
      { v with
        request := some { q with pinged := [] }
        log := .began r (decide (1 < q.running)) :: v.log }
  | skip {g v q b l s ss seg} (hb : g.passes = b :: l) (hs : b.batch = s :: ss)
    (ha : b.attempt = none) (hq : v.request = some q) (hseg : q.segments[s.index]? = some seg)
    (hc : seg.completed = true) (hcur : b.current = none) :
    Working g v { g with passes := { b with batch := ss, current := some s } :: l }
      { v with log := .retried r s :: v.log }
  | attempt {g v q b l s ss seg} (hb : g.passes = b :: l) (hs : b.batch = s :: ss)
    (ha : b.attempt = none) (hq : v.request = some q) (hseg : q.segments[s.index]? = some seg)
    (hc : seg.completed = false) (hd : g.delivery.isSome = b.inFlush) (hcur : b.current = none) :
    Working g v
      { g with
        passes :=
          { b with
            batch := ss
            current := some s
            attempt := some { segment := s, query := seg.query } } :: l }
      { v with log := .retried r s :: v.log }
  | leave {g v b l s} (hb : g.passes = b :: l) (ha : b.attempt = none)
    (hcur : b.current = some s) :
    Working g v { g with passes := { b with current := none } :: l }
      { v with log := .left r s :: v.log }
  | value {g v b l a value} (hb : g.passes = b :: l) (ha : b.attempt = some a)
    (hv : a.value = none) (h : W.Starts a.query (.ready value)) :
    Working g v
      { g with passes := { b with attempt := some { a with value := some value } } :: l } v
  | memo {g v q b l a e} (hb : g.passes = b :: l) (ha : b.attempt = some a)
    (hv : a.value = some (.element e)) (hq : v.request = some q) :
    Working g v g
      { v with
        request := some
          { q with
            segments := q.segments.modify a.segment.index fun seg =>
              { seg with query := .model (.element e) } } }
  | layer {g v b l a e next} (hb : g.passes = b :: l) (ha : b.attempt = some a)
    (hv : a.value = some (.element e)) (h : W.Resolves e (.ready next)) :
    Working g v
      { g with passes := { b with attempt := some { a with value := some next } } :: l } v
  | wait {g v b l a} (hb : g.passes = b :: l) (ha : b.attempt = some a) (hi : a.issues = []) :
    Working g v
      { g with pings := a.segment :: g.pings, passes := { b with attempt := none } :: l } v
  | defer {g v q b l a} (query : Query κ) (hb : g.passes = b :: l) (ha : b.attempt = some a)
    (hv : a.value.isSome) (hq : v.request = some q) :
    Working g v
      { g with
        pings := ⟨q.segments.size⟩ :: g.pings
        passes :=
          { b with
            attempt := some
              { a with issues := a.issues ++ [.segment ⟨q.segments.size⟩ q.nextId query] } } :: l }
      { v with
        request := some
          { q with
            pending := q.pending + 1
            nextId := q.nextId.next
            segments := q.segments.push { id := q.nextId, query := query } }
        log := .issued r q.nextId :: v.log }
  | report {g v q b l a} (e : RenderError) (hb : g.passes = b :: l) (ha : b.attempt = some a)
    (hv : a.value.isSome) (hq : v.request = some q) :
    Working g v
      { g with passes :=
          { b with attempt := some { a with issues := a.issues ++ [.error q.nextId e] } } :: l }
      { v with
        request := some
          { q with
            pending := q.pending + 1
            nextId := q.nextId.next
            errorRows := q.errorRows ++ [Row.ofError q.nextId e] }
        log := .completed r (Row.ofError q.nextId e) :: .issued r q.nextId :: v.log }
  | complete {g v q b l a seg strict depth value json} (hb : g.passes = b :: l)
    (ha : b.attempt = some a) (hv : a.value = some value)
    (h : W.Serializes b.modules strict depth value (.ok json) a.issues)
    (hq : v.request = some q) (hseg : q.segments[a.segment.index]? = some seg) :
    Working g v { g with passes := { b with attempt := none } :: l }
      { v with
        request := some
          { q with
            segments := q.segments.modify a.segment.index fun seg => { seg with completed := true }
            modelRows := q.modelRows ++ [Row.ofModel seg.id json] }
        log := .completed r (Row.ofModel seg.id json) :: v.log }
  | fail {g v q b l a seg e} (hb : g.passes = b :: l) (ha : b.attempt = some a)
    (h : Attempt.Fails W b.modules a e) (hq : v.request = some q)
    (hseg : q.segments[a.segment.index]? = some seg) :
    Working g v { g with passes := { b with attempt := none } :: l }
      { v with
        request := some
          { q with
            segments := q.segments.modify a.segment.index fun seg => { seg with completed := true }
            errorRows := q.errorRows ++ [Row.ofError seg.id e] }
        log := .completed r (Row.ofError seg.id e) :: v.log }
  | finish {g v q b l} (hb : g.passes = b :: l) (hs : b.batch = []) (ha : b.attempt = none)
    (hq : v.request = some q) (hd : g.delivery.isSome = b.inFlush)
    (h : q.flowing = false ∨ b.inFlush = true) (hcur : b.current = none) :
    Working g v { g with fresh := g.fresh + 1, passes := l } v

/-- A step that matters to the request. -/
inductive Turn (g : Hand κ) (v : View κ) (g' : Hand κ) (v' : View κ) : Prop
  | ambient (h : Ambient W r g v g' v')
  | visit (h : Visit r g v g' v')
  | flushing (h : Flushing r g v g' v')
  | working (h : Working W r g v g' v')

/-- What turns lead to from a host without the request. Promises may be settled already. -/
inductive Course : Hand κ → View κ → Prop
  | start {promises : Array (PromiseCell κ)}
    (h : ∀ cell ∈ promises, cell.reactions = [] ∧ (W.Opens ∨ cell.status ≠ .pending)) :
    Course {} { request := none, promises := promises, passes := 0, inPass := false, log := [] }
  | turn {g v g' v'} (hc : Course g v) (ht : Turn W r g v g' v') : Course g' v'

end

end TreeStream
