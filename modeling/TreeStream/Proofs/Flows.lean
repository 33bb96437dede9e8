import TreeStream.Proofs.Accounting
import TreeStream.Proofs.Sparing

/-!
# How a stream flows

The rows of a stream go through a channel that is watched by one driver. Its flow is what the host
shows of this: the channel, the flags of the request, the queued tasks of the driver, and the events
of the flow. This module tells what a flush, a wake, the driver and the consumer do to a flow, and
which accounts each of them keeps.

A flush may write two rows too many, one of each kind, but then the flow has stopped, and only a wake
resumes it. So a flow that is resumed and a wake that is outstanding weigh two rows each, and what
weighs on the channel (`Flow.load`) stays bounded.
-/

namespace TreeStream

variable {κ : Type}

/-! ## Channels -/

namespace Channel

def push (c : Channel) (rows : List Row) : Channel :=
  { c with rows := c.rows ++ rows.map Row.text, buffered := c.buffered + rows.length }

/-- The consumer is there, and rows may follow. -/
structure Open (c : Channel) : Prop where
  gone : c.consumerGone = false
  completed : c.completed = false

/-- The answer to a call of the destination, whether the driver is woken, and the channel after
it. -/
def call (c : Channel) : SinkCall → Except RenderError Bool × Bool × Channel
  | .write row => ((c.write row).1, false, (c.write row).2)
  | .close => (.ok true, c.close.1, c.close.2)
  | _ => (.ok true, false, c)

/-- The wakes that the driver has still to take. -/
def wakes (c : Channel) : Nat := (decide (c.driver = .woken)).toNat + c.permit.toNat

/-- How far the rows reach, if a channel below its limit counts as one that lacks a single row. -/
def level (c : Channel) : Nat := max c.buffered (c.limit - 1)

theorem answer_eq (c : Channel) (s : SinkCall) :
    (Sink.channel c).answer s = ((c.call s).1, (c.call s).2.1, .channel (c.call s).2.2) := by
  cases s <;> rfl

theorem push_nil (c : Channel) : c.push [] = c := by
  simp [push]

theorem push_push (c : Channel) (rows rows' : List Row) :
    (c.push rows).push rows' = c.push (rows ++ rows') := by
  simp [push, Nat.add_assoc]

theorem Open.write {c : Channel} (h : c.Open) (row : Row) :
    c.write row = (.ok (decide (c.buffered + 1 < c.limit)), c.push [row]) := by
  simp [Channel.write, h.gone, h.completed, push]

theorem Open.push {c : Channel} (h : c.Open) (rows : List Row) : (c.push rows).Open :=
  ⟨h.gone, h.completed⟩

theorem write_of_not_open {c : Channel} (h : ¬ c.Open) (row : Row) :
    ∃ e, c.write row = (.error e, c) := by
  unfold write
  split
  · exact ⟨_, rfl⟩
  · split
    · exact ⟨_, rfl⟩
    · exact absurd ⟨by simp_all, by simp_all⟩ h

@[simp] theorem limit_wake (c : Channel) : c.wake.2.limit = c.limit := by
  cases hd : c.driver <;> simp [wake, hd]

@[simp] theorem buffered_wake (c : Channel) : c.wake.2.buffered = c.buffered := by
  cases hd : c.driver <;> simp [wake, hd]

@[simp] theorem consumerGone_wake (c : Channel) : c.wake.2.consumerGone = c.consumerGone := by
  cases hd : c.driver <;> simp [wake, hd]

theorem wakes_le (c : Channel) : c.wakes ≤ 2 :=
  Nat.add_le_add (Bool.toNat_le _) (Bool.toNat_le _)

theorem buffered_le_level (c : Channel) : c.buffered ≤ c.level := Nat.le_max_left _ _

end Channel

/-- The rows go up to the limit, where the writing stops, and at most `k` rows too far. -/
structure Fits (c : Channel) (rows : List Row) (stopped : Bool) (k : Nat) : Prop where
  passed : stopped = false → (c.push rows).level = c.level
  filled : stopped = true → c.limit ≤ (c.push rows).buffered
  excess : (c.push rows).level ≤ c.level + k

namespace Fits

variable {c : Channel} {rows rows' : List Row} {stopped stopped' : Bool} {k k' : Nat}

theorem nil (c : Channel) (k : Nat) : Fits c [] false k where
  passed _ := by rw [c.push_nil]
  filled hs := nomatch hs
  excess := by
    rw [c.push_nil]
    omega

theorem room (h : c.buffered + 1 < c.limit) (row : Row) : Fits c [row] false 0 := by
  have hlevel : (c.push [row]).level = c.level := by
    simp only [Channel.level, Channel.push, List.length_singleton]
    omega
  exact ⟨fun _ => hlevel, fun hs => (nomatch hs), Nat.le_of_eq hlevel⟩

theorem stop (h : ¬ c.buffered + 1 < c.limit) (row : Row) : Fits c [row] true 1 := by
  refine ⟨fun hs => (nomatch hs), fun _ => Nat.not_lt.mp h, ?_⟩
  simp only [Channel.level, Channel.push, List.length_singleton]
  omega

theorem append (h : Fits c rows stopped k) (h' : Fits (c.push rows) rows' stopped' k') :
    Fits c (rows ++ rows') (stopped || stopped') (k + k') := by
  refine ⟨fun hs => ?_, fun hs => ?_, ?_⟩ <;> rw [← Channel.push_push]
  · rw [Bool.or_eq_false_iff] at hs
    exact (h'.passed hs.2).trans (h.passed hs.1)
  · cases (Bool.or_eq_true _ _).mp hs with
    | inl hs => exact Nat.le_add_right_of_le (h.filled hs)
    | inr hs => exact h'.filled hs
  · have hexcess := h.excess
    have hexcess' := h'.excess
    omega

end Fits

/-! ## Flows -/

/-- What a host shows of the flow of a stream. -/
structure Flow (κ : Type) where
  settings : RequestSettings κ
  channel : Channel
  held : Bool := true
  running : Nat := 0
  flowing : Bool := false
  closed : Bool := false
  flushing : Bool := false
  fatal : Option RenderError := none
  drivers : Nat := 1
  log : List Event := []

def Event.IsTalk : Event → Prop
  | calling _ _ _ => True
  | called _ _ (.ok _) => True
  | _ => False

/-- The log goes on with talk in which just these rows are handed over. -/
structure Told (rows : List Row) (log log' : List Event) : Prop where
  talk : ∃ events, log' = events ++ log ∧ ∀ e ∈ events, e.IsTalk
  handed : Event.handedIn log' = Event.handedIn log ++ rows

namespace Told

variable {rows rows' : List Row} {log log' log'' : List Event}

theorem refl (log : List Event) : Told [] log log :=
  ⟨⟨[], rfl, fun _ he => (nomatch he)⟩, (List.append_nil _).symm⟩

theorem trans (h : Told rows log log') (h' : Told rows' log' log'') :
    Told (rows ++ rows') log log'' := by
  obtain ⟨events, rfl, htalk⟩ := h.talk
  obtain ⟨events', rfl, htalk'⟩ := h'.talk
  refine ⟨⟨events' ++ events, (List.append_assoc ..).symm, fun e he => ?_⟩, ?_⟩
  · exact (List.mem_append.mp he).elim (htalk' e) (htalk e)
  · rw [h'.handed, h.handed, List.append_assoc]

/-- One call of the destination that is answered without a failure. -/
theorem call {r : RequestId} {c : SinkCall} (welcome : Bool) (n : Nat) (log : List Event) :
    Told c.row?.toList log (.called r c (.ok welcome) :: .calling r c n :: log) := by
  refine ⟨⟨[.called r c (.ok welcome), .calling r c n], rfl, ?_⟩, ?_⟩
  · rintro e (_ | ⟨_, _ | ⟨_, he⟩⟩)
    · trivial
    · trivial
    · cases he
  · rw [Event.handedIn_cons, Event.handedIn_quiet rfl]
    cases c <;> rfl

theorem mem_iff (h : Told rows log log') {e : Event} (he : ¬ e.IsTalk) : e ∈ log' ↔ e ∈ log := by
  obtain ⟨events, rfl, htalk⟩ := h.talk
  rw [List.mem_append]
  exact or_iff_right fun hmem => he (htalk e hmem)

end Told

namespace Flow

variable {f f' : Flow κ} {r : RequestId} {limit slack : Nat} {received : List String}
  {rows : List Row} {stopped : Bool} {log : List Event}

/-- No user code stands in front of the channel, and passes are tasks. -/
def outline (f : Flow κ) : Request κ where
  settings := { f.settings with sink := .channel f.channel, guard := none, queue := .tasks }
  held := f.held
  running := f.running
  nextId := .ofNat 0
  segments := #[]
  pending := 0
  pinged := []
  flowing := f.flowing
  closed := f.closed
  flushing := f.flushing
  fatal := f.fatal

def line (f : Flow κ) : Line κ where
  request := some f.outline
  drivers := f.drivers
  passes := 0
  log := f.log

theorem quiet_line (f : Flow κ) : f.line.Quiet where
  passes := rfl
  queue q hq := by
    cases hq
    rfl
  sink q hq := by
    cases hq
    rfl

/-- What weighs on the channel: its rows, a flow that goes on, and the wakes that can resume it. -/
def load (f : Flow κ) : Nat := f.channel.level + 2 * f.flowing.toNat + 2 * f.channel.wakes

/-! ## What happens to a flow -/

/-- Rows are written, after which the flow may stop. -/
def pour (f : Flow κ) (rows : List Row) (stopped : Bool) (log : List Event) : Flow κ :=
  { f with channel := f.channel.push rows, flowing := f.flowing && !stopped, log := log }

/-- A wake reaches the driver or is stored. -/
def wake (f : Flow κ) : Flow κ :=
  { f with channel := f.channel.wake.2, drivers := f.drivers + f.channel.wake.1.toNat }

def finish (f : Flow κ) : Flow κ :=
  { f with channel := { f.channel with completed := true }, closed := true }.wake

def abandon (f : Flow κ) : Flow κ :=
  { f with channel := { f.channel with consumerGone := true } }.wake

def take (f : Flow κ) (rest : List String) : Flow κ :=
  { f with channel := { f.channel with rows := rest, buffered := f.channel.buffered - 1 } }

def drive (f : Flow κ) (state : DriverState) : Flow κ :=
  { f with channel := { f.channel with driver := state } }

def run (f : Flow κ) : Flow κ := { f.drive .running with drivers := f.drivers - 1 }

def spend (f : Flow κ) : Flow κ := { f with channel := { f.channel with permit := false } }

def stop (f : Flow κ) : Flow κ := { f.drive .stopped with held := false }

def resume (f : Flow κ) (e : Event) : Flow κ := { f with flowing := true, log := e :: f.log }

/-- What writing does to a flow, with at most `k` rows too many. A channel that is not open takes no
row, and the flow stays as it was. -/
inductive Pours (f : Flow κ) (k : Nat) : Except RenderError Unit → Flow κ → Prop
  | refused (ho : ¬ f.channel.Open) (e : RenderError) (log : List Event) :
    Pours f k (.error e) { f with log := log }
  | poured {rows : List Row} {stopped : Bool} {log : List Event}
    (ho : f.channel.Open ∨ rows = [] ∧ stopped = false) (hf : Fits f.channel rows stopped k)
    (hlog : Told rows f.log log) : Pours f k (.ok ()) (f.pour rows stopped log)

/-- What a flush does to a flow: nothing if the request is closed, or it writes at most one row of
each kind too many, and may close the channel in the end. -/
inductive Flushes (f : Flow κ) : Except RenderError Unit → Flow κ → Prop
  | idle (hc : f.closed = true) : Flushes f (.ok ()) f
  | written {result : Except RenderError Unit} {f' : Flow κ} (hc : f.closed = false)
    (hp : f.Pours 2 result f') : Flushes f result f'
  | closed {f' : Flow κ} (hp : f.Pours 2 (.ok ()) f') : Flushes f (.ok ()) f'.finish

theorem pour_nil (f : Flow κ) (log : List Event) :
    f.pour [] false log = { f with log := log } := by
  simp [pour, Channel.push_nil]

theorem Pours.talk {k : Nat} {result : Except RenderError Unit} (h : f.Pours k result f')
    (hlog : Told [] f'.log log) : f.Pours k result { f' with log := log } := by
  cases h with
  | refused ho e _ => exact .refused ho e log
  | poured ho hf hold =>
    have htold := hold.trans hlog
    rw [List.append_nil] at htold
    exact .poured ho hf htold

theorem Pours.trans {k k' : Nat} {result : Except RenderError Unit} {f'' : Flow κ}
    (h : f.Pours k (.ok ()) f') (h' : f'.Pours k' result f'') : f.Pours (k + k') result f'' := by
  cases h with
  | @poured rows stopped log ho hf hlog =>
    cases h' with
    | refused ho' e log' =>
      have hclosed : ¬ f.channel.Open := fun hopen => ho' (hopen.push rows)
      obtain ⟨rfl, rfl⟩ := ho.resolve_left hclosed
      rw [pour_nil]
      exact .refused hclosed e log'
    | @poured rows' stopped' log' ho' hf' hlog' =>
      have hpour : (f.pour rows stopped log).pour rows' stopped' log' =
          f.pour (rows ++ rows') (stopped || stopped') log' := by
        simp [pour, Channel.push_push, Bool.and_assoc]
      rw [hpour]
      refine .poured ?_ (hf.append hf') (hlog.trans hlog')
      rcases ho with hopen | ⟨rfl, rfl⟩
      · exact .inl hopen
      · rcases ho' with hopen' | ⟨rfl, rfl⟩
        · exact .inl ⟨hopen'.gone, hopen'.completed⟩
        · exact .inr ⟨rfl, rfl⟩

/-! ## Accounts -/

/-- What is always so of a flow, up to `slack`, the weight of a wake that the driver has taken and
not used. -/
structure Sane (limit slack : Nat) (f : Flow κ) : Prop where
  limited : f.channel.limit = limit
  count : f.channel.buffered = f.channel.rows.length
  closed : f.closed = f.channel.completed
  held : f.held = decide (f.channel.driver ≠ .stopped)
  drivers : f.drivers =
    (decide (f.channel.driver = .starting)).toNat + (decide (f.channel.driver = .woken)).toNat
  permit : f.channel.permit = true → f.channel.driver ≠ .waiting
  fresh : f.channel.driver = .starting → f.flowing = false ∧ f.channel.buffered = 0
  weight : f.channel.Open → f.load + slack ≤ limit + 5
  bound : f.channel.buffered ≤ limit + 5

/-- What is so as long as the consumer is there and has received these rows. -/
structure Connected (r : RequestId) (received : List String) (f : Flow κ) : Prop where
  fatal : f.fatal = none
  sound : ∀ c e, Event.called r c (.error e) ∉ f.log
  calm : .began r true ∉ f.log
  timely : .flowed r true ∉ f.log
  told : received ++ f.channel.rows = (Event.handedIn f.log).map Row.text
  started : .started r ∈ f.log → f.channel.driver ≠ .starting
  stopped : f.channel.driver = .stopped → f.closed = true

/-- The flow goes on, or the channel is full, or the driver will look after it, or all is over. -/
def Moves (f : Flow κ) : Prop :=
  f.flowing = true ∨ f.channel.limit ≤ f.channel.buffered ∨ f.channel.driver = .woken ∨
    f.closed = true

/-- The accounts of a stream. -/
structure Kept (r : RequestId) (limit slack : Nat) (received : List String) (f : Flow κ) :
    Prop where
  sane : f.Sane limit slack
  connected : f.channel.consumerGone = false → f.Connected r received
  moves : f.channel.consumerGone = false → .started r ∈ f.log → f.channel.driver ≠ .running →
    f.Moves

/-! ## The accounts are kept -/

theorem Sane.pour (hs : f.Sane limit slack) (hf : f.flowing = true)
    (ho : f.channel.Open ∨ rows = [] ∧ stopped = false) (hfits : Fits f.channel rows stopped 2)
    (log : List Event) : (f.pour rows stopped log).Sane limit slack := by
  have hload : (f.pour rows stopped log).channel.Open →
      (f.pour rows stopped log).load + slack ≤ limit + 5 := by
    intro hopen
    have hbefore := hs.weight ⟨hopen.gone, hopen.completed⟩
    have hwakes : (f.channel.push rows).wakes = f.channel.wakes := rfl
    cases stopped with
    | false =>
      have hlevel := hfits.passed rfl
      simp only [Flow.load, Flow.pour, hf, Bool.not_false, Bool.and_self, hwakes] at hbefore ⊢
      omega
    | true =>
      have hlevel := hfits.excess
      simp only [Flow.load, Flow.pour, hf, Bool.not_true, Bool.and_false, Bool.toNat_false,
        Bool.toNat_true, hwakes] at hbefore ⊢
      omega
  refine ⟨hs.limited, ?_, hs.closed, hs.held, hs.drivers, hs.permit, fun hd => ?_, hload, ?_⟩
  · simp [Flow.pour, Channel.push, hs.count]
  · exact nomatch hf.symm.trans (hs.fresh hd).1
  · rcases ho with hopen | ⟨rfl, -⟩
    case inr =>
      rw [Flow.pour, Channel.push_nil]
      exact hs.bound
    case inl =>
      have hweight := hload (hopen.push rows)
      have hlevel := (f.channel.push rows).buffered_le_level
      simp only [Flow.load, Flow.pour] at hweight ⊢
      omega

theorem Connected.pour (hc : f.Connected r received) (hlog : Told rows f.log log) :
    (f.pour rows stopped log).Connected r received := by
  refine ⟨hc.fatal, fun c e hmem => ?_, fun hmem => ?_, fun hmem => ?_, ?_, fun hmem => ?_,
    hc.stopped⟩
  · exact hc.sound c e ((hlog.mem_iff id).mp hmem)
  · exact hc.calm ((hlog.mem_iff id).mp hmem)
  · exact hc.timely ((hlog.mem_iff id).mp hmem)
  · simp only [Flow.pour, Channel.push]
    rw [← List.append_assoc, hc.told, hlog.handed, List.map_append]
  · exact hc.started ((hlog.mem_iff id).mp hmem)

theorem wake_waiting (h : f.channel.driver = .waiting) :
    f.wake = { f.drive .woken with drivers := f.drivers + 1 } := by
  simp [Flow.wake, Flow.drive, Channel.wake, h]

theorem wake_stored (h : f.channel.driver ≠ .waiting) :
    f.wake = { f with channel := { f.channel with permit := true } } := by
  cases hd : f.channel.driver <;> first | exact absurd hd h | simp [Flow.wake, Channel.wake, hd]

/-- A wake goes to a channel that is over, or that has room. -/
theorem Sane.wake (hs : f.Sane limit slack)
    (h : f.channel.Open → slack = 0 ∧ f.channel.level + 1 ≤ limit) : f.wake.Sane limit slack := by
  have hweight : f.channel.Open → ∀ c : Channel, c.level = f.channel.level →
      c.level + 2 * f.flowing.toNat + 2 * c.wakes + slack ≤ limit + 5 := by
    intro hopen c hlevel
    obtain ⟨hslack, hroom⟩ := h hopen
    have hflowing := Bool.toNat_le f.flowing
    have hwakes := c.wakes_le
    omega
  by_cases hd : f.channel.driver = .waiting
  · rw [wake_waiting hd]
    exact
      { hs with
        held := by simpa [hd, drive] using hs.held
        drivers := by simp [drive, hs.drivers, hd]
        permit := fun _ => DriverState.noConfusion
        fresh := fun hd => nomatch hd
        weight := fun hopen => hweight ⟨hopen.gone, hopen.completed⟩ _ rfl }
  · rw [wake_stored hd]
    exact
      { hs with
        permit := fun _ => hd
        weight := fun hopen => hweight ⟨hopen.gone, hopen.completed⟩ _ rfl }

theorem Connected.wake (hc : f.Connected r received) : f.wake.Connected r received := by
  by_cases hd : f.channel.driver = .waiting
  · rw [wake_waiting hd]
    exact { hc with started := fun _ => DriverState.noConfusion, stopped := fun hd => nomatch hd }
  · rw [wake_stored hd]
    exact { hc with }

/-- After a wake the driver is on its way. -/
theorem Connected.moves_wake (hc : f.Connected r received) (hstarted : .started r ∈ f.log)
    (hrunning : f.wake.channel.driver ≠ .running) : f.wake.Moves := by
  cases hd : f.channel.driver with
  | starting => exact absurd hd (hc.started hstarted)
  | waiting =>
    rw [wake_waiting hd]
    exact .inr (.inr (.inl rfl))
  | woken =>
    rw [wake_stored (by simp [hd])]
    exact .inr (.inr (.inl hd))
  | running =>
    rw [wake_stored (by simp [hd])] at hrunning
    exact absurd hd hrunning
  | stopped =>
    rw [wake_stored (by simp [hd])]
    exact .inr (.inr (.inr (hc.stopped hd)))

/-- A wake that goes to a channel that is over, or that has room. -/
theorem Kept.wake (hs : f.Sane limit slack)
    (h : f.channel.Open → slack = 0 ∧ f.channel.level + 1 ≤ limit)
    (hc : f.channel.consumerGone = false → f.Connected r received) :
    f.wake.Kept r limit slack received := by
  have hgone : f.wake.channel.consumerGone = f.channel.consumerGone := f.channel.consumerGone_wake
  refine ⟨hs.wake h, fun hg => ?_, fun hg hstarted hrunning => ?_⟩ <;> rw [hgone] at hg
  · exact (hc hg).wake
  · exact (hc hg).moves_wake hstarted hrunning

theorem Sane.complete (hs : f.Sane limit slack) :
    ({ f with channel := { f.channel with completed := true }, closed := true } : Flow κ).Sane limit
      slack :=
  { hs with closed := rfl, weight := fun hopen => nomatch hopen.completed }

theorem Connected.complete (hc : f.Connected r received) :
    ({ f with channel := { f.channel with completed := true }, closed := true } : Flow κ).Connected
      r received :=
  { hc with stopped := fun _ => rfl }

theorem Kept.finish (hs : f.Sane limit slack)
    (hc : f.channel.consumerGone = false → f.Connected r received) :
    f.finish.Kept r limit slack received :=
  .wake hs.complete (fun hopen => nomatch hopen.completed) fun hgone => (hc hgone).complete

/-- What is under way, and whether the consumer is there and the driver runs, is as before. -/
structure Alike (f f' : Flow κ) : Prop where
  running : f'.running = f.running
  flushing : f'.flushing = f.flushing
  gone : f'.channel.consumerGone = f.channel.consumerGone
  driver : f'.channel.driver = .running ↔ f.channel.driver = .running

theorem Pours.alike {k : Nat} {result : Except RenderError Unit} (h : f.Pours k result f') :
    f.Alike f' := by
  cases h <;> exact ⟨rfl, rfl, rfl, Iff.rfl⟩

/-- A flush wakes the driver at most. -/
theorem Flushes.alike {result : Except RenderError Unit} (h : f.Flushes result f') :
    f.Alike f' := by
  cases h with
  | idle hc => exact ⟨rfl, rfl, rfl, Iff.rfl⟩
  | written hc hp => exact hp.alike
  | @closed f' hp =>
    refine ⟨hp.alike.running, hp.alike.flushing, ?_, ?_⟩
    · simpa [Flow.finish, Flow.wake] using hp.alike.gone
    · rw [← hp.alike.driver]
      cases hd : f'.channel.driver <;> simp [Flow.finish, Flow.wake, Channel.wake, hd]

/-- Rows are poured into a flow that goes on, which stops only when the channel is full. -/
theorem Sane.pours {k : Nat} {result : Except RenderError Unit} (hs : f.Sane limit slack)
    (hf : f.flowing = true) (hk : k ≤ 2) (h : f.Pours k result f') :
    f'.Sane limit slack ∧ (f'.flowing = false → f'.channel.limit ≤ f'.channel.buffered) := by
  cases h with
  | refused ho e log => exact ⟨{ hs with }, fun hn => nomatch hf.symm.trans hn⟩
  | poured ho hfits hlog =>
    have hexcess := hfits.excess
    refine ⟨hs.pour hf ho ⟨hfits.passed, hfits.filled, by omega⟩ _, fun hn => hfits.filled ?_⟩
    simpa [Flow.pour, hf] using hn

theorem Connected.pours {k : Nat} (hc : f.Connected r received) (h : f.Pours k (.ok ()) f') :
    f'.Connected r received := by
  cases h with
  | poured ho hfits hlog => exact hc.pour hlog

theorem Pours.eq_ok {k : Nat} {result : Except RenderError Unit} (h : f.Pours k result f')
    (ho : f.channel.Open) : result = .ok () := by
  cases h with
  | refused hclosed => exact absurd ho hclosed
  | poured => rfl

/-- A flush of a stream that flows keeps the accounts, and stops the flow only when the channel is
full. -/
theorem Flushes.kept {result : Except RenderError Unit} (h : f.Flushes result f')
    (hk : f.Kept r limit slack received) (hf : f.flowing = true) :
    f'.Kept r limit slack received ∧
      (f'.flowing = false → f'.channel.limit ≤ f'.channel.buffered) := by
  cases h with
  | idle hc => exact ⟨hk, fun hn => nomatch hf.symm.trans hn⟩
  | written hc hp =>
    obtain ⟨hsane, hfull⟩ := hk.sane.pours hf (Nat.le_refl 2) hp
    refine ⟨⟨hsane, fun hgone => ?_, fun _ _ _ => ?_⟩, hfull⟩
    · rw [hp.alike.gone] at hgone
      obtain rfl := hp.eq_ok ⟨hgone, hk.sane.closed.symm.trans hc⟩
      exact (hk.connected hgone).pours hp
    · cases hn : f'.flowing with
      | true => exact .inl hn
      | false => exact .inr (.inl (hfull hn))
  | @closed f' hp =>
    obtain ⟨hsane, hfull⟩ := hk.sane.pours hf (Nat.le_refl 2) hp
    refine ⟨.finish hsane fun hgone => ?_, fun hn => ?_⟩
    · rw [hp.alike.gone] at hgone
      exact (hk.connected hgone).pours hp
    · simpa [Flow.finish, Flow.wake] using hfull hn

/-- As long as the consumer is there, no flush fails. -/
theorem Flushes.eq_ok {result : Except RenderError Unit} (h : f.Flushes result f')
    (hs : f.Sane limit slack) (hgone : f.channel.consumerGone = false) : result = .ok () := by
  cases h with
  | written hc hp => exact hp.eq_ok ⟨hgone, hs.closed.symm.trans hc⟩
  | _ => rfl

def under (f : Flow κ) (running : Nat) (flushing : Bool) : Flow κ :=
  { f with running := running, flushing := flushing }

theorem Pours.under {k : Nat} {result : Except RenderError Unit} (h : f.Pours k result f') (n : Nat)
    (b : Bool) : (f.under n b).Pours k result (f'.under n b) := by
  cases h with
  | refused ho e log => exact Pours.refused (f := f.under n b) ho e log
  | poured ho hf hlog => exact .poured ho hf hlog

theorem Flushes.under {result : Except RenderError Unit} (h : f.Flushes result f') (n : Nat)
    (b : Bool) : (f.under n b).Flushes result (f'.under n b) := by
  cases h with
  | idle hc => exact .idle hc
  | written hc hp => exact .written hc (hp.under n b)
  | closed hp => exact .closed (hp.under n b)

theorem Kept.under (hk : f.Kept r limit slack received) (n : Nat) (b : Bool) :
    (f.under n b).Kept r limit slack received :=
  ⟨{ hk.sane with }, fun hgone => { hk.connected hgone with }, hk.moves⟩

/-! ## The driver and the consumer -/

theorem Kept.weaken (hk : f.Kept r limit slack received) {slack' : Nat} (h : slack' ≤ slack) :
    f.Kept r limit slack' received := by
  refine ⟨{ hk.sane with weight := fun hopen => ?_ }, hk.connected, hk.moves⟩
  have := hk.sane.weight hopen
  omega

theorem Kept.run (hk : f.Kept r limit 0 received) (hd : f.channel.driver = .woken) :
    f.run.Kept r limit 2 received where
  sane :=
    { hk.sane with
      held := by simpa [hd, Flow.run, Flow.drive] using hk.sane.held
      drivers := by simp [Flow.run, Flow.drive, hk.sane.drivers, hd]
      permit := fun _ => DriverState.noConfusion
      fresh := fun h => nomatch h
      weight := fun hopen => by
        have hweight := hk.sane.weight ⟨hopen.gone, hopen.completed⟩
        simp only [load, Channel.wakes, Channel.level, hd, Flow.run, Flow.drive] at hweight ⊢
        simp at hweight ⊢
        omega }
  connected hgone :=
    { hk.connected hgone with
      started := fun _ => DriverState.noConfusion
      stopped := fun h => nomatch h }
  moves _ _ hrunning := absurd rfl hrunning

/-- A driver that starts finds an empty channel and a flow that has not begun, which leaves room for
two wakes. -/
theorem Kept.start (hk : f.Kept r limit 0 received) (hd : f.channel.driver = .starting)
    (hlimit : 1 ≤ limit) : f.run.Kept r limit 4 received where
  sane :=
    { hk.sane with
      held := by simpa [hd, Flow.run, Flow.drive] using hk.sane.held
      drivers := by simp [Flow.run, Flow.drive, hk.sane.drivers, hd]
      permit := fun _ => DriverState.noConfusion
      fresh := fun h => nomatch h
      weight := fun _ => by
        obtain ⟨hflowing, hbuffered⟩ := hk.sane.fresh hd
        have hlimited := hk.sane.limited
        have hpermit := Bool.toNat_le f.channel.permit
        simp only [load, Channel.wakes, Channel.level, Flow.run, Flow.drive, hflowing, hbuffered,
          hlimited]
        simp
        omega }
  connected hgone :=
    { hk.connected hgone with
      started := fun _ => DriverState.noConfusion
      stopped := fun h => nomatch h }
  moves _ _ hrunning := absurd rfl hrunning

theorem Kept.spend (hk : f.Kept r limit 0 received) (hp : f.channel.permit = true) :
    f.spend.Kept r limit 2 received where
  sane :=
    { hk.sane with
      permit := fun h => nomatch h
      weight := fun hopen => by
        have hweight := hk.sane.weight ⟨hopen.gone, hopen.completed⟩
        have hwakes : f.spend.channel.wakes + 1 = f.channel.wakes := by
          rw [Channel.wakes, Channel.wakes, hp]
          rfl
        have hlevel : f.spend.channel.level = f.channel.level := rfl
        have hflowing : f.spend.flowing = f.flowing := rfl
        simp only [load, hlevel, hflowing] at hweight ⊢
        omega }
  connected hgone := { hk.connected hgone with }
  moves := hk.moves

theorem Kept.wait (hk : f.Kept r limit slack received) (hd : f.channel.driver = .running)
    (hp : f.channel.permit = false) (hm : f.channel.consumerGone = false → f.Moves) :
    (f.drive .waiting).Kept r limit 0 received where
  sane :=
    { hk.sane with
      held := by simpa [hd, Flow.drive] using hk.sane.held
      drivers := by simpa [hd, Flow.drive] using hk.sane.drivers
      permit := fun h => nomatch hp.symm.trans h
      fresh := fun h => nomatch h
      weight := fun hopen => by
        have hweight := hk.sane.weight ⟨hopen.gone, hopen.completed⟩
        simp only [load, Channel.wakes, Channel.level, hd, hp, Flow.drive] at hweight ⊢
        simp at hweight ⊢
        omega }
  connected hgone :=
    { hk.connected hgone with
      started := fun _ => DriverState.noConfusion
      stopped := fun h => nomatch h }
  moves hgone _ _ := by
    obtain hflowing | hfull | hwoken | hclosed := hm hgone
    · exact .inl hflowing
    · exact .inr (.inl hfull)
    · exact nomatch hd.symm.trans hwoken
    · exact .inr (.inr (.inr hclosed))

/-- The driver ends once all is over or the consumer is gone. -/
theorem Kept.stop (hk : f.Kept r limit slack received) (hd : f.channel.driver = .running)
    (hc : f.channel.consumerGone = false → f.closed = true) :
    f.stop.Kept r limit 0 received where
  sane :=
    { hk.sane with
      held := rfl
      drivers := by simpa [hd, Flow.stop, Flow.drive] using hk.sane.drivers
      permit := fun _ => DriverState.noConfusion
      fresh := fun h => nomatch h
      weight := fun hopen => by
        have hweight := hk.sane.weight ⟨hopen.gone, hopen.completed⟩
        simp only [load, Channel.wakes, Channel.level, hd, Flow.stop, Flow.drive] at hweight ⊢
        simp at hweight ⊢
        omega }
  connected hgone :=
    { hk.connected hgone with
      started := fun _ => DriverState.noConfusion
      stopped := fun _ => hc hgone }
  moves hgone _ _ := .inr (.inr (.inr (hc hgone)))

theorem Kept.forgive (hk : f.Kept r limit slack received) :
    ({ f with fatal := none } : Flow κ).Kept r limit slack received :=
  ⟨{ hk.sane with }, fun hgone => { hk.connected hgone with fatal := rfl }, hk.moves⟩

/-- Only a stream without a consumer stores an error. -/
theorem Kept.fail (hk : f.Kept r limit slack received) (e : RenderError)
    (hgone : f.channel.consumerGone = true) :
    ({ f with fatal := some e } : Flow κ).Kept r limit slack received :=
  ⟨{ hk.sane with }, fun h => (nomatch hgone.symm.trans h), hk.moves⟩

end Flow

/-- Events of calls that meet no other call. -/
def Event.IsLone : Event → Prop
  | started _ => True
  | flowed _ false => True
  | began _ false => True
  | _ => False

theorem Event.IsLone.handedRow? {e : Event} (h : e.IsLone) : e.handedRow? = none := by
  cases e <;> first | rfl | exact h.elim

namespace Flow

variable {f f' : Flow κ} {r : RequestId} {limit slack : Nat} {received : List String}

theorem Connected.tell (hc : f.Connected r received) {e : Event} (he : e.IsLone)
    (hs : e = .started r → f.channel.driver ≠ .starting) :
    ({ f with log := e :: f.log } : Flow κ).Connected r received := by
  have hold : ∀ {e'}, ¬ e'.IsLone → e' ∈ e :: f.log → e' ∈ f.log := by
    intro e' hlone hmem
    exact (List.mem_cons.mp hmem).resolve_left fun h => hlone (h ▸ he)
  exact
    { hc with
      sound := fun c error hmem => hc.sound c error (hold id hmem)
      calm := fun hmem => hc.calm (hold id hmem)
      timely := fun hmem => hc.timely (hold id hmem)
      told := (Event.handedIn_quiet he.handedRow? f.log).symm ▸ hc.told
      started := fun hmem => (List.mem_cons.mp hmem).elim (fun h => hs h.symm) hc.started }

theorem Kept.tell (hk : f.Kept r limit slack received) (r' : RequestId) :
    ({ f with log := .began r' false :: f.log } : Flow κ).Kept r limit slack received := by
  refine ⟨{ hk.sane with }, fun hgone => (hk.connected hgone).tell trivial fun h => (nomatch h), ?_⟩
  intro hgone hstarted
  exact hk.moves hgone ((List.mem_cons.mp hstarted).resolve_left fun h => nomatch h)

theorem Kept.resume (hk : f.Kept r limit (slack + 2) received) (hd : f.channel.driver = .running)
    {e : Event} (he : e.IsLone) : (f.resume e).Kept r limit slack received where
  sane :=
    { hk.sane with
      fresh := fun h => nomatch hd.symm.trans h
      weight := fun hopen => by
        have hweight := hk.sane.weight ⟨hopen.gone, hopen.completed⟩
        simp only [load, Flow.resume, Bool.toNat_true] at hweight ⊢
        omega }
  connected hgone :=
    { (hk.connected hgone).tell he fun _ h => nomatch hd.symm.trans h with }
  moves _ _ _ := .inl rfl

/-! ## The consumer -/

/-- The consumer takes a row, and the channel is still full. -/
theorem Kept.take (hk : f.Kept r limit 0 received) {row : String} {rest : List String}
    (hrows : f.channel.rows = row :: rest) :
    (f.take rest).Sane limit 0 ∧
      (f.channel.consumerGone = false → (f.take rest).Connected r (received ++ [row])) := by
  refine ⟨{ hk.sane with count := ?_, fresh := ?_, weight := ?_, bound := ?_ }, fun hgone =>
    { hk.connected hgone with told := ?_ }⟩
  · simp [Flow.take, hk.sane.count, hrows]
  · intro hd
    obtain ⟨hflowing, hbuffered⟩ := hk.sane.fresh hd
    exact ⟨hflowing, by simp [Flow.take, hbuffered]⟩
  · intro hopen
    have hweight := hk.sane.weight ⟨hopen.gone, hopen.completed⟩
    have hlevel : (f.take rest).channel.level ≤ f.channel.level := by
      simp only [Channel.level, Flow.take]
      omega
    have hwakes : (f.take rest).channel.wakes = f.channel.wakes := rfl
    have hflowing : (f.take rest).flowing = f.flowing := rfl
    simp only [load, hwakes, hflowing] at hweight ⊢
    omega
  · have hbound := hk.sane.bound
    simp only [Flow.take]
    omega
  · have htold := (hk.connected hgone).told
    rw [hrows] at htold
    simpa [Flow.take] using htold

def receive (f : Flow κ) (rest : List String) : Flow κ :=
  if f.channel.buffered - 1 < f.channel.limit then (f.take rest).wake else f.take rest

theorem Kept.receive (hk : f.Kept r limit 0 received) {row : String} {rest : List String}
    (hrows : f.channel.rows = row :: rest) :
    (f.receive rest).Kept r limit 0 (received ++ [row]) := by
  obtain ⟨hsane, hconnected⟩ := hk.take hrows
  rw [Flow.receive]
  split
  case isTrue hroom =>
    refine .wake hsane (fun _ => ⟨rfl, ?_⟩) hconnected
    have hlimited := hk.sane.limited
    simp only [Channel.level, Flow.take]
    omega
  case isFalse hfull =>
    exact ⟨hsane, hconnected, fun _ _ _ => .inr (.inl (Nat.not_lt.mp hfull))⟩

theorem Kept.abandon (hk : f.Kept r limit slack received) :
    f.abandon.Kept r limit slack received := by
  refine .wake { hk.sane with weight := ?_ } (fun hopen => nomatch hopen.gone) fun hgone => ?_
  · exact fun hopen => nomatch hopen.gone
  · exact nomatch hgone

/-! ## Between tasks -/

/-- The accounts of a stream of which nothing is under way. -/
structure Rests (r : RequestId) (limit : Nat) (received : List String) (f : Flow κ) : Prop where
  kept : f.Kept r limit 0 received
  running : f.running = 0
  flushing : f.flushing = false
  driver : f.channel.driver ≠ .running

structure Driven (r : RequestId) (limit slack : Nat) (received : List String) (f : Flow κ) :
    Prop where
  kept : f.Kept r limit slack received
  running : f.running = 0
  flushing : f.flushing = false
  driver : f.channel.driver = .running

end Flow
end TreeStream
