import MilterGuard.Histories

/-!
The bootstrap of the RDAP client. Concurrent calls share one list of services and one
fetch of it. A call runs from lock to lock: it takes the list, fails within a retry
delay, waits for the fetch in flight, or starts one. Times are nanoseconds since the
zero time, and the clock of the client never goes back.
-/
namespace MilterGuard.BootstrapFlight

open Histories

def failureRetry : ℕ := 60 * 60 * 1000000000

def deadlineRetry : ℕ := 60 * 1000000000

def bootstrapRefreshInterval : ℕ := 24 * 60 * 60 * 1000000000

variable {S E : Type}

/-- What errors.Is tells about an error. -/
structure ErrorKinds (E : Type) where
  deadlineExceeded : E → Bool
  canceled : E → Bool

variable (kinds : ErrorKinds E)

/-- How long no fetch starts after this failure; a cancellation sets no delay. -/
def retryDelay (err : E) : Option ℕ :=
  if kinds.deadlineExceeded err then some deadlineRetry
  else if ¬ kinds.canceled err then some failureRetry
  else none

inductive Caller
  | absent
  | entering
  | waiting (pending : ℕ)
  | fetching (pending : ℕ)
  | done
  deriving DecidableEq

/-- The client with the calls that use it. Channels are numbered as they are made. -/
structure Client (S E : Type) where
  clock : ℕ
  services : Option S
  bootstrapLoadedAt : ℕ
  bootstrapInflight : Option ℕ
  bootstrapErr : Option E
  bootstrapRetryAt : ℕ
  channels : ℕ
  closed : ℕ → Bool
  callers : ℕ → Caller

def newClient : Client S E := ⟨0, none, 0, none, none, 0, 0, fun _ => false, fun _ => .absent⟩

inductive Event (S E : Type)
  | started (call now : ℕ)
  | finished (call : ℕ) (result : Except E S) (now : ℕ)
  | waits (call : ℕ)
  | returned (call : ℕ) (services : Option S) (err : Option E)
  /-- The context of a waiting call ended, and the call returns its error. -/
  | abandoned (call : ℕ) (err : E)

variable (c : Client S E)

def Client.assign (call : ℕ) (caller : Caller) : Client S E :=
  { c with callers := Function.update c.callers call caller }

/-- The list is there and young, not to be refreshed yet, or being refreshed. -/
def Client.usable : Bool :=
  c.services.isSome && (c.clock < c.bootstrapLoadedAt + bootstrapRefreshInterval ||
    c.clock < c.bootstrapRetryAt || c.bootstrapInflight.isSome)

/-- The first part of the loop, under the lock. -/
def enter (call : ℕ) (c : Client S E) : Client S E × List (Event S E) :=
  if c.usable then (c.assign call .done, [.returned call c.services none])
  else if c.clock < c.bootstrapRetryAt then
    (c.assign call .done, [.returned call none c.bootstrapErr])
  else match c.bootstrapInflight with
    | some pending => (c.assign call (.waiting pending), [.waits call])
    | none =>
      ({ c.assign call (.fetching c.channels) with
          bootstrapInflight := some c.channels
          channels := c.channels + 1 },
        [.started call c.clock])

/-- What a result changes of the bootstrap. -/
def record (result : Except E S) (c : Client S E) : Client S E :=
  match result with
  | .ok services =>
    { c with
      services := some services
      bootstrapLoadedAt := c.clock
      bootstrapErr := none
      bootstrapRetryAt := 0 }
  | .error err =>
    match retryDelay kinds err with
    | some delay =>
      { c with bootstrapErr := some err, bootstrapRetryAt := c.clock + delay }
    | none => c

/-- A failed refresh answers with the list that was loaded before. -/
def answer (result : Except E S) (cached : Option S) : Option S × Option E :=
  match result with
  | .ok services => (some services, none)
  | .error err => if cached.isSome then (cached, none) else (none, some err)

/-- The part after the fetch, under the lock. -/
def finish (call pending : ℕ) (result : Except E S) (c : Client S E) :
    Client S E × List (Event S E) :=
  let recorded := record kinds result c
  let answer := answer result recorded.services
  ({ recorded.assign call .done with
      bootstrapInflight := none
      closed := Function.update c.closed pending true },
    [.finished call result c.clock, .returned call answer.1 answer.2])

inductive Action (S E : Type)
  | tick (duration : ℕ)
  | call (call : ℕ)
  | enter (call : ℕ)
  | wake (call : ℕ)
  | abandon (call : ℕ) (err : E)
  | finish (call : ℕ) (result : Except E S)

/-- An action that is not possible changes nothing; each call is made once. -/
def step : Action S E → Client S E × List (Event S E)
  | .tick duration => ({ c with clock := c.clock + duration }, [])
  | .call call => if c.callers call = .absent then (c.assign call .entering, []) else (c, [])
  | .enter call => if c.callers call = .entering then enter call c else (c, [])
  | .wake call =>
    match c.callers call with
    | .waiting pending => if c.closed pending then (c.assign call .entering, []) else (c, [])
    | _ => (c, [])
  | .abandon call err =>
    match c.callers call with
    | .waiting _ => (c.assign call .done, [.abandoned call err])
    | _ => (c, [])
  | .finish call result =>
    match c.callers call with
    | .fetching pending => finish kinds call pending result c
    | _ => (c, [])

/-- Everything that a step can do. -/
inductive Moves (kinds : ErrorKinds E) (c : Client S E) : Client S E → List (Event S E) → Prop
  | still : Moves kinds c c []
  | tick (duration : ℕ) : Moves kinds c { c with clock := c.clock + duration } []
  | called (call : ℕ) (absent : c.callers call = .absent) :
      Moves kinds c (c.assign call .entering) []
  | served (call : ℕ) (entering : c.callers call = .entering) (usable : c.usable = true) :
      Moves kinds c (c.assign call .done) [.returned call c.services none]
  | refused (call : ℕ) (entering : c.callers call = .entering) (unusable : c.usable = false)
      (early : c.clock < c.bootstrapRetryAt) :
      Moves kinds c (c.assign call .done) [.returned call none c.bootstrapErr]
  | waits (call pending : ℕ) (entering : c.callers call = .entering) (unusable : c.usable = false)
      (inflight : c.bootstrapInflight = some pending) :
      Moves kinds c (c.assign call (.waiting pending)) [.waits call]
  | starts (call : ℕ) (entering : c.callers call = .entering) (unusable : c.usable = false)
      (due : c.bootstrapRetryAt ≤ c.clock) (free : c.bootstrapInflight = none) :
      Moves kinds c
        { c.assign call (.fetching c.channels) with
          bootstrapInflight := some c.channels
          channels := c.channels + 1 }
        [.started call c.clock]
  | woken (call pending : ℕ) (waiting : c.callers call = .waiting pending)
      (closed : c.closed pending = true) : Moves kinds c (c.assign call .entering) []
  | abandoned (call pending : ℕ) (err : E) (waiting : c.callers call = .waiting pending) :
      Moves kinds c (c.assign call .done) [.abandoned call err]
  | finished (call pending : ℕ) (result : Except E S)
      (fetching : c.callers call = .fetching pending) :
      Moves kinds c (finish kinds call pending result c).1 (finish kinds call pending result c).2

theorem enter_moves {call : ℕ} (h : c.callers call = .entering) :
    Moves kinds c (enter call c).1 (enter call c).2 := by
  unfold enter
  cases husable : c.usable with
  | true => exact .served call h husable
  | false =>
    by_cases hearly : c.clock < c.bootstrapRetryAt
    · rw [if_pos hearly]
      exact .refused call h husable hearly
    · rw [if_neg hearly]
      cases hinflight : c.bootstrapInflight with
      | some pending => exact .waits call pending h husable hinflight
      | none => exact .starts call h husable (Nat.le_of_not_lt hearly) hinflight

theorem step_moves (action : Action S E) :
    Moves kinds c (step kinds c action).1 (step kinds c action).2 := by
  cases action with
  | tick duration => exact .tick duration
  | call call =>
    simp only [step]
    split_ifs with h
    · exact .called call h
    · exact .still
  | enter call =>
    simp only [step]
    split_ifs with h
    · exact enter_moves kinds c h
    · exact .still
  | wake call =>
    simp only [step]
    split
    · rename_i pending h
      split_ifs with hclosed
      · exact .woken call pending h hclosed
      · exact .still
    · exact .still
  | abandon call err =>
    simp only [step]
    split
    · rename_i pending h
      exact .abandoned call pending err h
    · exact .still
  | finish call result =>
    simp only [step]
    split
    · rename_i pending h
      exact .finished call pending result h
    · exact .still

/-- The calls, the fetch and the channels fit together: a fetch in flight has one caller
and an open channel, and a waiting call has that channel or a closed one. -/
structure Coherent : Prop where
  fetching : ∀ call pending, c.callers call = .fetching pending →
    c.bootstrapInflight = some pending
  unique : ∀ call other pending pending', c.callers call = .fetching pending →
    c.callers other = .fetching pending' → call = other
  owned : ∀ pending, c.bootstrapInflight = some pending →
    ∃ call, c.callers call = .fetching pending
  made : ∀ pending, c.closed pending = true ∨ c.bootstrapInflight = some pending →
    pending < c.channels
  waiting : ∀ call pending, c.callers call = .waiting pending →
    c.bootstrapInflight = some pending ∨ c.closed pending = true

theorem newClient_coherent : Coherent (newClient : Client S E) := by
  constructor <;> simp [newClient]

/-- A call that changes its state outside a fetch. -/
theorem Coherent.assign {c : Client S E} (h : Coherent c) {call : ℕ} {caller : Caller}
    (hbefore : ∀ pending, c.callers call ≠ .fetching pending)
    (hafter : ∀ pending, caller ≠ .fetching pending)
    (hwaiting : ∀ pending, caller = .waiting pending → c.bootstrapInflight = some pending) :
    Coherent (c.assign call caller) := by
  obtain ⟨hfetching, hunique, howned, hmade, hwait⟩ := h
  constructor <;> simp only [Client.assign, Function.update_apply]
  · grind
  · grind
  · grind
  · exact hmade
  · grind

theorem Coherent.starts {c : Client S E} (h : Coherent c) {call : ℕ}
    (hfree : c.bootstrapInflight = none) :
    Coherent { c.assign call (.fetching c.channels) with
      bootstrapInflight := some c.channels
      channels := c.channels + 1 } := by
  obtain ⟨hfetching, hunique, howned, hmade, hwait⟩ := h
  -- without a fetch in flight no call is fetching, so the new one is alone
  constructor <;> simp only [Client.assign]
  · grind
  · grind
  · intro pending hpending
    exact ⟨call, by simpa using hpending⟩
  · intro pending hpending
    rcases hpending with hclosed | hnew
    · exact Nat.lt_succ_of_lt (hmade pending (Or.inl hclosed))
    · obtain rfl := Option.some.inj hnew
      exact Nat.lt_succ_self _
  · grind

theorem record_frame (result : Except E S) (c : Client S E) :
    (record kinds result c).callers = c.callers ∧ (record kinds result c).channels = c.channels ∧
      (record kinds result c).clock = c.clock := by
  unfold record
  cases result with
  | ok services => exact ⟨rfl, rfl, rfl⟩
  | error err =>
    cases hdelay : retryDelay kinds err <;> simp [hdelay]

/-- The end of the fetch closes the channel that all waiting calls have. -/
theorem Coherent.finish {c : Client S E} (h : Coherent c) (kinds : ErrorKinds E)
    {call pending : ℕ} (result : Except E S) (hcall : c.callers call = .fetching pending) :
    Coherent (finish kinds call pending result c).1 := by
  obtain ⟨hfetching, hunique, howned, hmade, hwait⟩ := h
  obtain ⟨hcallers, hchannels, -⟩ := record_frame kinds result c
  constructor <;>
    simp only [BootstrapFlight.finish, Client.assign, hcallers]
  · grind
  · grind
  · simp
  · grind
  · grind

theorem Moves.coherent {kinds : ErrorKinds E} {c d : Client S E} {es : List (Event S E)}
    (h : Coherent c) (hmove : Moves kinds c d es) : Coherent d := by
  cases hmove with
  | still => exact h
  | tick duration => exact ⟨h.fetching, h.unique, h.owned, h.made, h.waiting⟩
  | called call habsent => exact h.assign (by simp [habsent]) (by simp) (by simp)
  | served call hentering | refused call hentering =>
    exact h.assign (by simp [hentering]) (by simp) (by simp)
  | waits call pending hentering _ hinflight =>
    refine h.assign (by simp [hentering]) (by simp) ?_
    rintro _ ⟨⟩
    exact hinflight
  | starts call _ _ _ hfree => exact h.starts hfree
  | woken call pending hwaiting | abandoned call pending err hwaiting =>
    exact h.assign (by simp [hwaiting]) (by simp) (by simp)
  | finished call pending result hfetching => exact h.finish kinds result hfetching

variable (es : List (Event S E))

/-- A fetch has loaded a list. -/
def Loaded : Prop :=
  ∃ call services now, .finished call (.ok services) now ∈ es

/-- No failed fetch has a retry delay that goes beyond the time. -/
def Over (time : ℕ) : Prop :=
  ∀ call err now delay, .finished call (.error err) now ∈ es →
    retryDelay kinds err = some delay → now + delay ≤ time

/-- What the client remembers of its past. -/
structure Remembers (past : List (Event S E)) : Prop where
  err : c.bootstrapErr = none → c.bootstrapRetryAt = 0
  loaded : Loaded past → c.services.isSome = true
  youngest : ∀ call services now, .finished call (.ok services) now ∈ past →
    now ≤ c.bootstrapLoadedAt
  loadedAt_le : c.bootstrapLoadedAt ≤ c.clock
  delays : Over kinds past (max c.clock c.bootstrapRetryAt)
  overInFlight : c.bootstrapInflight.isSome = true → Over kinds past c.clock
  waited : ∀ call pending, c.callers call = .waiting pending → .waits call ∈ past

/-- What must have come before each event. -/
def rule (past : List (Event S E)) : Event S E → Prop
  | .started _ now =>
    (∀ call services loadedAt, .finished call (.ok services) loadedAt ∈ past →
      loadedAt + bootstrapRefreshInterval ≤ now) ∧ Over kinds past now
  | .finished _ _ _ => True
  | .waits _ => ¬ Loaded past
  | .returned _ services err =>
    (services.isSome = true ∨ err.isSome = true) ∧ (Loaded past → services.isSome = true)
  | .abandoned call _ => .waits call ∈ past

section Remembers

variable {kinds : ErrorKinds E} {c d : Client S E} {past es : List (Event S E)}

theorem Over.mono {time later : ℕ} (h : Over kinds es time) (hle : time ≤ later) :
    Over kinds es later :=
  fun call err now delay hmem hdelay => Nat.le_trans (h call err now delay hmem hdelay) hle

/-- Events that end no fetch. -/
def Unfinished (es : List (Event S E)) : Prop :=
  ∀ call result now, .finished call result now ∉ es

theorem Unfinished.mem_iff (h : Unfinished es) {call : ℕ} {result : Except E S} {now : ℕ} :
    .finished call result now ∈ past ++ es ↔ .finished call result now ∈ past := by
  simp [h call result now]

theorem Unfinished.over_iff (h : Unfinished es) {time : ℕ} :
    Over kinds (past ++ es) time ↔ Over kinds past time := by
  simp only [Over, h.mem_iff]

theorem Unfinished.loaded_iff (h : Unfinished es) : Loaded (past ++ es) ↔ Loaded past := by
  simp only [Loaded, h.mem_iff]

/-- The bootstrap is the same in both clients. -/
structure SameBootstrap (c d : Client S E) : Prop where
  clock : d.clock = c.clock
  services : d.services = c.services
  loadedAt : d.bootstrapLoadedAt = c.bootstrapLoadedAt
  err : d.bootstrapErr = c.bootstrapErr
  retryAt : d.bootstrapRetryAt = c.bootstrapRetryAt

theorem Remembers.frame (h : Remembers kinds c past) (hes : Unfinished es)
    (hsame : SameBootstrap c d)
    (hover : d.bootstrapInflight.isSome = true → Over kinds past c.clock)
    (hwaited : ∀ call pending, d.callers call = .waiting pending → .waits call ∈ past ++ es) :
    Remembers kinds d (past ++ es) where
  err := by
    rw [hsame.err, hsame.retryAt]
    exact h.err
  loaded hloaded := by
    rw [hsame.services]
    exact h.loaded (hes.loaded_iff.mp hloaded)
  youngest call services now hmem := by
    rw [hsame.loadedAt]
    exact h.youngest call services now (hes.mem_iff.mp hmem)
  loadedAt_le := by
    rw [hsame.loadedAt, hsame.clock]
    exact h.loadedAt_le
  delays := by
    rw [hsame.clock, hsame.retryAt]
    exact hes.over_iff.mpr h.delays
  overInFlight hinflight := by
    rw [hsame.clock]
    exact hes.over_iff.mpr (hover hinflight)
  waited := hwaited

/-- A call takes another state without the fetch. -/
theorem Remembers.assign (h : Remembers kinds c past) (hes : Unfinished es) {call : ℕ}
    {caller : Caller} (hwaited : ∀ pending, caller = .waiting pending → .waits call ∈ es) :
    Remembers kinds (c.assign call caller) (past ++ es) := by
  refine h.frame hes ⟨rfl, rfl, rfl, rfl, rfl⟩ h.overInFlight ?_
  intro other pending hother
  simp only [Client.assign, Function.update_apply] at hother
  rw [List.mem_append]
  split_ifs at hother with heq
  · rw [heq]
    exact Or.inr (hwaited pending hother)
  · exact Or.inl (h.waited other pending hother)

theorem Remembers.tick (h : Remembers kinds c past) (duration : ℕ) :
    Remembers kinds { c with clock := c.clock + duration } past where
  err := h.err
  loaded := h.loaded
  youngest := h.youngest
  loadedAt_le := Nat.le_trans h.loadedAt_le (Nat.le_add_right _ _)
  delays := h.delays.mono (by simp only; omega)
  overInFlight hinflight := (h.overInFlight hinflight).mono (Nat.le_add_right _ _)
  waited := h.waited

theorem mem_finish {call pending : ℕ} {result : Except E S} {other now : ℕ}
    {result' : Except E S} :
    .finished other result' now ∈ past ++ (finish kinds call pending result c).2 ↔
      .finished other result' now ∈ past ∨ other = call ∧ result' = result ∧ now = c.clock := by
  simp [finish]

/-- The delays after a fetch are the earlier ones and that of its failure. -/
theorem over_finish {call pending : ℕ} {result : Except E S} {time : ℕ} (h : Over kinds past time)
    (hresult : ∀ err delay, result = .error err → retryDelay kinds err = some delay →
      c.clock + delay ≤ time) :
    Over kinds (past ++ (finish kinds call pending result c).2) time := by
  intro other err now delay hmem hdelay
  rcases mem_finish.mp hmem with hmem | ⟨-, hresult', rfl⟩
  · exact h other err now delay hmem hdelay
  · exact hresult err delay hresult'.symm hdelay

/-- With a fetch in flight no earlier delay is open, so the end of the fetch may forget
them. -/
theorem Remembers.finish (h : Remembers kinds c past) (hc : Coherent c) {call pending : ℕ}
    (result : Except E S) (hcall : c.callers call = .fetching pending) :
    Remembers kinds (finish kinds call pending result c).1
      (past ++ (finish kinds call pending result c).2) := by
  have hpast : Over kinds past c.clock := h.overInFlight (by simp [hc.fetching call pending hcall])
  have hwaited : ∀ other pending', (BootstrapFlight.finish kinds call pending result c).1.callers
      other = .waiting pending' → .waits other ∈ past ++
        (BootstrapFlight.finish kinds call pending result c).2 := by
    intro other pending' hother
    simp only [BootstrapFlight.finish, Client.assign, (record_frame kinds result c).1,
      Function.update_apply] at hother
    split_ifs at hother
    exact List.mem_append_left _ (h.waited other pending' hother)
  cases result with
  | ok services =>
    refine ⟨fun _ => rfl, fun _ => rfl, ?_, Nat.le_refl _, ?_, by simp [BootstrapFlight.finish],
      hwaited⟩
    · intro other services' now hmem
      rcases mem_finish.mp hmem with hmem | ⟨-, -, rfl⟩
      · exact Nat.le_trans (h.youngest other services' now hmem) h.loadedAt_le
      · exact Nat.le_refl _
    · exact over_finish (hpast.mono (Nat.le_max_left _ _)) (by simp)
  | error err =>
    have hold : ∀ other services now, .finished other (.ok services) now ∈
        past ++ (BootstrapFlight.finish kinds call pending (.error err) c).2 →
          .finished other (.ok services) now ∈ past := by
      intro other services now hmem
      rcases mem_finish.mp hmem with hmem | ⟨-, hresult, -⟩
      · exact hmem
      · simp at hresult
    have hover : ∀ time, c.clock ≤ time →
        (∀ delay, retryDelay kinds err = some delay → c.clock + delay ≤ time) →
        Over kinds (past ++ (BootstrapFlight.finish kinds call pending (.error err) c).2) time := by
      intro time htime hdelay
      refine over_finish (hpast.mono htime) ?_
      rintro _ delay ⟨⟩
      exact hdelay delay
    generalize (BootstrapFlight.finish kinds call pending (.error err) c).2 = es at *
    have hloaded : Loaded (past ++ es) → c.services.isSome = true :=
      fun ⟨other, services, now, hmem⟩ => h.loaded ⟨other, services, now, hold _ _ _ hmem⟩
    have hyoungest : ∀ other services now, .finished other (.ok services) now ∈ past ++ es →
        now ≤ c.bootstrapLoadedAt :=
      fun other services now hmem => h.youngest other services now (hold _ _ _ hmem)
    cases hdelay : retryDelay kinds err with
    | none =>
      have hrecord : record kinds (.error err) c = c := by simp [record, hdelay]
      refine ⟨?_, ?_, ?_, ?_, ?_, by simp [BootstrapFlight.finish], hwaited⟩ <;>
        simp only [BootstrapFlight.finish, hrecord]
      · exact h.err
      · exact hloaded
      · exact hyoungest
      · exact h.loadedAt_le
      · exact hover _ (Nat.le_max_left _ _) (by simp [hdelay])
    | some delay =>
      have hrecord : record kinds (.error err) c =
          { c with bootstrapErr := some err, bootstrapRetryAt := c.clock + delay } := by
        simp [record, hdelay]
      refine ⟨?_, ?_, ?_, ?_, ?_, by simp [BootstrapFlight.finish], hwaited⟩ <;>
        simp only [BootstrapFlight.finish, hrecord, Client.assign]
      · simp
      · exact hloaded
      · exact hyoungest
      · exact h.loadedAt_le
      · refine hover _ (Nat.le_max_left _ _) ?_
        intro later hlater
        obtain rfl := Option.some.inj (hdelay.symm.trans hlater)
        exact Nat.le_max_right _ _

end Remembers

theorem not_usable_iff :
    c.usable = false ↔ c.services.isSome = true →
      c.bootstrapLoadedAt + bootstrapRefreshInterval ≤ c.clock ∧ c.bootstrapRetryAt ≤ c.clock ∧
        c.bootstrapInflight = none := by
  cases hservices : c.services <;> simp [Client.usable, hservices, and_assoc]

section Moves

variable {kinds : ErrorKinds E} {c d : Client S E} {past es : List (Event S E)}

theorem Moves.remembers (h : Remembers kinds c past) (hc : Coherent c)
    (hmove : Moves kinds c d es) : Remembers kinds d (past ++ es) := by
  cases hmove with
  | still => simpa using h
  | tick duration => simpa using h.tick duration
  | called call | served call | refused call | waits call pending | woken call | abandoned call =>
    exact h.assign (by simp [Unfinished]) (by simp)
  | starts call _ _ hdue =>
    refine h.frame (by simp [Unfinished]) ⟨rfl, rfl, rfl, rfl, rfl⟩ (fun _ => ?_) ?_
    · exact h.delays.mono (Nat.max_le.mpr ⟨Nat.le_refl _, hdue⟩)
    · intro other pending hother
      simp only [Client.assign, Function.update_apply] at hother
      split_ifs at hother
      exact List.mem_append_left _ (h.waited other pending hother)
  | finished call pending result hfetching => exact h.finish hc result hfetching

/-- Without a list nothing has been loaded. -/
theorem Remembers.not_loaded (h : Remembers kinds c past) (hnone : ¬ c.services.isSome = true) :
    ¬ Loaded past := fun hloaded => hnone (h.loaded hloaded)

theorem Remembers.started (h : Remembers kinds c past) (hunusable : c.usable = false)
    (hdue : c.bootstrapRetryAt ≤ c.clock) (call : ℕ) : rule kinds past (.started call c.clock) := by
  refine ⟨?_, h.delays.mono (Nat.max_le.mpr ⟨Nat.le_refl _, hdue⟩)⟩
  intro other services loadedAt hmem
  have hold := ((not_usable_iff c).mp hunusable (h.loaded ⟨other, services, loadedAt, hmem⟩)).1
  have hyoungest := h.youngest other services loadedAt hmem
  omega

theorem Remembers.answered (h : Remembers kinds c past) {call : ℕ} (result : Except E S) :
    let answer := answer result (record kinds result c).services
    rule kinds (past ++ [.finished call result c.clock]) (.returned call answer.1 answer.2) := by
  cases result with
  | ok services => exact ⟨Or.inl rfl, fun _ => rfl⟩
  | error err =>
    have hservices : (record kinds (.error err) c).services = c.services := by
      cases hdelay : retryDelay kinds err <;> simp [record, hdelay]
    have hloaded : Loaded (past ++ [.finished call (.error err) c.clock]) → Loaded past := by
      rintro ⟨other, services, now, hmem⟩
      exact ⟨other, services, now, by simpa using hmem⟩
    simp only [answer, hservices]
    split_ifs with hcached
    · exact ⟨Or.inl hcached, fun _ => hcached⟩
    · exact ⟨Or.inr rfl, fun hmem => absurd (hloaded hmem) (h.not_loaded hcached)⟩

theorem Moves.preceded (h : Remembers kinds c past) (hpast : Preceded (rule kinds) past)
    (hmove : Moves kinds c d es) : Preceded (rule kinds) (past ++ es) := by
  cases hmove with
  | still | tick duration | called call | woken call => simpa using hpast
  | served call _ husable =>
    have hservices : c.services.isSome = true := by
      by_contra hnone
      simp [Client.usable, hnone] at husable
    exact hpast.concat ⟨Or.inl hservices, fun _ => hservices⟩
  | refused call _ hunusable hearly =>
    have hnone : ¬ c.services.isSome = true := by
      intro hsome
      have hlate := ((not_usable_iff c).mp hunusable hsome).2.1
      omega
    have herr : c.bootstrapErr.isSome = true := by
      by_contra hmissing
      have hzero := h.err (by simpa using hmissing)
      omega
    exact hpast.concat ⟨Or.inr herr, fun hloaded => absurd hloaded (h.not_loaded hnone)⟩
  | waits call pending _ hunusable hinflight =>
    have hnone : ¬ c.services.isSome = true := by
      intro hsome
      have hfree := ((not_usable_iff c).mp hunusable hsome).2.2
      rw [hinflight] at hfree
      exact absurd hfree (by simp)
    exact hpast.concat (h.not_loaded hnone)
  | starts call _ hunusable hdue => exact hpast.concat (h.started hunusable hdue call)
  | abandoned call pending err hwaiting => exact hpast.concat (h.waited call pending hwaiting)
  | finished call pending result hfetching =>
    have hfinished : Preceded (rule kinds) (past ++ [.finished call result c.clock]) :=
      hpast.concat trivial
    simpa [finish] using hfinished.concat (h.answered result)

end Moves

/-- What holds of the client and its events in every interleaving. -/
structure SingleFlight : Prop where
  /-- At most one call fetches. -/
  oneFetch : ∀ call other pending pending', c.callers call = .fetching pending →
    c.callers other = .fetching pending' → call = other
  /-- A waiting call can go on unless the fetch that it waits for is still in flight. -/
  released : ∀ call pending, c.callers call = .waiting pending →
    (step kinds c (.wake call)).1.callers call = .entering ∨
      ∃ other, c.callers other = .fetching pending
  preceded : Preceded (rule kinds) es

/-- Fetches do not overlap and respect the age of the list and the retry delays. Every
call returns a list or an error. Once a list is loaded only a call that was waiting
before and whose own context ends comes back without it. -/
theorem bootstrap_single_flight (kinds : ErrorKinds E) (actions : List (Action S E)) :
    let outcome := run (step kinds) newClient actions
    SingleFlight kinds outcome.1 outcome.2 := by
  intro outcome
  let Inv (c : Client S E) (past : List (Event S E)) : Prop :=
    Coherent c ∧ Remembers kinds c past ∧ Preceded (rule kinds) past
  have hnew : Inv newClient [] := by
    refine ⟨newClient_coherent, ?_, preceded_nil⟩
    constructor <;> simp [newClient, Loaded, Over]
  have hstep : ∀ c past action, Inv c past →
      Inv (step kinds c action).1 (past ++ (step kinds c action).2) := by
    rintro c past action ⟨hc, hremembers, hpast⟩
    have hmove := step_moves kinds c action
    exact ⟨hmove.coherent hc, hmove.remembers hremembers hc, hmove.preceded hremembers hpast⟩
  obtain ⟨hc, -, hpreceded⟩ := run_invariant hstep hnew actions
  refine ⟨hc.unique, ?_, by simpa using hpreceded⟩
  intro call pending hwaiting
  rcases hc.waiting call pending hwaiting with hinflight | hclosed
  · exact Or.inr (hc.owned pending hinflight)
  · have hwaiting' : outcome.1.callers call = .waiting pending := hwaiting
    have hclosed' : outcome.1.closed pending = true := hclosed
    simp [step, hwaiting', hclosed', Client.assign]

/-- The context of a waiting call may end just after the list was loaded; the call then
returns without the list. -/
theorem abandoned_after_load :
    let canceled : ErrorKinds Unit := ⟨fun _ => false, fun _ => true⟩
    let outcome := run (step canceled) (newClient : Client Unit Unit)
      [.call 0, .enter 0, .call 1, .enter 1, .finish 0 (.ok ()), .abandon 1 ()]
    ∃ before after call err,
      outcome.2 = before ++ .abandoned call err :: after ∧ Loaded before :=
  ⟨[.started 0 0, .waits 1, .finished 0 (.ok ()) 0, .returned 0 (some ()) none], [], 1, (), rfl,
    0, (), 0, by simp⟩

end MilterGuard.BootstrapFlight
