import MilterGuard.Histories
import MilterGuard.KeyedTables

/-!
Domain registration evidence. Concurrent calls for a domain share one lookup: the call
that claims the domain looks it up and stores the record, the others wait for it on a
channel. A channel has the number of the call that made it. Times are nanoseconds from
the zero time, and the clock never goes back.
-/
namespace MilterGuard.EvidenceCoalescing

open KeyedTables

def missingExpiryCache : ℤ := 14 * 24 * 60 * 60 * 1000000000

def failureRetry : ℤ := 5 * 60 * 1000000000

def deadlineRetry : ℤ := 60 * 1000000000

structure Record where
  registeredAt : ℤ
  expiresAt : ℤ

/-- The repository keeps milliseconds. -/
def Record.stored (record : Record) : Record :=
  ⟨record.registeredAt / 1000000 * 1000000, record.expiresAt / 1000000 * 1000000⟩

inductive Failure
  | repository
  | lookup
  | context

variable {D : Type}

/-- The domain with its registration time, no evidence, or a failure. -/
abbrev Answer (D : Type) := Except Failure (Option (D × ℤ))

def domainRegistrationEvidence (domain : D) (record : Record) : Answer D :=
  .ok (some (domain, record.registeredAt))

/-- Where a call is between two of its atomic parts; `now` is the time it captured. -/
inductive Phase (D : Type)
  | absent
  | reading (domain : D) (now : ℤ)
  | locking (domain : D) (now : ℤ)
  | waiting (domain : D) (pending : ℕ)
  | rereading (domain : D)
  | claimed (domain : D) (now : ℤ)
  | releasing (domain : D) (answer : Answer D)
  | selecting (domain : D) (now : ℤ)
  | looking (domain : D) (now : ℤ)
  | storing (domain : D) (now : ℤ) (record : Record)
  /-- The failure of the lookup says whether a deadline was exceeded. -/
  | finishing (domain : D) (now : ℤ) (lookupErr : Option Bool) (answer : Answer D)
  | done (claimed : Bool)

structure Store (D : Type) where
  clock : ℤ
  records : D → Option Record
  failures : Table D ℤ
  inflight : D → Option ℕ
  slots : ℕ
  /-- How often each channel was closed. -/
  closes : ℕ → ℕ
  callers : ℕ → Phase D

inductive Event (D : Type)
  /-- A lookup with the record and the retry time that the stores hold when it starts. -/
  | started (call : ℕ) (domain : D) (now : ℤ) (held : Option Record) (retryAt : Option ℤ)
  | returned (call : ℕ) (answer : Answer D)

/-- What happens to one part of a call. -/
structure Environment where
  repositoryFails : Bool
  contextEnded : Bool
  /-- The context of the lookup ends with that of the call or with its own timeout. -/
  lookupContextEnded : Bool
  deadlineExceeded : Bool
  /-- What the lookup returns; nothing when it fails or panics. -/
  result : Option (ℤ × ℤ)
  /-- The order in which failures are dropped. -/
  pick : ℕ → ℕ

/-- The dates of a lookup are checked, and a missing expiry is replaced. -/
def evaluate (now : ℤ) (env : Environment) : Except Bool Record :=
  match env.result with
  | none => .error env.deadlineExceeded
  | some (registeredAt, expiresAt) =>
    if registeredAt = 0 ∨ now < registeredAt ∨
        (expiresAt ≠ 0 ∧ (expiresAt ≤ registeredAt ∨ expiresAt ≤ now)) then .error false
    else if expiresAt = 0 then .ok ⟨registeredAt, now + missingExpiryCache⟩
    else .ok ⟨registeredAt, expiresAt⟩

def newStore (clock : ℤ) (records : D → Option Record) : Store D :=
  ⟨clock, records, .empty, fun _ => none, 0, fun _ => 0, fun _ => .absent⟩

def Store.assign (s : Store D) (call : ℕ) (phase : Phase D) : Store D :=
  { s with callers := Function.update s.callers call phase }

def Store.return (s : Store D) (call : ℕ) (answer : Answer D) : Store D × List (Event D) :=
  (s.assign call (.done false), [.returned call answer])

/-- The record of the repository while it has not expired. -/
def Store.current (s : Store D) (domain : D) (now : ℤ) : Option Record :=
  (s.records domain).filter fun record => now < record.expiresAt

variable [DecidableEq D]

/-- Drops failures one by one while there are too many. -/
def evict (maxSize : ℤ) (pick : ℕ → ℕ) : ℕ → Table D ℤ → Table D ℤ
  | 0, failures => failures
  | n + 1, failures =>
    if maxSize ≤ failures.rows.length ∧ 0 < failures.rows.length then
      evict maxSize pick n (failures.eraseAt (pick n % failures.rows.length))
    else failures

variable (maxSize : ℤ)

def pruneFailuresLocked (now : ℤ) (pick : ℕ → ℕ) (failures : Table D ℤ) : Table D ℤ :=
  let live := failures.edit fun _ retryAt => if now < retryAt then some retryAt else none
  evict maxSize pick live.rows.length live

/-- The failures after a lookup. -/
def recordFailure (domain : D) (now : ℤ) (lookupErr : Option Bool) (env : Environment)
    (failures : Table D ℤ) : Table D ℤ :=
  match lookupErr with
  | none => failures.erase domain
  | some deadlineExceeded =>
    if env.contextEnded then failures
    else
      (pruneFailuresLocked maxSize now env.pick failures).put domain
        (now + if deadlineExceeded then deadlineRetry else failureRetry)

/-- Gives the claim up and closes the channel. -/
def Store.finishInflight (s : Store D) (call : ℕ) (domain : D) : Store D :=
  { s with
    inflight := Function.update s.inflight domain none
    closes := Function.update s.closes call (s.closes call + 1) }

/-- The first locked part: an open failure window, a lookup in flight, or a claim. -/
def lock (call : ℕ) (domain : D) (now : ℤ) (s : Store D) : Store D × List (Event D) :=
  if now < (s.failures.get domain).getD 0 then s.return call (.ok none)
  else match s.inflight domain with
    | some pending => (s.assign call (.waiting domain pending), [])
    | none =>
      ({ s.assign call (.claimed domain now) with
          inflight := Function.update s.inflight domain (some call) }, [])

/-- The next atomic part of a call. -/
def advance (env : Environment) (call : ℕ) (s : Store D) : Store D × List (Event D) :=
  match s.callers call with
  | .absent => (s, [])
  | .done _ => (s, [])
  | .reading domain now =>
    if env.repositoryFails then s.return call (.error .repository)
    else match s.current domain now with
      | some record => s.return call (domainRegistrationEvidence domain record)
      | none => (s.assign call (.locking domain now), [])
  | .locking domain now => lock call domain now s
  | .waiting domain pending =>
    if env.contextEnded then s.return call (.error .context)
    else if s.closes pending = 0 then (s, [])
    else (s.assign call (.rereading domain), [])
  | .rereading domain =>
    if env.repositoryFails then s.return call (.error .repository)
    else match s.current domain s.clock with
      | some record => s.return call (domainRegistrationEvidence domain record)
      | none => s.return call (.ok none)
  | .claimed domain now =>
    if env.repositoryFails then (s.assign call (.releasing domain (.error .repository)), [])
    else match s.current domain s.clock with
      | some record =>
        (s.assign call (.releasing domain (domainRegistrationEvidence domain record)), [])
      | none => (s.assign call (.selecting domain now), [])
  | .releasing domain answer =>
    -- the claim is released only while it is this call's own
    ((if s.inflight domain = some call then s.finishInflight call domain else s).assign call
      (.done true), [.returned call answer])
  | .selecting domain now =>
    if env.lookupContextEnded then
      (s.assign call (.finishing domain now (some env.deadlineExceeded) (.error .lookup)), [])
    else if s.slots < (min 8 maxSize).toNat then
      ({ s.assign call (.looking domain now) with slots := s.slots + 1 },
        [.started call domain s.clock (s.records domain) (s.failures.get domain)])
    else (s, [])
  | .looking domain now =>
    let freed := { s with slots := s.slots - 1 }
    match evaluate now env with
    | .ok record => (freed.assign call (.storing domain now record), [])
    | .error deadlineExceeded =>
      (freed.assign call (.finishing domain now (some deadlineExceeded) (.error .lookup)), [])
  | .storing domain now record =>
    if env.repositoryFails then
      (s.assign call (.finishing domain now none (.error .repository)), [])
    else
      ({ s.assign call
            (.finishing domain now none (domainRegistrationEvidence domain record)) with
          records := Function.update s.records domain (some record.stored) }, [])
  | .finishing domain now lookupErr answer =>
    ({ (s.finishInflight call domain).assign call (.done true) with
        failures := recordFailure maxSize domain now lookupErr env s.failures },
      [.returned call answer])

inductive Action (D : Type)
  | tick (duration : ℕ)
  /-- The maintenance of the repository removes a record. -/
  | forget (domain : D)
  | call (call : ℕ) (domain : D)
  | advance (call : ℕ) (env : Environment)

def step (s : Store D) : Action D → Store D × List (Event D)
  | .tick duration => ({ s with clock := s.clock + duration }, [])
  | .forget domain => ({ s with records := Function.update s.records domain none }, [])
  | .call call domain =>
    match s.callers call with
    | .absent => (s.assign call (.reading domain s.clock), [])
    | _ => (s, [])
  | .advance call env => advance maxSize env call s

/-- The domain that a call has claimed. -/
def Phase.holding : Phase D → Option D
  | .claimed domain _ | .releasing domain _ | .selecting domain _ | .looking domain _
  | .storing domain _ _ | .finishing domain _ _ _ => some domain
  | _ => none

/-- The call has claimed a domain and given it up. -/
def Phase.released : Phase D → Bool
  | .done gaveUp => gaveUp
  | _ => false

/-- The time that a call captured before it claims. -/
def Phase.captured : Phase D → Option ℤ
  | .reading _ now | .locking _ now => some now
  | _ => none

/-- A lookup starts when neither an unexpired record nor an open window is there. -/
def Lawful : Event D → Prop
  | .started _ _ now held retryAt =>
    (∀ record, held = some record → record.expiresAt ≤ now) ∧
      ∀ time, retryAt = some time → time ≤ now
  | .returned _ _ => True

section Failures

variable {maxSize : ℤ} {failures : Table D ℤ}

theorem evict_get (pick : ℕ → ℕ) (n : ℕ) {domain : D} {time : ℤ}
    (h : (evict maxSize pick n failures).get domain = some time) :
    failures.get domain = some time := by
  induction n generalizing failures with
  | zero => exact h
  | succ n ih =>
    unfold evict at h
    split_ifs at h
    · have hrow := (Table.get_eq_some_iff _ _ _).mp (ih h)
      exact (Table.get_eq_some_iff _ _ _).mpr (List.mem_of_mem_eraseIdx hrow)
    · exact h

omit [DecidableEq D] in
/-- With as many rounds as rows, there is room for one more. -/
theorem evict_length (pick : ℕ → ℕ) (n : ℕ) (hn : failures.rows.length ≤ n) (hmax : 1 ≤ maxSize) :
    ((evict maxSize pick n failures).rows.length : ℤ) < maxSize := by
  induction n generalizing failures with
  | zero =>
    unfold evict
    omega
  | succ n ih =>
    unfold evict
    split_ifs with hfull
    · apply ih
      have hlt := Nat.mod_lt (pick n) hfull.2
      simp only [Table.eraseAt, List.length_eraseIdx, if_pos hlt]
      omega
    · omega

theorem recordFailure_get (now : ℤ) (lookupErr : Option Bool) (env : Environment)
    {domain other : D} {time : ℤ}
    (h : (recordFailure maxSize domain now lookupErr env failures).get other = some time) :
    other = domain ∨ failures.get other = some time := by
  by_cases hother : other = domain
  · exact Or.inl hother
  · right
    cases lookupErr with
    | none => simpa [recordFailure, Table.get_erase, hother] using h
    | some deadlineExceeded =>
      simp only [recordFailure] at h
      by_cases hended : env.contextEnded = true
      · rwa [if_pos hended] at h
      · rw [if_neg hended, Table.get_put, if_neg hother] at h
        have hlive := evict_get env.pick _ h
        rw [Table.get_edit] at hlive
        obtain ⟨retryAt, hretryAt, hkept⟩ := Option.bind_eq_some_iff.mp hlive
        split_ifs at hkept
        obtain rfl := Option.some.inj hkept
        exact hretryAt

theorem recordFailure_length (domain : D) (now : ℤ) (lookupErr : Option Bool) (env : Environment)
    (hmax : 1 ≤ maxSize) (h : (failures.rows.length : ℤ) ≤ maxSize) :
    ((recordFailure maxSize domain now lookupErr env failures).rows.length : ℤ) ≤ maxSize := by
  cases lookupErr with
  | none =>
    have hle := failures.length_edit_le fun k value => if k = domain then none else some value
    simp only [recordFailure, Table.erase]
    omega
  | some deadlineExceeded =>
    simp only [recordFailure]
    by_cases hended : env.contextEnded = true
    · rwa [if_pos hended]
    · rw [if_neg hended]
      have hroom :
          ((pruneFailuresLocked maxSize now env.pick failures).rows.length : ℤ) < maxSize :=
        evict_length env.pick _ (Nat.le_refl _) hmax
      have hput := (pruneFailuresLocked maxSize now env.pick failures).length_put_le domain
        (now + if deadlineExceeded then deadlineRetry else failureRetry)
      omega

end Failures

end MilterGuard.EvidenceCoalescing
