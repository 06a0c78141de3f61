import MilterGuard.ByteStrings
import MilterGuard.KeyedTables

/-!
The ip_reputation table with its strikes and the operations of the repository. A
time is a number of nanoseconds; a stored time is a number of milliseconds. The
strikes of a row stand in the order of the time and id that the statements use, and
removing a row removes its strikes. A block level and its end are stored together
or not at all.
-/
namespace MilterGuard.IPReputation

open ByteStrings KeyedTables

def unixMillis (value : ℤ) : ℤ := value / 1000000

def timeFromMillis (value : ℤ) : ℤ := value * 1000000

/-- The zero value of a time, the start of the year 1. -/
def zeroTime : ℤ := -62135596800 * 1000000000

def repeatRefreshInterval : ℤ := 60 * 1000000000

structure Options where
  shortDuration : ℤ
  repeatThreshold : ℤ
  repeatWindow : ℤ
  repeatDuration : ℤ
  repeatRefreshOnAttempt : Bool
  legitimatePerStrike : ℤ
  maxSize : ℤ

variable (o : Options)

def Options.enabled : Bool :=
  0 < o.maxSize && (0 < o.shortDuration || 0 < o.repeatThreshold)

/-- The times of the strikes of a row, oldest first. -/
@[ext]
structure Strikes where
  times : List ℤ
  sorted : times.Pairwise (· ≤ ·)
  deriving DecidableEq

namespace Strikes

def none : Strikes := ⟨[], List.Pairwise.nil⟩

variable (strikes : Strikes)

def add (time : ℤ) : Strikes :=
  ⟨strikes.times.orderedInsert (· ≤ ·) time, strikes.sorted.orderedInsert time strikes.times⟩

def after (cutoff : ℤ) : Strikes :=
  ⟨strikes.times.filter (cutoff < ·), strikes.sorted.filter _⟩

def newest (limit : ℕ) : Strikes :=
  ⟨strikes.times.drop (strikes.times.length - limit),
    strikes.sorted.sublist (List.drop_sublist _ _)⟩

def withoutOldest : Strikes :=
  ⟨strikes.times.tail, strikes.sorted.sublist (List.tail_sublist _)⟩

def count : ℕ := strikes.times.length

end Strikes

inductive IPBlockLevel
  | short
  | repeat
  deriving DecidableEq

structure Block where
  level : IPBlockLevel
  blockedUntil : ℤ
  deriving DecidableEq

structure Row where
  id : ℕ
  block : Option Block
  legitimateCount : ℕ
  lastActivityAt : ℤ
  strikes : Strikes
  deriving DecidableEq

abbrev Reputations := Table Bytes Row

/-- The key of a new row: one more than the largest in use. -/
def nextId (table : Reputations) : ℕ := (table.rows.map fun row => row.2.id).foldl max 0 + 1

structure IPBlock (A : Type) where
  address : A
  level : Option IPBlockLevel
  expiresAt : ℤ
  strikeCount : ℕ
  deriving DecidableEq

structure IPBlockPage (A : Type) where
  entries : List (IPBlock A)
  truncated : Bool
  deriving DecidableEq

/-- The address type with what the repository uses of it. -/
structure Addresses (A : Type) where
  isValid : A → Bool
  canonicalIP : A → A
  string : A → Bytes
  parseAddr : Bytes → Option A

inductive StoreError
  | parseStored
  | limitNotPositive
  deriving DecidableEq

variable (now : ℤ)

def Row.expiredRepeat (row : Row) : Bool :=
  row.block.any fun block => block.level = .repeat ∧ block.blockedUntil ≤ unixMillis now

/-- The strikes of a rejected address with the new one. -/
def rejectedStrikes (strikes : Strikes) : Strikes :=
  if 0 < o.repeatThreshold then
    ((strikes.add (unixMillis now)).after (unixMillis (now - o.repeatWindow))).newest
      o.repeatThreshold.toNat
  else .none

/-- The block for a number of strikes; an active block that lasts longer is kept. -/
def chooseBlock (strikeCount : ℕ) (existing : Option Block) : Option IPBlockLevel × ℤ :=
  let chosen : Option IPBlockLevel × ℤ :=
    if 0 < o.repeatThreshold ∧ o.repeatThreshold ≤ strikeCount then
      (some .repeat, now + o.repeatDuration)
    else if 0 < o.shortDuration then (some .short, now + o.shortDuration)
    else (none, zeroTime)
  match existing with
  | none => chosen
  | some block =>
    let existingUntil := timeFromMillis block.blockedUntil
    if now < existingUntil ∧ (chosen.2 = zeroTime ∨ chosen.2 < existingUntil ∨
        (existingUntil = chosen.2 ∧ block.level = .repeat ∧ chosen.1 ≠ some .repeat)) then
      (some block.level, existingUntil)
    else chosen

variable {A : Type} (net : Addresses A)

/-- The answer is `none` when the repository is disabled or the address invalid. -/
def recordRejection (o : Options) (now : ℤ) (addr : A) (table : Reputations) :
    Option (IPBlock A) × Reputations :=
  if ¬ o.enabled ∨ ¬ net.isValid addr then (none, table)
  else
    let addr := net.canonicalIP addr
    let ip := net.string addr
    -- An expired repeat block starts fresh.
    let table := table.edit fun key row =>
      if key = ip ∧ row.expiredRepeat now then none else some row
    let row := (table.get ip).getD ⟨nextId table, none, 0, unixMillis now, .none⟩
    let strikes := rejectedStrikes o now row.strikes
    let chosen := chooseBlock o now strikes.count row.block
    (some ⟨addr, chosen.1, chosen.2, strikes.count⟩,
      table.put ip { row with
        block := chosen.1.map (⟨·, unixMillis chosen.2⟩)
        legitimateCount := 0
        lastActivityAt := unixMillis now
        strikes := strikes })

def hasCurrentStrike (row : Option Row) : Bool :=
  if o.repeatThreshold ≤ 0 ∨ o.repeatWindow ≤ 0 then false
  else row.any fun row => row.strikes.times.any (unixMillis (now - o.repeatWindow) < ·)

def pruneStrikes (strikes : Strikes) : Strikes :=
  if o.repeatThreshold = 0 ∨ o.repeatWindow ≤ 0 then .none
  else strikes.after (unixMillis (now - o.repeatWindow))

/-- A row after a legitimate message; `none` when it is removed. -/
def legitimateRow (row : Row) : Option Row :=
  let strikes := pruneStrikes o now row.strikes
  let active := row.block.any fun block => now < timeFromMillis block.blockedUntil
  if strikes.count = 0 then
    if ¬ active then none else some { row with strikes := strikes, legitimateCount := 0 }
  else
    let enough := o.legitimatePerStrike ≤ row.legitimateCount + 1
    let strikes := if enough then strikes.withoutOldest else strikes
    if strikes.count = 0 ∧ ¬ active then none
    else some { row with
      strikes := strikes
      legitimateCount := if enough then 0 else row.legitimateCount + 1
      lastActivityAt := unixMillis now }

def recordLegitimate (o : Options) (now : ℤ) (addr : A) (table : Reputations) : Reputations :=
  if ¬ o.enabled ∨ o.legitimatePerStrike ≤ 0 ∨ ¬ net.isValid addr then table
  else
    let ip := net.string (net.canonicalIP addr)
    if ¬ hasCurrentStrike o now (table.get ip) then table
    else match table.get ip with
      | none => table
      | some row =>
        match legitimateRow o now row with
        | none => table.erase ip
        | some row => table.put ip row

def strikeCutoff : ℤ :=
  if 0 < o.repeatThreshold ∧ 0 < o.repeatWindow then unixMillis (now - o.repeatWindow)
  else unixMillis now

def readActiveBlock (o : Options) (now : ℤ) (ip : Bytes) (row : Option Row) :
    Except StoreError (Option (IPBlock A)) :=
  match row with
  | none => .ok none
  | some row =>
    match row.block with
    | none => .ok none
    | some block =>
      if unixMillis now < block.blockedUntil then
        match net.parseAddr ip with
        | none => .error .parseStored
        | some addr => .ok (some ⟨addr, some block.level, timeFromMillis block.blockedUntil,
            (row.strikes.after (strikeCutoff o now)).count⟩)
      else .ok none

/-- The row with its repeat block extended, if the statement selects it. -/
def refreshRepeatBlock (row : Row) : Option Row :=
  let expires := now + o.repeatDuration
  match row.block with
  | none => none
  | some block =>
    if block.level = .repeat ∧ unixMillis now < block.blockedUntil ∧
        block.blockedUntil ≤ unixMillis (expires - repeatRefreshInterval) then
      some { row with
        block := some ⟨.repeat, unixMillis expires⟩
        lastActivityAt := unixMillis now }
    else none

/-- The answer `none` is that no block was found. -/
def activeBlockForAttempt (o : Options) (now : ℤ) (addr : A) (table : Reputations) :
    Except StoreError (Option (IPBlock A)) × Reputations :=
  if ¬ o.enabled ∨ ¬ net.isValid addr then (.ok none, table)
  else
    let ip := net.string (net.canonicalIP addr)
    match readActiveBlock net o now ip (table.get ip) with
    | .error err => (.error err, table)
    | .ok none => (.ok none, table)
    | .ok (some block) =>
      if block.level ≠ some .repeat ∨ ¬ o.repeatRefreshOnAttempt then (.ok (some block), table)
      else if now + o.repeatDuration - block.expiresAt < repeatRefreshInterval then
        (.ok (some block), table)
      else match (table.get ip).bind (refreshRepeatBlock o now) with
        | none => (.ok (some block), table)
        | some row =>
          (.ok (some { block with expiresAt := now + o.repeatDuration }), table.put ip row)

def limitedPage {α : Type} (entries : List α) (limit : ℕ) : List α × Bool :=
  (entries.take limit, limit < entries.length)

/-- What a row contributes to a listing of the active blocks. -/
def listedBlock (activeSince : ℤ) (row : Row) : Option Block :=
  row.block.filter fun block => unixMillis now < block.blockedUntil ∧
    (activeSince = zeroTime ∨ unixMillis activeSince ≤ row.lastActivityAt)

def listActiveBlocks (o : Options) (now activeSince limit : ℤ) (table : Reputations) :
    Except StoreError (IPBlockPage A) :=
  if ¬ o.enabled then .ok ⟨[], false⟩
  else if limit < 1 then .error .limitNotPositive
  else do
    let rows := (table.listed (listedBlock now activeSince)).take (limit.toNat + 1)
    let out ← rows.mapM fun (ip, block) =>
      match net.parseAddr ip with
      | none => .error .parseStored
      | some addr => .ok ⟨addr, some block.level, timeFromMillis block.blockedUntil, 0⟩
    let page := limitedPage out limit.toNat
    return ⟨page.1, page.2⟩

/-- Whether a row was removed. -/
def delete (addr : A) (table : Reputations) : Option Bool × Reputations :=
  if ¬ net.isValid addr then (none, table)
  else
    let ip := net.string (net.canonicalIP addr)
    (some (table.get ip).isSome, table.erase ip)

/-- A manual block replaces the block of the address and keeps its strikes. -/
def addManualBlock (o : Options) (now : ℤ) (addr : A) (table : Reputations) :
    Except String (IPBlock A × Reputations) :=
  if ¬ o.enabled ∨ ¬ net.isValid addr then
    .error "IP reputation blocking is disabled or the address is invalid"
  else
    let addr := net.canonicalIP addr
    let (level, duration) : IPBlockLevel × ℤ :=
      if o.repeatDuration ≤ 0 then (.short, o.shortDuration) else (.repeat, o.repeatDuration)
    if duration ≤ 0 then .error "no IP block duration is configured"
    else
      let ip := net.string addr
      let row := (table.get ip).getD ⟨nextId table, none, 0, unixMillis now, .none⟩
      .ok (⟨addr, some level, now + duration, 0⟩,
        table.put ip { row with
          block := some ⟨level, unixMillis (now + duration)⟩
          legitimateCount := 0
          lastActivityAt := unixMillis now })

variable (table : Reputations)

def capacityExcess : ℕ :=
  ((table.rows.length : ℤ) - o.maxSize).toNat

/-- The ids of the rows of a level that were idle longest. -/
def idlest (level : Option IPBlockLevel) (limit : ℕ) (table : Reputations) : List ℕ :=
  (((table.rows.map Prod.snd).filter fun row => row.block.map Block.level = level).mergeSort
    fun a b => a.lastActivityAt < b.lastActivityAt ∨
      (a.lastActivityAt = b.lastActivityAt ∧ a.id ≤ b.id)).take limit |>.map Row.id

/-- Rows without a block go first, then short and then repeat blocks. -/
def enforceCapacity : ℕ × Reputations :=
  let remove (state : ℕ × Reputations) (level : Option IPBlockLevel) : ℕ × Reputations :=
    let ids := idlest level state.1 state.2
    (state.1 - ids.length, state.2.edit fun _ row => if row.id ∈ ids then none else some row)
  let excess := capacityExcess o table
  if excess = 0 then (0, table)
  else
    let last := [none, some .short, some .repeat].foldl remove (excess, table)
    (excess - last.1, last.2)

def strikeTotal : ℕ := (table.rows.map fun row => row.2.strikes.count).sum

/-- The statements of the cleanup before the capacity is enforced, with the number of
strikes and rows that they remove. -/
def pruneTable : ℕ × Reputations :=
  let pruned := table.edit fun _ row => some { row with strikes := pruneStrikes o now row.strikes }
  let unexpired := pruned.edit fun _ row => if row.expiredRepeat now then none else some row
  let cleared := unexpired.edit fun _ row => some { row with
    block := row.block.filter fun block =>
      ¬ (block.level = .short ∧ block.blockedUntil ≤ unixMillis now) }
  let kept := cleared.edit fun _ row =>
    if row.block = none ∧ row.strikes.count = 0 then none else some row
  (strikeTotal table - strikeTotal pruned + (pruned.rows.length - unexpired.rows.length) +
    (cleared.rows.length - kept.rows.length), kept)

def cleanup : ℕ × Reputations :=
  if ¬ o.enabled then (0, table)
  else
    let pruned := pruneTable o now table
    let enforced := enforceCapacity o pruned.2
    (pruned.1 + enforced.1, enforced.2)

end MilterGuard.IPReputation
