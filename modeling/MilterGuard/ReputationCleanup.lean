import MilterGuard.IPReputation
import MilterGuard.SilentSteps

/-!
What can still be seen of an address. Its standing at a time has the block that is
active then, the strikes that still count and, while there are any, the legitimate
messages since. Every operation is a function of standings, and the cleanup leaves
each standing as it is.
-/
namespace MilterGuard.ReputationCleanup

open ByteStrings KeyedTables IPReputation SilentSteps

/-! ### Times and strikes -/

theorem unixMillis_mono {now later : ℤ} (h : now ≤ later) : unixMillis now ≤ unixMillis later :=
  Int.ediv_le_ediv (by decide) h

/-- A stored time is after a time exactly when it is after its milliseconds. -/
theorem lt_timeFromMillis_iff (now stored : ℤ) :
    now < timeFromMillis stored ↔ unixMillis now < stored :=
  (Int.ediv_lt_iff_lt_mul (by decide)).symm

namespace Strikes

theorem after_after (strikes : Strikes) {cutoff later : ℤ} (h : cutoff ≤ later) :
    (strikes.after cutoff).after later = strikes.after later := by
  refine Strikes.ext ?_
  simp only [Strikes.after, List.filter_filter]
  congr 1
  funext time
  have himp : later < time → cutoff < time := fun hlater => lt_of_le_of_lt h hlater
  by_cases hlater : later < time
  · simp [himp hlater]
  · simp [hlater]

theorem after_eq_none {strikes : Strikes} {cutoff : ℤ} (h : ∀ time ∈ strikes.times, time ≤ cutoff) :
    strikes.after cutoff = .none := by
  refine Strikes.ext (List.filter_eq_nil_iff.mpr fun time htime => ?_)
  simpa using h time htime

theorem after_add (strikes : Strikes) (time cutoff : ℤ) :
    (strikes.add time).after cutoff =
      if cutoff < time then (strikes.after cutoff).add time else strikes.after cutoff := by
  have hperm : ((strikes.add time).after cutoff).times.Perm
      ((time :: strikes.times).filter (cutoff < ·)) :=
    (List.perm_orderedInsert (· ≤ ·) time strikes.times).filter _
  split_ifs with htime
  · refine Strikes.ext (List.Perm.eq_of_pairwise' ((strikes.add time).after cutoff).sorted
      ((strikes.after cutoff).add time).sorted ?_)
    rw [List.filter_cons_of_pos (by simpa using htime)] at hperm
    exact hperm.trans (List.perm_orderedInsert (· ≤ ·) time _).symm
  · refine Strikes.ext (List.Perm.eq_of_pairwise' ((strikes.add time).after cutoff).sorted
      (strikes.after cutoff).sorted ?_)
    rwa [List.filter_cons_of_neg (by simpa using htime)] at hperm

end Strikes

/-- No strike is later than the time. -/
def Recent (now : ℤ) (strikes : Strikes) : Prop := ∀ time ∈ strikes.times, time ≤ unixMillis now

/-- The strikes that count at a time. -/
def current (o : Options) (now : ℤ) (strikes : Strikes) : Strikes :=
  if 0 < o.repeatThreshold ∧ 0 < o.repeatWindow then
    strikes.after (unixMillis (now - o.repeatWindow))
  else .none

variable {o : Options} {now : ℤ}

theorem current_current {later : ℤ} (h : now ≤ later) (strikes : Strikes) :
    current o later (current o now strikes) = current o later strikes := by
  unfold current
  split_ifs
  · exact Strikes.after_after strikes (unixMillis_mono (by omega))
  · rfl

theorem current_none : current o now .none = .none := by
  unfold current
  split_ifs <;> rfl

theorem current_pruneStrikes (strikes : Strikes) :
    current o now (pruneStrikes o now strikes) = current o now strikes := by
  unfold current pruneStrikes
  by_cases hcounts : 0 < o.repeatThreshold ∧ 0 < o.repeatWindow
  · rw [if_pos hcounts, if_pos hcounts, if_neg (by omega)]
    exact Strikes.after_after strikes le_rfl
  · rw [if_neg hcounts, if_neg hcounts]

/-- Only the strikes that count matter for the next rejection. -/
theorem rejectedStrikes_current {strikes : Strikes} (hpast : Recent now strikes) :
    rejectedStrikes o now (current o now strikes) = rejectedStrikes o now strikes := by
  have hafter : (current o now strikes).after (unixMillis (now - o.repeatWindow)) =
        strikes.after (unixMillis (now - o.repeatWindow)) ∨ ¬ 0 < o.repeatThreshold := by
    unfold current
    split_ifs with hcounts
    · exact Or.inl (Strikes.after_after strikes le_rfl)
    · by_cases hthreshold : 0 < o.repeatThreshold
      · refine Or.inl ?_
        have hcutoff : unixMillis now ≤ unixMillis (now - o.repeatWindow) :=
          unixMillis_mono (by omega)
        rw [Strikes.after_eq_none fun time htime => (hpast time htime).trans hcutoff]
        rfl
      · exact Or.inr hthreshold
  unfold rejectedStrikes
  rcases hafter with hafter | hthreshold
  · rw [Strikes.after_add, Strikes.after_add, hafter]
  · rw [if_neg hthreshold, if_neg hthreshold]

/-- The count of a lookup is that of the strikes that count. -/
theorem after_strikeCutoff {strikes : Strikes} (hpast : Recent now strikes) :
    strikes.after (strikeCutoff o now) = current o now strikes := by
  unfold strikeCutoff current
  split_ifs
  · rfl
  · exact Strikes.after_eq_none hpast

/-! ### Standings -/

@[ext]
structure Standing where
  /-- The block and the time of the last activity. -/
  block : Option (Block × ℤ)
  strikes : Strikes
  legitimateCount : ℕ

def expired (now : ℤ) (block : Block) : Prop := block.blockedUntil ≤ unixMillis now

instance : DecidablePred (expired now) := fun _ => inferInstanceAs (Decidable (_ ≤ _))

/-- The block that is still active at a time. -/
def activeAt (now : ℤ) (block : Option Block) : Option Block :=
  block.filter fun b => ¬ expired now b

theorem activeAt_eq_some {block : Option Block} {b : Block} (h : activeAt now block = some b) :
    block = some b ∧ unixMillis now < b.blockedUntil := by
  obtain ⟨hblock, hb⟩ := Option.filter_eq_some_iff.mp h
  exact ⟨hblock, by simpa [expired] using hb⟩

/-- There is no block, or one that is over, or an active one. -/
theorem activeAt_cases (now : ℤ) (block : Option Block) :
    (block = none ∧ activeAt now none = none) ∨
    (∃ b, block = some b ∧ b.blockedUntil ≤ unixMillis now ∧ activeAt now (some b) = none) ∨
    ∃ b, block = some b ∧ unixMillis now < b.blockedUntil ∧ activeAt now (some b) = some b := by
  cases block with
  | none => exact Or.inl ⟨rfl, rfl⟩
  | some b =>
    cases hactive : activeAt now (some b) with
    | none => exact Or.inr (Or.inl ⟨b, rfl, by simpa [activeAt, expired] using hactive, hactive⟩)
    | some b' =>
      obtain ⟨hblock, hlater⟩ := activeAt_eq_some hactive
      obtain rfl := Option.some.inj hblock
      exact Or.inr (Or.inr ⟨b, rfl, hlater, hactive⟩)

/-- What is left of a standing at a time. -/
def Standing.aged (o : Options) (now : ℤ) (s : Standing) : Option Standing :=
  if s.block.any fun b => b.1.level = .repeat ∧ expired now b.1 then none
  else
    let block := s.block.filter fun b => ¬ expired now b.1
    let strikes := current o now s.strikes
    if block = none ∧ strikes = .none then none
    else some ⟨block, strikes, if strikes = .none then 0 else s.legitimateCount⟩

/-- Ageing in two steps is ageing to the later time. -/
theorem Standing.aged_aged {later : ℤ} (h : now ≤ later) (s : Standing) :
    (s.aged o now).bind (Standing.aged o later) = s.aged o later := by
  obtain ⟨block, strikes, legitimate⟩ := s
  have hstrikes := current_current (o := o) h strikes
  have hgone : current o now strikes = .none → current o later strikes = .none := by
    intro hnone
    rw [← hstrikes, hnone, current_none]
  have hexpired : ∀ b : Block, expired now b → expired later b :=
    fun b hb => le_trans hb (unixMillis_mono h)
  have hboth : (fun b : Block × ℤ => !decide (expired now b.1) && !decide (expired later b.1)) =
      fun b => !decide (expired later b.1) := by
    funext b
    by_cases hb : expired now b.1
    · simp [hexpired b.1 hb]
    · simp [hb]
  unfold Standing.aged
  cases block with
  | none => by_cases hnow : current o now strikes = .none <;> simp_all
  | some b =>
    by_cases hb : expired now b.1
    · have hb' := hexpired b.1 hb
      by_cases hlevel : b.1.level = .repeat
      · simp [hb, hb', hlevel]
      · by_cases hnow : current o now strikes = .none <;> simp_all
    · by_cases hnow : current o now strikes = .none <;> simp_all

def standing (row : Row) : Standing :=
  ⟨row.block.map (·, row.lastActivityAt), row.strikes, row.legitimateCount⟩

/-- The standing of an address at a time. -/
def view (o : Options) (now : ℤ) (row : Option Row) : Option Standing :=
  row.bind fun row => (standing row).aged o now

def blockOf (s : Option Standing) : Option (Block × ℤ) := s.bind Standing.block

def strikesOf (s : Option Standing) : Strikes := s.elim .none Standing.strikes

theorem view_later {later : ℤ} (h : now ≤ later) (row : Option Row) :
    (view o now row).bind (Standing.aged o later) = view o later row := by
  cases row with
  | none => rfl
  | some row => exact Standing.aged_aged h (standing row)

private theorem standing_expired (row : Row) :
    ((standing row).block.any fun b => b.1.level = .repeat ∧ expired now b.1) =
      row.expiredRepeat now := by
  unfold standing Row.expiredRepeat
  cases row.block <;> rfl

variable {row : Row}

theorem view_of_expired (h : row.expiredRepeat now = true) : view o now (some row) = none := by
  rw [view, Option.bind_some, Standing.aged, standing_expired, if_pos h]

theorem view_of_not_expired (h : row.expiredRepeat now = false) :
    view o now (some row) =
      if activeAt now row.block = none ∧ current o now row.strikes = .none then none
      else some ⟨(activeAt now row.block).map (·, row.lastActivityAt), current o now row.strikes,
        if current o now row.strikes = .none then 0 else row.legitimateCount⟩ := by
  have hblock : (standing row).block.filter (fun b => ¬ expired now b.1) =
      (activeAt now row.block).map (·, row.lastActivityAt) := Option.filter_map ..
  rw [view, Option.bind_some, Standing.aged, standing_expired, h, hblock]
  simp only [Option.map_eq_none_iff]
  rfl

theorem not_expiredRepeat {block : Block} (h : activeAt now row.block = some block) :
    row.expiredRepeat now = false := by
  obtain ⟨hblock, hlater⟩ := activeAt_eq_some h
  simp [Row.expiredRepeat, hblock, not_le.mpr hlater]

theorem view_empty (hblock : row.block = none) (hstrikes : row.strikes = .none) :
    view o now (some row) = none := by
  simp [view, standing, Standing.aged, hblock, hstrikes, current_none]

theorem blockOf_view (row : Row) :
    blockOf (view o now (some row)) = (activeAt now row.block).map (·, row.lastActivityAt) := by
  cases h : row.expiredRepeat now with
  | true =>
    rw [view_of_expired h]
    cases hactive : activeAt now row.block with
    | none => rfl
    | some block => exact absurd h (by simp [not_expiredRepeat hactive])
  | false =>
    rw [view_of_not_expired h]
    by_cases hnone : activeAt now row.block = none ∧ current o now row.strikes = .none
    · rw [if_pos hnone, hnone.1]
      rfl
    · rw [if_neg hnone]
      rfl

theorem strikesOf_view (h : row.expiredRepeat now = false) :
    strikesOf (view o now (some row)) = current o now row.strikes := by
  rw [view_of_not_expired h]
  by_cases hnone : activeAt now row.block = none ∧ current o now row.strikes = .none
  · rw [if_pos hnone]
    exact hnone.2.symm
  · rw [if_neg hnone]
    rfl

/-! ### The operations in terms of standings -/

theorem chooseBlock_active (strikeCount : ℕ) (existing : Option Block) :
    chooseBlock o now strikeCount (activeAt now existing) =
      chooseBlock o now strikeCount existing := by
  rcases activeAt_cases now existing with ⟨rfl, h⟩ | ⟨b, rfl, hb, h⟩ | ⟨b, rfl, hb, h⟩
  · rw [h]
  · simp [h, chooseBlock, lt_timeFromMillis_iff, not_lt.mpr hb]
  · rw [h]

/-- No strike of a table is later than the time. -/
def Past (now : ℤ) (table : Reputations) : Prop :=
  ∀ key row, table.get key = some row → Recent now row.strikes

/-- What a rejection makes of a standing. -/
def rejected (o : Options) (now : ℤ) (s : Option Standing) : (Option IPBlockLevel × ℤ) × Strikes :=
  let strikes := rejectedStrikes o now (strikesOf s)
  (chooseBlock o now strikes.count ((blockOf s).map Prod.fst), strikes)

theorem rejected_view (row : Row) (hpast : Recent now row.strikes)
    (h : row.expiredRepeat now = false) :
    rejected o now (view o now (some row)) =
      (chooseBlock o now (rejectedStrikes o now row.strikes).count row.block,
        rejectedStrikes o now row.strikes) := by
  have hfst : (blockOf (view o now (some row))).map Prod.fst = activeAt now row.block := by
    rw [blockOf_view, Option.map_map]
    exact Option.map_id'
  rw [rejected, strikesOf_view h, rejectedStrikes_current hpast, hfst, chooseBlock_active]

variable {A : Type} {net : Addresses A}

section

variable (strikes : Strikes) {table : Reputations}

/-- The row of an address before its rejection is recorded: an expired repeat block is
gone, and a missing row starts empty. -/
private theorem rejected_fresh (hpast : Past now table) (ip : Bytes) (id : ℕ) (last : ℤ) :
    rejected o now (view o now (table.get ip)) =
      let row := ((table.get ip).bind fun row =>
        if row.expiredRepeat now then none else some row).getD ⟨id, none, 0, last, .none⟩
      (chooseBlock o now (rejectedStrikes o now row.strikes).count row.block,
        rejectedStrikes o now row.strikes) := by
  cases hrow : table.get ip with
  | none => rfl
  | some row =>
    cases hexpired : row.expiredRepeat now with
    | true =>
      rw [view_of_expired hexpired]
      simp [hexpired, rejected, strikesOf, blockOf]
    | false =>
      rw [rejected_view row (hpast ip row hrow) hexpired]
      simp [hexpired]

theorem recordRejection_spec (net : Addresses A) (hpast : Past now table) {addr : A}
    (henabled : o.enabled = true) (hvalid : net.isValid addr = true) :
    let ip := net.string (net.canonicalIP addr)
    let r := rejected o now (view o now (table.get ip))
    (recordRejection net o now addr table).1 =
        some ⟨net.canonicalIP addr, r.1.1, r.1.2, r.2.count⟩ ∧
      ∃ row, standing row = ⟨r.1.1.map fun level => (⟨level, unixMillis r.1.2⟩, unixMillis now),
          r.2, 0⟩ ∧
        ∀ key, (recordRejection net o now addr table).2.get key =
          if key = ip then some row else table.get key := by
  intro ip r
  set edited := table.edit fun key row =>
    if key = ip ∧ row.expiredRepeat now then none else some row with hedited
  have hget : edited.get ip = (table.get ip).bind fun row =>
      if row.expiredRepeat now then none else some row := by
    rw [Table.get_edit]
    simp
  have hother : ∀ key, key ≠ ip → edited.get key = table.get key := by
    intro key hkey
    rw [Table.get_edit]
    simp [hkey]
  have hr := rejected_fresh hpast (o := o) ip (nextId edited) (unixMillis now)
  rw [← hget] at hr
  let row : Row := ⟨((edited.get ip).getD ⟨nextId edited, none, 0, unixMillis now, .none⟩).id,
    r.1.1.map (⟨·, unixMillis r.1.2⟩), 0, unixMillis now, r.2⟩
  have hrun : recordRejection net o now addr table =
      (some ⟨net.canonicalIP addr, r.1.1, r.1.2, r.2.count⟩, edited.put ip row) := by
    unfold recordRejection
    rw [if_neg (by simp [henabled, hvalid])]
    simp only [row, r, hr]
    rfl
  rw [hrun]
  refine ⟨rfl, row, by simp [row, standing, Function.comp_def], fun key => ?_⟩
  rw [Table.get_put]
  by_cases hkey : key = ip
  · rw [if_pos hkey, if_pos hkey]
  · rw [if_neg hkey, if_neg hkey, hother key hkey]

/-- What a legitimate message makes of a standing. -/
def legitimate (o : Options) (now : ℤ) (s : Standing) : Option Standing :=
  if s.strikes = .none then some s
  else
    let enough := o.legitimatePerStrike ≤ s.legitimateCount + 1
    (⟨s.block.map fun b => (b.1, unixMillis now),
      if enough then s.strikes.withoutOldest else s.strikes,
      if enough then 0 else s.legitimateCount + 1⟩ : Standing).aged o now

theorem count_eq_zero_iff : strikes.count = 0 ↔ strikes = .none := by
  rw [Strikes.count, List.length_eq_zero_iff]
  exact ⟨fun h => Strikes.ext h, fun h => by rw [h]; rfl⟩

theorem hasCurrentStrike_iff (row : Row) :
    hasCurrentStrike o now (some row) = true ↔ current o now row.strikes ≠ .none := by
  unfold hasCurrentStrike current
  by_cases hcounts : 0 < o.repeatThreshold ∧ 0 < o.repeatWindow
  · rw [if_neg (by omega), if_pos hcounts, ne_eq, ← count_eq_zero_iff]
    simp [Strikes.count, Strikes.after]
  · rw [if_pos (by omega), if_neg hcounts]
    simp

/-- Blocks that are over do not matter for ageing, unless a repeat block is over. -/
private theorem aged_active (count : ℕ) (last : ℤ) {block : Option Block}
    (h : (block.any fun b => b.level = .repeat ∧ b.blockedUntil ≤ unixMillis now) = false) :
    (⟨(activeAt now block).map (·, last), strikes, count⟩ : Standing).aged o now =
      (⟨block.map (·, last), strikes, count⟩ : Standing).aged o now := by
  rcases activeAt_cases now block with ⟨rfl, ha⟩ | ⟨b, rfl, hb, ha⟩ | ⟨b, rfl, hb, ha⟩
  · rw [ha]
  · have hlevel : b.level ≠ .repeat := fun hlevel => by simp [hlevel, hb] at h
    simp [ha, Standing.aged, Option.filter, expired, hb, hlevel]
  · rw [ha]

theorem legitimateRow_view (row : Row) (hstrike : current o now row.strikes ≠ .none) :
    view o now (legitimateRow o now row) =
      (view o now (some row)).bind (legitimate o now) := by
  have hcounts : 0 < o.repeatThreshold ∧ 0 < o.repeatWindow := by
    by_contra hnot
    exact hstrike (by rw [current, if_neg hnot])
  have hpruned : pruneStrikes o now row.strikes = current o now row.strikes := by
    rw [pruneStrikes, current, if_neg (by omega), if_pos hcounts]
  have hactive : (row.block.any fun block => now < timeFromMillis block.blockedUntil) =
      (activeAt now row.block).isSome := by
    rcases activeAt_cases now row.block with ⟨hrow, ha⟩ | ⟨b, hrow, hb, ha⟩ | ⟨b, hrow, hb, ha⟩
    · simp [hrow, ha]
    · simp [hrow, ha, lt_timeFromMillis_iff, hb]
    · simp [hrow, ha, lt_timeFromMillis_iff, hb]
  unfold legitimateRow
  simp only [hpruned, hactive, count_eq_zero_iff, if_neg hstrike]
  cases hexpired : row.expiredRepeat now with
  | true =>
    rw [view_of_expired hexpired]
    split_ifs
    · rfl
    · exact view_of_expired hexpired
    · rfl
    · exact view_of_expired hexpired
  | false =>
    have hview : view o now (some row) =
        some ⟨(activeAt now row.block).map (·, row.lastActivityAt), current o now row.strikes,
          row.legitimateCount⟩ := by
      rw [view_of_not_expired hexpired, if_neg fun h => hstrike h.2, if_neg hstrike]
    rw [hview, Option.bind_some, legitimate, if_neg hstrike]
    simp only [Option.map_map, Function.comp_def]
    rw [aged_active _ _ _ hexpired]
    generalize (if o.legitimatePerStrike ≤ row.legitimateCount + 1 then
      (current o now row.strikes).withoutOldest else current o now row.strikes) = kept
    by_cases hgone : kept = .none ∧ ¬ (activeAt now row.block).isSome
    · rw [← aged_active _ _ _ hexpired, Option.not_isSome_iff_eq_none.mp hgone.2, hgone.1]
      simp [view, Standing.aged, current_none]
    · rw [if_neg hgone]
      rfl

theorem strikes_of_view {s : Standing} (h : view o now (some row) = some s) :
    s.strikes = current o now row.strikes := by
  cases hexpired : row.expiredRepeat now with
  | true => simp [view_of_expired hexpired] at h
  | false =>
    rw [← strikesOf_view hexpired, h]
    rfl

theorem recordLegitimate_view (table : Reputations) {addr : A} (henabled : o.enabled = true)
    (hvalid : net.isValid addr = true) (hper : 0 < o.legitimatePerStrike) (key : Bytes) :
    view o now ((recordLegitimate net o now addr table).get key) =
      if key = net.string (net.canonicalIP addr) then
        (view o now (table.get key)).bind (legitimate o now)
      else view o now (table.get key) := by
  unfold recordLegitimate
  rw [if_neg (by simp [henabled, hvalid, hper])]
  dsimp only
  generalize net.string (net.canonicalIP addr) = ip
  cases hrow : table.get ip with
  | none =>
    have hnone : hasCurrentStrike o now none = false := by simp [hasCurrentStrike]
    rw [hnone, if_pos (by simp)]
    split_ifs with hkey
    · rw [hkey, hrow]
      rfl
    · rfl
  | some row =>
    by_cases hstrike : hasCurrentStrike o now (some row) = true
    · rw [if_neg (by simp [hstrike])]
      have hview := legitimateRow_view row ((hasCurrentStrike_iff row).mp hstrike)
      cases hlegitimate : legitimateRow o now row with
      | none =>
        rw [hlegitimate] at hview
        simp only [hlegitimate]
        rw [Table.get_erase]
        split_ifs with hkey
        · rw [hkey, hrow, ← hview]
        · rfl
      | some next =>
        rw [hlegitimate] at hview
        simp only [hlegitimate]
        rw [Table.get_put]
        split_ifs with hkey
        · rw [hkey, hrow, ← hview]
        · rfl
    · have hgone : current o now row.strikes = .none :=
        not_not.mp (mt (hasCurrentStrike_iff row).mpr hstrike)
      split_ifs with hkey
      · rw [hkey, hrow]
        cases hview : view o now (some row) with
        | none => rfl
        | some s => rw [Option.bind_some, legitimate, if_pos ((strikes_of_view hview).trans hgone)]
      · rfl

/-- The block that a lookup finds in a standing. -/
def readStanding (net : Addresses A) (ip : Bytes) (s : Option Standing) :
    Except StoreError (Option (IPBlock A)) :=
  match blockOf s with
  | none => .ok none
  | some b =>
    match net.parseAddr ip with
    | none => .error .parseStored
    | some addr =>
      .ok (some ⟨addr, some b.1.level, timeFromMillis b.1.blockedUntil, (strikesOf s).count⟩)

theorem readActiveBlock_view (net : Addresses A) (ip : Bytes) {row : Option Row}
    (hpast : ∀ r, row = some r → Recent now r.strikes) :
    readActiveBlock net o now ip row = readStanding net ip (view o now row) := by
  cases row with
  | none => rfl
  | some row =>
    rw [readStanding, blockOf_view]
    unfold readActiveBlock
    rcases activeAt_cases now row.block with ⟨hrow, ha⟩ | ⟨b, hrow, hb, ha⟩ | ⟨b, hrow, hb, ha⟩
    · simp [hrow, ha]
    · simp [hrow, ha, not_lt.mpr hb]
    · have hactive : activeAt now row.block = some b := by rw [hrow, ha]
      rw [strikesOf_view (not_expiredRepeat hactive), ← after_strikeCutoff (hpast row rfl)]
      simp only [hrow, ha, hb]
      cases net.parseAddr ip <;> rfl

def refreshStanding (o : Options) (now : ℤ) (s : Standing) : Option Standing :=
  match s.block with
  | none => none
  | some b =>
    if b.1.level = .repeat ∧
        b.1.blockedUntil ≤ unixMillis (now + o.repeatDuration - repeatRefreshInterval) then
      some { s with block := some (⟨.repeat, unixMillis (now + o.repeatDuration)⟩, unixMillis now) }
    else none

private theorem aged_current (block : Option (Block × ℤ)) (strikes : Strikes) (count : ℕ) :
    (⟨block, current o now strikes, if current o now strikes = .none then 0 else count⟩ :
      Standing).aged o now = (⟨block, strikes, count⟩ : Standing).aged o now := by
  simp only [Standing.aged, current_current le_rfl]
  by_cases hnone : current o now strikes = .none <;> simp [hnone]

/-- The refresh of a row and that of its standing go together. -/
theorem refresh_view {block : Block} (hactive : activeAt now row.block = some block) :
    (refreshRepeatBlock o now row = none ∧
      (view o now (some row)).bind (refreshStanding o now) = none) ∨
    ∃ next s, refreshRepeatBlock o now row = some next ∧
      (view o now (some row)).bind (refreshStanding o now) = some s ∧
      view o now (some next) = s.aged o now := by
  obtain ⟨hblock, hlater⟩ := activeAt_eq_some hactive
  have hview : view o now (some row) = some ⟨some (block, row.lastActivityAt),
      current o now row.strikes,
      if current o now row.strikes = .none then 0 else row.legitimateCount⟩ := by
    rw [view_of_not_expired (not_expiredRepeat hactive)]
    simp [hactive]
  rw [hview, Option.bind_some]
  unfold refreshRepeatBlock refreshStanding
  simp only [hblock, hlater, true_and]
  by_cases hcond : block.level = .repeat ∧
      block.blockedUntil ≤ unixMillis (now + o.repeatDuration - repeatRefreshInterval)
  · rw [if_pos hcond, if_pos hcond]
    exact Or.inr ⟨_, _, rfl, rfl, (aged_current _ _ _).symm⟩
  · rw [if_neg hcond, if_neg hcond]
    exact Or.inl ⟨rfl, rfl⟩

/-- A delivery attempt on a standing: the answer and what becomes of the standing. -/
def attempt (net : Addresses A) (o : Options) (now : ℤ) (ip : Bytes) (s : Option Standing) :
    Except StoreError (Option (IPBlock A)) × Option Standing :=
  match readStanding net ip s with
  | .error err => (.error err, s)
  | .ok none => (.ok none, s)
  | .ok (some block) =>
    if block.level ≠ some .repeat ∨ ¬ o.repeatRefreshOnAttempt then (.ok (some block), s)
    else if now + o.repeatDuration - block.expiresAt < repeatRefreshInterval then
      (.ok (some block), s)
    else match s.bind (refreshStanding o now) with
      | none => (.ok (some block), s)
      | some s =>
        (.ok (some { block with expiresAt := now + o.repeatDuration }), s.aged o now)

private theorem active_of_readStanding {ip : Bytes} {row : Option Row} {block : IPBlock A}
    (h : readStanding net ip (view o now row) = .ok (some block)) :
    ∃ r b, row = some r ∧ activeAt now r.block = some b := by
  cases row with
  | none => simp [readStanding, blockOf, view] at h
  | some r =>
    rw [readStanding, blockOf_view] at h
    cases hactive : activeAt now r.block with
    | none => simp [hactive] at h
    | some b => exact ⟨r, b, rfl, hactive⟩

theorem activeBlockForAttempt_view (net : Addresses A) {table : Reputations}
    (hpast : Past now table) {addr : A} (henabled : o.enabled = true)
    (hvalid : net.isValid addr = true) :
    let ip := net.string (net.canonicalIP addr)
    let r := attempt net o now ip (view o now (table.get ip))
    (activeBlockForAttempt net o now addr table).1 = r.1 ∧
      ∀ key, view o now ((activeBlockForAttempt net o now addr table).2.get key) =
        if key = ip then r.2 else view o now (table.get key) := by
  intro ip r
  have hsame : ∀ key, view o now (table.get key) =
      if key = ip then view o now (table.get ip) else view o now (table.get key) := by
    intro key
    split_ifs with hkey
    · rw [hkey]
    · rfl
  have hread := readActiveBlock_view net (o := o) ip (hpast ip)
  simp only [r, attempt]
  unfold activeBlockForAttempt
  rw [if_neg (by simp [henabled, hvalid])]
  simp only [ip] at hread hsame ⊢
  rw [hread]
  cases hstanding : readStanding net (net.string (net.canonicalIP addr))
      (view o now (table.get (net.string (net.canonicalIP addr)))) with
  | error err => exact ⟨rfl, hsame⟩
  | ok found =>
    cases found with
    | none => exact ⟨rfl, hsame⟩
    | some block =>
      dsimp only
      by_cases hrefresh : block.level ≠ some .repeat ∨ ¬ o.repeatRefreshOnAttempt
      · rw [if_pos hrefresh, if_pos hrefresh]
        exact ⟨rfl, hsame⟩
      · rw [if_neg hrefresh, if_neg hrefresh]
        by_cases hrecent : now + o.repeatDuration - block.expiresAt < repeatRefreshInterval
        · rw [if_pos hrecent, if_pos hrecent]
          exact ⟨rfl, hsame⟩
        · rw [if_neg hrecent, if_neg hrecent]
          obtain ⟨row, b, hrow, hactive⟩ := active_of_readStanding hstanding
          rw [hrow, Option.bind_some]
          rcases refresh_view (o := o) hactive with
            ⟨hnone, hnone'⟩ | ⟨next, s, hnext, hs, hview⟩
          · rw [hnone, hnone']
            rw [hrow] at hsame
            exact ⟨rfl, hsame⟩
          · rw [hnext, hs]
            refine ⟨rfl, fun key => ?_⟩
            rw [Table.get_put]
            split_ifs with hkey
            · exact hview
            · rfl

/-- What a standing contributes to a listing. -/
def listedStanding (activeSince : ℤ) (s : Option Standing) : Option Block :=
  ((blockOf s).filter fun b =>
    activeSince = zeroTime ∨ unixMillis activeSince ≤ b.2).map Prod.fst

theorem listedBlock_view (activeSince : ℤ) (row : Option Row) :
    row.bind (listedBlock now activeSince) = listedStanding activeSince (view o now row) := by
  cases row with
  | none => rfl
  | some row =>
    rw [listedStanding, blockOf_view, Option.bind_some, listedBlock]
    rcases activeAt_cases now row.block with ⟨hrow, ha⟩ | ⟨b, hrow, hb, ha⟩ | ⟨b, hrow, hb, ha⟩
    · simp [hrow, ha]
    · simp [hrow, ha, not_lt.mpr hb]
    · by_cases hsince : activeSince = zeroTime ∨ unixMillis activeSince ≤ row.lastActivityAt <;>
        simp [hrow, ha, Option.filter, hb]

/-- A row without the strikes and the block that are over. -/
private theorem view_pruned (hexpired : row.expiredRepeat now = false) :
    view o now (some { row with
      strikes := pruneStrikes o now row.strikes
      block := activeAt now row.block }) = view o now (some row) := by
  have hidem : activeAt now (activeAt now row.block) = activeAt now row.block := by
    cases h : activeAt now row.block with
    | none => rfl
    | some b => exact (congrArg (activeAt now) (activeAt_eq_some h).1).symm.trans h
  have hexpired' : Row.expiredRepeat now { row with
      strikes := pruneStrikes o now row.strikes
      block := activeAt now row.block } = false := by
    cases h : activeAt now row.block with
    | none => rfl
    | some b => exact not_expiredRepeat (h ▸ hidem.trans h)
  rw [view_of_not_expired hexpired', view_of_not_expired hexpired]
  rw [hidem, current_pruneStrikes]

/-- The statements of the cleanup leave every standing as it is. -/
theorem pruneTable_view (table : Reputations) (key : Bytes) :
    view o now ((pruneTable o now table).2.get key) = view o now (table.get key) := by
  simp only [pruneTable, Table.get_edit]
  cases table.get key with
  | none => rfl
  | some row =>
    simp only [Option.bind_some]
    cases hexpired : row.expiredRepeat now with
    | true =>
      have hpruned : Row.expiredRepeat now { row with strikes := pruneStrikes o now row.strikes } =
          true := hexpired
      rw [hpruned, view_of_expired hexpired]
      rfl
    | false =>
      have hpruned : Row.expiredRepeat now { row with strikes := pruneStrikes o now row.strikes } =
          false := hexpired
      have hshort : (row.block.filter fun block =>
          ¬ (block.level = .short ∧ block.blockedUntil ≤ unixMillis now)) =
            activeAt now row.block := by
        rcases activeAt_cases now row.block with
          ⟨hblock, ha⟩ | ⟨b, hblock, hb, ha⟩ | ⟨b, hblock, hb, ha⟩
        · rw [hblock]
          rfl
        · have hlevel : b.level = .short := by
            cases hl : b.level with
            | short => rfl
            | «repeat» => simp [Row.expiredRepeat, hblock, hl, hb] at hexpired
          simp [hblock, ha, hlevel, hb]
        · simp [hblock, ha, Option.filter, not_le.mpr hb]
      rw [hpruned]
      simp only [Bool.false_eq_true, if_false, Option.bind_some, hshort, count_eq_zero_iff]
      rw [← view_pruned hexpired]
      split_ifs with hempty
      · exact (view_empty hempty.1 hempty.2).symm
      · rfl

/-! ### Strikes stay in the past -/

theorem recent_none : Recent now .none := fun _ htime => absurd htime List.not_mem_nil

theorem Recent.sublist {strikes fewer : Strikes} (h : Recent now strikes)
    (hsub : fewer.times.Sublist strikes.times) : Recent now fewer :=
  fun time htime => h time (hsub.subset htime)

theorem Recent.current {strikes : Strikes} (h : Recent now strikes) :
    Recent now (current o now strikes) := by
  unfold ReputationCleanup.current
  split_ifs
  · exact h.sublist List.filter_sublist
  · exact recent_none

theorem Recent.pruneStrikes {strikes : Strikes} (h : Recent now strikes) :
    Recent now (pruneStrikes o now strikes) := by
  unfold IPReputation.pruneStrikes
  split_ifs
  · exact recent_none
  · exact h.sublist List.filter_sublist

theorem Recent.rejectedStrikes {strikes : Strikes} (h : Recent now strikes) :
    Recent now (rejectedStrikes o now strikes) := by
  unfold IPReputation.rejectedStrikes
  split_ifs
  · have hadded : Recent now (strikes.add (unixMillis now)) := by
      intro time htime
      rcases (List.mem_orderedInsert _).mp htime with rfl | hold
      · exact le_rfl
      · exact h time hold
    exact (hadded.sublist List.filter_sublist).sublist (List.drop_sublist _ _)
  · exact recent_none

theorem Past.later {later : ℤ} (h : Past now table) (hle : now ≤ later) : Past later table :=
  fun key row hrow time htime => (h key row hrow time htime).trans (unixMillis_mono hle)

theorem strikesOf_view_recent (h : Past now table) (key : Bytes) :
    Recent now (strikesOf (view o now (table.get key))) := by
  cases hrow : table.get key with
  | none => exact recent_none
  | some row =>
    cases hexpired : row.expiredRepeat now with
    | true =>
      rw [view_of_expired hexpired]
      exact recent_none
    | false =>
      rw [strikesOf_view hexpired]
      exact (h key row hrow).current

theorem Past.recordRejection {table : Reputations} (h : Past now table) {addr : A} :
    Past now (recordRejection net o now addr table).2 := by
  by_cases hskip : ¬ o.enabled ∨ ¬ net.isValid addr
  · unfold IPReputation.recordRejection
    rw [if_pos hskip]
    exact h
  · rw [not_or, not_not, not_not] at hskip
    obtain ⟨-, row, hstanding, hget⟩ := recordRejection_spec net h hskip.1 hskip.2
    intro key found hfound
    rw [hget] at hfound
    split_ifs at hfound with hkey
    · obtain rfl := Option.some.inj hfound
      have hstrikes : row.strikes = (rejected o now (view o now
          (table.get (net.string (net.canonicalIP addr))))).2 := congrArg Standing.strikes hstanding
      rw [hstrikes]
      exact (strikesOf_view_recent h _).rejectedStrikes
    · exact h key found hfound

theorem legitimateRow_recent {next : Row} (h : Recent now row.strikes)
    (hnext : legitimateRow o now row = some next) : Recent now next.strikes := by
  have hpruned : Recent now (pruneStrikes o now row.strikes) := h.pruneStrikes
  unfold legitimateRow at hnext
  dsimp only at hnext
  split_ifs at hnext
  all_goals
    obtain rfl := Option.some.inj hnext
  · exact hpruned
  · exact hpruned.sublist (List.tail_sublist _)
  · exact hpruned

theorem Past.put (h : Past now table) {key : Bytes} (hrow : Recent now row.strikes) :
    Past now (table.put key row) := by
  intro other found hfound
  rw [Table.get_put] at hfound
  split_ifs at hfound
  · obtain rfl := Option.some.inj hfound
    exact hrow
  · exact h other found hfound

end

theorem Past.erase {table : Reputations} (h : Past now table) (key : Bytes) :
    Past now (table.erase key) := by
  intro other found hfound
  rw [Table.get_erase] at hfound
  split_ifs at hfound
  exact h other found hfound

theorem Past.recordLegitimate {table : Reputations} (h : Past now table) {addr : A} :
    Past now (recordLegitimate net o now addr table) := by
  unfold IPReputation.recordLegitimate
  dsimp only
  split_ifs
  · exact h
  · cases hrow : table.get (net.string (net.canonicalIP addr)) with
    | none => exact h
    | some row =>
      cases hnext : legitimateRow o now row with
      | none => simpa [hnext] using h.erase _
      | some next => simpa [hnext] using h.put (legitimateRow_recent (h _ row hrow) hnext)
  · exact h

theorem Past.activeBlockForAttempt {table : Reputations} (h : Past now table) {addr : A} :
    Past now (activeBlockForAttempt net o now addr table).2 := by
  unfold IPReputation.activeBlockForAttempt
  dsimp only
  split_ifs
  · exact h
  · split
    · exact h
    · exact h
    · split_ifs
      · exact h
      · exact h
      · split
        · exact h
        · rename_i next hnext
          obtain ⟨row, hrow, hrefresh⟩ := Option.bind_eq_some_iff.mp hnext
          have hstrikes : next.strikes = row.strikes := by
            unfold refreshRepeatBlock at hrefresh
            dsimp only at hrefresh
            split at hrefresh
            · exact absurd hrefresh (by simp)
            · split_ifs at hrefresh
              obtain rfl := Option.some.inj hrefresh
              rfl
          exact h.put (hstrikes ▸ h _ row hrow)

theorem Past.pruneTable {table : Reputations} (h : Past now table) :
    Past now (pruneTable o now table).2 := by
  intro key found hfound
  simp only [IPReputation.pruneTable, Table.get_edit, Option.bind_eq_some_iff] at hfound
  obtain ⟨cleared, ⟨unexpired, ⟨pruned, ⟨row, hrow, hpruned⟩, hunexpired⟩, hcleared⟩, hkept⟩ :=
    hfound
  obtain rfl := Option.some.inj hpruned
  split_ifs at hunexpired hkept
  obtain rfl := Option.some.inj hunexpired
  obtain rfl := Option.some.inj hcleared
  obtain rfl := Option.some.inj hkept
  exact (h key row hrow).pruneStrikes

/-! ### Runs -/

inductive Operation (A : Type)
  | recordRejection (addr : A)
  | recordLegitimate (addr : A)
  | activeBlockForAttempt (addr : A)
  | listActiveBlocks (activeSince limit : ℤ)
  | delete (addr : A)

/-- What the caller of an operation learns of the blocks. -/
inductive Answer (A : Type)
  | rejection (block : Option (IPBlock A))
  | attempt (found : Except StoreError (Option (IPBlock A)))
  | page (page : Except StoreError (IPBlockPage A))
  | done

def operate (net : Addresses A) (o : Options) (now : ℤ) :
    Operation A → Reputations → Answer A × Reputations
  | .recordRejection addr, table =>
    ((recordRejection net o now addr table).map .rejection id)
  | .recordLegitimate addr, table => (.done, recordLegitimate net o now addr table)
  | .activeBlockForAttempt addr, table =>
    ((activeBlockForAttempt net o now addr table).map .attempt id)
  | .listActiveBlocks activeSince limit, table =>
    (.page (listActiveBlocks net o now activeSince limit table), table)
  | .delete addr, table => (.done, (delete net addr table).2)

/-- The repository with its cleanup. -/
def repository (net : Addresses A) (o : Options) :
    System ℤ Reputations (Operation A) Unit (Answer A) where
  operate := operate net o
  upkeep now _ table := (cleanup o now table).2

/-- Tables in which every address has the same standing. -/
structure Alike (o : Options) (now : ℤ) (a b : Reputations) : Prop where
  past : Past now a
  past' : Past now b
  same : ∀ key, view o now (a.get key) = view o now (b.get key)

theorem Alike.recordRejection {a b : Reputations} (h : Alike o now a b) (addr : A) :
    (recordRejection net o now addr a).1 = (recordRejection net o now addr b).1 ∧
      Alike o now (recordRejection net o now addr a).2 (recordRejection net o now addr b).2 := by
  by_cases hskip : ¬ o.enabled ∨ ¬ net.isValid addr
  · unfold IPReputation.recordRejection
    rw [if_pos hskip, if_pos hskip]
    exact ⟨rfl, h⟩
  · rw [not_or, not_not, not_not] at hskip
    obtain ⟨hanswer, row, hrow, hget⟩ :=
      recordRejection_spec net h.past hskip.1 hskip.2
    obtain ⟨hanswer', row', hrow', hget'⟩ :=
      recordRejection_spec net h.past' hskip.1 hskip.2
    rw [h.same] at hanswer hrow
    refine ⟨hanswer.trans hanswer'.symm, h.past.recordRejection, h.past'.recordRejection,
      fun key => ?_⟩
    rw [hget, hget']
    split_ifs
    · rw [view, view, Option.bind_some, Option.bind_some, hrow, hrow']
    · exact h.same key

theorem Alike.recordLegitimate {a b : Reputations} (h : Alike o now a b) (addr : A) :
    Alike o now (recordLegitimate net o now addr a) (recordLegitimate net o now addr b) := by
  by_cases hskip : ¬ o.enabled ∨ o.legitimatePerStrike ≤ 0 ∨ ¬ net.isValid addr
  · unfold IPReputation.recordLegitimate
    rw [if_pos hskip, if_pos hskip]
    exact h
  · rw [not_or, not_or, not_not, not_not, not_le] at hskip
    refine ⟨h.past.recordLegitimate, h.past'.recordLegitimate, fun key => ?_⟩
    rw [recordLegitimate_view a hskip.1 hskip.2.2 hskip.2.1,
      recordLegitimate_view b hskip.1 hskip.2.2 hskip.2.1, h.same]

theorem Alike.activeBlockForAttempt {a b : Reputations} (h : Alike o now a b) (addr : A) :
    (activeBlockForAttempt net o now addr a).1 = (activeBlockForAttempt net o now addr b).1 ∧
      Alike o now (activeBlockForAttempt net o now addr a).2
        (activeBlockForAttempt net o now addr b).2 := by
  by_cases hskip : ¬ o.enabled ∨ ¬ net.isValid addr
  · unfold IPReputation.activeBlockForAttempt
    rw [if_pos hskip, if_pos hskip]
    exact ⟨rfl, h⟩
  · rw [not_or, not_not, not_not] at hskip
    obtain ⟨hanswer, hview⟩ := activeBlockForAttempt_view net h.past hskip.1 hskip.2
    obtain ⟨hanswer', hview'⟩ := activeBlockForAttempt_view net h.past' hskip.1 hskip.2
    rw [h.same] at hanswer
    refine ⟨hanswer.trans hanswer'.symm, h.past.activeBlockForAttempt,
      h.past'.activeBlockForAttempt, fun key => ?_⟩
    rw [hview, hview', h.same, h.same]

theorem Alike.listActiveBlocks {a b : Reputations} (h : Alike o now a b)
    (activeSince limit : ℤ) :
    listActiveBlocks net o now activeSince limit a =
      listActiveBlocks net o now activeSince limit b := by
  have hlisted : a.listed (listedBlock now activeSince) =
      b.listed (listedBlock now activeSince) := by
    refine Table.listed_congr _ fun key => ?_
    rw [listedBlock_view (o := o), listedBlock_view (o := o), h.same]
  unfold IPReputation.listActiveBlocks
  rw [hlisted]

theorem Alike.delete {a b : Reputations} (h : Alike o now a b) (addr : A) :
    Alike o now (delete net addr a).2 (delete net addr b).2 := by
  unfold IPReputation.delete
  split_ifs
  · refine ⟨h.past.erase _, h.past'.erase _, fun key => ?_⟩
    rw [Table.get_erase, Table.get_erase]
    split_ifs
    · rfl
    · exact h.same key
  · exact h

/-- A cleanup that finds no excess leaves an alike table. -/
theorem Alike.cleanup {a b : Reputations} (h : Alike o now a b)
    (hcapacity : capacityExcess o (pruneTable o now b).2 = 0) :
    Alike o now a (cleanup o now b).2 := by
  unfold IPReputation.cleanup
  split_ifs
  · have henforced : (enforceCapacity o (pruneTable o now b).2).2 = (pruneTable o now b).2 := by
      unfold enforceCapacity
      rw [if_pos hcapacity]
    refine ⟨h.past, ?_, fun key => ?_⟩
    · exact henforced.symm ▸ h.past'.pruneTable
    · rw [henforced, pruneTable_view, h.same]
  · exact h

theorem repository_indistinct (net : Addresses A) (o : Options) :
    (repository net o).Indistinct
      (fun now _ table => capacityExcess o (pruneTable o now table).2 = 0) (Alike o) where
  later hle h := by
    refine ⟨h.past.later hle, h.past'.later hle, fun key => ?_⟩
    rw [← view_later hle, ← view_later hle, h.same]
  answer h op := by
    cases op with
    | recordRejection addr => exact congrArg Answer.rejection (h.recordRejection addr).1
    | recordLegitimate addr => rfl
    | activeBlockForAttempt addr => exact congrArg Answer.attempt (h.activeBlockForAttempt addr).1
    | listActiveBlocks activeSince limit =>
      exact congrArg Answer.page (h.listActiveBlocks activeSince limit)
    | delete addr => rfl
  next h op := by
    cases op with
    | recordRejection addr => exact (h.recordRejection addr).2
    | recordLegitimate addr => exact h.recordLegitimate addr
    | activeBlockForAttempt addr => exact (h.activeBlockForAttempt addr).2
    | listActiveBlocks activeSince limit => exact h
    | delete addr => exact h.delete addr
  silent h _ hcapacity := h.cleanup hcapacity

/-- Cleanups change no answer of a run on a clock that never goes back, as long as none
of them finds more rows than the capacity. The first table may have any rows whose
strikes are not in the future, so it may be the empty one. -/
theorem cleanup_invisible (net : Addresses A) (o : Options) (table : Reputations)
    (calls : List (Call ℤ (Operation A) Unit))
    (hclock : (calls.map Call.time).Pairwise (· ≤ ·))
    (hpast : ∀ call ∈ calls, Past call.time table)
    (hcapacity : (repository net o).Allows
      (fun now _ table => capacityExcess o (pruneTable o now table).2 = 0) calls table) :
    (repository net o).answers calls table =
      (repository net o).answers (calls.filter Call.isOperation) table :=
  (repository_indistinct net o).answers_eq calls hclock
    (fun call hcall => ⟨hpast call hcall, hpast call hcall, fun _ => rfl⟩) hcapacity

/-- Addresses that are their own texts. -/
def plainAddresses : Addresses Bytes := ⟨fun _ => true, id, id, some⟩

/-- Short blocks of a second and repeat blocks of a minute after two strikes in ten seconds. -/
def sampleOptions : Options := ⟨1000000000, 2, 10000000000, 60000000000, true, 3, 10⟩

/-- Two rejections with a cleanup after the first block, and a listing. -/
def sampleCalls : List (Call ℤ (Operation Bytes) Unit) :=
  [.operation 0 (.recordRejection (ascii "192.0.2.1")), .upkeep 2000000000 (),
    .operation 3000000000 (.recordRejection (ascii "192.0.2.1")),
    .operation 4000000000 (.listActiveBlocks zeroTime 5)]

theorem cleanup_invisible_sample :
    (repository plainAddresses sampleOptions).answers sampleCalls Table.empty =
      (repository plainAddresses sampleOptions).answers (sampleCalls.filter Call.isOperation)
        Table.empty :=
  cleanup_invisible plainAddresses sampleOptions Table.empty sampleCalls (by decide)
    (fun _ _ _ _ hrow => absurd hrow (by simp [Table.empty, Table.get])) (by decide +kernel)

end MilterGuard.ReputationCleanup
