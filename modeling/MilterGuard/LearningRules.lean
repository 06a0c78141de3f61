import MilterGuard.InboundCounts

/-!
Inbound learning over whole runs: counts are right, a match through inbound learning
needs the required number of messages, an unwanted message removes inbound rows only, and
neither a classification nor a touch changes what a row is.
-/
namespace MilterGuard.LearningRules

open ByteStrings MailAddresses BlocklistTable SenderLists KeyedTables CorrespondentLearning
open ListOperations InboundLearning InboundCounts

variable {Score : Type} {p : Platform} {o : LearningOptions Score} {lists : Lists} {now : ℤ}

theorem queryMatch_kind {table : Correspondents} {chosen : Bytes × Bytes → Correspondent → Bool}
    {kind : CorrespondentKind} (h : kind ∈ (queryMatch table chosen).1.kinds) :
    ∃ key row, table.get key = some row ∧ chosen key row = true ∧ row.whitelistType = kind := by
  simp only [queryMatch, List.mem_filter, List.any_eq_true, decide_eq_true_eq] at h
  obtain ⟨-, ⟨key, row⟩, ⟨hrow, hchosen⟩, hkind⟩ := h
  exact ⟨key, row, (table.get_eq_some_iff key row).mpr hrow, hchosen, hkind⟩

/-- A match through inbound learning has an inbound row in scope that qualifies. -/
theorem match_inbound {correspondent : Bytes} {recipients : List Bytes}
    {found : CorrespondentMatch}
    (h : matchCorrespondent p o now correspondent recipients lists = .ok found)
    (hkind : .repeatedLegitimateInbound ∈ found.kinds) :
    ∃ localAddress row, o.scope.covers (recipientList p recipients) localAddress = true ∧
      lists.correspondents.get (localAddress, correspondent) = some row ∧
      row.whitelistType = .repeatedLegitimateInbound ∧
      qualified o.toCorrespondentOptions row = true := by
  have hquery : .repeatedLegitimateInbound ∈ (queryMatch lists.correspondents fun key row =>
      key.2 = correspondent && qualifiedActive o.toCorrespondentOptions now row &&
        o.scope.covers (recipientList p recipients) key.1).1.kinds := by
    unfold matchCorrespondent at h
    dsimp only at h
    by_cases hoff : ¬ o.useAllowlist = true ∨ correspondent = []
    · rcases hoff with hoff | hempty
      · rw [if_pos hoff] at h
        obtain rfl := Except.ok.inj h
        simp at hkind
      · rw [if_pos hempty, ite_self] at h
        obtain rfl := Except.ok.inj h
        simp at hkind
    · rw [if_neg (not_or.mp hoff).1, if_neg (not_or.mp hoff).2] at h
      replace h := ok_of_scope h
      split_ifs at h
      · obtain rfl := Except.ok.inj h
        exact hkind
      · obtain rfl := Except.ok.inj h
        simp at hkind
      · obtain rfl := Except.ok.inj h
        exact hkind
  obtain ⟨⟨localAddress, sender⟩, row, hrow, hchosen, hinbound⟩ := queryMatch_kind hquery
  simp only [Bool.and_eq_true, decide_eq_true_eq] at hchosen
  obtain ⟨⟨rfl, hactive⟩, hcovers⟩ := hchosen
  simp only [qualifiedActive, Bool.and_eq_true] at hactive
  exact ⟨localAddress, row, hcovers, hrow, hinbound, hactive.1⟩

/-- An unwanted message is ignored or removes. -/
theorem classified_unwanted {atLeast : Score → Score → Bool} {input : InboundClassification Score}
    {action : InboundLearningAction} (hverdict : input.verdict = .unwanted)
    (h : classified atLeast p o input = .ok action) : action = .ignore ∨ action = .remove := by
  unfold classified at h
  by_cases hcomplete : input.recipientsComplete = true
  · rw [if_neg (not_not.mpr hcomplete)] at h
    replace h := ok_of_scope h
    simp only [decideInboundLearning, hverdict] at h
    split_ifs at h
    · exact Or.inl (Except.ok.inj h).symm
    · exact Or.inr (Except.ok.inj h).symm
    · exact Or.inl (Except.ok.inj h).symm
  · rw [if_pos hcomplete] at h
    exact Or.inl (Except.ok.inj h).symm

section Recorded

variable {ids : RowIds} {atLeast : Score → Score → Bool} {input : InboundClassification Score}
  {recorded : Recorded}

theorem recorded_ok (h : recordInboundClassification atLeast p o now ids input lists =
    .ok recorded) :
    ∃ action, classified atLeast p o input = .ok action ∧
      recorded = recordAction o now ids input.correspondent (recipientList p input.recipients)
        lists.correspondents action := by
  rw [recordInboundClassification_eq] at h
  cases hclassified : classified atLeast p o input with
  | error failure => simp [hclassified, Except.map] at h
  | ok action =>
    rw [hclassified] at h
    exact ⟨action, rfl, (Except.ok.inj h).symm⟩

theorem unwanted_removes (hverdict : input.verdict = .unwanted)
    (h : recordInboundClassification atLeast p o now ids input lists = .ok recorded)
    (key : Bytes × Bytes) :
    recorded.table.get key = lists.correspondents.get key ∨
      recorded.table.get key = none ∧ ∃ row, lists.correspondents.get key = some row ∧
        row.whitelistType = .repeatedLegitimateInbound ∧ key.2 = input.correspondent ∧
        o.scope.covers (recipientList p input.recipients) key.1 = true := by
  obtain ⟨action, haction, rfl⟩ := recorded_ok h
  rcases classified_unwanted hverdict haction with rfl | rfl
  · exact Or.inl rfl
  · simp only [recordAction, Table.get_deleteWhere]
    cases hrow : lists.correspondents.get key with
    | none => exact Or.inl rfl
    | some row =>
      cases hremovable : removable o.scope input.correspondent
          (recipientList p input.recipients) key row with
      | false => simp [hremovable]
      | true =>
        simp only [removable, Bool.and_eq_true, decide_eq_true_eq] at hremovable
        refine Or.inr ⟨by simp [removable, hremovable], row, rfl, ?_⟩
        exact ⟨hremovable.1.2, hremovable.1.1, hremovable.2⟩

/-- The row of the pair was stale and is gone; a row there now was just inserted. -/
def Replaced (o : CorrespondentOptions) (now : ℤ) (correspondent : Bytes)
    (recipients : List Bytes) (recorded : Recorded) (key : Bytes × Bytes) (row : Correspondent) :
    Prop :=
  stale o now (receivedFrom correspondent recipients) key row = true ∧
    (recorded.table.get key = none ∨
      key.1 ∈ recorded.inserted.map CandidateEvent.recipient)

/-- The transaction keeps the kind of every row that it does not delete as stale. -/
theorem recordRows_kind {advance : Bool} {correspondent : Bytes} {recipients : List Bytes}
    {o : CorrespondentOptions} {table : Correspondents} {key : Bytes × Bytes} {row : Correspondent}
    (hrow : table.get key = some row) :
    let recorded := recordRows o now ids advance correspondent recipients table
    (∃ after, recorded.table.get key = some after ∧ after.id = row.id ∧
        after.whitelistType = row.whitelistType) ∨
      Replaced o now correspondent recipients recorded key row := by
  cases hkey : receivedFrom correspondent recipients key with
  | false => exact Or.inl ⟨row, (recordRows_get_other hkey).trans hrow, rfl, rfl⟩
  | true =>
    cases hstale : stale o now (receivedFrom correspondent recipients) key row with
    | true =>
      have hlive : live o now correspondent recipients table key = none := by
        simp [live, hrow, hstale]
      refine Or.inr ⟨hstale, ?_⟩
      cases advance with
      | false => exact Or.inl ((recordRows_get_missing hkey hlive).1 rfl)
      | true =>
        simp only [receivedFrom, Bool.and_eq_true, decide_eq_true_eq] at hkey
        obtain ⟨rfl, hmem⟩ := hkey
        exact Or.inr (mem_inserted.mpr ⟨hmem, hlive⟩)
    | false =>
      have hlive : live o now correspondent recipients table key = some row := by
        simp [live, hrow, hstale]
      exact Or.inl ⟨_, recordRows_get_live hkey hlive, (passed_same row).1, (passed_same row).2.2⟩

theorem recorded_kind
    (h : recordInboundClassification atLeast p o now ids input lists = .ok recorded)
    {key : Bytes × Bytes} {row : Correspondent} (hrow : lists.correspondents.get key = some row)
    (hkind : row.whitelistType ≠ .repeatedLegitimateInbound) :
    (∃ after, recorded.table.get key = some after ∧ after.id = row.id ∧
        after.whitelistType = row.whitelistType) ∨
      Replaced o.toCorrespondentOptions now input.correspondent
        (recipientList p input.recipients) recorded key row := by
  obtain ⟨action, -, rfl⟩ := recorded_ok h
  cases action with
  | ignore => exact Or.inl ⟨row, hrow, rfl, rfl⟩
  | remove =>
    simp [recordAction, Table.get_deleteWhere, hrow, removable, hkind]
  | advance | refresh => exact recordRows_kind hrow

end Recorded

/-- At least the required number of messages since the row was created. -/
def Reached (required : ℤ) (es : List Message) (key : Bytes × Bytes) : Prop :=
  ∃ messages, Since es key messages ∧ required ≤ messages.countP (·.names key)

theorem reached_of_qualified {o : CorrespondentOptions} {es : List Message} {key : Bytes × Bytes}
    {row : Correspondent} (h : Counted o.legitimateSenderMinMessages es key row)
    (hkind : row.whitelistType = .repeatedLegitimateInbound) (hqualified : qualified o row = true) :
    Reached o.legitimateSenderMinMessages es key := by
  obtain ⟨messages, hsince, hcount⟩ := h
  refine ⟨messages, hsince, ?_⟩
  simp only [qualified, hkind, decide_eq_true_eq] at hqualified
  omega

/-- What holds of the correspondents after a run with these advancing messages. -/
structure Learned (atLeast : Score → Score → Bool) (p : Platform) (o : LearningOptions Score)
    (lists : Lists) (es : List Message) : Prop where
  counts : CountsRows o.legitimateSenderMinMessages es lists.correspondents
  /-- A match through inbound learning comes from a pair that has reached the number. -/
  matched : ∀ now correspondent recipients found,
    matchCorrespondent p o now correspondent recipients lists = .ok found →
    .repeatedLegitimateInbound ∈ found.kinds →
    ∃ localAddress, o.scope.covers (recipientList p recipients) localAddress = true ∧
      Reached o.legitimateSenderMinMessages es (localAddress, correspondent)
  qualifies : ∀ key row, lists.correspondents.get key = some row →
    row.whitelistType = .repeatedLegitimateInbound →
    qualified o.toCorrespondentOptions row = true → Reached o.legitimateSenderMinMessages es key
  /-- An unwanted message deletes inbound rows of its sender within the scope, and changes
  nothing else. -/
  unwanted : ∀ now ids input recorded, input.verdict = .unwanted →
    recordInboundClassification atLeast p o now ids input lists = .ok recorded →
    ∀ key, recorded.table.get key = lists.correspondents.get key ∨
      recorded.table.get key = none ∧ ∃ row, lists.correspondents.get key = some row ∧
        row.whitelistType = .repeatedLegitimateInbound ∧ key.2 = input.correspondent ∧
        o.scope.covers (recipientList p input.recipients) key.1 = true
  /-- A classification leaves the kind of a manual or outbound row; a stale row is deleted,
  and a row for the pair is a new one then. -/
  kinds : ∀ now ids input recorded,
    recordInboundClassification atLeast p o now ids input lists = .ok recorded →
    ∀ key row, lists.correspondents.get key = some row →
      row.whitelistType ≠ .repeatedLegitimateInbound →
      (∃ after, recorded.table.get key = some after ∧ after.id = row.id ∧
          after.whitelistType = row.whitelistType) ∨
        Replaced o.toCorrespondentOptions now input.correspondent
          (recipientList p input.recipients) recorded key row
  /-- A touch changes neither the rows that there are nor their kind or count. -/
  touched : ∀ now correspondent recipients after,
    touchInbound p o now correspondent recipients lists = .ok after →
    ∀ key, (after.correspondents.get key).map
        (fun row => (row.id, row.whitelistType, row.legitimateEmailCount)) =
      (lists.correspondents.get key).map
        fun row => (row.id, row.whitelistType, row.legitimateEmailCount)

theorem touchInbound_same {correspondent : Bytes} {recipients : List Bytes} {after : Lists}
    (h : touchInbound p o now correspondent recipients lists = .ok after) (key : Bytes × Bytes) :
    (after.correspondents.get key).map
        (fun row => (row.id, row.whitelistType, row.legitimateEmailCount)) =
      (lists.correspondents.get key).map
        fun row => (row.id, row.whitelistType, row.legitimateEmailCount) := by
  obtain ⟨chosen, rfl⟩ := touchInbound_ok h
  simp only [Table.get_updateWhere]
  cases lists.correspondents.get key with
  | none => rfl
  | some row =>
    simp only [Option.map_some]
    split_ifs <;> rfl

/-- Inbound learning counts correctly in every run from empty tables. -/
theorem inbound_learning (atLeast : Score → Score → Bool) (p : Platform)
    (cfg : Configuration Score)
    (hmin : 1 ≤ cfg.correspondents.legitimateSenderMinMessages)
    (actions : List (ℤ × RowIds × Action Score)) :
    let outcome := Histories.run (step atLeast p cfg) noLists actions
    Learned atLeast p cfg.correspondents outcome.1 outcome.2 := by
  intro outcome
  have hnew :
      CountsRows cfg.correspondents.legitimateSenderMinMessages [] noLists.correspondents := by
    intro key row hrow
    simp [noLists, Table.empty, Table.get] at hrow
  have hcounts : CountsRows cfg.correspondents.legitimateSenderMinMessages ([] ++ outcome.2)
      outcome.1.correspondents :=
    Histories.run_invariant (step_counts hmin) hnew actions
  refine ⟨hcounts, ?_, ?_, ?_, ?_, ?_⟩
  · intro now correspondent recipients found hfound hkind
    obtain ⟨localAddress, row, hcovers, hrow, hinbound, hqualified⟩ := match_inbound hfound hkind
    exact ⟨localAddress, hcovers,
      reached_of_qualified (hcounts _ row hrow hinbound) hinbound hqualified⟩
  · intro key row hrow hinbound hqualified
    exact reached_of_qualified (hcounts key row hrow hinbound) hinbound hqualified
  · intro now ids input recorded hverdict hrecorded
    exact unwanted_removes hverdict hrecorded
  · intro now ids input recorded hrecorded key row hrow hkind
    exact recorded_kind hrecorded hrow hkind
  · intro now correspondent recipients after hafter
    exact touchInbound_same hafter

def inboundOptions : LearningOptions ℕ where
  useAllowlist := true
  staleAfter := 0
  legitimateSenderMinMessages := 2
  learnAuthenticatedRecipients := true
  learnLegitimateSenders := true
  scope := .perSender
  maxEntries := 1000
  legitimateSenderMinScore := 5
  legitimateSenderRequireAuthentication := true

/-- Two of three messages count before the required number is reached. -/
theorem inbound_learning_third_message :
    let message : InboundClassification ℕ :=
      ⟨ascii "a@b", [ascii "me@b"], true, .legitimate, 7, 5, true⟩
    let cfg : Configuration ℕ := ⟨inboundOptions, ⟨⟨1000000⟩, 1000⟩⟩
    let outcome := Histories.run (step (fun a b => decide (b ≤ a)) bareAddresses cfg) noLists
      (List.replicate 3 (0, countingIds, .classify message))
    1 ≤ cfg.correspondents.legitimateSenderMinMessages ∧
      outcome.1.correspondents.get (ascii "me@b", ascii "a@b") =
        some ⟨1, 0, 0, .repeatedLegitimateInbound, 2⟩ ∧
      outcome.2.length = 3 ∧
      Learned (fun a b => decide (b ≤ a)) bareAddresses cfg.correspondents outcome.1 outcome.2 :=
  ⟨by decide, by decide +kernel, by decide +kernel, inbound_learning _ _ _ (by decide) _⟩

end MilterGuard.LearningRules
