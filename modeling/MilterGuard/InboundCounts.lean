import MilterGuard.InboundLearning

/-!
The count of an inbound row. In every run it is the number of advancing messages that
named the pair since the one that created the row, up to the number that qualifies it.
-/
namespace MilterGuard.InboundCounts

open ByteStrings MailAddresses BlocklistTable SenderLists KeyedTables CorrespondentLearning
open ListOperations InboundLearning
open IPReputation (unixMillis)

variable {Score : Type} (atLeast : Score → Score → Bool) (p : Platform) (o : LearningOptions Score)

/-- The action that a classification comes to; what is not recorded is ignored. -/
def classified (input : InboundClassification Score) : Except Failure InboundLearningAction :=
  if ¬ input.recipientsComplete then .ok .ignore
  else do
    validateScope o.scope
    if input.correspondent = [] ∨ recipientList p input.recipients = [] then return .ignore
    else decideInboundLearning atLeast o input

theorem recordInboundClassification_eq (now : ℤ) (ids : RowIds)
    (input : InboundClassification Score) (lists : Lists) :
    recordInboundClassification atLeast p o now ids input lists =
      (classified atLeast p o input).map (recordAction o now ids input.correspondent
        (recipientList p input.recipients) lists.correspondents) := by
  unfold recordInboundClassification classified
  by_cases hcomplete : input.recipientsComplete = true
  · rw [if_neg (not_not.mpr hcomplete), if_neg (not_not.mpr hcomplete)]
    cases validateScope o.scope with
    | error failure => rfl
    | ok valid =>
      by_cases hnone : input.correspondent = [] ∨ recipientList p input.recipients = []
      · rw [if_pos hnone, if_pos hnone]
        rfl
      · rw [if_neg hnone, if_neg hnone]
        cases decideInboundLearning atLeast o input <;> rfl
  · rw [if_pos hcomplete, if_pos hcomplete]
    rfl

/-- An advancing message with its recipients and those that got a row by it. -/
structure Message where
  now : ℤ
  correspondent : Bytes
  recipients : List Bytes
  inserted : List Bytes

def Message.names (message : Message) (key : Bytes × Bytes) : Bool :=
  receivedFrom message.correspondent message.recipients key

def Message.creates (message : Message) (key : Bytes × Bytes) : Bool :=
  receivedFrom message.correspondent message.inserted key

inductive Action (Score : Type)
  | list (operation : Operation)
  | classify (input : InboundClassification Score)

def classify (now : ℤ) (ids : RowIds) (input : InboundClassification Score) (lists : Lists) :
    Lists × List Message :=
  match recordInboundClassification atLeast p o now ids input lists with
  | .error _ => (lists, [])
  | .ok recorded =>
    ({ lists with correspondents := recorded.table },
      match classified atLeast p o input with
      | .ok .advance => [⟨now, input.correspondent, recipientList p input.recipients,
          recorded.inserted.map CandidateEvent.recipient⟩]
      | _ => [])

/-- One operation with its time and the ids it is given. -/
def step (cfg : Configuration Score) (lists : Lists) (next : ℤ × RowIds × Action Score) :
    Lists × List Message :=
  match next.2.2 with
  | .list operation => (applied p cfg next.1 next.2.1 lists operation, [])
  | .classify input => classify atLeast p cfg.correspondents next.1 next.2.1 input lists

/-- The messages from the one that created the row of the pair. -/
structure Since (es : List Message) (key : Bytes × Bytes) (messages : List Message) : Prop where
  suffix : ∃ before, es = before ++ messages
  created : ∃ message after, messages = message :: after ∧ message.creates key = true ∧
    ∀ later ∈ after, later.creates key = false

/-- The number of messages since the creation of the row, up to the required number. -/
def Counted (required : ℤ) (es : List Message) (key : Bytes × Bytes) (row : Correspondent) : Prop :=
  ∃ messages, Since es key messages ∧
    (row.legitimateEmailCount : ℤ) = min required (messages.countP (·.names key))

section Counted

variable {required : ℤ} {es : List Message} {key : Bytes × Bytes} {row next : Correspondent}
  {message : Message}

theorem Since.concat {messages : List Message} (h : Since es key messages)
    (hcreates : message.creates key = false) :
    Since (es ++ [message]) key (messages ++ [message]) := by
  obtain ⟨⟨before, rfl⟩, first, after, rfl, hfirst, hafter⟩ := h
  exact ⟨⟨before, by simp⟩, first, after ++ [message], rfl, hfirst,
    List.forall_mem_append.mpr ⟨hafter, List.forall_mem_singleton.mpr hcreates⟩⟩

theorem since_created (hcreates : message.creates key = true) :
    Since (es ++ [message]) key [message] :=
  ⟨⟨es, rfl⟩, message, [], rfl, hcreates, by simp⟩

theorem Counted.same (h : Counted required es key row)
    (hcount : next.legitimateEmailCount = row.legitimateEmailCount) :
    Counted required es key next := by
  obtain ⟨messages, hsince, hrow⟩ := h
  exact ⟨messages, hsince, by rw [hcount, hrow]⟩

/-- A message that does not name the pair. -/
theorem Counted.other (h : Counted required es key row) (hnames : message.names key = false)
    (hcreates : message.creates key = false) : Counted required (es ++ [message]) key row := by
  obtain ⟨messages, hsince, hrow⟩ := h
  refine ⟨messages ++ [message], hsince.concat hcreates, ?_⟩
  rw [hrow]
  simp [hnames]

/-- A message that names the pair adds one up to the required number. -/
theorem Counted.named (h : Counted required es key row) (hnames : message.names key = true)
    (hcreates : message.creates key = false)
    (hcount : next.legitimateEmailCount = if (row.legitimateEmailCount : ℤ) < required then
      row.legitimateEmailCount + 1 else row.legitimateEmailCount) :
    Counted required (es ++ [message]) key next := by
  obtain ⟨messages, hsince, hrow⟩ := h
  refine ⟨messages ++ [message], hsince.concat hcreates, ?_⟩
  have hsum : (messages ++ [message]).countP (·.names key) =
      messages.countP (·.names key) + 1 := by
    simp [hnames]
  rw [hcount]
  split_ifs <;> omega

end Counted

/-- Every inbound row was there before with the same count. -/
def Keeps (before after : Correspondents) : Prop :=
  ∀ key row, after.get key = some row → row.whitelistType = .repeatedLegitimateInbound →
    ∃ old, before.get key = some old ∧ old.whitelistType = .repeatedLegitimateInbound ∧
      row.legitimateEmailCount = old.legitimateEmailCount

section Keeps

variable {p : Platform} {lists : Lists} {now : ℤ} {ids : RowIds} {table after : Correspondents}

theorem keeps_of_subset (h : ∀ key row, after.get key = some row → table.get key = some row) :
    Keeps table after :=
  fun key row hrow hinbound => ⟨row, h key row hrow, hinbound, rfl⟩

theorem deleteWhere_keeps (chosen : Bytes × Bytes → Correspondent → Bool) :
    Keeps table (table.deleteWhere chosen) := by
  refine keeps_of_subset fun key row hrow => ?_
  rw [Table.get_deleteWhere] at hrow
  exact (Option.filter_eq_some_iff.mp hrow).1

theorem Keeps.trans {middle : Correspondents} (h : Keeps table middle) (h' : Keeps middle after) :
    Keeps table after := by
  intro key row hrow hinbound
  obtain ⟨between, hbetween, hkind, hcount⟩ := h' key row hrow hinbound
  obtain ⟨old, hold, hkind', hcount'⟩ := h key between hbetween hkind
  exact ⟨old, hold, hkind', hcount.trans hcount'⟩

theorem enforceCapacity_keeps (o : LearningOptions Score) :
    Keeps table (enforceCapacity o table) := by
  unfold enforceCapacity
  dsimp only
  split_ifs
  · exact keeps_of_subset fun _ _ hrow => hrow
  · exact deleteWhere_keeps _
  · exact (deleteWhere_keeps _).trans (deleteWhere_keeps _)

theorem learnRows_keeps {o : CorrespondentOptions} {localAddress : Bytes}
    {recipients : List Bytes} :
    Keeps table (learnRows o now ids localAddress recipients table) := by
  intro key row hrow hinbound
  cases hkey : sentTo localAddress recipients key with
  | false => exact ⟨row, learnRows_get_other hkey ▸ hrow, hinbound, rfl⟩
  | true => exact absurd hinbound (learnRows_kind hkey hrow)

/-- The operations of the lists count nothing. -/
theorem applied_keeps (cfg : Configuration Score) (operation : Operation) :
    Keeps lists.correspondents (applied p cfg now ids lists operation).correspondents := by
  have hsame : Keeps lists.correspondents lists.correspondents :=
    keeps_of_subset fun _ _ hrow => hrow
  unfold applied
  cases operation with
  | addSenderBlock recipient kind value =>
    dsimp only
    split
    · rename_i done hdone
      obtain ⟨owner, sender, -, -, -, hrows⟩ := addSenderBlock_ok hdone
      refine keeps_of_subset fun key row hrow => ?_
      rw [hrows, clearContradicted_get] at hrow
      split_ifs at hrow
      exact hrow
    · exact hsame
  | deleteSenderBlocks kind value scope =>
    dsimp only
    split
    · rename_i done hdone
      obtain ⟨chosen, hdone⟩ := deleteSenderBlocks_ok hdone
      rw [hdone]
      exact hsame
    · exact hsame
  | addManual sender recipient =>
    dsimp only
    split
    · rename_i done hdone
      obtain ⟨-, new, hkind, hdone⟩ := addManual_ok hdone
      rw [hdone]
      intro key row hrow hinbound
      rw [Table.get_put] at hrow
      split_ifs at hrow
      · obtain rfl := Option.some.inj hrow
        simp [hkind] at hinbound
      · exact ⟨row, hrow, hinbound, rfl⟩
    · exact hsame
  | learnAuthenticated localAddress recipients =>
    dsimp only
    split
    · rename_i after hafter
      rcases learnAuthenticated_ok hafter with ⟨-, rfl⟩ | ⟨-, rfl⟩
      · exact hsame
      · exact learnRows_keeps
    · exact hsame
  | touchInbound correspondent recipients =>
    dsimp only
    split
    · rename_i after hafter
      obtain ⟨chosen, rfl⟩ := touchInbound_ok hafter
      intro key row hrow hinbound
      rw [Table.get_updateWhere] at hrow
      obtain ⟨old, hold, rfl⟩ := Option.map_eq_some_iff.mp hrow
      refine ⟨old, hold, ?_⟩
      split_ifs at hinbound ⊢ <;> exact ⟨hinbound, rfl⟩
    · exact hsame
  | deleteCorrespondent sender scope =>
    dsimp only
    split
    · rename_i done hdone
      obtain ⟨chosen, hdone⟩ := deleteCorrespondent_ok hdone
      rw [hdone]
      exact deleteWhere_keeps fun key _ => chosen key
    · exact hsame
  | cleanupCorrespondents => exact (deleteWhere_keeps _).trans (enforceCapacity_keeps _)
  | cleanupBlocklist =>
    dsimp only [cleanupBlocklist]
    split_ifs <;> exact hsame

end Keeps

/-- Every inbound row has its count. -/
def CountsRows (required : ℤ) (es : List Message) (table : Correspondents) : Prop :=
  ∀ key row, table.get key = some row → row.whitelistType = .repeatedLegitimateInbound →
    Counted required es key row

section CountsRows

variable {o : CorrespondentOptions} {now : ℤ} {ids : RowIds} {table after : Correspondents}
  {es : List Message} {correspondent : Bytes} {recipients : List Bytes}

theorem CountsRows.keeps {required : ℤ} (h : CountsRows required es table)
    (hkeeps : Keeps table after) : CountsRows required es after := by
  intro key row hrow hinbound
  obtain ⟨old, hold, hkind, hcount⟩ := hkeeps key row hrow hinbound
  exact (h key old hold hkind).same hcount

theorem get_of_live {key : Bytes × Bytes} {row : Correspondent}
    (h : live o now correspondent recipients table key = some row) : table.get key = some row :=
  (Option.filter_eq_some_iff.mp h).1

/-- A refreshing message counts nothing. -/
theorem refresh_keeps :
    Keeps table (recordRows o now ids false correspondent recipients table).table := by
  intro key row hrow hinbound
  cases hkey : receivedFrom correspondent recipients key with
  | false => exact ⟨row, recordRows_get_other hkey ▸ hrow, hinbound, rfl⟩
  | true =>
    cases hlive : live o now correspondent recipients table key with
    | none =>
      rw [(recordRows_get_missing hkey hlive).1 rfl] at hrow
      exact absurd hrow (by simp)
    | some old =>
      rw [recordRows_get_live hkey hlive] at hrow
      obtain rfl := Option.some.inj hrow
      refine ⟨old, get_of_live hlive, (passed_same old).2.2 ▸ hinbound, ?_⟩
      simp [passed_count]

/-- An advancing message counts once for each pair that it names: a live inbound row goes
on, and a pair without one starts with this message. -/
theorem advance_counts (hmin : 1 ≤ o.legitimateSenderMinMessages)
    (h : CountsRows o.legitimateSenderMinMessages es table) :
    let recorded := recordRows o now ids true correspondent recipients table
    CountsRows o.legitimateSenderMinMessages (es ++ [⟨now, correspondent, recipients,
      recorded.inserted.map CandidateEvent.recipient⟩]) recorded.table := by
  intro recorded key row hrow hinbound
  have hcreates : ∀ message : Message, message = ⟨now, correspondent, recipients,
      recorded.inserted.map CandidateEvent.recipient⟩ → (message.creates key = true ↔
        message.names key = true ∧ live o now correspondent recipients table key = none) := by
    rintro message rfl
    simp only [Message.creates, Message.names, receivedFrom, Bool.and_eq_true, decide_eq_true_eq,
      recorded, mem_inserted]
    constructor
    · rintro ⟨rfl, hmem, hlive⟩
      exact ⟨⟨rfl, hmem⟩, hlive⟩
    · rintro ⟨⟨rfl, hmem⟩, hlive⟩
      exact ⟨rfl, hmem, hlive⟩
  generalize hmessage : Message.mk now correspondent recipients _ = message
  have hiff := hcreates message hmessage.symm
  cases hkey : receivedFrom correspondent recipients key with
  | false =>
    have hnames : message.names key = false := hmessage ▸ hkey
    have hold : table.get key = some row := (recordRows_get_other hkey).symm.trans hrow
    refine (h key row hold hinbound).other hnames ?_
    simpa [hnames] using hiff
  | true =>
    have hnames : message.names key = true := hmessage ▸ hkey
    cases hlive : live o now correspondent recipients table key with
    | none =>
      obtain ⟨before, hnew⟩ := (recordRows_get_missing hkey hlive).2 rfl
      obtain rfl := Option.some.inj (hrow.symm.trans hnew)
      refine ⟨[message], since_created (hiff.mpr ⟨hnames, hlive⟩), ?_⟩
      simp only [newRow, List.countP_singleton, hnames, if_true]
      omega
    | some old =>
      obtain rfl := Option.some.inj (hrow.symm.trans (recordRows_get_live hkey hlive))
      have hkind : old.whitelistType = .repeatedLegitimateInbound :=
        (passed_same old).2.2 ▸ hinbound
      refine (h key old (get_of_live hlive) hkind).named hnames ?_ ?_
      · simpa [hlive] using hiff
      · simp [passed_count, hkind]

theorem classify_counts {atLeast : Score → Score → Bool} {p : Platform} {o : LearningOptions Score}
    {lists : Lists} (hmin : 1 ≤ o.legitimateSenderMinMessages)
    (h : CountsRows o.legitimateSenderMinMessages es lists.correspondents)
    (input : InboundClassification Score) :
    let outcome := classify atLeast p o now ids input lists
    CountsRows o.legitimateSenderMinMessages (es ++ outcome.2) outcome.1.correspondents := by
  simp only [classify, recordInboundClassification_eq]
  cases classified atLeast p o input with
  | error failure => simpa [Except.map] using h
  | ok action =>
    cases action with
    | ignore => simpa [Except.map, recordAction] using h
    | remove => simpa [Except.map, recordAction] using h.keeps (deleteWhere_keeps _)
    | refresh => simpa [Except.map, recordAction] using h.keeps refresh_keeps
    | advance => exact advance_counts hmin h

end CountsRows

theorem step_counts {atLeast : Score → Score → Bool} {p : Platform} {cfg : Configuration Score}
    (hmin : 1 ≤ cfg.correspondents.legitimateSenderMinMessages) (lists : Lists)
    (es : List Message) (next : ℤ × RowIds × Action Score)
    (h : CountsRows cfg.correspondents.legitimateSenderMinMessages es lists.correspondents) :
    CountsRows cfg.correspondents.legitimateSenderMinMessages
      (es ++ (step atLeast p cfg lists next).2)
      (step atLeast p cfg lists next).1.correspondents := by
  obtain ⟨now, ids, action⟩ := next
  cases action with
  | list operation => simpa [step] using h.keeps (applied_keeps cfg operation)
  | classify input => exact classify_counts hmin h input

end MilterGuard.InboundCounts
