import MilterGuard.CorrespondentLearning

/-!
Runs of the operations on the two tables of known senders, and what each operation that
succeeds does to both of them.
-/
namespace MilterGuard.ListOperations

open ByteStrings MailAddresses BlocklistTable SenderLists KeyedTables CorrespondentLearning

structure Configuration (Score : Type) where
  correspondents : LearningOptions Score
  blocklist : BlocklistOptions

inductive Operation
  | addSenderBlock (recipient : Bytes) (kind : SenderBlockKind) (value : Bytes)
  | deleteSenderBlocks (kind : SenderBlockKind) (value : Bytes) (scope : RecipientScope)
  | addManual (sender recipient : Bytes)
  | learnAuthenticated (localAddress : Bytes) (recipients : List Bytes)
  | touchInbound (correspondent : Bytes) (recipients : List Bytes)
  | deleteCorrespondent (sender : Bytes) (scope : RecipientScope)
  | cleanupCorrespondents
  | cleanupBlocklist

variable {Score : Type}

/-- The tables after an operation; one that fails changes nothing. -/
def applied (p : Platform) (cfg : Configuration Score) (now : ℤ) (ids : RowIds) (lists : Lists) :
    Operation → Lists
  | .addSenderBlock recipient kind value =>
    match addSenderBlock p cfg.blocklist.toSenderBlocklistOptions now ids recipient kind value
        lists with
    | .ok done => done.2
    | .error _ => lists
  | .deleteSenderBlocks kind value scope =>
    match deleteSenderBlocks p cfg.blocklist.toSenderBlocklistOptions kind value scope lists with
    | .ok done => done.2
    | .error _ => lists
  | .addManual sender recipient =>
    match addManual p cfg.correspondents.toCorrespondentOptions now ids sender recipient lists with
    | .ok done => done.2
    | .error _ => lists
  | .learnAuthenticated localAddress recipients =>
    match learnAuthenticated p cfg.correspondents now ids localAddress recipients lists with
    | .ok after => after
    | .error _ => lists
  | .touchInbound correspondent recipients =>
    match touchInbound p cfg.correspondents now correspondent recipients lists with
    | .ok after => after
    | .error _ => lists
  | .deleteCorrespondent sender scope =>
    match deleteCorrespondent p cfg.correspondents.toCorrespondentOptions sender scope lists with
    | .ok done => done.2
    | .error _ => lists
  | .cleanupCorrespondents => cleanupCorrespondents cfg.correspondents now lists
  | .cleanupBlocklist => cleanupBlocklist cfg.blocklist now lists

/-- The tables after the operations, each with its time and the ids it is given. -/
def run (p : Platform) (cfg : Configuration Score) (lists : Lists)
    (operations : List (ℤ × RowIds × Operation)) : Lists :=
  operations.foldl (fun lists next => applied p cfg next.1 next.2.1 lists next.2.2) lists

def noLists : Lists := ⟨⟨[], List.nodup_nil⟩, List.nodup_nil, .empty⟩

/-- A block of the mailbox for the recipient. -/
def Blocked (lists : Lists) (recipient mailbox : Bytes) : Prop :=
  (recipient, SenderBlockKind.exactMailbox, mailbox) ∈ lists.blocklist.rows.map Row.key

instance (lists : Lists) (recipient mailbox : Bytes) :
    Decidable (Blocked lists recipient mailbox) :=
  inferInstanceAs (Decidable (_ ∈ _))

/-- A block of a domain or for everyone. -/
def broad (row : Row) : Bool := row.senderKind = .domain || row.recipient = everyone

def broadRows (lists : Lists) : List Row := lists.blocklist.rows.filter broad

section Statements

variable {lists : Lists} {recipient mailbox : Bytes}

theorem blocked_deleteBlocks (chosen : Row → Bool) :
    Blocked (lists.deleteBlocks chosen) recipient mailbox ↔ ∃ row ∈ lists.blocklist.rows,
      row.key = (recipient, .exactMailbox, mailbox) ∧ chosen row = false := by
  simp only [Blocked, Lists.deleteBlocks, List.mem_map, mem_delete]
  constructor
  · rintro ⟨row, ⟨hrow, hkept⟩, hkey⟩
    exact ⟨row, hrow, hkey, hkept⟩
  · rintro ⟨row, hrow, hkey, hkept⟩
    exact ⟨row, ⟨hrow, hkept⟩, hkey⟩

theorem blocked_of_deleteBlocks {chosen : Row → Bool}
    (h : Blocked (lists.deleteBlocks chosen) recipient mailbox) :
    Blocked lists recipient mailbox := by
  obtain ⟨row, hrow, hkey, -⟩ := (blocked_deleteBlocks chosen).mp h
  exact List.mem_map.mpr ⟨row, hrow, hkey⟩

theorem broadRows_deleteBlocks {chosen : Row → Bool}
    (h : ∀ row, broad row = true → chosen row = false) :
    broadRows (lists.deleteBlocks chosen) = broadRows lists := by
  simp only [broadRows, Lists.deleteBlocks, Table.delete, List.filter_filter]
  apply List.filter_congr
  intro row _
  cases hbroad : broad row with
  | false => rfl
  | true => simp [h row hbroad]

end Statements

section Operations

variable {p : Platform} {lists : Lists} {now : ℤ} {ids : RowIds}

/-- What a successful block leaves of both tables. -/
theorem addSenderBlock_ok {o : SenderBlocklistOptions} {recipient value : Bytes}
    {kind : SenderBlockKind} {done : (Bool × ℤ) × Lists}
    (h : addSenderBlock p o now ids recipient kind value lists = .ok done) :
    ∃ owner sender, normalizeBlockRecipient p recipient = .ok owner ∧
      normalizeBlockSender p kind value = .ok sender ∧
      (∀ key, key ∈ done.2.blocklist.rows.map Row.key →
        key ∈ lists.blocklist.rows.map Row.key ∨ key = (owner, kind, sender)) ∧
      done.2.correspondents = (clearContradicted kind owner sender lists).correspondents := by
  unfold SenderLists.addSenderBlock at h
  split_ifs at h
  cases howner : normalizeBlockRecipient p recipient with
  | error text => simp [howner, bind, Except.bind] at h
  | ok owner =>
    cases hsender : normalizeBlockSender p kind value with
    | error text => simp [howner, hsender, bind, Except.bind] at h
    | ok sender =>
      simp only [howner, hsender, bind, Except.bind, pure, Except.pure, Except.ok.injEq] at h
      subst h
      refine ⟨owner, sender, rfl, rfl, ?_, rfl⟩
      intro key hkey
      have hkeys := upsertRows_keys lists.blocklist.rows
      change key ∈ (upsertRows lists.blocklist.rows _).map Row.key at hkey
      rw [hkeys] at hkey
      split_ifs at hkey
      · exact Or.inl hkey
      · exact (List.mem_append.mp hkey).imp_right List.mem_singleton.mp

theorem clearContradicted_get (kind : SenderBlockKind) (owner sender : Bytes)
    (key : Bytes × Bytes) :
    (clearContradicted kind owner sender lists).correspondents.get key =
      if kind = .exactMailbox ∧ key.2 = sender ∧ (owner = everyone ∨ key.1 = owner) then none
      else lists.correspondents.get key := by
  cases kind with
  | domain => simp [clearContradicted]
  | exactMailbox =>
    by_cases howner : owner = everyone
    · by_cases hsender : key.2 = sender <;>
        simp [clearContradicted, deleteCorrespondentsForExactBlock, Lists.deleteCorrespondents,
          Table.get_edit, Lists.names, howner, hsender]
    · by_cases hsender : key.2 = sender <;> by_cases hlocal : key.1 = owner <;>
        simp [clearContradicted, deleteCorrespondentsForExactBlock, Lists.deleteCorrespondents,
          Table.get_edit, Lists.names, howner, hsender, hlocal]

theorem addManual_ok {o : CorrespondentOptions} {sender recipient : Bytes} {done : Bool × Lists}
    (h : addManual p o now ids sender recipient lists = .ok done) :
    normalizeAddress p recipient ≠ [] ∧ ∃ row, row.whitelistType = .manual ∧ done.2 =
      { lists.deleteBlocks (selects .exactMailbox (normalizeAddress p sender)
          (some (normalizeAddress p recipient))) with
        correspondents := lists.correspondents.put
          (normalizeAddress p recipient, normalizeAddress p sender) row } := by
  unfold addManual at h
  by_cases hon : o.useAllowlist = true
  · dsimp only at h
    split_ifs at h with hempty
    obtain rfl := Except.ok.inj h
    refine ⟨(not_or.mp hempty).2, _, ?_, rfl⟩
    split <;> rfl
  · simp [hon] at h

variable {recipients : List Bytes} {o : LearningOptions Score}

theorem ok_of_scope {α : Type} {scope : CorrespondentScope} {rest : Except Failure α} {a : α}
    (h : (validateScope scope >>= fun _ => rest) = .ok a) : rest = .ok a := by
  cases hscope : validateScope scope with
  | error failure => simp [hscope, bind, Except.bind] at h
  | ok valid =>
    rw [hscope] at h
    exact h

theorem learnAuthenticated_ok {localAddress : Bytes} {after : Lists}
    (h : learnAuthenticated p o now ids localAddress recipients lists = .ok after) :
    (o.learnAuthenticatedRecipients = false ∨ recipientList p recipients = []) ∧ after = lists ∨
      normalizeAddress p localAddress ≠ [] ∧ after =
        { deleteExactSenderBlocks (normalizeAddress p localAddress) (recipientList p recipients)
            lists with
          correspondents := learnRows o.toCorrespondentOptions now ids
            (normalizeAddress p localAddress) (recipientList p recipients)
            lists.correspondents } := by
  unfold learnAuthenticated at h
  by_cases hon : o.learnAuthenticatedRecipients = true
  · rw [if_neg (not_not.mpr hon)] at h
    replace h := ok_of_scope h
    by_cases hlocal : normalizeAddress p localAddress = []
    · simp [hlocal] at h
    · rw [if_neg hlocal] at h
      by_cases hnone : recipientList p recipients = []
      · rw [if_pos hnone] at h
        exact Or.inl ⟨Or.inr hnone, (Except.ok.inj h).symm⟩
      · rw [if_neg hnone] at h
        exact Or.inr ⟨hlocal, (Except.ok.inj h).symm⟩
  · rw [if_pos hon] at h
    exact Or.inl ⟨Or.inl (by simpa using hon), (Except.ok.inj h).symm⟩

/-- Only the pairs that the message names get a row. -/
theorem learnRows_none {o : CorrespondentOptions} {localAddress : Bytes} {table : Correspondents}
    {key : Bytes × Bytes} (h : table.get key = none)
    (hkey : sentTo localAddress recipients key = false) :
    (learnRows o now ids localAddress recipients table).get key = none := by
  refine (Table.get_insertMissing_of_none ?_).1 ?_
  · simp [Table.get_updateWhere, Table.get_deleteWhere, h]
  · intro hmem
    obtain ⟨recipient, hrecipient, rfl⟩ := List.mem_map.mp hmem
    simp [sentTo, hrecipient] at hkey

theorem touchInbound_ok {correspondent : Bytes} {after : Lists}
    (h : touchInbound p o now correspondent recipients lists = .ok after) :
    ∃ chosen, after = { lists with
      correspondents := lists.correspondents.updateWhere chosen (touch now) } := by
  have hsame : lists = { lists with
      correspondents := lists.correspondents.updateWhere (fun _ _ => false) (touch now) } := by
    simp [Table.updateWhere, Table.edit_some]
  unfold touchInbound at h
  by_cases hon : o.useAllowlist = true
  · rw [if_neg (not_not.mpr hon)] at h
    replace h := ok_of_scope h
    split_ifs at h
    · exact ⟨_, (Except.ok.inj h).symm.trans hsame⟩
    · exact ⟨_, (Except.ok.inj h).symm.trans hsame⟩
    · exact ⟨_, (Except.ok.inj h).symm⟩
  · rw [if_pos hon] at h
    exact ⟨_, (Except.ok.inj h).symm.trans hsame⟩

theorem deleteCorrespondent_ok {o : CorrespondentOptions} {sender : Bytes} {scope : RecipientScope}
    {done : ℕ × Lists} (h : deleteCorrespondent p o sender scope lists = .ok done) :
    ∃ chosen, done.2 = lists.deleteCorrespondents chosen := by
  unfold deleteCorrespondent at h
  by_cases hon : o.useAllowlist = true
  · by_cases hsender : normalizeAddress p sender = []
    · simp [hon, hsender] at h
    · rw [if_neg (not_not.mpr hon), if_neg hsender] at h
      cases hscope : scope.validate with
      | error text => simp [hscope, bind, Except.bind, Except.mapError] at h
      | ok valid =>
        simp only [hscope, bind, Except.bind, Except.mapError] at h
        by_cases hrecipient : scope.all = false ∧ normalizeAddress p scope.address = []
        · rw [if_pos hrecipient] at h
          exact absurd h (by simp)
        · rw [if_neg hrecipient] at h
          exact ⟨_, (congrArg Prod.snd (Except.ok.inj h)).symm⟩
  · simp [hon] at h

theorem deleteSenderBlocks_ok {o : SenderBlocklistOptions} {kind : SenderBlockKind} {value : Bytes}
    {scope : RecipientScope} {done : ℕ × Lists}
    (h : deleteSenderBlocks p o kind value scope lists = .ok done) :
    ∃ chosen, done.2 = lists.deleteBlocks chosen := by
  unfold SenderLists.deleteSenderBlocks at h
  split_ifs at h
  cases hscope : scope.validate with
  | error text => simp [hscope, bind, Except.bind, Except.mapError] at h
  | ok valid =>
    cases hsender : normalizeBlockSender p kind value with
    | error text => simp [hscope, hsender, bind, Except.bind, Except.mapError] at h
    | ok sender =>
      cases hrecipient : deleteRecipient p scope with
      | error text => simp [hscope, hsender, hrecipient, bind, Except.bind, Except.mapError] at h
      | ok recipient =>
        simp only [hscope, hsender, hrecipient] at h
        exact ⟨_, (congrArg Prod.snd (Except.ok.inj h)).symm⟩

theorem enforceCapacity_none {table : Correspondents} {key : Bytes × Bytes}
    (h : table.get key = none) :
    (enforceCapacity o table).get key = none := by
  unfold enforceCapacity
  dsimp only
  split_ifs <;> simp [removeIds, Table.get_deleteWhere, h]

end Operations

end MilterGuard.ListOperations
