import MilterGuard.BlocklistTable

/-!
The BLOCKLIST ADD and DELETE commands from their text to the table: parsing and
authorization, the conversion of a recipient to a scope, and the statement that
is run. The three steps each read the recipient `*` in their own way.
-/
namespace MilterGuard.AdminCommands

open ByteStrings Hostnames MailAddresses BlocklistTable

structure Actor where
  defaultRecipient : Bytes
  administrator : Bool
  commandMode : Bool

inductive Verb
  | add
  | delete
  deriving DecidableEq

/-- A parsed BLOCKLIST ADD or DELETE. -/
structure Command where
  verb : Verb
  sender : Bytes
  senderKind : SenderBlockKind
  recipient : Bytes
  allRecipients : Bool
  deriving DecidableEq

inductive RecipientAuthorization
  | authorized (recipient : Bytes)
  | invalid
  | wildcardDenied
  | otherDenied
  deriving DecidableEq

variable (p : Platform)

def normalizeRecipient (value : Bytes) : Bytes :=
  if trimSpace value = everyone then everyone else normalizeAddress p value

def authorizeRecipient (value authenticatedSender : Bytes) (admin : Bool) :
    RecipientAuthorization :=
  if trimSpace value = everyone then
    if admin then .authorized everyone else .wildcardDenied
  else
    let recipient := normalizeAddress p value
    if recipient = [] then .invalid
    else if ¬ admin ∧ recipient ≠ authenticatedSender then .otherDenied
    else .authorized recipient

def parseSenderBlockPattern (value : Bytes) : Except String (Bytes × SenderBlockKind) :=
  let value := trimSpace value
  if hasPrefix value (ascii "*@") then
    if value.count 0x2A ≠ 1 then
      .error "sender pattern must be an exact email address or *@domain"
    else
      let found := trimSuffix (toLower p.table (trimSpace (trimPrefix value (ascii "*@")))) [0x2E]
      if found = [] ∨ domain p (ascii "x@" ++ found) ≠ found then
        .error "sender pattern must contain a valid domain"
      else .ok (found, .domain)
  else if value.contains 0x2A then
    .error "sender pattern supports only an exact email address or *@domain"
  else
    let sender := normalizeAddress p value
    if sender = [] then .error "sender pattern must be a valid email address or *@domain"
    else .ok (sender, .exactMailbox)

def parseVerb (value : Bytes) : Option Verb :=
  if equalFold value (ascii "ADD") then some .add
  else if equalFold value (ascii "DELETE") then some .delete
  else none

def Verb.text : Verb → String
  | .add => "ADD"
  | .delete => "DELETE"

/-- The end of the BLOCKLIST branch of parse: the scope of a valid pattern. -/
def parseScope (verb : Verb) (sender : Bytes) (kind : SenderBlockKind)
    (recipient authenticatedSender : Bytes) (admin : Bool) : Except String Command :=
  if equalFold recipient (ascii "ALL") then
    if verb ≠ .delete then .error "ALL is supported only by BLOCKLIST DELETE"
    else if ¬ admin then
      .error "deleting blocklist entries for all recipients is restricted to administrators"
    else .ok ⟨verb, sender, kind, [], true⟩
  else match authorizeRecipient p recipient authenticatedSender admin with
    | .authorized recipient => .ok ⟨verb, sender, kind, recipient, false⟩
    | .invalid => .error "blocklist recipient must be a valid email address or *"
    | .wildcardDenied => .error "server-wide blocklist entries are restricted to administrators"
    | .otherDenied => .error "users may modify only their own blocklist"

/-- The BLOCKLIST branch of parse after the count of its fields. -/
def parseOperation (verbText patternText : Bytes) (scopeText : Option Bytes)
    (authenticatedSender : Bytes) (admin commandMode : Bool) : Except String Command :=
  match parseVerb verbText with
  | none => .error "BLOCKLIST operation must be ADD or DELETE"
  | some verb =>
    if commandMode ∧ scopeText = none then
      .error ("BLOCKLIST " ++ verb.text ++
        " requires an explicit recipient, *, or ALL in command mode")
    else match parseSenderBlockPattern p patternText with
      | .error text => .error text
      | .ok (sender, kind) =>
        parseScope p verb sender kind (scopeText.getD authenticatedSender) authenticatedSender admin

/-- The branch of parse for BLOCKLIST with a verb other than LIST, given the
fields after BLOCKLIST. -/
def parseBlocklist (arguments : List Bytes) (authenticatedSender : Bytes)
    (admin commandMode : Bool) : Except String Command :=
  match arguments with
  | [verb, pattern] => parseOperation p verb pattern none authenticatedSender admin commandMode
  | [verb, pattern, scope] =>
    parseOperation p verb pattern (some scope) authenticatedSender admin commandMode
  | _ => .error ("BLOCKLIST command must be BLOCKLIST ADD sender-pattern [recipient|*] " ++
      "or BLOCKLIST DELETE sender-pattern [recipient|*|ALL]")

def recipientScope (recipient : Bytes) : RecipientScope :=
  if recipient = everyone then ⟨true, []⟩ else ⟨false, recipient⟩

variable (command : Command)

/-- The DELETE case of Execute: the number reported and the table left. -/
def executeDelete (table : Table) : Except String (ℕ × Table) :=
  let scope := if command.allRecipients then ⟨true, []⟩ else recipientScope command.recipient
  deleteSenderBlocks p command.senderKind command.sender scope table

/-- The ADD case of Execute: whether the row is new, and the table with it. -/
def executeAdd (id expiresAt : ℕ) (table : Table) : Except String (Bool × Table) :=
  addSenderBlock p command.recipient command.senderKind command.sender id expiresAt table

/-- The sender value that a statement for a parsed pattern uses. -/
def storedSender (kind : SenderBlockKind) (sender : Bytes) : Bytes :=
  match kind with
  | .exactMailbox => normalizeAddress p sender
  | .domain => sender

/-- A parsed scope other than ALL: a sender the pattern grammar admits, and
either the server-wide recipient or a normalized mailbox. -/
structure Parsed : Prop where
  named : command.allRecipients = false
  sender : normalizeBlockSender p command.senderKind command.sender =
    if storedSender p command.senderKind command.sender = [] then
      .error "sender block must contain a valid email address"
    else .ok (storedSender p command.senderKind command.sender)
  recipient : command.recipient = everyone ∨
    ∃ value, command.recipient = normalizeAddress p value ∧ command.recipient ≠ []

private theorem parsed_sender (text sender : Bytes) (kind : SenderBlockKind)
    (h : parseSenderBlockPattern p text = .ok (sender, kind)) :
    normalizeBlockSender p kind sender =
      if storedSender p kind sender = [] then
        .error "sender block must contain a valid email address"
      else .ok (storedSender p kind sender) := by
  cases kind with
  | exactMailbox => rfl
  | domain =>
    have hdomain : sender ≠ [] ∧ domain p (ascii "x@" ++ sender) = sender := by
      unfold parseSenderBlockPattern at h
      dsimp only at h
      split at h
      · split at h
        · simp at h
        · split at h
          · simp at h
          · rename_i hvalid
            simp only [Except.ok.injEq, Prod.mk.injEq, and_true] at h
            subst h
            simpa using hvalid
      · split at h
        · simp at h
        · split at h
          · simp at h
          · simp at h
    obtain ⟨hne, hfixed⟩ := hdomain
    have hvalid : validName false sender := by
      have hform : sender = [] ∨ validName false sender := by
        rw [← hfixed]
        unfold domain
        split
        · exact Or.inl rfl
        · split
          · exact Or.inl rfl
          · split
            · exact Or.inl rfl
            · exact normalizeDNSName_eq_nil_or_validName p.table _ false
      exact hform.resolve_left hne
    have hprepared := prepared_of_validName p.table sender false hvalid
    have hsame : domain p (0x78 :: 0x40 :: sender) = sender := hfixed
    have hstored : storedSender p .domain sender ≠ [] := hne
    rw [if_neg hstored]
    simp only [normalizeBlockSender, hprepared, hsame, storedSender, ne_eq, not_true_eq_false,
      if_false]

private theorem authorizeRecipient_form (value authenticated recipient : Bytes) (admin : Bool)
    (h : authorizeRecipient p value authenticated admin = .authorized recipient) :
    recipient = everyone ∨ ∃ value, recipient = normalizeAddress p value ∧ recipient ≠ [] := by
  unfold authorizeRecipient at h
  dsimp only at h
  split_ifs at h with _ _ hempty _
  · exact Or.inl (RecipientAuthorization.authorized.inj h).symm
  · obtain rfl := RecipientAuthorization.authorized.inj h
    exact Or.inr ⟨value, rfl, hempty⟩

private theorem parseScope_form (verb : Verb) (sender : Bytes) (kind : SenderBlockKind)
    (recipient authenticated : Bytes) (admin : Bool) (command : Command)
    (h : parseScope p verb sender kind recipient authenticated admin = .ok command)
    (hnamed : command.allRecipients = false) :
    command.sender = sender ∧ command.senderKind = kind ∧ (command.recipient = everyone ∨
      ∃ value, command.recipient = normalizeAddress p value ∧ command.recipient ≠ []) := by
  unfold parseScope at h
  split_ifs at h
  · obtain rfl := Except.ok.inj h
    simp at hnamed
  · split at h
    · rename_i found hauthorized
      obtain rfl := Except.ok.inj h
      exact ⟨rfl, rfl, authorizeRecipient_form p recipient authenticated found admin hauthorized⟩
    all_goals simp at h

private theorem parseOperation_parsed (verbText patternText : Bytes) (scopeText : Option Bytes)
    (authenticated : Bytes) (admin commandMode : Bool) (command : Command)
    (h : parseOperation p verbText patternText scopeText authenticated admin commandMode =
      .ok command)
    (hnamed : command.allRecipients = false) : Parsed p command := by
  unfold parseOperation at h
  cases hverb : parseVerb verbText with
  | none => simp [hverb] at h
  | some verb =>
    simp only [hverb] at h
    split_ifs at h
    cases hpattern : parseSenderBlockPattern p patternText with
    | error text => simp [hpattern] at h
    | ok found =>
      obtain ⟨sender, kind⟩ := found
      simp only [hpattern] at h
      obtain ⟨hsender, hkind, hrecipient⟩ :=
        parseScope_form p verb sender kind _ authenticated admin command h hnamed
      refine ⟨hnamed, ?_, hrecipient⟩
      rw [hsender, hkind]
      exact parsed_sender p patternText sender kind hpattern

/-- A command whose scope is not ALL names one recipient. -/
theorem parseBlocklist_parsed (arguments : List Bytes) (authenticated : Bytes)
    (admin commandMode : Bool) (command : Command)
    (h : parseBlocklist p arguments authenticated admin commandMode = .ok command)
    (hnamed : command.allRecipients = false) : Parsed p command := by
  unfold parseBlocklist at h
  split at h
  · exact parseOperation_parsed p _ _ _ authenticated admin commandMode command h hnamed
  · exact parseOperation_parsed p _ _ _ authenticated admin commandMode command h hnamed
  · simp at h

/-- The rows that a DELETE with this scope names. -/
def named : Row → Bool :=
  selects command.senderKind command.sender (some command.recipient)

/-- The command removes the rows it names, no others, and reports their number. -/
def DeletesExactly (table : Table) : Prop :=
  executeDelete p command table = .ok (table.rows.countP (named command),
    table.delete (named command))

/-- ADD and then DELETE leaves the rows of other recipients as they were. -/
def AddDeleteKeepsOthers (table : Table) : Prop :=
  ∀ id expiresAt created added,
    executeAdd p { command with verb := .add } id expiresAt table = .ok (created, added) →
    ∃ count left, executeDelete p command added = .ok (count, left) ∧
      left.rows.filter (fun row => row.recipient ≠ command.recipient) =
        table.rows.filter fun row => row.recipient ≠ command.recipient

/-- The statement run for the command reaches the rows it names and no others.
The server-wide scope is run for every recipient, so it needs that the pattern
has no other recipient; a key that a second normalization changes must not
occur, neither before nor after the change. -/
def ScopeSettled (table : Table) : Prop :=
  let stored := storedSender p command.senderKind command.sender
  let again := normalizeAddress p command.recipient
  stored ≠ [] ∧
    if command.recipient = everyone then
      (∀ row ∈ table.rows, row.senderKind = command.senderKind → row.senderValue = stored →
        row.recipient = everyone) ∧
      (stored = command.sender ∨ ∀ row ∈ table.rows,
        row.key ≠ (everyone, command.senderKind, command.sender) ∧
        row.key ≠ (everyone, command.senderKind, stored))
    else
      again ≠ [] ∧ (stored = command.sender ∧ again = command.recipient ∨ ∀ row ∈ table.rows,
        row.key ≠ (command.recipient, command.senderKind, command.sender) ∧
        row.key ≠ (again, command.senderKind, stored))

theorem mailbox_not_blank (value : Bytes) (h : normalizeAddress p value ≠ []) :
    trimSpace (normalizeAddress p value) ≠ everyone ∧
      trimSpace (normalizeAddress p value) ≠ [] := by
  obtain ⟨before, host, hparts⟩ := normalizeAddress_parts p value h
  have hbarrier : barrier 0x40 := by constructor <;> decide
  have hat : 0x40 ∈ trimSpace (normalizeAddress p value) := by
    rw [hparts, trimSpace_around_barrier 0x40 hbarrier]
    simp
  constructor
  · intro heq
    rw [heq] at hat
    exact absurd hat (by decide)
  · intro heq
    rw [heq] at hat
    simp at hat

section

variable (hparsed : Parsed p command) (table : Table)

include hparsed

/-- The DELETE statement of the server-wide scope has no recipient condition. -/
private theorem executeDelete_everyone (h : command.recipient = everyone) (table : Table) :
    executeDelete p command table =
      if storedSender p command.senderKind command.sender = [] then
        .error "sender block must contain a valid email address"
      else
        let chosen := selects command.senderKind
          (storedSender p command.senderKind command.sender) none
        .ok (table.rows.countP chosen, table.delete chosen) := by
  have hscope : recipientScope command.recipient = ⟨true, []⟩ := if_pos h
  simp only [executeDelete, hscope, deleteSenderBlocks, hparsed.sender]
  split_ifs <;> rfl

private theorem executeDelete_mailbox (h : command.recipient ≠ everyone) (table : Table) :
    executeDelete p command table =
      if storedSender p command.senderKind command.sender = [] then
        .error "sender block must contain a valid email address"
      else if normalizeAddress p command.recipient = [] then
        .error "sender block recipient must be a valid email address or *"
      else
        let chosen := selects command.senderKind
          (storedSender p command.senderKind command.sender)
          (some (normalizeAddress p command.recipient))
        .ok (table.rows.countP chosen, table.delete chosen) := by
  obtain ⟨value, hvalue, hne⟩ := hparsed.recipient.resolve_left h
  have hmailbox := mailbox_not_blank p value (hvalue ▸ hne)
  rw [← hvalue] at hmailbox
  have hscope : recipientScope command.recipient = ⟨false, command.recipient⟩ := if_neg h
  have hvalid : RecipientScope.validate ⟨false, command.recipient⟩ = .ok () := by
    simp [RecipientScope.validate, hmailbox.2]
  simp only [executeDelete, hparsed.named, Bool.false_eq_true, if_false, hscope,
    deleteSenderBlocks, hparsed.sender, hvalid, deleteRecipient, if_neg hmailbox.1]
  split_ifs <;> rfl

omit hparsed in
private theorem ok_delete_eq_iff (chosen chosen' : Row → Bool) :
    (Except.ok (table.rows.countP chosen, table.delete chosen) : Except String (ℕ × Table)) =
        .ok (table.rows.countP chosen', table.delete chosen') ↔
      ∀ row ∈ table.rows, chosen row = chosen' row := by
  constructor
  · intro h
    have htable : table.delete chosen = table.delete chosen' :=
      congrArg Prod.snd (Except.ok.inj h)
    exact (delete_rows_eq_iff table chosen chosen').mp (congrArg Table.rows htable)
  · intro h
    have hcount : table.rows.countP chosen = table.rows.countP chosen' :=
      List.countP_congr fun row hrow => by rw [h row hrow]
    have hrows := (delete_rows_eq_iff table chosen chosen').mpr h
    have htable : table.delete chosen = table.delete chosen' := by
      simp only [Table.delete, Table.mk.injEq] at hrows ⊢
      exact hrows
    rw [hcount, htable]

omit hparsed in
/-- Two keys select the same rows when they are equal or neither occurs. -/
private theorem selects_same_iff (rows : List Row) (kind : SenderBlockKind)
    (value value' recipient recipient' : Bytes) :
    (∀ row ∈ rows, selects kind value (some recipient) row =
        selects kind value' (some recipient') row) ↔
      (value = value' ∧ recipient = recipient' ∨ ∀ row ∈ rows,
        row.key ≠ (recipient', kind, value') ∧ row.key ≠ (recipient, kind, value)) := by
  have hsame : ∀ row, (selects kind value (some recipient) row =
      selects kind value' (some recipient') row) ↔
      (row.key = (recipient, kind, value) ↔ row.key = (recipient', kind, value')) := by
    intro row
    rw [Bool.eq_iff_iff, selects_some_iff, selects_some_iff]
  simp only [hsame]
  constructor
  · intro h
    by_cases heq : value = value' ∧ recipient = recipient'
    · exact Or.inl heq
    · refine Or.inr fun row hrow => ?_
      have hkeys : (recipient, kind, value) ≠ (recipient', kind, value') := by
        intro hkey
        simp only [Prod.mk.injEq, true_and] at hkey
        exact heq ⟨hkey.2, hkey.1⟩
      constructor
      · intro hkey
        exact hkeys (((h row hrow).mpr hkey).symm.trans hkey)
      · intro hkey
        exact hkeys (hkey.symm.trans ((h row hrow).mp hkey))
  · rintro (⟨rfl, rfl⟩ | hnone) row hrow
    · exact Iff.rfl
    · exact iff_of_false (hnone row hrow).2 (hnone row hrow).1

omit hparsed in
/-- Without a recipient condition the server-wide row alone is selected when
the pattern has no other recipient. -/
private theorem selects_everyone_iff (rows : List Row) (kind : SenderBlockKind)
    (value value' : Bytes) :
    (∀ row ∈ rows, selects kind value none row = selects kind value' (some everyone) row) ↔
      (∀ row ∈ rows, row.senderKind = kind → row.senderValue = value →
        row.recipient = everyone) ∧
      (value = value' ∨ ∀ row ∈ rows,
        row.key ≠ (everyone, kind, value') ∧ row.key ≠ (everyone, kind, value)) := by
  have hreduce : (∀ row ∈ rows, row.senderKind = kind → row.senderValue = value →
      row.recipient = everyone) →
      ∀ row ∈ rows, selects kind value none row = selects kind value (some everyone) row := by
    intro honly row hrow
    rw [Bool.eq_iff_iff, selects_none_iff, selects_some_iff]
    constructor
    · rintro ⟨hkind, hvalue⟩
      simp only [Row.key, honly row hrow hkind hvalue, hkind, hvalue]
    · intro hkey
      simp only [Row.key, Prod.mk.injEq] at hkey
      exact ⟨hkey.2.1, hkey.2.2⟩
  have hpair := selects_same_iff rows kind value value' everyone everyone
  simp only [and_true] at hpair
  constructor
  · intro h
    have honly : ∀ row ∈ rows, row.senderKind = kind → row.senderValue = value →
        row.recipient = everyone := by
      intro row hrow hkind hvalue
      have hselected := (selects_none_iff kind value row).mpr ⟨hkind, hvalue⟩
      rw [h row hrow, selects_some_iff] at hselected
      exact congrArg Prod.fst hselected
    refine ⟨honly, hpair.mp fun row hrow => ?_⟩
    rw [← hreduce honly row hrow, h row hrow]
  · rintro ⟨honly, hkeys⟩ row hrow
    rw [hreduce honly row hrow]
    exact hpair.mpr hkeys row hrow

private theorem deletesExactly_iff :
    DeletesExactly p command table ↔ ScopeSettled p command table := by
  unfold DeletesExactly ScopeSettled
  dsimp only
  by_cases hrecipient : command.recipient = everyone
  · rw [executeDelete_everyone p command hparsed hrecipient]
    by_cases hstored : storedSender p command.senderKind command.sender = []
    · simp [hstored]
    · rw [if_neg hstored]
      rw [ok_delete_eq_iff]
      simp only [named, hrecipient, hstored, ne_eq, not_false_eq_true, true_and]
      exact selects_everyone_iff table.rows _ _ _
  · rw [executeDelete_mailbox p command hparsed hrecipient, if_neg hrecipient]
    by_cases hstored : storedSender p command.senderKind command.sender = []
    · simp [hstored]
    · by_cases hagain : normalizeAddress p command.recipient = []
      · simp [hstored, hagain]
      · rw [if_neg hstored, if_neg hagain]
        rw [ok_delete_eq_iff]
        simp only [hstored, hagain, ne_eq, not_false_eq_true, true_and]
        exact selects_same_iff table.rows _ _ _ _ _

private theorem executeAdd_everyone (h : command.recipient = everyone) (id expiresAt : ℕ)
    (table added : Table) (created : Bool)
    (hadd : executeAdd p { command with verb := .add } id expiresAt table = .ok (created, added)) :
    added = table.upsert ⟨id, everyone, command.senderKind,
      storedSender p command.senderKind command.sender, expiresAt⟩ := by
  have hrecipient : normalizeBlockRecipient p command.recipient = .ok everyone := by
    rw [h]
    rfl
  simp only [executeAdd, addSenderBlock, hrecipient, hparsed.sender] at hadd
  split_ifs at hadd
  · simp [bind, Except.bind] at hadd
  · exact (congrArg Prod.snd (Except.ok.inj hadd)).symm

private theorem executeAdd_mailbox (h : command.recipient ≠ everyone) (id expiresAt : ℕ)
    (table added : Table) (created : Bool)
    (hadd : executeAdd p { command with verb := .add } id expiresAt table = .ok (created, added)) :
    added = table.upsert ⟨id, normalizeAddress p command.recipient, command.senderKind,
      storedSender p command.senderKind command.sender, expiresAt⟩ := by
  obtain ⟨value, hvalue, hne⟩ := hparsed.recipient.resolve_left h
  have hmailbox := mailbox_not_blank p value (hvalue ▸ hne)
  rw [← hvalue] at hmailbox
  simp only [executeAdd, addSenderBlock, normalizeBlockRecipient, if_neg hmailbox.1,
    hparsed.sender] at hadd
  split_ifs at hadd
  · simp [bind, Except.bind] at hadd
  · simp [bind, Except.bind] at hadd
  · simp [bind, Except.bind] at hadd
  · exact (congrArg Prod.snd (Except.ok.inj hadd)).symm

private theorem addDelete_of_settled (hsettled : ScopeSettled p command table) :
    AddDeleteKeepsOthers p command table := by
  intro id expiresAt created added hadd
  obtain ⟨hstored, hscope⟩ := hsettled
  by_cases hrecipient : command.recipient = everyone
  · rw [if_pos hrecipient] at hscope
    rw [executeDelete_everyone p command hparsed hrecipient, if_neg hstored]
    refine ⟨_, _, rfl, ?_⟩
    obtain rfl := executeAdd_everyone p command hparsed hrecipient id expiresAt table added created
      hadd
    rw [hrecipient, delete_filter_other, upsert_filter_other _ _ everyone rfl]
    intro row hrow hother
    rw [← Bool.not_eq_true, selects_none_iff]
    rintro ⟨hkind, hvalue⟩
    exact hother (hscope.1 row (mem_upsert_other table _ row hrow hother) hkind hvalue)
  · rw [if_neg hrecipient] at hscope
    obtain ⟨hagain, hkeys⟩ := hscope
    rw [executeDelete_mailbox p command hparsed hrecipient, if_neg hstored, if_neg hagain]
    refine ⟨_, _, rfl, ?_⟩
    obtain rfl := executeAdd_mailbox p command hparsed hrecipient id expiresAt table added created
      hadd
    rcases hkeys with ⟨-, hsame⟩ | hnone
    · rw [hsame, delete_filter_other, upsert_filter_other _ _ command.recipient rfl]
      intro row _ hother
      rw [← Bool.not_eq_true, selects_some_iff]
      intro hkey
      exact hother (congrArg Prod.fst hkey)
    · have hback := delete_upsert_new table ⟨id, normalizeAddress p command.recipient,
        command.senderKind, storedSender p command.senderKind command.sender, expiresAt⟩
        fun old hold => (hnone old hold).2
      rw [hback]

end

/-- An administrator's DELETE with a mailbox or the server-wide scope is exact
for a table precisely when its scope is settled there. -/
theorem delete_scope_exact_iff (arguments : List Bytes) (authenticated : Bytes) (commandMode : Bool)
    (command : Command)
    (hparse : parseBlocklist p arguments authenticated true commandMode = .ok command)
    (_hdelete : command.verb = .delete) (hnamed : command.allRecipients = false) (table : Table) :
    DeletesExactly p command table ∧ AddDeleteKeepsOthers p command table ↔
      ScopeSettled p command table := by
  have hparsed := parseBlocklist_parsed p arguments authenticated true commandMode command hparse
    hnamed
  rw [deletesExactly_iff p command hparsed table]
  exact and_iff_left_of_imp (addDelete_of_settled p command hparsed table)

/-- One pattern blocked for everyone and for one mailbox. -/
def sharedPattern : Table where
  rows := [⟨1, everyone, .exactMailbox, ascii "a@x.com", 9⟩,
    ⟨2, ascii "bob@y.com", .exactMailbox, ascii "a@x.com", 9⟩]
  unique := by decide

theorem delete_scope_exact_mailbox :
    DeletesExactly bareAddresses
        ⟨.delete, ascii "a@x.com", .exactMailbox, ascii "bob@y.com", false⟩ sharedPattern ∧
      AddDeleteKeepsOthers bareAddresses
        ⟨.delete, ascii "a@x.com", .exactMailbox, ascii "bob@y.com", false⟩ sharedPattern := by
  refine (delete_scope_exact_iff bareAddresses
    [ascii "DELETE", ascii "a@x.com", ascii "bob@y.com"] [] true _ (by decide) rfl rfl
    sharedPattern).mpr ⟨by decide, ?_⟩
  exact ⟨by decide, Or.inl ⟨by decide, by decide⟩⟩

/-- The server-wide scope also removes the row of a single mailbox. -/
theorem delete_everyone_removes_mailbox :
    parseBlocklist bareAddresses [ascii "DELETE", ascii "a@x.com", ascii "*"] [] true true =
        .ok ⟨.delete, ascii "a@x.com", .exactMailbox, everyone, false⟩ ∧
      ¬ DeletesExactly bareAddresses
        ⟨.delete, ascii "a@x.com", .exactMailbox, everyone, false⟩ sharedPattern := by
  refine ⟨by decide, fun hexact => ?_⟩
  have hparsed := parseBlocklist_parsed bareAddresses
    [ascii "DELETE", ascii "a@x.com", ascii "*"] [] true true
    ⟨.delete, ascii "a@x.com", .exactMailbox, everyone, false⟩ (by decide) rfl
  have hsettled := (deletesExactly_iff bareAddresses _ hparsed sharedPattern).mp hexact
  have honly := hsettled.2
  exact absurd (honly.1 ⟨2, ascii "bob@y.com", .exactMailbox, ascii "a@x.com", 9⟩
    (by decide) rfl (by decide)) (by decide)

end MilterGuard.AdminCommands
