import MilterGuard.ListOperations

/-!
The block of a mailbox for a recipient and a correspondent row for the same pair exclude
each other. The two tables belong to different repositories, which delete from each
other's table within their own transactions.
-/
namespace MilterGuard.ListExclusion

open ByteStrings MailAddresses BlocklistTable SenderLists KeyedTables CorrespondentLearning
open ListOperations

variable {Score : Type}

/-- No recipient has both a block of a mailbox and a correspondent row for it. -/
def Exclusive (lists : Lists) : Prop :=
  ∀ recipient mailbox, recipient ≠ everyone → Blocked lists recipient mailbox →
    lists.correspondents.get (recipient, mailbox) = none

section Exclusive

variable {p : Platform} {lists : Lists} {now : ℤ} {ids : RowIds}

variable {sender recipient : Bytes} {after : Lists}

/-- Fewer blocks and fewer correspondents stay exclusive. -/
theorem Exclusive.shrink (h : Exclusive lists)
    (hblocks : ∀ recipient mailbox, Blocked after recipient mailbox →
      Blocked lists recipient mailbox)
    (hrows : ∀ key, lists.correspondents.get key = none → after.correspondents.get key = none) :
    Exclusive after :=
  fun recipient mailbox hone hblocked =>
    hrows _ (h recipient mailbox hone (hblocks recipient mailbox hblocked))

theorem addSenderBlock_exclusive {o : SenderBlocklistOptions} {value : Bytes}
    {kind : SenderBlockKind} {done : (Bool × ℤ) × Lists} (hlists : Exclusive lists)
    (h : addSenderBlock p o now ids recipient kind value lists = .ok done) :
    Exclusive done.2 := by
  obtain ⟨owner, sender, -, -, hkeys, hrows⟩ := addSenderBlock_ok h
  intro r mailbox hone hblocked
  rw [hrows, clearContradicted_get]
  split_ifs with hcleared
  · rfl
  · rcases hkeys _ hblocked with hold | hnew
    · exact hlists r mailbox hone hold
    · -- the pair is the one that the new block names, and its row was just deleted
      obtain ⟨rfl, rfl, rfl⟩ := hnew
      exact absurd ⟨rfl, rfl, Or.inr rfl⟩ hcleared

theorem addManual_unblocked {o : CorrespondentOptions} {done : Bool × Lists}
    (h : addManual p o now ids sender recipient lists = .ok done) :
    ¬ Blocked done.2 (normalizeAddress p recipient) (normalizeAddress p sender) := by
  obtain ⟨-, row, -, hdone⟩ := addManual_ok h
  rw [hdone]
  intro hblocked
  obtain ⟨block, -, hkey, hkept⟩ := (blocked_deleteBlocks _).mp hblocked
  rw [← Bool.not_eq_true, selects_some_iff] at hkept
  exact hkept hkey

theorem addManual_exclusive {o : CorrespondentOptions} {done : Bool × Lists}
    (hlists : Exclusive lists) (h : addManual p o now ids sender recipient lists = .ok done) :
    Exclusive done.2 := by
  have hunblocked := addManual_unblocked h
  obtain ⟨-, row, -, hdone⟩ := addManual_ok h
  intro r mailbox hone hblocked
  have hother : (r, mailbox) ≠ (normalizeAddress p recipient, normalizeAddress p sender) := by
    intro heq
    obtain ⟨rfl, rfl⟩ := Prod.mk.inj heq
    exact hunblocked hblocked
  rw [hdone] at hblocked ⊢
  rw [Table.get_put, if_neg hother]
  exact hlists r mailbox hone (blocked_of_deleteBlocks hblocked)

theorem not_blocked_deleteExactSenderBlocks {senders : List Bytes} (h : sender ∈ senders) :
    ¬ Blocked (deleteExactSenderBlocks recipient senders lists) recipient sender := by
  intro hblocked
  obtain ⟨row, -, hkey, hkept⟩ := (blocked_deleteBlocks _).mp hblocked
  simp only [Row.key, Prod.mk.injEq] at hkey
  simp [hkey, h] at hkept

theorem learnAuthenticated_unblocked {o : LearningOptions Score} {localAddress : Bytes}
    {recipients : List Bytes}
    (h : learnAuthenticated p o now ids localAddress recipients lists = .ok after)
    (hon : o.learnAuthenticatedRecipients = true)
    (hrecipient : recipient ∈ normalizedAddressSet p recipients maxCorrespondentRecipients) :
    ¬ Blocked after (normalizeAddress p localAddress) recipient := by
  have hmem : recipient ∈ recipientList p recipients := (mem_sortedSet _ _).mpr hrecipient
  rcases learnAuthenticated_ok h with ⟨hoff | hnone, -⟩ | ⟨-, rfl⟩
  · simp [hon] at hoff
  · simp [hnone] at hmem
  · exact not_blocked_deleteExactSenderBlocks hmem

theorem learnAuthenticated_exclusive {o : LearningOptions Score} {localAddress : Bytes}
    {recipients : List Bytes} (hlists : Exclusive lists)
    (h : learnAuthenticated p o now ids localAddress recipients lists = .ok after) :
    Exclusive after := by
  rcases learnAuthenticated_ok h with ⟨-, rfl⟩ | ⟨-, rfl⟩
  · exact hlists
  · intro r mailbox hone hblocked
    refine learnRows_none (hlists r mailbox hone (blocked_of_deleteBlocks hblocked)) ?_
    by_contra hnamed
    simp only [sentTo, Bool.not_eq_false, Bool.and_eq_true, decide_eq_true_eq] at hnamed
    obtain ⟨rfl, hmem⟩ := hnamed
    exact not_blocked_deleteExactSenderBlocks hmem hblocked

theorem applied_exclusive (cfg : Configuration Score) (hlists : Exclusive lists)
    (operation : Operation) : Exclusive (applied p cfg now ids lists operation) := by
  unfold applied
  cases operation with
  | addSenderBlock recipient kind value =>
    dsimp only
    split
    · exact addSenderBlock_exclusive hlists ‹_›
    · exact hlists
  | deleteSenderBlocks kind value scope =>
    dsimp only
    split
    · rename_i done hdone
      obtain ⟨chosen, hdone⟩ := deleteSenderBlocks_ok hdone
      rw [hdone]
      exact hlists.shrink (fun _ _ => blocked_of_deleteBlocks) fun _ hnone => hnone
    · exact hlists
  | addManual sender recipient =>
    dsimp only
    split
    · exact addManual_exclusive hlists ‹_›
    · exact hlists
  | learnAuthenticated localAddress recipients =>
    dsimp only
    split
    · exact learnAuthenticated_exclusive hlists ‹_›
    · exact hlists
  | touchInbound correspondent recipients =>
    dsimp only
    split
    · rename_i after hafter
      obtain ⟨chosen, rfl⟩ := touchInbound_ok hafter
      refine hlists.shrink (fun _ _ hblocked => hblocked) fun key hnone => ?_
      simp [Table.get_updateWhere, hnone]
    · exact hlists
  | deleteCorrespondent sender scope =>
    dsimp only
    split
    · rename_i done hdone
      obtain ⟨chosen, hdone⟩ := deleteCorrespondent_ok hdone
      rw [hdone]
      refine hlists.shrink (fun _ _ hblocked => hblocked) fun key hnone => ?_
      simp [Lists.deleteCorrespondents, Table.get_edit, hnone]
    · exact hlists
  | cleanupCorrespondents =>
    refine hlists.shrink (fun _ _ hblocked => hblocked) fun key hnone => ?_
    exact enforceCapacity_none (by simp [Table.get_deleteWhere, hnone])
  | cleanupBlocklist =>
    dsimp only [cleanupBlocklist]
    split_ifs
    · refine hlists.shrink (fun _ _ hblocked => ?_) fun _ hnone => hnone
      exact blocked_of_deleteBlocks (blocked_of_deleteBlocks hblocked)
    · exact hlists

theorem run_exclusive (cfg : Configuration Score) (operations : List (ℤ × RowIds × Operation)) :
    Exclusive (run p cfg noLists operations) := by
  refine List.foldlRecOn (motive := Exclusive) operations _ ?_ ?_
  · intro recipient mailbox _ hblocked
    simp [Blocked, noLists] at hblocked
  · intro lists hlists next _
    exact applied_exclusive cfg hlists next.2.2

end Exclusive

/-- The operations of the allow side. -/
def allows : Operation → Bool
  | .addManual _ _ | .learnAuthenticated _ _ | .touchInbound _ _ | .deleteCorrespondent _ _
  | .cleanupCorrespondents => true
  | .addSenderBlock _ _ _ | .deleteSenderBlocks _ _ _ | .cleanupBlocklist => false

section Broad

variable {p : Platform} {lists : Lists} {now : ℤ} {ids : RowIds}

theorem normalizeAddress_ne_everyone (p : Platform) (value : Bytes) :
    normalizeAddress p value ≠ everyone := by
  intro heq
  obtain ⟨before, host, hparts⟩ := normalizeAddress_parts p value (by rw [heq]; simp [everyone])
  have hat : (0x40 : UInt8) ∈ everyone := by
    rw [← heq, hparts]
    simp
  exact absurd hat (by decide)

theorem not_selected_of_broad {row : Row} {recipient : Bytes} (h : broad row = true)
    (hrecipient : recipient ≠ everyone) :
    ¬ (row.recipient = recipient ∧ row.senderKind = .exactMailbox) := by
  rintro ⟨rfl, hkind⟩
  simp [broad, hkind, hrecipient] at h

/-- No operation of the allow side touches a block of a domain or for everyone. -/
theorem applied_broadRows (cfg : Configuration Score) (operation : Operation)
    (hallows : allows operation = true) :
    broadRows (applied p cfg now ids lists operation) = broadRows lists := by
  unfold applied
  cases operation with
  | addManual sender recipient =>
    dsimp only
    split
    · rename_i done hdone
      obtain ⟨-, row, -, hdone⟩ := addManual_ok hdone
      rw [hdone]
      refine broadRows_deleteBlocks fun block hbroad => ?_
      rw [← Bool.not_eq_true, selects_some_iff]
      intro hkey
      simp only [Row.key, Prod.mk.injEq] at hkey
      exact not_selected_of_broad hbroad (normalizeAddress_ne_everyone p recipient)
        ⟨hkey.1, hkey.2.1⟩
    · rfl
  | learnAuthenticated localAddress recipients =>
    dsimp only
    split
    · rename_i after hafter
      rcases learnAuthenticated_ok hafter with ⟨-, rfl⟩ | ⟨-, rfl⟩
      · rfl
      · refine broadRows_deleteBlocks fun block hbroad => ?_
        have hother := not_selected_of_broad hbroad (normalizeAddress_ne_everyone p localAddress)
        by_contra hchosen
        simp only [Bool.not_eq_false, Bool.and_eq_true, decide_eq_true_eq] at hchosen
        exact hother hchosen.1
    · rfl
  | touchInbound correspondent recipients =>
    dsimp only
    split
    · rename_i after hafter
      obtain ⟨chosen, rfl⟩ := touchInbound_ok hafter
      rfl
    · rfl
  | deleteCorrespondent sender scope =>
    dsimp only
    split
    · rename_i done hdone
      obtain ⟨chosen, hdone⟩ := deleteCorrespondent_ok hdone
      rw [hdone]
      rfl
    · rfl
  | cleanupCorrespondents => rfl
  | addSenderBlock recipient kind value | deleteSenderBlocks kind value scope | cleanupBlocklist =>
    simp [allows] at hallows

end Broad

/-- What holds of the tables, and of each operation on them. -/
structure Separated (p : Platform) (cfg : Configuration Score) (lists : Lists) : Prop where
  exclusive : Exclusive lists
  /-- A block of a mailbox leaves no correspondent row that its scope covers. -/
  blocks : ∀ now ids recipient value done,
    addSenderBlock p cfg.blocklist.toSenderBlocklistOptions now ids recipient .exactMailbox value
      lists = .ok done →
    ∀ localAddress, trimSpace recipient = everyone ∨ localAddress = normalizeAddress p recipient →
      done.2.correspondents.get (localAddress, normalizeAddress p value) = none
  manual : ∀ now ids sender recipient done,
    addManual p cfg.correspondents.toCorrespondentOptions now ids sender recipient lists =
      .ok done →
    ¬ Blocked done.2 (normalizeAddress p recipient) (normalizeAddress p sender)
  /-- Authenticated mail unblocks the first hundred distinct recipients. -/
  learned : ∀ now ids localAddress recipients after,
    learnAuthenticated p cfg.correspondents now ids localAddress recipients lists = .ok after →
    cfg.correspondents.learnAuthenticatedRecipients = true →
    ∀ recipient ∈ normalizedAddressSet p recipients maxCorrespondentRecipients,
      ¬ Blocked after (normalizeAddress p localAddress) recipient
  /-- These are all recipients unless there are more than a hundred. -/
  all : ∀ recipients : List Bytes, recipients.length ≤ maxCorrespondentRecipients →
    ∀ value ∈ recipients, normalizeAddress p value ≠ [] →
      normalizeAddress p value ∈ normalizedAddressSet p recipients maxCorrespondentRecipients
  broad : ∀ now ids operation, allows operation = true →
    broadRows (applied p cfg now ids lists operation) = broadRows lists

/-- In every run from empty tables the two lists exclude each other, a new entry on one
side removes what contradicts it on the other, and blocks of domains and for everyone are
left to the block side. -/
theorem lists_exclusive (p : Platform) (cfg : Configuration Score)
    (operations : List (ℤ × RowIds × Operation)) :
    Separated p cfg (run p cfg noLists operations) where
  exclusive := run_exclusive cfg operations
  blocks now ids recipient value done h localAddress hscope := by
    obtain ⟨owner, sender, howner, hsender, -, hrows⟩ := addSenderBlock_ok h
    have hmailbox : sender = normalizeAddress p value := by
      simp only [normalizeBlockSender] at hsender
      split_ifs at hsender
      exact (Except.ok.inj hsender).symm
    have hcovers : owner = everyone ∨ localAddress = owner := by
      unfold normalizeBlockRecipient at howner
      by_cases heveryone : trimSpace recipient = everyone
      · rw [if_pos heveryone] at howner
        exact Or.inl (Except.ok.inj howner).symm
      · split_ifs at howner
        exact Or.inr ((hscope.resolve_left heveryone).trans (Except.ok.inj howner))
    rw [hrows, clearContradicted_get, if_pos ⟨rfl, hmailbox.symm, hcovers⟩]
  manual now ids sender recipient done h := addManual_unblocked h
  learned now ids localAddress recipients after h hon recipient hrecipient :=
    learnAuthenticated_unblocked h hon hrecipient
  all recipients hlength value hvalue hvalid := by
    refine (mem_collectAddresses p _ recipients [] _ List.nodup_nil
      (addresses_room p hlength)).mpr ?_
    exact Or.inr ⟨hvalid, value, hvalue, rfl⟩
  broad now ids operation hallows := applied_broadRows cfg operation hallows

def learningOptions : LearningOptions Unit where
  useAllowlist := true
  staleAfter := 0
  legitimateSenderMinMessages := 1
  learnAuthenticatedRecipients := true
  learnLegitimateSenders := false
  scope := .perSender
  maxEntries := 1000
  legitimateSenderMinScore := ()
  legitimateSenderRequireAuthentication := true

/-- Addresses with two letters, different for small numbers. -/
def numbered (n : ℕ) : Bytes :=
  UInt8.ofNat (0x61 + n / 26) :: UInt8.ofNat (0x61 + n % 26) :: ascii "@b"

/-- A message to more than a hundred recipients leaves the block of the last one. -/
theorem block_survives_learning :
    let cfg : Configuration Unit := ⟨learningOptions, ⟨⟨1000000⟩, 1000⟩⟩
    let owner := ascii "me@b"
    let recipients := (List.range 101).map numbered
    let lists := run bareAddresses cfg noLists
      [(0, countingIds, .addSenderBlock owner .exactMailbox (numbered 100))]
    normalizeAddress bareAddresses owner = owner ∧
      numbered 100 ∈ recipients.map (normalizeAddress bareAddresses) ∧
      (learnAuthenticated bareAddresses learningOptions 0 countingIds owner recipients
        lists).toOption.any (fun after => decide (Blocked after owner (numbered 100))) = true := by
  decide +kernel

end MilterGuard.ListExclusion
