import MilterGuard.CommandExecution
import MilterGuard.RecipientViews

/-!
Users who are no administrators are isolated from each other. A user's command calls
the stores for the user's address only, changes nothing but the user's rows, and its
reply depends on these rows only. So the replies to one user's commands are the same
whatever other users send in between.
-/
namespace MilterGuard.CommandIsolation

open ByteStrings MailAddresses AdminCommands RowListings SenderLists RejectionHistory
open BlocklistTable hiding addSenderBlock deleteSenderBlocks
open CommandLines CommandReplies CommandExecution RecipientViews Procedures
open IPReputation (Addresses)

variable {A D : Type} (r : Bytes)

/-- A call for one recipient, never for all of them and never for the data that have no
recipient. -/
def Within : StoreCall A → Prop
  | .listRejections scope | .rejectionByID _ scope | .listCorrespondents scope
  | .deleteCorrespondent _ scope | .listSenderBlocks scope | .deleteSenderBlocks _ _ scope =>
    scope = ⟨false, r⟩
  | .addManual _ recipient | .addSenderBlock recipient _ _ => recipient = r
  | .activitySummary | .listActiveBlocks | .addManualBlock _ | .deleteAddress _ => False

/-- Nothing but the recipient's rows has changed. -/
structure Untouched (s t : Stores D) : Prop where
  lists : OthersKept r s.lists t.lists
  history : t.history = s.history
  reputations : t.reputations = s.reputations
  activity : t.activity = s.activity

/-- The recipient has the same rows up to row ids, and the same rejections. -/
structure SameRows (s s' : Stores D) : Prop where
  lists : SameLists r s.lists s'.lists
  rejections : SameRejections r s.history s'.history

/-- The same rows, and the ids of the recipient's blocks are in the same order. -/
structure Agree (s s' : Stores D) : Prop where
  lists : AlignedLists r s.lists s'.lists
  rejections : SameRejections r s.history s'.history

theorem Untouched.refl (r : Bytes) (s : Stores D) : Untouched r s s :=
  ⟨.refl r s.lists, rfl, rfl, rfl⟩

theorem Agree.same {r : Bytes} {s s' : Stores D} (h : Agree r s s') : SameRows r s s' :=
  ⟨h.lists.same, h.rejections⟩

/-- Stores that hold the same rows of the recipient, ids included, agree. -/
theorem Agree.of_identical {r : Bytes} {s s' : Stores D}
    (hblocks : ∀ row : Row, row.recipient = r →
      (row ∈ s.lists.blocklist.rows ↔ row ∈ s'.lists.blocklist.rows))
    (hcorrespondents : ∀ sender,
      s.lists.correspondents.get (r, sender) = s'.lists.correspondents.get (r, sender))
    (hrejections : SameRejections r s.history s'.history) : Agree r s s' := by
  have hown : ∀ row, row ∈ ownBlocks r s.lists ↔ row ∈ ownBlocks r s'.lists := by
    intro row
    simp only [ownBlocks, List.mem_filter, decide_eq_true_eq]
    constructor
    · rintro ⟨hrow, howner⟩
      exact ⟨(hblocks row howner).mp hrow, howner⟩
    · rintro ⟨hrow, howner⟩
      exact ⟨(hblocks row howner).mpr hrow, howner⟩
  refine ⟨⟨⟨?_, ?_⟩, ?_⟩, hrejections⟩
  · intro content
    simp [hown]
  · intro a ha b hb a' ha' b' hb' hkey hkey'
    have hkeys := ownBlocks_keys_nodup r s.lists
    obtain rfl := List.inj_on_of_nodup_map hkeys ha ((hown a').mpr ha') hkey
    obtain rfl := List.inj_on_of_nodup_map hkeys hb ((hown b').mpr hb') hkey'
    exact Iff.rfl
  · intro sender
    rw [hcorrespondents sender]

/-- What is to be shown of a command in two runs, which may give new rows different
ids. -/
structure Isolated (growing : Prop) (m m' : Run A D (Except String Deferred)) : Prop where
  calls : ∀ s, ∀ call ∈ (m s).events, Within r call
  kept : ∀ s, Untouched r s (m s).state
  reply : ∀ s s', Agree r s s' → (m s).value = (m' s').value
  same : ∀ s s', Agree r s s' → SameRows r (m s).state (m' s').state
  aligned : growing → ∀ s s', Agree r s s' → Agree r (m s).state (m' s').state

variable {α : Type} {r : Bytes} {growing : Prop}

/-- Two runs are compared once. -/
private theorem Isolated.of_both {m m' : Run A D (Except String Deferred)}
    (hcalls : ∀ s, ∀ call ∈ (m s).events, Within r call) (hkept : ∀ s, Untouched r s (m s).state)
    (h : ∀ s s', Agree r s s' → (m s).value = (m' s').value ∧
      SameRows r (m s).state (m' s').state ∧ (growing → Agree r (m s).state (m' s').state)) :
    Isolated r growing m m' :=
  ⟨hcalls, hkept, fun s s' hagree => (h s s' hagree).1, fun s s' hagree => (h s s' hagree).2.1,
    fun hgrowing s s' hagree => (h s s' hagree).2.2 hgrowing⟩

theorem Isolated.pure (answer : Except String Deferred) :
    Isolated r growing (pure answer : Run A D _) (pure answer) where
  calls s call hcall := by cases hcall
  kept := Untouched.refl r
  reply _ _ _ := rfl
  same _ _ h := h.same
  aligned _ _ _ h := h

private theorem replying_run (m : Run A D (Except String α)) (reply : α → Deferred)
    (s : Stores D) :
    replying m reply s = ⟨(m s).value.map reply, (m s).state, (m s).events⟩ := by
  simp [replying]

private theorem query_run (event : StoreCall A) (f : Stores D → Except String α) (s : Stores D) :
    query event f s = ⟨f s, s, [event]⟩ := by
  unfold query call
  dsimp only
  cases f s with
  | error text => rfl
  | ok answer => rfl

private theorem changeLists_run (event : StoreCall A) (f : Lists → Except String (α × Lists))
    (s : Stores D) :
    changeLists event f s = ⟨(f s.lists).map Prod.fst,
      { s with lists := ((f s.lists).map Prod.snd).toOption.getD s.lists }, [event]⟩ := by
  unfold changeLists call
  dsimp only
  cases f s.lists with
  | error text => rfl
  | ok done => rfl

/-- A query whose reply is the same for stores that agree. -/
theorem Isolated.of_query {event : StoreCall A} (hevent : Within r event)
    {f : Stores D → Except String α} {reply : α → Deferred}
    (h : ∀ s s', Agree r s s' → (f s).map reply = (f s').map reply) :
    Isolated r growing (replying (query event f) reply) (replying (query event f) reply) := by
  refine .of_both (fun s call hcall => ?_) (fun s => ?_) fun s s' hagree => ?_
  · rw [replying_run, query_run] at hcall
    obtain rfl := List.mem_singleton.mp hcall
    exact hevent
  · rw [replying_run, query_run]
    exact .refl r s
  · rw [replying_run, replying_run, query_run, query_run]
    exact ⟨h s s' hagree, hagree.same, fun _ => hagree⟩

/-- A change that keeps the rows of others and agrees on those of the recipient. -/
theorem Isolated.of_change {event : StoreCall A} (hevent : Within r event)
    {f f' : Lists → Except String (α × Lists)} {reply : α → Deferred}
    (hkept : ∀ lists answer left, f lists = .ok (answer, left) → OthersKept r lists left)
    (hagrees : ∀ lists lists', AlignedLists r lists lists' →
      Agrees r growing (f lists) (f' lists')) :
    Isolated r growing (replying (changeLists event f : Run A D _) reply)
      (replying (changeLists event f') reply) := by
  refine .of_both (fun s call hcall => ?_) (fun s => ?_) fun s s' hagree => ?_
  · rw [replying_run, changeLists_run] at hcall
    obtain rfl := List.mem_singleton.mp hcall
    exact hevent
  · rw [replying_run, changeLists_run]
    cases hdone : f s.lists with
    | error text => exact .refl r s
    | ok done => exact ⟨hkept s.lists done.1 done.2 hdone, rfl, rfl, rfl⟩
  · rw [replying_run, replying_run, changeLists_run, changeLists_run]
    have h := hagrees s.lists s'.lists hagree.lists
    generalize f s.lists = done, f' s'.lists = done' at h ⊢
    cases h with
    | changed same aligned =>
      exact ⟨rfl, ⟨same, hagree.rejections⟩, fun hgrowing =>
        ⟨aligned hgrowing, hagree.rejections⟩⟩
    | failed text => exact ⟨rfl, hagree.same, fun _ => hagree⟩

/-! ### Replies -/

private theorem map_of_view {β γ : Type} {view : α → γ} {reply : α → β}
    (hreply : ∀ a b, view a = view b → reply a = reply b) {x y : Except String α}
    (h : x.map view = y.map view) : x.map reply = y.map reply := by
  cases x with
  | error text =>
    cases y with
    | error other => exact congrArg Except.error (Except.error.inj h)
    | ok b => cases h
  | ok a =>
    cases y with
    | error other => cases h
    | ok b => exact congrArg Except.ok (hreply a b (Except.ok.inj h))

private theorem arrange_map {β : Type} (actor : Operator) (f : α → β) (entries : List α) :
    (actor.arrange entries).map f = actor.arrange (entries.map f) := by
  unfold Operator.arrange
  split
  · exact List.map_reverse
  · rfl

private theorem nil_iff_of_contents {γ : Type} {content : α → γ} {entries entries' : List α}
    (h : entries.map content = entries'.map content) : entries = [] ↔ entries' = [] := by
  rw [← List.map_eq_nil_iff (f := content), h, List.map_eq_nil_iff]

theorem formatSenderBlocklist_congr {entries entries' : List Row}
    (h : entries.map blockContent = entries'.map blockContent) (truncated : Bool) :
    formatSenderBlocklist entries truncated = formatSenderBlocklist entries' truncated := by
  have hrecord : ∀ a b : Row, blockContent a = blockContent b → blockRecord a = blockRecord b := by
    intro a b hcontent
    simp only [blockContent, Row.key, Prod.mk.injEq] at hcontent
    obtain ⟨⟨hrecipient, hkind, hvalue⟩, hexpires⟩ := hcontent
    unfold blockRecord
    rw [hrecipient, hkind, hvalue, hexpires]
  unfold formatSenderBlocklist
  rw [map_eq_of_content hrecord h, if_congr (nil_iff_of_contents h) rfl rfl]

theorem formatAllowlist_congr {entries entries' : List ((Bytes × Bytes) × Correspondent)}
    (h : entries.map entryContent = entries'.map entryContent) (named truncated : Bool) :
    formatAllowlist entries named truncated = formatAllowlist entries' named truncated := by
  have hrecord : ∀ a b, entryContent a = entryContent b →
      correspondentRecord named a = correspondentRecord named b := by
    intro a b hcontent
    simp only [entryContent, correspondentContent, Prod.mk.injEq] at hcontent
    obtain ⟨hkey, -, -, htype, -⟩ := hcontent
    unfold correspondentRecord
    rw [hkey, htype]
  have hlength : entries.length = entries'.length := by
    simpa using congrArg List.length h
  have hshown : (entries.take maxListRows).map entryContent =
      (entries'.take maxListRows).map entryContent := by
    rw [List.map_take, List.map_take, h]
  simp only [formatAllowlist, limitRows, map_eq_of_content hrecord hshown, hlength,
    if_congr (nil_iff_of_contents h) rfl rfl]

/-! ### Commands -/

/-- Two runs of a command at the same times. The ids of new rows may differ. -/
structure SameClocks (moment moment' : Moment) : Prop where
  now : moment'.now = moment.now
  storeNow : moment'.storeNow = moment.storeNow

/-- The ids of new blocks grow in both runs. -/
def GrowingIds (moment moment' : Moment) : Prop :=
  moment.blockIds.Growing ∧ moment'.blockIds.Growing

section Commands

variable {setup : Setup A D} {moment moment' : Moment} {actor : Operator}

section

variable (hclocks : SameClocks moment moment') (huser : actor.administrator = false)
  (howner : actor.defaultRecipient = r) (hr : Mailbox setup.platform r)

include hclocks huser howner hr

omit huser howner in
private theorem executeAllowlist_isolated (verb : Verb) (sender : Bytes) :
    Isolated r growing (executeAllowlist setup moment verb sender r)
      (executeAllowlist setup moment' verb sender r) := by
  unfold executeAllowlist
  cases verb with
  | add =>
    apply Isolated.of_change
    · exact rfl
    · intro lists created left hdone
      exact addManual_kept hr _ _ _ sender hdone
    · intro lists lists' hagree
      rw [hclocks.storeNow]
      exact addManual_agrees hr _ _ _ _ sender hagree
  | delete =>
    rw [hr.scope]
    apply Isolated.of_change
    · exact rfl
    · intro lists removed left hdone
      exact deleteCorrespondent_kept hr _ sender hdone
    · intro lists lists' hagree
      exact deleteCorrespondent_agrees hr _ sender hagree

omit huser howner in
private theorem executeBlocklist_isolated (command : Command) (howner : command.recipient = r)
    (hnamed : command.allRecipients = false) :
    Isolated r (GrowingIds moment moment') (executeBlocklist setup moment command)
      (executeBlocklist setup moment' command) := by
  unfold executeBlocklist
  cases setup.senderBlocklist with
  | none => exact .pure _
  | some options =>
    cases hverb : command.verb with
    | add =>
      rw [howner]
      apply Isolated.of_change
      · exact rfl
      · intro lists answer left hdone
        exact addSenderBlock_kept hr _ _ _ _ _ hdone
      · intro lists lists' hagree
        rw [hclocks.storeNow]
        exact addSenderBlock_agrees hr _ _ _ _ _ _ id hagree
    | delete =>
      rw [howner, hnamed, hr.scope]
      apply Isolated.of_change
      · exact rfl
      · intro lists removed left hdone
        exact deleteSenderBlocks_kept hr _ _ _ hdone
      · intro lists lists' hagree
        exact deleteSenderBlocks_agrees hr _ _ _ hagree

private theorem executeRejection_isolated (id : ℕ) :
    Isolated r growing (executeRejection setup moment actor id)
      (executeRejection setup moment' actor id) := by
  unfold executeRejection
  rw [huser, if_neg Bool.false_ne_true, howner, hr.normalizeRecipient_eq, hclocks.storeNow]
  apply Isolated.of_query
  · exact rfl
  intro s s' hagree
  rw [rejectionByID_eq hr _ _ id hagree.rejections]

/-- A command about the user's own address is isolated. -/
theorem execute_isolated (request : Request A) (hown : request.kind.Own r) :
    Isolated r (GrowingIds moment moment') (execute setup moment actor request)
      (execute setup moment' actor request) := by
  obtain ⟨kind, canonical⟩ := request
  cases kind with
  | parseError text | help => exact .pure _
  | rejection id => exact executeRejection_isolated hclocks huser howner hr id
  | rejections recipient period =>
    obtain rfl : recipient = r := hown
    unfold execute
    dsimp only
    rw [hr.scope, hclocks.storeNow, hclocks.now]
    apply Isolated.of_query
    · exact rfl
    intro s s' hagree
    rw [listRejections_eq hr _ _ _ _ hagree.rejections]
  | allowlistList recipient period =>
    obtain rfl : recipient = r := hown
    unfold execute
    dsimp only
    rw [hr.scope, hclocks.storeNow, hclocks.now]
    apply Isolated.of_query
    · exact rfl
    intro s s' hagree
    refine map_of_view ?_ (listCorrespondents_view hr _ _ _ _ hagree.lists)
    intro page page' hview
    obtain ⟨hentries, htruncated⟩ := Prod.mk.inj hview
    rw [htruncated]
    apply congrArg Deferred.text
    apply formatAllowlist_congr
    rw [arrange_map, arrange_map, hentries]
  | blocklistList recipient =>
    obtain rfl : recipient = r := hown
    unfold execute
    dsimp only
    cases setup.senderBlocklist with
    | none => exact .pure _
    | some options =>
      rw [hr.scope, hclocks.storeNow]
      apply Isolated.of_query
      · exact rfl
      intro s s' hagree
      refine map_of_view ?_ (listSenderBlocks_view hr _ _ _ hagree.lists)
      intro page page' hview
      obtain ⟨hentries, htruncated⟩ := Prod.mk.inj hview
      rw [htruncated]
      apply congrArg Deferred.text
      apply formatSenderBlocklist_congr
      rw [arrange_map, arrange_map, hentries]
  | allowlist verb sender recipient =>
    obtain rfl : recipient = r := hown
    exact executeAllowlist_isolated hclocks hr verb sender
  | blocklist command => exact executeBlocklist_isolated hclocks hr command hown.1 hown.2
  | activity period | ipList lookup period | ipAdd ip | ipDelete ip => exact hown.elim

/-- Every command line of a user is isolated. -/
theorem perform_isolated (line : Bytes) :
    Isolated r (GrowingIds moment moment') (perform setup moment actor line)
      (perform setup moment' actor line) := by
  unfold perform
  cases hparse : parseLine setup.platform setup.net line actor.toActor with
  | error text => exact .pure _
  | ok request =>
    unfold parseLine at hparse
    rw [huser, howner, hr.normalizeRecipient_eq] at hparse
    exact execute_isolated hclocks huser howner hr request
      (parse_own setup.platform setup.net _ r _ request hparse)

end

end Commands

variable (setup : Setup A D)

/-- A user's command line calls the stores for the user's address only and changes only
the rows of this address. For stores that agree on the user's rows the replies are
equal, and the stores left have the same rows of the user up to the ids of new rows;
they agree again while new ids grow. -/
theorem user_commands_isolated (actor : Operator) (huser : actor.administrator = false)
    (hr : Mailbox setup.platform actor.defaultRecipient) (line : Bytes) (moment moment' : Moment)
    (hclocks : SameClocks moment moment') :
    (∀ s, (∀ call ∈ (perform setup moment actor line s).events,
        Within actor.defaultRecipient call) ∧
      Untouched actor.defaultRecipient s (perform setup moment actor line s).state) ∧
    ∀ s s', Agree actor.defaultRecipient s s' →
      (perform setup moment actor line s).value = (perform setup moment' actor line s').value ∧
      SameRows actor.defaultRecipient (perform setup moment actor line s).state
        (perform setup moment' actor line s').state ∧
      (GrowingIds moment moment' →
        Agree actor.defaultRecipient (perform setup moment actor line s).state
          (perform setup moment' actor line s').state) := by
  have h := perform_isolated hclocks huser rfl hr line
  refine ⟨?_, ?_⟩
  · intro s
    exact ⟨h.calls s, h.kept s⟩
  · intro s s' hagree
    exact ⟨h.reply s s' hagree, h.same s s' hagree, fun hgrowing => h.aligned hgrowing s s' hagree⟩

def noAddresses : Addresses Unit := ⟨fun _ => true, id, fun _ => [], fun _ => none⟩

def smallSetup : Setup Unit Unit where
  platform := bareAddresses
  net := noAddresses
  correspondents := ⟨true, 0, 3⟩
  rejections := ⟨daySpan⟩
  ipReputation := ⟨0, 0, 0, 0, false, 0, 0⟩
  senderBlocklist := some ⟨daySpan⟩
  activityReport := none
  activityExpiry := 0
  hostname _ := []

def storesWith (blocklist : Table) (primary : (blocklist.rows.map Row.id).Nodup) : Stores Unit :=
  ⟨⟨blocklist, primary, .empty⟩, ⟨.empty, [], List.nodup_nil⟩, .empty, ()⟩

/-- The rows of other recipients do not show in the reply to a user's command. -/
theorem user_commands_isolated_block :
    let line := ascii "blocklist add a@x.com"
    let alice : Operator := ⟨⟨ascii "alice@y.com", false, false⟩, false⟩
    let moment : Moment := ⟨0, 0, countingIds, countingIds⟩
    let stores := storesWith ⟨[], List.nodup_nil⟩ List.nodup_nil
    let stores' := storesWith sharedPattern (by decide)
    (perform smallSetup moment alice line stores).value =
        .ok (.text (ascii "sender blocklist entry added; expires 1970-01-02 00:00:00 UTC.\n")) ∧
      (perform smallSetup moment alice line stores).value =
        (perform smallSetup moment alice line stores').value := by
  refine ⟨by decide +kernel, ?_⟩
  refine ((user_commands_isolated smallSetup _ rfl ⟨by decide +kernel, by decide⟩ _ _ _
    ⟨rfl, rfl⟩).2 _ _ ?_).1
  apply Agree.of_identical
  · intro row howner
    constructor
    · intro hrow
      cases hrow
    · intro hrow
      have hothers : ∀ row ∈ sharedPattern.rows, row.recipient ≠ ascii "alice@y.com" := by decide
      exact absurd howner (hothers row hrow)
  · intro sender
    rfl
  · intro joined
    rfl

/-! ### Runs of several users -/

/-- Another user's changes keep stores in agreement. -/
theorem Agree.of_untouched {other : Bytes} {s t s' : Stores D} (hother : other ≠ r)
    (h : Untouched other s t) (hagree : Agree r s s') : Agree r t s' := by
  have hown : ∀ lists : Lists, ownBlocks r lists =
      (lists.blocklist.rows.filter fun row => row.recipient ≠ other).filter
        fun row => row.recipient = r := by
    intro lists
    rw [List.filter_filter]
    apply List.filter_congr
    intro row _
    by_cases howner : row.recipient = r
    · simp [howner, Ne.symm hother]
    · simp [howner]
  refine ⟨⟨?_, ?_⟩, ?_⟩
  · rw [hown t.lists, h.lists.blocks, ← hown s.lists]
    exact hagree.lists.blocks
  · intro sender
    rw [h.lists.correspondents (r, sender) (Ne.symm hother)]
    exact hagree.lists.correspondents sender
  · rw [h.history]
    exact hagree.rejections

/-- A command line with the user who sends it and the moment it is run. -/
structure Issued where
  moment : Moment
  actor : Operator
  line : Bytes

/-- Runs the commands in order and gives each reply with the address it goes to. -/
def performAll (setup : Setup A D) :
    List Issued → Run A D (List (Bytes × Except String Deferred))
  | [] => pure []
  | issued :: rest => do
    let reply ← perform setup issued.moment issued.actor issued.line
    let replies ← performAll setup rest
    return (issued.actor.defaultRecipient, reply) :: replies

/-- A command of a user with a mailbox, in a database whose new ids grow. -/
structure UserCommand extends Issued where
  user : actor.administrator = false
  mailbox : Mailbox setup.platform actor.defaultRecipient
  growing : moment.blockIds.Growing

theorem replies_agree (commands : List (UserCommand setup)) (s s' : Stores D)
    (hagree : Agree r s s') :
    ((performAll setup (commands.map (·.toIssued)) s).value.filter fun reply => reply.1 = r) =
      (performAll setup ((commands.filter fun command =>
        command.actor.defaultRecipient = r).map (·.toIssued)) s').value := by
  -- by induction on the commands, keeping the two stores in agreement
  induction commands generalizing s s' with
  | nil => rfl
  | cons command rest ih =>
    have hisolated : Isolated command.actor.defaultRecipient
        (GrowingIds command.moment command.moment) _ _ :=
      perform_isolated ⟨rfl, rfl⟩ command.user rfl command.mailbox command.line
    by_cases howner : command.actor.defaultRecipient = r
    · subst howner
      have hnext := hisolated.aligned ⟨command.growing, command.growing⟩ s s' hagree
      simp only [List.map_cons, performAll, bind_run, pure_run, List.filter_cons, decide_true,
        if_true, hisolated.reply s s' hagree]
      rw [ih _ _ hnext]
    · have hnext := hagree.of_untouched howner (hisolated.kept s)
      simp only [List.map_cons, performAll, bind_run, pure_run, List.filter_cons, howner]
      exact ih _ _ hnext

end MilterGuard.CommandIsolation
