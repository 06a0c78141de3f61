import MilterGuard.ExtractionStages
import MilterGuard.Monitors

/-!
The rules of the extraction stages. What the stages of any extraction do is accepted
by a small monitor, which says when work may start, when fallback may begin and which
ledger is handed out; the executions of each call are counted beside it.
-/
namespace MilterGuard.StageRules

open Procedures Monitors ExtractionStages

/-- What the monitor knows: the two flags of the budget, and a failure that has to end
the extraction before anything else happens. -/
structure Seen where
  fallback : Bool
  terminal : Bool
  pending : Option Code
  deriving DecidableEq

def view (b : Budget) : Seen := ⟨b.fallback, b.terminal.isSome, none⟩

variable (policy : Policy)

def monitor : Monitor Seen Event
  | s, .executed _ => if s.terminal = false ∧ s.pending = none then some s else none
  | s, .recovered code =>
    if s.pending = none then
      some { s with pending := if policy.ends code then some code else none }
    else none
  | s, .entered cause contextDone =>
    if s = ⟨false, false, none⟩ ∧ cause ≠ some .cancelled ∧ contextDone = false then
      some { s with fallback := true }
    else none
  | s, .ended code =>
    if s.pending = none ∨ s.pending = some code then some ⟨s.fallback, true, none⟩ else none
  | s, .handed primary => if s.pending = none ∧ primary = !s.fallback then some s else none

theorem view_eq_of_sameStage {s t : Budget} (h : SameStage s t) : view t = view s := by
  simp only [view, h.fallback, h.terminal]

/-- Executions are numbered by the calls between the two budgets, at most two for each. -/
structure Counted (s : Budget) (es : List Event) (t : Budget) : Prop where
  calls_le : s.calls ≤ t.calls
  twice : ∀ call, es.count (.executed call) ≤ 2
  range : ∀ call, .executed call ∈ es → s.calls ≤ call ∧ call < t.calls

/-- Inside a call, which is executed at most `k` times here. -/
structure Inside (own k : ℕ) (s : Budget) (es : List Event) (t : Budget) : Prop where
  calls_le : s.calls ≤ t.calls
  own_lt : own < s.calls
  own_count : es.count (.executed own) ≤ k
  twice : ∀ call, call ≠ own → es.count (.executed call) ≤ 2
  range : ∀ call, call ≠ own → .executed call ∈ es → s.calls ≤ call ∧ call < t.calls

variable {own : ℕ} {fs es : List Event}

theorem Counted.silent {s t : Budget} (hcalls : t.calls = s.calls)
    (h : ∀ call, .executed call ∉ es) : Counted s es t where
  calls_le := Nat.le_of_eq hcalls.symm
  twice call := by
    rw [List.count_eq_zero_of_not_mem (h call)]
    exact Nat.zero_le 2
  range call hmem := absurd hmem (h call)

/-- No call is executed on both sides of a budget. -/
private theorem count_of_ranges {s t u : Budget} {call : ℕ}
    (hes : .executed call ∈ es → s.calls ≤ call ∧ call < t.calls)
    (hfs : .executed call ∈ fs → t.calls ≤ call ∧ call < u.calls)
    (hestwice : es.count (.executed call) ≤ 2) (hfstwice : fs.count (.executed call) ≤ 2) :
    (es ++ fs).count (.executed call) ≤ 2 := by
  rw [List.count_append]
  by_cases hmem : Event.executed call ∈ es
  · have hnot : Event.executed call ∉ fs := by
      intro hlater
      have hbefore := (hes hmem).2
      have hafter := (hfs hlater).1
      omega
    rw [List.count_eq_zero_of_not_mem hnot]
    exact hestwice
  · rw [List.count_eq_zero_of_not_mem hmem, Nat.zero_add]
    exact hfstwice

private theorem range_append {s t u : Budget} {call : ℕ} (hst : s.calls ≤ t.calls)
    (htu : t.calls ≤ u.calls) (hes : .executed call ∈ es → s.calls ≤ call ∧ call < t.calls)
    (hfs : .executed call ∈ fs → t.calls ≤ call ∧ call < u.calls)
    (hmem : .executed call ∈ es ++ fs) : s.calls ≤ call ∧ call < u.calls := by
  rcases List.mem_append.mp hmem with hmem | hmem
  · obtain ⟨hlow, hhigh⟩ := hes hmem
    exact ⟨hlow, by omega⟩
  · obtain ⟨hlow, hhigh⟩ := hfs hmem
    exact ⟨by omega, hhigh⟩

theorem counted_chains : Chains Counted where
  refl s := Counted.silent rfl (by simp)
  trans h h' :=
    { calls_le := Nat.le_trans h.calls_le h'.calls_le
      twice := fun call =>
        count_of_ranges (h.range call) (h'.range call) (h.twice call) (h'.twice call)
      range := fun call =>
        range_append h.calls_le h'.calls_le (h.range call) (h'.range call) }

theorem Inside.trans {k l : ℕ} {s t u : Budget} (h : Inside own k s es t)
    (h' : Inside own l t fs u) : Inside own (k + l) s (es ++ fs) u where
  calls_le := Nat.le_trans h.calls_le h'.calls_le
  own_lt := h.own_lt
  own_count := by
    rw [List.count_append]
    exact Nat.add_le_add h.own_count h'.own_count
  twice call hne :=
    count_of_ranges (h.range call hne) (h'.range call hne) (h.twice call hne) (h'.twice call hne)
  range call hne :=
    range_append h.calls_le h'.calls_le (h.range call hne) (h'.range call hne)

theorem Counted.inside {s t : Budget} (h : Counted s es t) (hown : own < s.calls) :
    Inside own 0 s es t where
  calls_le := h.calls_le
  own_lt := hown
  own_count := by
    have hnot : Event.executed own ∉ es := by
      intro hmem
      have hlow := (h.range own hmem).1
      omega
    exact Nat.le_of_eq (List.count_eq_zero_of_not_mem hnot)
  twice call _ := h.twice call
  range call _ := h.range call

theorem Inside.executed {own : ℕ} {s : Budget} (hown : own < s.calls) :
    Inside own 1 s [.executed own] s where
  calls_le := Nat.le_refl _
  own_lt := hown
  own_count := by simp
  twice call hne := by
    have hnot : Event.executed call ∉ [Event.executed own] := by simpa using hne
    rw [List.count_eq_zero_of_not_mem hnot]
    exact Nat.zero_le 2
  range call hne hmem := by
    have hown : call = own := by simpa using hmem
    exact absurd hown hne

/-- A call with its number. -/
theorem Inside.counted {s start t : Budget} (h : Inside own 2 start es t) (hown : own = s.calls)
    (hstart : start.calls = s.calls + 1) :
    Counted s es t where
  calls_le := by
    have hle := h.calls_le
    omega
  twice call := by
    by_cases heq : call = own
    · subst heq
      exact h.own_count
    · exact h.twice call heq
  range call hmem := by
    have hle := h.calls_le
    by_cases heq : call = own
    · omega
    · have hrange := h.range call heq hmem
      omega

/-- What a part of an extraction does between two budgets. -/
structure Staged (s : Budget) (es : List Event) (t : Budget) : Prop where
  tracks : Tracks (monitor policy) view s es t
  counted : Counted s es t

/-- The same for a part of a call that executes it at most once. -/
structure StagedInside (own : ℕ) (s : Budget) (es : List Event) (t : Budget) : Prop where
  tracks : Tracks (monitor policy) view s es t
  inside : Inside own 1 s es t

theorem staged_chains : Chains (Staged policy) where
  refl s := ⟨(tracks_chains _ _).refl s, counted_chains.refl s⟩
  trans h h' :=
    ⟨(tracks_chains _ _).trans h.tracks h'.tracks, counted_chains.trans h.counted h'.counted⟩

section Tracking

variable {policy : Policy} {s t : Budget}

theorem Staged.silent (h : SameStage s t) : Staged policy s [] t :=
  ⟨congrArg some (view_eq_of_sameStage h).symm, Counted.silent h.calls (by simp)⟩

theorem Staged.handed (h : SameStage s t) : Staged policy s [.handed (!s.fallback)] t := by
  refine ⟨?_, Counted.silent h.calls (by simp)⟩
  unfold Tracks
  rw [view_eq_of_sameStage h]
  simp [follow, monitor, view]

theorem tracks_executed (call : ℕ) (h : s.terminal = none) :
    Tracks (monitor policy) view s [.executed call] s := by
  simp [Tracks, follow, monitor, view, h]

/-- A recovered failure that ends the extraction is accepted whatever the policy is. -/
theorem Staged.ended {code : Code} (hfallback : t.fallback = s.fallback)
    (hterminal : t.terminal = some code) (hcalls : t.calls = s.calls) :
    Staged policy s [.recovered code, .ended code] t := by
  refine ⟨?_, Counted.silent hcalls (by simp)⟩
  by_cases hends : policy.ends code <;>
    simp [Tracks, follow, monitor, view, hfallback, hterminal]

theorem Staged.endedTwice {code : Code} (hfallback : t.fallback = s.fallback)
    (hterminal : t.terminal = some code) (hcalls : t.calls = s.calls) :
    Staged policy s [.recovered code, .ended code, .ended code] t := by
  refine ⟨?_, Counted.silent hcalls (by simp)⟩
  by_cases hends : policy.ends code <;>
    simp [Tracks, follow, monitor, view, hends, hfallback, hterminal]

/-- Fallback begins after a failure that the policy lets pass. -/
theorem Staged.admitted {code : Code} (hends : ¬ policy.ends code) (hprimary : s.fallback = false)
    (hopen : s.terminal = none) (hfallback : t.fallback = true) (hterminal : t.terminal = none)
    (hcalls : t.calls = s.calls) :
    Staged policy s [.recovered code, .entered (some code) false] t := by
  refine ⟨?_, Counted.silent hcalls (by simp)⟩
  have hresource : code ≠ .cancelled := fun h => hends (Or.inr h)
  simp [Tracks, follow, monitor, view, hends, hprimary, hopen, hfallback, hterminal, hresource]

end Tracking

theorem Staged.andInside {policy : Policy} {own : ℕ} {s t u : Budget} {es fs : List Event}
    (h : Staged policy s es t) (hown : own < s.calls) (h' : StagedInside policy own t fs u) :
    StagedInside policy own s (es ++ fs) u where
  tracks := (tracks_chains _ _).trans h.tracks h'.tracks
  inside := by simpa using (h.counted.inside hown).trans h'.inside

theorem StagedInside.and {policy : Policy} {own : ℕ} {s t u : Budget} {es fs : List Event}
    (h : StagedInside policy own s es t) (h' : Staged policy t fs u) :
    StagedInside policy own s (es ++ fs) u where
  tracks := (tracks_chains _ _).trans h.tracks h'.tracks
  inside := by
    have hown := Nat.lt_of_lt_of_le h.inside.own_lt h.inside.calls_le
    exact h.inside.trans (h'.counted.inside hown)

theorem StagedInside.executed (policy : Policy) {own : ℕ} {s : Budget} (hown : own < s.calls)
    (hopen : s.terminal = none) : StagedInside policy own s [.executed own] s :=
  ⟨tracks_executed own hopen, Inside.executed hown⟩

/-- Nothing executed is also at most one execution. -/
theorem Staged.inside {policy : Policy} {own : ℕ} {s t : Budget} {es : List Event}
    (h : Staged policy s es t) (hown : own < s.calls) : StagedInside policy own s es t where
  tracks := h.tracks
  inside :=
    { h.counted.inside hown with
      own_count := Nat.le_trans (h.counted.inside hown).own_count (Nat.zero_le 1) }

variable {call : ℕ} {again : Stage (Option Code)} {b : Budget} 
  (conditions : Conditions)

theorem attemptExtraction_staged (fails : Bool) {work : Stage (Option Code)}
    (hwork : Follows (Staged policy) work) (hcall : call < b.calls) (hopen : b.terminal = none) :
    StagedInside policy call b (attemptExtraction call fails work b).events
      (attemptExtraction call fails work b).state := by
  rcases attemptExtraction_cases call fails work b with h | ⟨handed, start, hsame, hhanded, h⟩
  · rw [h]
    exact (Staged.handed (SameStage.refl b)).inside hcall
  · rw [h]
    have hbound : Staged policy b handed start := by
      rcases hhanded with rfl | rfl
      · exact Staged.silent hsame
      · exact Staged.handed hsame
    have hstart : call < start.calls := by rwa [hsame.calls]
    have hexecuted := StagedInside.executed policy hstart (hsame.terminal.trans hopen)
    exact hbound.andInside hcall (hexecuted.and (hwork start))

theorem retryExtraction_staged (hagain : Follows (Staged policy) again) (hcall : call < b.calls)
    (hopen : b.terminal = none) :
    StagedInside policy call b (retryExtraction call conditions again b).events
      (retryExtraction call conditions again b).state := by
  have hattempt :=
    attemptExtraction_staged policy conditions.bindFailsAgain hagain hcall hopen
  rcases retryExtraction_cases (rfl : attemptExtraction call _ again b = _) with
    ⟨hevents, hstate⟩ | ⟨code, t, h, hfallback, hterminal, hcalls⟩
  · rwa [hevents, hstate]
  · rw [h]
    exact hattempt.and (Staged.ended hfallback hterminal hcalls)

theorem failedExtraction_staged (hagain : Follows (Staged policy) again) (hcall : call < b.calls)
    (code : Code) :
    StagedInside policy call b
      (failedExtraction policy call conditions again code b.fallback b).events
      (failedExtraction policy call conditions again code b.fallback b).state := by
  cases failedExtraction_cases policy call conditions again code b with
  | stopped hevents hfallback hterminal hcalls =>
    rcases hevents with hevents | hevents
    · rw [hevents]
      exact (Staged.ended hfallback hterminal hcalls).inside hcall
    · rw [hevents]
      exact (Staged.endedTwice hfallback hterminal hcalls).inside hcall
  | retried start hends hprimary hopen hstarted hevents hstate =>
    obtain ⟨hfallback, hterminal, hcalls⟩ := hstarted
    rw [hevents, hstate]
    have hadmitted : Staged policy b _ start :=
      Staged.admitted hends hprimary hopen hfallback hterminal hcalls
    have hstart : call < start.calls := by rwa [hcalls]
    have hretry := retryExtraction_staged policy conditions hagain hstart hterminal
    exact hadmitted.andInside hcall hretry

/-- A call takes its number without an event, so the monitor does not notice. -/
theorem Staged.numbered {policy : Policy} {s t : Budget} {es : List Event}
    (htracks : Tracks (monitor policy) view { s with calls := s.calls + 1 } es t)
    (hinside : Inside s.calls 2 { s with calls := s.calls + 1 } es t) : Staged policy s es t :=
  ⟨htracks, hinside.counted rfl rfl⟩

theorem runExtraction_staged {work : Stage (Option Code)} (hwork : Follows (Staged policy) work)
    (hagain : Follows (Staged policy) again) :
    Follows (Staged policy) (runExtraction policy conditions work again) := by
  intro b
  by_cases hterminal : b.terminal.isSome = true
  · simpa [runExtraction, hterminal] using (staged_chains policy).refl b
  · have hopen : b.terminal = none := by simpa using hterminal
    let numbered : Budget := { b with calls := b.calls + 1 }
    have hattempt : StagedInside policy b.calls numbered _ _ :=
      attemptExtraction_staged policy conditions.bindFails hwork (Nat.lt_succ_self b.calls) hopen
    cases hvalue : (attemptExtraction b.calls conditions.bindFails work numbered).value with
    | none =>
      have hinside : Inside b.calls 2 numbered _ _ :=
        { hattempt.inside with
          own_count := Nat.le_trans hattempt.inside.own_count (Nat.le_succ 1) }
      simpa [runExtraction, hterminal, numbered, hvalue] using
        Staged.numbered hattempt.tracks hinside
    | some code =>
      have hcall := Nat.lt_of_lt_of_le hattempt.inside.own_lt hattempt.inside.calls_le
      have hfailed := failedExtraction_staged policy conditions hagain hcall code
      have htracks := (tracks_chains _ _).trans hattempt.tracks hfailed.tracks
      simpa [runExtraction, hterminal, numbered, hvalue] using
        Staged.numbered htracks (hattempt.inside.trans hfailed.inside)

theorem beginFallback_staged (done : Bool) :
    Follows (Staged policy) (beginFallback policy none done) := by
  intro b
  rcases beginFallback_cases policy none done b with
    h | ⟨-, h⟩ | ⟨hprimary, hopen, hallowed, h⟩
  · rw [h]
    exact (staged_chains policy).refl b
  · rw [h]
    exact (staged_chains policy).refl b
  · rw [h, fallbackAllowed_sees policy done b hallowed]
    refine ⟨?_, Counted.silent rfl (by simp)⟩
    simp [Tracks, follow, monitor, view, hprimary, hopen]

theorem allocationMemory_staged : Follows (Staged policy) allocationMemory :=
  fun b => Staged.handed (SameStage.refl b)

theorem Staged.of_silent {policy : Policy} {o : Outcome Event Budget Unit}
    (hevents : o.events = []) (hsame : SameStage b o.state) :
    Staged policy b o.events o.state := by
  rw [hevents]
  exact Staged.silent hsame

/-- Whatever work does, nested to any depth, its events pass the monitor. -/
theorem exec_staged (work : Work) : Follows (Staged policy) (exec policy work) := by
  have hR := staged_chains policy
  induction work with
  | done => exact Follows.pure hR none
  | fail code => exact Follows.pure hR (some code)
  | run conditions work again next hwork hagain hnext =>
    exact Follows.bind hR (runExtraction_staged policy conditions hwork hagain)
      fun complete b => hnext complete b b
  | beginFallback contextDone next hnext =>
    exact Follows.bind hR (beginFallback_staged policy contextDone) fun begun b => hnext begun b b
  | allocate next hnext =>
    exact Follows.bind hR (allocationMemory_staged policy) fun _ b => hnext b b
  | childExhausted next hnext =>
    refine Follows.bind hR (fun b => ?_) fun _ b => hnext b b
    obtain ⟨hevents, hsame, -⟩ := noteMemoryLimit_spec b
    exact Staged.of_silent hevents hsame
  | exhaustFallback next hnext =>
    exact Follows.bind hR (fun b => Staged.silent ⟨rfl, rfl, rfl⟩) fun _ b => hnext b b
  | observeFallback next hnext =>
    refine Follows.bind hR (fun b => ?_) fun _ b => hnext b b
    obtain ⟨hevents, hsame⟩ := observeFallback_spec b
    exact Staged.of_silent hevents hsame

/-- The events that the monitor lets pass, and where each leads. -/
inductive Passes (policy : Policy) (s : Seen) : Event → Seen → Prop
  | executed (call : ℕ) (unended : s.terminal = false) (clear : s.pending = none) :
      Passes policy s (.executed call) s
  | recovered (code : Code) (clear : s.pending = none) :
      Passes policy s (.recovered code)
        { s with pending := if policy.ends code then some code else none }
  | entered (cause : Option Code) (fresh : s = ⟨false, false, none⟩)
      (resource : cause ≠ some .cancelled) :
      Passes policy s (.entered cause false) { s with fallback := true }
  | ended (code : Code) (due : s.pending = none ∨ s.pending = some code) :
      Passes policy s (.ended code) ⟨s.fallback, true, none⟩
  | handed (clear : s.pending = none) : Passes policy s (.handed (!s.fallback)) s

theorem monitor_passes {policy : Policy} {s t : Seen} {e : Event}
    (h : monitor policy s e = some t) : Passes policy s e t := by
  cases e with
  | executed call =>
    obtain ⟨⟨hopen, hclear⟩, rfl⟩ : (_ ∧ _) ∧ s = t := by simpa [monitor] using h
    exact .executed call hopen hclear
  | recovered code =>
    obtain ⟨hclear, rfl⟩ : _ ∧ _ = t := by simpa [monitor] using h
    exact .recovered code hclear
  | entered cause done =>
    obtain ⟨⟨hfresh, hresource, rfl⟩, rfl⟩ : _ ∧ _ = t := by
      simpa [monitor] using h
    exact .entered cause hfresh hresource
  | ended code =>
    obtain ⟨hdue, rfl⟩ : _ ∧ _ = t := by simpa [monitor] using h
    exact .ended code hdue
  | handed primary =>
    obtain ⟨⟨hclear, rfl⟩, rfl⟩ : (_ ∧ _) ∧ s = t := by
      simpa [monitor] using h
    exact .handed hclear

section Accepted

variable {policy : Policy} {s t : Seen}

/-- In fallback it does not begin again, and the primary ledger stays away. -/
theorem accepted_in_fallback (hs : s.fallback = true)
    (h : follow (monitor policy) s es = some t) :
    t.fallback = true ∧
      ∀ e ∈ es, (∀ cause done, e ≠ .entered cause done) ∧ e ≠ .handed true := by
  refine follow_invariant (P := fun s => s.fallback = true) ?_ hs h
  intro s e t hs hstep
  cases monitor_passes hstep with
  | executed call | recovered code | ended code => exact ⟨hs, by simp, by simp⟩
  | entered cause hfresh =>
    rw [hfresh] at hs
    exact absurd hs (by decide)
  | handed => exact ⟨hs, by simp, by simp [hs]⟩

/-- Without a beginning there is no fallback. -/
theorem accepted_in_primary (ht : t.fallback = false)
    (h : follow (monitor policy) s es = some t) : ∀ cause done, .entered cause done ∉ es := by
  intro cause done hmem
  obtain ⟨before, after, rfl⟩ := List.append_of_mem hmem
  obtain ⟨mid, next, -, hstep, hafter⟩ := follow_split h
  cases monitor_passes hstep with
  | entered _ hfresh =>
    have hlater := (accepted_in_fallback rfl hafter).1
    rw [ht] at hlater
    exact absurd hlater (by decide)

/-- Fallback holds in the end only where it held before or begins. -/
theorem accepted_fallback_begins (ht : t.fallback = true)
    (h : follow (monitor policy) s es = some t) :
    s.fallback = true ∨ ∃ cause done, .entered cause done ∈ es := by
  induction es generalizing s with
  | nil =>
    obtain rfl : s = t := Option.some.inj h
    exact Or.inl ht
  | cons e rest ih =>
    obtain ⟨next, hstep, hrest⟩ := Option.bind_eq_some_iff.mp h
    rcases ih hrest with hnext | ⟨cause, done, hmem⟩
    · cases monitor_passes hstep with
      | entered cause => exact Or.inr ⟨cause, false, List.mem_cons_self⟩
      | executed call | recovered code | ended code | handed => exact Or.inl hnext
    · exact Or.inr ⟨cause, done, List.mem_cons_of_mem e hmem⟩

/-- After the end nothing is executed and no fallback begins. -/
theorem accepted_after_end (hs : s.terminal = true)
    (h : follow (monitor policy) s es = some t) :
    t.terminal = true ∧
      ∀ e ∈ es, (∀ call, e ≠ .executed call) ∧ ∀ cause done, e ≠ .entered cause done := by
  refine follow_invariant (P := fun s => s.terminal = true) ?_ hs h
  intro s e t hs hstep
  cases monitor_passes hstep with
  | executed call hopen =>
    rw [hopen] at hs
    exact absurd hs (by decide)
  | recovered code | handed => exact ⟨hs, by simp, by simp⟩
  | entered cause hfresh =>
    rw [hfresh] at hs
    exact absurd hs (by decide)
  | ended code => exact ⟨rfl, by simp, by simp⟩

/-- A failure that has to end the extraction does so with the next event. -/
theorem accepted_pending {code : Code} (hs : s.pending = some code) (ht : t.pending = none)
    (h : follow (monitor policy) s es = some t) :
    ∃ rest next, es = .ended code :: rest ∧ next.terminal = true ∧
      follow (monitor policy) next rest = some t := by
  cases es with
  | nil =>
    obtain rfl : s = t := Option.some.inj h
    exact absurd (hs.symm.trans ht) (by simp)
  | cons e rest =>
    obtain ⟨next, hstep, hrest⟩ := Option.bind_eq_some_iff.mp h
    cases monitor_passes hstep with
    | executed call _ hclear | recovered code hclear | handed hclear =>
      exact absurd (hs.symm.trans hclear) (by simp)
    | entered cause hfresh =>
      rw [hfresh] at hs
      exact absurd hs (by simp)
    | ended other hdue =>
      obtain rfl : code = other := by simpa [hs] using hdue
      exact ⟨rest, _, rfl, rfl, hrest⟩

end Accepted

/-- The rules of the stages, for the events between two budgets. -/
structure Rules (s : Budget) (es : List Event) (t : Budget) : Prop where
  /-- Fallback begins at most once, and only outside fallback. -/
  entersOnce : ∀ before after cause done, es = before ++ .entered cause done :: after →
    s.fallback = false ∧ ∀ cause' done', .entered cause' done' ∉ before ++ after
  /-- Fallback is never left. -/
  keepsFallback : t.fallback = true ↔ s.fallback = true ∨ ∃ cause done, .entered cause done ∈ es
  /-- Neither a cancelled stage nor an ended context lets fallback begin. -/
  notByCancellation : ∀ cause done, .entered cause done ∈ es →
    cause ≠ some .cancelled ∧ done = false
  /-- A failure is terminal at once when it is a cancellation, and whatever it is where
  the policy forbids fallback. -/
  endsAtOnce : ∀ before after code, es = before ++ .recovered code :: after →
    policy.ends code → ∃ rest, after = .ended code :: rest ∧
      ∀ cause done, .entered cause done ∉ rest
  /-- Once terminal, nothing is executed and the budget stays terminal. -/
  staysTerminal : s.terminal.isSome = true →
    t.terminal.isSome = true ∧ ∀ call, .executed call ∉ es
  endIsFinal : ∀ before after code, es = before ++ .ended code :: after →
    t.terminal.isSome = true ∧ ∀ call, .executed call ∉ after
  atMostTwice : ∀ call, es.count (.executed call) ≤ 2
  /-- In fallback the primary ledger is not handed out. -/
  primaryWithdrawn : s.fallback = true → .handed true ∉ es
  primaryWithdrawnLater : ∀ before after cause done,
    es = before ++ .entered cause done :: after → .handed true ∉ after

/-- Every nesting of extractions obeys the rules of the stages, from any budget and
under either policy. -/
theorem exec_rules (work : Work) (b : Budget) :
    Rules policy b (exec policy work b).events (exec policy work b).state := by
  obtain ⟨htracks, hcounted⟩ := exec_staged policy work b
  generalize (exec policy work b).events = es at htracks hcounted
  generalize (exec policy work b).state = t at htracks hcounted
  constructor
  case entersOnce =>
    rintro before after cause done rfl
    obtain ⟨mid, next, hbefore, hstep, hafter⟩ := follow_split htracks
    cases monitor_passes hstep with
    | entered _ hfresh =>
      have hprimary : mid.fallback = false := by rw [hfresh]
      have hstart : b.fallback = false := by
        by_contra hnot
        have hfallback : (view b).fallback = true := by simpa [view] using hnot
        have hmid := (accepted_in_fallback hfallback hbefore).1
        rw [hprimary] at hmid
        exact absurd hmid (by decide)
      refine ⟨hstart, ?_⟩
      intro cause' done' hmem
      rcases List.mem_append.mp hmem with hmem | hmem
      · exact accepted_in_primary hprimary hbefore cause' done' hmem
      · exact ((accepted_in_fallback rfl hafter).2 _ hmem).1 cause' done' rfl
  case keepsFallback =>
    constructor
    · intro hfallback
      exact accepted_fallback_begins (t := view t) hfallback htracks
    · rintro (hfallback | ⟨cause, done, hmem⟩)
      · exact (accepted_in_fallback (s := view b) hfallback htracks).1
      · by_contra hnot
        have hprimary : (view t).fallback = false := by simpa [view] using hnot
        exact accepted_in_primary hprimary htracks cause done hmem
  case notByCancellation =>
    intro cause done hmem
    obtain ⟨before, after, rfl⟩ := List.append_of_mem hmem
    obtain ⟨mid, next, -, hstep, -⟩ := follow_split htracks
    cases monitor_passes hstep with
    | entered _ _ hresource => exact ⟨hresource, rfl⟩
  case endsAtOnce =>
    rintro before after code rfl hends
    obtain ⟨mid, next, -, hstep, hafter⟩ := follow_split htracks
    cases monitor_passes hstep with
    | recovered _ hclear =>
      rw [if_pos hends] at hafter
      obtain ⟨rest, ended, rfl, hended, hrest⟩ := accepted_pending rfl rfl hafter
      refine ⟨rest, rfl, ?_⟩
      intro cause done hmem
      exact ((accepted_after_end hended hrest).2 _ hmem).2 cause done rfl
  case staysTerminal =>
    intro hterminal
    obtain ⟨hend, hevents⟩ := accepted_after_end (s := view b) hterminal htracks
    exact ⟨hend, fun call hmem => (hevents _ hmem).1 call rfl⟩
  case endIsFinal =>
    rintro before after code rfl
    obtain ⟨mid, next, -, hstep, hafter⟩ := follow_split htracks
    cases monitor_passes hstep with
    | ended =>
      obtain ⟨hend, hevents⟩ := accepted_after_end rfl hafter
      exact ⟨hend, fun call hmem => (hevents _ hmem).1 call rfl⟩
  case atMostTwice => exact hcounted.twice
  case primaryWithdrawn =>
    intro hfallback hmem
    exact ((accepted_in_fallback (s := view b) hfallback htracks).2 _ hmem).2 rfl
  case primaryWithdrawnLater =>
    rintro before after cause done rfl hmem
    obtain ⟨mid, next, -, hstep, hafter⟩ := follow_split htracks
    cases monitor_passes hstep with
    | entered => exact ((accepted_in_fallback rfl hafter).2 _ hmem).2 rfl

end MilterGuard.StageRules
