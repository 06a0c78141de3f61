import MilterGuard.ScanLimits

/-!
Scans that end clear. A look at the context that finds it done and a budget that runs
out are never lost: they make the step in which they happen fail, and every step after
it passes the failure on.
-/
namespace MilterGuard.ClearScans

open Procedures ByteStrings ContentSignatures ArchiveBudgets AttachmentScanner ScanTraversal

theorem logRunsOut_append (first second : List Event) :
    logRunsOut (first ++ second) = (logRunsOut first || logRunsOut second) := by
  induction first with
  | nil => simp [logRunsOut]
  | cons e rest ih => rw [List.cons_append, logRunsOut, logRunsOut, ih, Bool.or_assoc]

/-- The context was never found done, and no budget ran out. -/
structure Undisturbed (state : ScanState) (log : List Event) (state' : ScanState) : Prop where
  ctx : state'.ctx = state.ctx
  looks : ∀ k, state.looks ≤ k → k < state'.looks → state.ctx k = none
  budgets : logRunsOut log = false

theorem undisturbed_chains : Chains Undisturbed where
  refl state := ⟨rfl, fun k hk hk' => absurd hk (by omega), by rw [logRunsOut]⟩
  trans {first second third _ _} h h' := by
    refine ⟨h'.ctx.trans h.ctx, fun k hk hk' => ?_, ?_⟩
    · by_cases hearly : k < second.looks
      · exact h.looks k hk hearly
      · rw [← h.ctx]
        exact h'.looks k (by omega) hk'
    · rw [logRunsOut_append, h.budgets, h'.budgets]
      rfl

theorem Undisturbed.within {state state' : ScanState} {log : List Event} (format : ArchiveFormat)
    (data : Bytes) (h : Undisturbed state log state') :
    Undisturbed state [.archive format data log] state' := by
  refine ⟨h.ctx, h.looks, ?_⟩
  rw [logRunsOut, Event.runsOut, h.budgets]
  rfl

/-- If all went well, nothing was disturbed. -/
def Steady (p : Prop) (state : ScanState) (log : List Event) (state' : ScanState) : Prop :=
  p → Undisturbed state log state'

theorem steady_chains : GradedChains Steady := undisturbed_chains.whenGood

theorem steady_watches : Watches Steady where
  chains := steady_chains
  look state hnone := by
    refine ⟨rfl, fun k hk hk' => ?_, by change logRunsOut [] = false; rw [logRunsOut]⟩
    change k < state.looks + 1 at hk'
    obtain rfl : k = state.looks := by omega
    exact hnone
  exhausted _ h := h.elim

theorem steady_uncounted : Uncounted Steady where
  toWatches := steady_watches
  counts {f} hctx hlooks state _ := by
    refine ⟨hctx state, fun k hk hk' => absurd hk' ?_, by rw [modify_run, logRunsOut]⟩
    rw [modify_run, hlooks state]
    omega

theorem steady_log {good : Unit → Prop} {e : Event} (h : e.runsOut = false) :
    Graded Steady good (log [e]) := by
  intro state _
  refine ⟨rfl, fun k hk hk' => absurd hk (Nat.not_le.mpr hk'), ?_⟩
  rw [log_run, logRunsOut, h]
  rfl

theorem steady_steps (s : Scanner) : Steps s fun _ => Steady where
  watches _ := steady_watches
  named _ _ := steady_log (by simp [Event.runsOut])
  passed _ _ _ := steady_log (by simp [Event.runsOut])
  readEntry _ := readArchiveEntry_keeps steady_uncounted
  beginFile _ := beginArchiveFile_keeps steady_uncounted
  admission _ := admitZIPDirectory_keeps steady_uncounted
  within format data h hp := (h hp).within format data

/-- A scan that ends clear was not disturbed. -/
theorem scanMIME_endsClear (s : Scanner) (levels : ℕ) : EntityKeeps Steady (scanMIME s levels) :=
  scan_keeps (steady_steps s) levels

end MilterGuard.ClearScans
