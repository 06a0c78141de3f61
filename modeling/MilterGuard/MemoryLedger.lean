import Mathlib.Data.Int.Init
import Mathlib.Tactic.Common
import Mathlib.Order.Basic

/-!
The memory ledger of an extraction and the child ledgers that work within its
remaining allowance. A ledger only ever admits what fits, keeps what it admitted
and stays exhausted once a reservation failed. Children that are charged back one
after another leave their parent within its limit; children that overlap need not.
-/
namespace MilterGuard.MemoryLedger

structure Memory where
  limit : Int64
  used : Int64
  exhausted : Bool
  deriving DecidableEq

def newMemory (limit : Int64) : Memory := ⟨limit, 0, false⟩

/-- How a call ends: it returns, it declines an optional reservation, it ends the
stage because memory is exceeded, or it panics over a negative request. -/
inductive Verdict
  | admitted
  | declined
  | terminated
  | panicked
  deriving DecidableEq

namespace Memory

variable (m : Memory)

def fits (bytes : Int64) : Bool :=
  !(m.limit ≤ 0 || m.limit < m.used || m.limit - m.used < bytes)

def reserve (bytes : Int64) : Verdict × Memory :=
  if bytes < 0 then (.panicked, m)
  else if m.exhausted then (.terminated, m)
  else if bytes ≤ 0 then (.admitted, m)
  else if m.fits bytes then (.admitted, { m with used := m.used + bytes })
  else (.terminated, { m with exhausted := true })

def tryReserve (bytes : Int64) : Verdict × Memory :=
  if bytes < 0 then (.panicked, m)
  else if m.exhausted then (.terminated, m)
  else if bytes ≤ 0 then (.admitted, m)
  else if m.fits bytes then m.reserve bytes
  else (.declined, m)

def recordUsage (bytes : Int64) : Memory :=
  if m.exhausted || bytes ≤ 0 then m
  else if m.fits bytes then { m with used := m.used + bytes }
  else { m with exhausted := true }

/-- An exhausted ledger counts as used up. -/
def usedUp : Int64 := if m.exhausted then m.limit else m.used

/-- What a child ledger may get. -/
def remaining : Int64 :=
  if m.limit ≤ m.usedUp then 0 else m.limit - m.usedUp

end Memory

inductive Request
  | reserve (bytes : Int64)
  | tryReserve (bytes : Int64)
  | recordUsage (bytes : Int64)

def Memory.handle (m : Memory) : Request → Verdict × Memory
  | .reserve bytes => m.reserve bytes
  | .tryReserve bytes => m.tryReserve bytes
  | .recordUsage bytes => (.admitted, m.recordUsage bytes)

def Memory.handleAll (m : Memory) (requests : List Request) : Memory :=
  requests.foldl (fun m request => (m.handle request).2) m

def Request.bytes : Request → Int64
  | .reserve bytes | .tryReserve bytes | .recordUsage bytes => bytes

/-- The charged amount lies between zero and the limit. -/
def Memory.Sound (m : Memory) : Prop := 0 ≤ m.used.toInt ∧ m.used.toInt ≤ m.limit.toInt

theorem newMemory_sound {limit : Int64} (h : 0 ≤ limit) : (newMemory limit).Sound := by
  rw [Int64.le_iff_toInt_le] at h
  exact ⟨by simp [newMemory], by simpa [newMemory] using h⟩

variable {m : Memory} {s : Ledgers} {limit : ℤ}

private theorem toInt_sub_of_sound (h : m.Sound) :
    (m.limit - m.used).toInt = m.limit.toInt - m.used.toInt := by
  obtain ⟨hlow, hhigh⟩ := h
  have hmax := m.limit.toInt_lt
  rw [Int64.toInt_sub]
  apply Int.bmod_eq_of_le <;> omega

/-- What fits is added without overflow and stays within the limit. -/
private theorem toInt_add_of_fits (h : m.Sound) {bytes : Int64} (hbytes : 0 < bytes)
    (hfits : m.fits bytes = true) :
    (m.used + bytes).toInt = m.used.toInt + bytes.toInt ∧
      m.used.toInt + bytes.toInt ≤ m.limit.toInt := by
  have hsub := toInt_sub_of_sound h
  obtain ⟨hlow, hhigh⟩ := h
  have hmax := m.limit.toInt_lt
  simp only [Memory.fits, Bool.not_eq_true', Bool.or_eq_false_iff, decide_eq_false_iff_not,
    Int64.lt_iff_toInt_lt] at hfits
  rw [Int64.lt_iff_toInt_lt, Int64.toInt_zero] at hbytes
  have hsum : m.used.toInt + bytes.toInt ≤ m.limit.toInt := by omega
  refine ⟨?_, hsum⟩
  rw [Int64.toInt_add]
  apply Int.bmod_eq_of_le <;> omega

/-- What any request can do to a ledger: nothing, a charge that fits, or the mark
of exhaustion on a ledger that stays as it is otherwise. -/
inductive Change (m : Memory) : Memory → Prop
  | same : Change m m
  | charge (bytes : Int64) (hlive : m.exhausted = false) (hbytes : 0 < bytes)
      (hfits : m.fits bytes = true) : Change m { m with used := m.used + bytes }
  | exhaust : Change m { m with exhausted := true }

private theorem reserve_change (m : Memory) (bytes : Int64) : Change m (m.reserve bytes).2 := by
  unfold Memory.reserve
  split
  · exact .same
  split
  · exact .same
  next hlive =>
    split
    · exact .same
    next hbytes =>
      split
      next hfits => exact .charge bytes (by simpa using hlive) (Int64.not_le.mp hbytes) hfits
      · exact .exhaust

theorem handle_change (m : Memory) (request : Request) : Change m (m.handle request).2 := by
  cases request with
  | reserve bytes => exact reserve_change m bytes
  | tryReserve bytes =>
    simp only [Memory.handle, Memory.tryReserve]
    split
    · exact .same
    split
    · exact .same
    split
    · exact .same
    split
    · exact reserve_change m bytes
    · exact .same
  | recordUsage bytes =>
    simp only [Memory.handle, Memory.recordUsage]
    split
    · exact .same
    next hlive =>
      simp only [Bool.or_eq_true, decide_eq_true_eq, not_or, Bool.not_eq_true] at hlive
      split
      next hfits => exact .charge bytes hlive.1 (Int64.not_le.mp hlive.2) hfits
      · exact .exhaust

/-- The remaining allowance as an integer. -/
private theorem toInt_remaining (h : m.Sound) :
    m.remaining.toInt = if m.exhausted then 0 else m.limit.toInt - m.used.toInt := by
  unfold Memory.remaining Memory.usedUp
  cases m.exhausted with
  | true => simp
  | false =>
    simp only [Bool.false_eq_true, if_false]
    split
    next hle =>
      rw [Int64.le_iff_toInt_le] at hle
      have hused := h.2
      simp only [Int64.toInt_zero]
      omega
    · exact toInt_sub_of_sound h

/-- What a change keeps. -/
structure Kept (m m' : Memory) : Prop where
  limit : m'.limit = m.limit
  sound : m'.Sound
  used : m.used.toInt ≤ m'.used.toInt
  remaining : m'.remaining.toInt ≤ m.remaining.toInt
  exhausted : m.exhausted = true → m'.exhausted = true ∧ m'.used = m.used

theorem Change.kept {m' : Memory} (h : Change m m') (hm : m.Sound) : Kept m m' := by
  cases h with
  | same => exact ⟨rfl, hm, Int.le_refl _, Int.le_refl _, fun hexhausted => ⟨hexhausted, rfl⟩⟩
  | charge bytes hlive hbytes hfits =>
    obtain ⟨hsum, hbound⟩ := toInt_add_of_fits hm hbytes hfits
    have hpositive : 0 < bytes.toInt := by
      rwa [Int64.lt_iff_toInt_lt] at hbytes
    have hsound : Memory.Sound { m with used := m.used + bytes } := by
      unfold Memory.Sound at hm ⊢
      dsimp only
      omega
    refine ⟨rfl, hsound, by dsimp only; omega, ?_, fun hexhausted => ?_⟩
    · rw [toInt_remaining hm, toInt_remaining hsound]
      simp only [hlive, Bool.false_eq_true, if_false]
      omega
    · rw [hlive] at hexhausted
      exact absurd hexhausted (by simp)
  | exhaust =>
    refine ⟨rfl, hm, Int.le_refl _, ?_, fun _ => ⟨rfl, rfl⟩⟩
    have hsound : Memory.Sound { m with exhausted := true } := hm
    rw [toInt_remaining hm, toInt_remaining hsound]
    have hused := hm.2
    simp only [if_true]
    split <;> omega

theorem Kept.trans {m m' m'' : Memory} (h : Kept m m') (h' : Kept m' m'') : Kept m m'' := by
  refine ⟨h'.limit.trans h.limit, h'.sound, Int.le_trans h.used h'.used,
    Int.le_trans h'.remaining h.remaining, ?_⟩
  intro hexhausted
  obtain ⟨hmiddle, hused⟩ := h.exhausted hexhausted
  obtain ⟨hlast, hused'⟩ := h'.exhausted hmiddle
  exact ⟨hlast, hused'.trans hused⟩

theorem handle_kept (h : m.Sound) (request : Request) : Kept m (m.handle request).2 :=
  (handle_change m request).kept h

/-- Any number of requests keeps what one request keeps. -/
theorem handleAll_kept (h : m.Sound) (requests : List Request) : Kept m (m.handleAll requests) := by
  induction requests generalizing m with
  | nil => exact Change.same.kept h
  | cons request rest ih =>
    have hfirst := handle_kept h request
    exact hfirst.trans (ih hfirst.sound)

/-- A request that does not return leaves the charged amount alone; one that ends
the stage leaves the ledger exhausted. -/
theorem handle_refused (m : Memory) (request : Request) :
    ((m.handle request).1 = .terminated →
      (m.handle request).2.exhausted = true ∧ (m.handle request).2.used = m.used) ∧
    ((m.handle request).1 = .declined → (m.handle request).2 = m) ∧
    (request.bytes < 0 → (m.handle request).2 = m) := by
  cases request with
  | reserve bytes =>
    by_cases hbytes : bytes < 0
    · simp [Memory.handle, Memory.reserve, hbytes]
    · simp only [Memory.handle, Memory.reserve]
      refine ⟨?_, ?_, fun hnegative => absurd hnegative hbytes⟩
      · split_ifs <;> simp_all
      · split_ifs <;> simp
  | tryReserve bytes =>
    by_cases hbytes : bytes < 0
    · simp [Memory.handle, Memory.tryReserve, hbytes]
    · simp only [Memory.handle, Memory.tryReserve, Memory.reserve]
      refine ⟨?_, ?_, fun hnegative => absurd hnegative hbytes⟩
      · split_ifs <;> simp_all
      · split_ifs <;> simp
  | recordUsage bytes =>
    simp only [Memory.handle, Memory.recordUsage, Request.bytes]
    refine ⟨by simp, by simp, fun hbytes => ?_⟩
    rw [if_pos (by simp [Int64.le_of_lt hbytes])]

/-- A ledger with the children that work within its allowance. `own` counts what the
ledger itself admitted, `lent` what all children admitted. -/
structure Ledgers where
  parent : Memory
  children : List Memory
  own : ℤ
  lent : ℤ

def newLedgers (limit : Int64) : Ledgers := ⟨newMemory limit, [], 0, 0⟩

inductive Op
  | parent (request : Request)
  | lend
  | child (i : ℕ) (request : Request)
  | chargeBack (i : ℕ)

def charge (before after : Memory) : ℤ := after.used.toInt - before.used.toInt

def step (s : Ledgers) : Op → Ledgers
  | .parent request =>
    let parent := (s.parent.handle request).2
    { s with parent, own := s.own + charge s.parent parent }
  | .lend => { s with children := s.children ++ [newMemory s.parent.remaining] }
  | .child i request =>
    match s.children[i]? with
    | none => s
    | some m =>
      let m' := (m.handle request).2
      { s with children := s.children.set i m', lent := s.lent + charge m m' }
  | .chargeBack i =>
    match s.children[i]? with
    | none => s
    | some m =>
      { s with parent := s.parent.recordUsage m.used, children := s.children.eraseIdx i }

/-- A child is charged back before the parent charges anything of its own. -/
def OwnChargesWait (s : Ledgers) : Op → Prop
  | .parent request => s.children = [] ∨ (s.parent.handle request).2.used = s.parent.used
  | _ => True

/-- A child is also charged back before the next one is made. -/
def OneAtATime (s : Ledgers) : Op → Prop
  | .lend => s.children = []
  | op => OwnChargesWait s op

/-- Every operation of a run respects a discipline. -/
def Respects (discipline : Ledgers → Op → Prop) : Ledgers → List Op → Prop
  | _, [] => True
  | s, op :: ops => discipline s op ∧ Respects discipline (step s op) ops

def run (s : Ledgers) (ops : List Op) : Ledgers := ops.foldl step s

/-- The accounts of a ledger with at most one child: what is admitted and what the
child may still admit fits into the limit. Until the ledger is exhausted its charges
are exact. -/
private structure Balanced (limit : ℤ) (s : Ledgers) : Prop where
  within : s.parent.limit.toInt = limit
  parent : s.parent.Sound
  accounts : match s.children with
    | [] => s.own + s.lent ≤ limit ∧
        (s.parent.exhausted = false → s.own + s.lent = s.parent.used.toInt)
    | [m] => m.Sound ∧ s.own + s.lent + (m.limit.toInt - m.used.toInt) ≤ limit ∧
        (s.parent.exhausted = false → s.own + s.lent = s.parent.used.toInt + m.used.toInt ∧
          m.limit.toInt = limit - s.parent.used.toInt)
    | _ => False

section

variable (h : Balanced limit s)

include h

private theorem balanced_parent (request : Request) (hwait : OwnChargesWait s (.parent request)) :
    Balanced limit (step s (.parent request)) := by
  obtain ⟨hlimit, hparent, haccounts⟩ := h
  have hkept := handle_kept hparent request
  have hsame : (s.parent.handle request).2.exhausted = false → s.parent.exhausted = false := by
    intro hlive
    by_contra hexhausted
    have hboth := (hkept.exhausted (by simpa using hexhausted)).1
    simp [hlive] at hboth
  have hcharge : s.parent.exhausted = true → (s.parent.handle request).2.used = s.parent.used :=
    fun hexhausted => (hkept.exhausted hexhausted).2
  have hbound := hkept.sound.2
  rw [hkept.limit] at hbound
  refine ⟨by simp only [step, hkept.limit, hlimit], hkept.sound, ?_⟩
  simp only [step, charge]
  match hchildren : s.children with
  | [] =>
    simp only [hchildren] at haccounts
    obtain ⟨hsum, hexact⟩ := haccounts
    refine ⟨?_, fun hlive => ?_⟩
    · cases hexhausted : s.parent.exhausted with
      | true =>
        rw [hcharge hexhausted]
        omega
      | false =>
        have hused := hexact hexhausted
        omega
    · have hused := hexact (hsame hlive)
      omega
  | [m] =>
    simp only [hchildren] at haccounts
    obtain ⟨hm, hsum, hexact⟩ := haccounts
    have hused : (s.parent.handle request).2.used = s.parent.used := by
      rcases hwait with hnil | hused
      · simp [hchildren] at hnil
      · exact hused
    rw [hused]
    refine ⟨hm, by omega, fun hlive => ?_⟩
    obtain ⟨hown, hrest⟩ := hexact (hsame hlive)
    exact ⟨by omega, hrest⟩
  | _ :: _ :: _ => simp [hchildren] at haccounts

private theorem balanced_lend (hnone : s.children = []) : Balanced limit (step s .lend) := by
  obtain ⟨hlimit, hparent, haccounts⟩ := h
  have hremaining := toInt_remaining hparent
  simp only [hnone] at haccounts
  obtain ⟨hsum, hexact⟩ := haccounts
  have hhigh := hparent.2
  refine ⟨hlimit, hparent, ?_⟩
  simp only [step, hnone]
  have hsound : (newMemory s.parent.remaining).Sound := by
    apply newMemory_sound
    rw [Int64.le_iff_toInt_le, Int64.toInt_zero, hremaining]
    split <;> omega
  refine ⟨hsound, ?_, fun hlive => ?_⟩
  · simp only [newMemory, Int64.toInt_zero, hremaining]
    cases hexhausted : s.parent.exhausted with
    | true => simpa using hsum
    | false =>
      have hused := hexact hexhausted
      omega
  · simp only [newMemory, hremaining, hlive, Bool.false_eq_true, if_false]
    exact ⟨by simpa using hexact hlive, by rw [hlimit]⟩

private theorem balanced_child (i : ℕ) (request : Request) :
    Balanced limit (step s (.child i request)) := by
  obtain ⟨hlimit, hparent, haccounts⟩ := h
  match hchildren : s.children, i with
  | [], i =>
    refine ⟨?_, ?_, ?_⟩ <;> simp_all [step]
  | [m], i + 1 =>
    refine ⟨?_, ?_, ?_⟩ <;> simp_all [step]
  | [m], 0 =>
    simp only [hchildren] at haccounts
    obtain ⟨hm, hsum, hexact⟩ := haccounts
    have hkept := handle_kept hm request
    refine ⟨by simpa [step, hchildren] using hlimit, by simpa [step, hchildren] using hparent, ?_⟩
    simp only [step, hchildren, List.getElem?_cons_zero, List.set_cons_zero, charge, hkept.limit]
    refine ⟨hkept.sound, by omega, fun hlive => ?_⟩
    obtain ⟨hown, hrest⟩ := hexact hlive
    exact ⟨by omega, hrest⟩
  | _ :: _ :: _, _ => simp [hchildren] at haccounts

omit h in
/-- What a child admitted always fits into a parent that is not exhausted. -/
private theorem recordUsage_used {parent : Memory} (hparent : parent.Sound) (hm : m.Sound)
    (hlive : parent.exhausted = false)
    (hlimit : m.limit.toInt = parent.limit.toInt - parent.used.toInt) :
    (parent.recordUsage m.used).used.toInt = parent.used.toInt + m.used.toInt := by
  have hsub := toInt_sub_of_sound hparent
  obtain ⟨hlow, hhigh⟩ := hm
  unfold Memory.recordUsage
  by_cases hzero : m.used ≤ 0
  · have hnone : m.used.toInt = 0 := by
      rw [Int64.le_iff_toInt_le, Int64.toInt_zero] at hzero
      omega
    rw [if_pos (by simp [hzero])]
    omega
  · rw [if_neg (by simp [hlive, hzero])]
    have hpositive := Int64.not_le.mp hzero
    have hfits : parent.fits m.used = true := by
      simp only [Memory.fits, Bool.not_eq_true', Bool.or_eq_false_iff, decide_eq_false_iff_not,
        Int64.le_iff_toInt_le, Int64.lt_iff_toInt_lt, Int64.toInt_zero]
      rw [Int64.lt_iff_toInt_lt, Int64.toInt_zero] at hpositive
      obtain ⟨hlow', hhigh'⟩ := hparent
      omega
    rw [if_pos hfits]
    exact (toInt_add_of_fits hparent hpositive hfits).1

private theorem balanced_chargeBack (i : ℕ) : Balanced limit (step s (.chargeBack i)) := by
  obtain ⟨hlimit, hparent, haccounts⟩ := h
  match hchildren : s.children, i with
  | [], i =>
    refine ⟨?_, ?_, ?_⟩ <;> simp_all [step]
  | [m], i + 1 =>
    refine ⟨?_, ?_, ?_⟩ <;> simp_all [step]
  | [m], 0 =>
    simp only [hchildren] at haccounts
    obtain ⟨hm, hsum, hexact⟩ := haccounts
    have hkept := handle_kept hparent (.recordUsage m.used)
    simp only [Memory.handle] at hkept
    have hhigh := hm.2
    simp only [step, hchildren, List.getElem?_cons_zero]
    refine ⟨by rw [hkept.limit, hlimit], hkept.sound, by dsimp only; omega, fun hlive => ?_⟩
    have hbefore : s.parent.exhausted = false := by
      by_contra hexhausted
      have hafter := (hkept.exhausted (by simpa using hexhausted)).1
      exact absurd (hlive.symm.trans hafter) (by simp)
    obtain ⟨hown, hrest⟩ := hexact hbefore
    rw [recordUsage_used hparent hm hbefore (by rw [hrest, hlimit])]
    exact hown
  | _ :: _ :: _, _ => simp [hchildren] at haccounts

private theorem balanced_step (op : Op) (hop : OneAtATime s op) : Balanced limit (step s op) := by
  cases op with
  | parent request => exact balanced_parent h request hop
  | lend => exact balanced_lend h hop
  | child i request => exact balanced_child h i request
  | chargeBack i => exact balanced_chargeBack h i

omit h in
private theorem balanced_run (ops : List Op) (h : Balanced limit s)
    (hops : Respects OneAtATime s ops) : Balanced limit (run s ops) := by
  induction ops generalizing s with
  | nil => exact h
  | cons op ops ih => exact ih (balanced_step h op hops.1) hops.2

private theorem Balanced.sum_le : s.own + s.lent ≤ limit := by
  obtain ⟨-, -, haccounts⟩ := h
  match hchildren : s.children with
  | [] =>
    simp only [hchildren] at haccounts
    exact haccounts.1
  | [m] =>
    simp only [hchildren] at haccounts
    obtain ⟨hm, hsum, -⟩ := haccounts
    have hhigh := hm.2
    omega
  | _ :: _ :: _ => simp [hchildren] at haccounts

private theorem Balanced.sound (m : Memory) (hm : m ∈ s.parent :: s.children) : m.Sound := by
  obtain ⟨-, hparent, haccounts⟩ := h
  match hchildren : s.children with
  | [] =>
    simp only [hchildren, List.mem_singleton] at hm
    exact hm ▸ hparent
  | [child] =>
    simp only [hchildren, List.mem_cons, List.not_mem_nil, or_false] at hm haccounts
    rcases hm with rfl | rfl
    · exact hparent
    · exact haccounts.1
  | _ :: _ :: _ => simp [hchildren] at haccounts

end

/-- A ledger behaves: it is within its limit and charges, refuses and stays
exhausted as it should, whatever is asked of it next. -/
def Behaves (m : Memory) : Prop :=
  0 ≤ m.used.toInt ∧ m.used.toInt ≤ m.limit.toInt ∧ ∀ request,
    m.used.toInt ≤ (m.handle request).2.used.toInt ∧
    (m.handle request).2.used.toInt ≤ m.limit.toInt ∧
    (m.handle request).2.remaining.toInt ≤ m.remaining.toInt ∧
    ((m.handle request).1 = .terminated → ∀ later : List Request,
      ((m.handle request).2.handleAll later).exhausted = true ∧
        ((m.handle request).2.handleAll later).used = m.used) ∧
    ((m.handle request).1 = .declined → (m.handle request).2 = m) ∧
    (request.bytes < 0 → (m.handle request).2 = m)

theorem Memory.Sound.behaves (h : m.Sound) : Behaves m := by
  refine ⟨h.1, h.2, fun request => ?_⟩
  have hkept := handle_kept h request
  obtain ⟨hterminated, hdeclined, hnegative⟩ := handle_refused m request
  refine ⟨hkept.used, ?_, hkept.remaining, fun hverdict later => ?_, hdeclined, hnegative⟩
  · rw [← hkept.limit]
    exact hkept.sound.2
  · obtain ⟨hexhausted, hused⟩ := hterminated hverdict
    obtain ⟨hstays, hsame⟩ := (handleAll_kept hkept.sound later).exhausted hexhausted
    exact ⟨hstays, hsame.trans hused⟩

/-- Ledgers whose children are charged back one after another behave, and all that
was admitted stays within the limit of the parent. -/
theorem ledgers_sound (limit : Int64) (hlimit : 0 ≤ limit) (ops : List Op)
    (hops : Respects OneAtATime (newLedgers limit) ops) :
    (∀ m ∈ (run (newLedgers limit) ops).parent :: (run (newLedgers limit) ops).children,
      Behaves m) ∧
    (run (newLedgers limit) ops).own + (run (newLedgers limit) ops).lent ≤ limit.toInt := by
  have hstart : Balanced limit.toInt (newLedgers limit) := by
    refine ⟨rfl, newMemory_sound hlimit, ?_⟩
    rw [Int64.le_iff_toInt_le] at hlimit
    simpa [newLedgers, newMemory] using hlimit
  have hrun := balanced_run ops hstart hops
  exact ⟨fun m hm => (hrun.sound m hm).behaves, hrun.sum_le⟩

/-- A child of a ledger with ten bytes takes six of them, and the ledger then takes
the other four. -/
theorem ledgers_sound_ten :
    (run (newLedgers 10) [.lend, .child 0 (.reserve 6), .chargeBack 0, .parent (.reserve 4)]).own +
      (run (newLedgers 10) [.lend, .child 0 (.reserve 6), .chargeBack 0,
        .parent (.reserve 4)]).lent ≤ (10 : Int64).toInt :=
  (ledgers_sound 10 (by decide) [.lend, .child 0 (.reserve 6), .chargeBack 0, .parent (.reserve 4)]
    ⟨rfl, trivial, trivial, Or.inl rfl, trivial⟩).2

/-- Two children that overlap take ten bytes each out of ten, though each is charged
back before the parent charges anything; and a negative reservation fails without
exhausting the ledger. -/
theorem overlapping_children_exceed :
    Respects OwnChargesWait (newLedgers 10) [.lend, .lend, .child 0 (.reserve 10),
      .child 1 (.reserve 10), .chargeBack 0, .chargeBack 0] ∧
    (10 : Int64).toInt < (run (newLedgers 10) [.lend, .lend, .child 0 (.reserve 10),
      .child 1 (.reserve 10), .chargeBack 0, .chargeBack 0]).lent ∧
    (newMemory 10).reserve (-1) = (.panicked, newMemory 10) := by
  refine ⟨⟨trivial, trivial, trivial, trivial, trivial, trivial, trivial⟩, ?_, ?_⟩
  · decide
  · decide

end MilterGuard.MemoryLedger
