import MilterGuard.ByteStrings

/-!
The stores that keep a message byte for byte while it is received. A store in
memory and a store in an unlinked temporary file are the same to their user as long
as the file operations succeed. What the operating system does to a file operation
is an answer that comes with the call.
-/
namespace MilterGuard.ExactMessages

open ByteStrings

inductive Storage
  | memory
  | file
  | hybrid
  | unknown
  deriving DecidableEq

inductive ExactError
  | closed
  | tooLarge
  | maximumNotPositive
  | unknownStorage
  | createFile
  | unlinkFile
  | write
  | shortWrite
  | closeFile
  deriving DecidableEq

/-- The answers to the file operation of one call. A write stops after `written`
bytes if that is given, with or without an error. -/
structure FileAnswer where
  written : Option ℕ
  writeErr : Bool
  closeErr : Bool
  deriving DecidableEq

/-- The file operations succeed. -/
def FileAnswer.ok : FileAnswer := ⟨none, false, false⟩

inductive ReadStatus
  | ok
  | eof
  | failed
  deriving DecidableEq

/-- What io.ReaderAt gives for a length and an offset, with the size that is
handed out next to it. -/
structure Reader where
  readAt : ℕ → ℤ → Bytes × ReadStatus
  size : ℕ

def crlf : Bytes := [0x0D, 0x0A]

/-- The three replacements of addExactHeader. -/
def headerValue (value : Bytes) : Bytes :=
  replaceAll (replaceAll (replaceAll value crlf [0x0A]) [0x0D] [0x0A]) [0x0A] crlf

/-- The line that AddHeader appends. -/
def exactHeader (name value : Bytes) : Bytes := name ++ ascii ": " ++ headerValue value ++ crlf

structure MemoryExactMessage where
  data : Bytes
  maxBytes : ℤ
  closed : Bool
  deriving DecidableEq

variable (m : MemoryExactMessage)

def MemoryExactMessage.append (payload : Bytes) : Option ExactError × MemoryExactMessage :=
  if m.closed then (some .closed, m)
  else if (m.data.length : ℤ) + payload.length > m.maxBytes then (some .tooLarge, m)
  else (none, { m with data := m.data ++ payload })

/-- exactBytes.ReadAt. -/
def exactBytesReadAt (data : Bytes) (length : ℕ) (offset : ℤ) : Bytes × ReadStatus :=
  if offset < 0 then ([], .failed)
  else if length = 0 then ([], .ok)
  else if offset ≥ data.length then ([], .eof)
  else
    let found := (data.drop offset.toNat).take length
    if found.length < length then (found, .eof) else (found, .ok)

def MemoryExactMessage.readerAt : Except ExactError Reader :=
  if m.closed then .error .closed else .ok ⟨exactBytesReadAt m.data, m.data.length⟩

def MemoryExactMessage.close : Option ExactError × MemoryExactMessage :=
  (none, { m with closed := true, data := [] })

/-- The file is unlinked, so its contents are known to the store alone, and its
size is what the store has written. -/
structure FileExactMessage where
  contents : Bytes
  maxBytes : ℤ
  size : ℕ
  closed : Bool
  sized : size = contents.length

/-- The file after a write of which `written` bytes arrived. -/
def FileExactMessage.wrote (m : FileExactMessage) (payload : Bytes) (written : ℕ)
    (h : written ≤ payload.length) : FileExactMessage :=
  { m with
    contents := m.contents ++ payload.take written
    size := m.size + written
    sized := by rw [List.length_append, List.length_take_of_le h, m.sized] }

def FileExactMessage.append (m : FileExactMessage) (answer : FileAnswer) (payload : Bytes) :
    Option ExactError × FileExactMessage :=
  if m.closed then (some .closed, m)
  else if (m.size : ℤ) + payload.length > m.maxBytes then (some .tooLarge, m)
  else
    let written := min (answer.written.getD payload.length) payload.length
    let m := m.wrote payload written (min_le_right _ _)
    if answer.writeErr then (some .write, m)
    else if written ≠ payload.length then (some .shortWrite, m)
    else (none, m)

/-- os.File.ReadAt: it reads on until the length or the end of the file. -/
def fileReadAt (contents : Bytes) (length : ℕ) (offset : ℤ) : Bytes × ReadStatus :=
  if offset < 0 then ([], .failed)
  else
    let found := (contents.drop offset.toNat).take length
    (found, if found.length < length then .eof else .ok)

def FileExactMessage.readerAt (m : FileExactMessage) : Except ExactError Reader :=
  if m.closed then .error .closed else .ok ⟨fileReadAt m.contents, m.size⟩

def FileExactMessage.close (m : FileExactMessage) (answer : FileAnswer) :
    Option ExactError × FileExactMessage :=
  if m.closed then (none, m)
  else (if answer.closeErr then some .closeFile else none, { m with closed := true })

/-- The calls of the ExactMessage interface. -/
inductive Call
  | addHeader (name value : Bytes)
  | endHeaders
  | addBody (payload : Bytes)
  | readerAt
  | close
  deriving DecidableEq

inductive Reply
  | done (err : Option ExactError)
  | reader (answer : Except ExactError Reader)

/-- The stores behind the interface. A limited store is a store in memory that
gives its slot back when it is closed for the first time. -/
inductive ExactMessage
  | memory (m : MemoryExactMessage)
  | limited (m : MemoryExactMessage) (released : Bool)
  | file (m : FileExactMessage)

def MemoryExactMessage.call : Call → Reply × MemoryExactMessage
  | .addHeader name value => (m.append (exactHeader name value)).map .done id
  | .endHeaders => (m.append crlf).map .done id
  | .addBody payload => (m.append payload).map .done id
  | .readerAt => (.reader m.readerAt, m)
  | .close => m.close.map .done id

def FileExactMessage.call (m : FileExactMessage) (answer : FileAnswer) :
    Call → Reply × FileExactMessage
  | .addHeader name value => (m.append answer (exactHeader name value)).map .done id
  | .endHeaders => (m.append answer crlf).map .done id
  | .addBody payload => (m.append answer payload).map .done id
  | .readerAt => (.reader m.readerAt, m)
  | .close => (m.close answer).map .done id

def ExactMessage.call (answer : FileAnswer) (c : Call) : ExactMessage → Reply × ExactMessage
  | .memory m => (m.call c).map id .memory
  | .limited m released => (m.call c).map id (.limited · (released || c = .close))
  | .file m => (m.call answer c).map id .file

/-- The replies to a sequence of calls. -/
def ExactMessage.replies : ExactMessage → List (Call × FileAnswer) → List Reply
  | _, [] => []
  | store, (c, answer) :: rest =>
    (store.call answer c).1 :: (store.call answer c).2.replies rest

def emptyMemory (maxBytes : ℤ) : MemoryExactMessage := ⟨[], maxBytes, false⟩

def emptyFile (maxBytes : ℤ) : FileExactMessage := ⟨[], maxBytes, 0, false, rfl⟩

/-- `fault` is the failure of creating the file, if the operating system has one. -/
def newFileExactMessage (maxBytes : ℤ) (fault : Option ExactError) :
    Except ExactError ExactMessage :=
  match fault with
  | some err => .error err
  | none => .ok (.file (emptyFile maxBytes))

variable (storage : Storage)

def newExactMessage (maxBytes : ℤ) (fault : Option ExactError) : Except ExactError ExactMessage :=
  if maxBytes < 1 then .error .maximumNotPositive
  else match storage with
    | .memory => .ok (.memory (emptyMemory maxBytes))
    | .file => newFileExactMessage maxBytes fault
    | .hybrid | .unknown => .error .unknownStorage

/-- ExactMessageFactory.New where `slot` says whether a memory slot is free. -/
def factoryNew (slot : Bool) (maxBytes : ℤ) (fault : Option ExactError) :
    Except ExactError ExactMessage :=
  if storage ≠ .hybrid then newExactMessage storage maxBytes fault
  else if slot then
    match newExactMessage .memory maxBytes fault with
    | .ok (.memory m) => .ok (.limited m false)
    | other => other
  else newExactMessage .file maxBytes fault

/-- Reading from memory and from a file of the same contents is the same. -/
theorem readAt_eq (data : Bytes) : exactBytesReadAt data = fileReadAt data := by
  funext length offset
  simp only [exactBytesReadAt, fileReadAt]
  by_cases hneg : offset < 0
  · rw [if_pos hneg, if_pos hneg]
  by_cases hzero : length = 0
  · subst hzero
    simp
  rw [if_neg hzero]
  by_cases hend : offset ≥ data.length
  · have hnil : data.drop offset.toNat = [] := List.drop_eq_nil_of_le (by omega)
    have hpos : 0 < length := by omega
    rw [if_pos hend, hnil, List.take_nil, List.length_nil, if_pos hpos]
  · split_ifs <;> rfl

/-- The file holds what the memory would. Nothing is said of closed stores but
that both are. -/
structure Matches (f : FileExactMessage) : Prop where
  maxBytes : f.maxBytes = m.maxBytes
  closed : f.closed = m.closed
  contents : m.closed = false → f.contents = m.data

theorem Matches.append {m : MemoryExactMessage} {f : FileExactMessage} (h : Matches m f)
    (payload : Bytes) :
    (f.append .ok payload).1 = (m.append payload).1 ∧
      Matches (m.append payload).2 (f.append .ok payload).2 := by
  unfold MemoryExactMessage.append FileExactMessage.append
  cases hclosed : m.closed with
  | true =>
    rw [if_pos (h.closed.trans hclosed)]
    exact ⟨rfl, h⟩
  | false =>
    have hopen : ¬ f.closed = true := by rw [h.closed, hclosed]; exact Bool.false_ne_true
    have hsize : f.size = m.data.length := by rw [f.sized, h.contents hclosed]
    rw [if_neg hopen]
    by_cases hlarge : (m.data.length : ℤ) + payload.length > m.maxBytes
    · rw [if_pos hlarge, if_pos (by rwa [hsize, h.maxBytes])]
      exact ⟨rfl, h⟩
    · rw [if_neg hlarge, if_neg (by rwa [hsize, h.maxBytes])]
      simp only [FileAnswer.ok, Option.getD_none, min_self, ne_eq, not_true_eq_false, if_false,
        Bool.false_eq_true]
      refine ⟨trivial, h.maxBytes, h.closed.trans hclosed, fun _ => ?_⟩
      simp only [FileExactMessage.wrote, List.take_length, h.contents hclosed]

theorem Matches.call {m : MemoryExactMessage} {f : FileExactMessage} (h : Matches m f) (c : Call) :
    (f.call .ok c).1 = (m.call c).1 ∧ Matches (m.call c).2 (f.call .ok c).2 := by
  have happend : ∀ payload,
      ((f.append .ok payload).map Reply.done id).1 = ((m.append payload).map Reply.done id).1 ∧
        Matches ((m.append payload).map Reply.done id).2
          ((f.append .ok payload).map Reply.done id).2 := by
    intro payload
    obtain ⟨heq, hmatches⟩ := h.append payload
    exact ⟨congrArg Reply.done heq, hmatches⟩
  cases c with
  | addHeader name value | endHeaders | addBody payload => exact happend _
  | readerAt =>
    refine ⟨congrArg Reply.reader ?_, h⟩
    unfold MemoryExactMessage.readerAt FileExactMessage.readerAt
    rw [h.closed]
    cases hclosed : m.closed with
    | true => rfl
    | false =>
      have hcontents := h.contents hclosed
      rw [f.sized, hcontents, readAt_eq]
  | close =>
    unfold MemoryExactMessage.call FileExactMessage.call MemoryExactMessage.close
      FileExactMessage.close
    rw [h.closed]
    cases hclosed : m.closed with
    | true => exact ⟨rfl, h.maxBytes, h.closed.trans hclosed, by simp⟩
    | false => exact ⟨rfl, h.maxBytes, rfl, by simp⟩

/-- The stores that answer like a given store in memory. -/
def Stands : ExactMessage → Prop
  | .memory n => n = m
  | .limited n _ => n = m
  | .file f => Matches m f

theorem Stands.call {m : MemoryExactMessage} {store : ExactMessage} (h : Stands m store)
    (c : Call) :
    (store.call .ok c).1 = (m.call c).1 ∧ Stands (m.call c).2 (store.call .ok c).2 := by
  cases store with
  | memory n | limited n released =>
    obtain rfl : n = m := h
    exact ⟨rfl, rfl⟩
  | file f => exact Matches.call h c

/-- Without failing file operations the replies are those of a store in memory. -/
theorem Stands.replies {m : MemoryExactMessage} {store : ExactMessage} (h : Stands m store)
    (calls : List Call) :
    store.replies (calls.map (·, .ok)) = (ExactMessage.memory m).replies (calls.map (·, .ok)) := by
  induction calls generalizing m store with
  | nil => rfl
  | cons c calls ih =>
    obtain ⟨hreply, hstands⟩ := h.call c
    have hrest := ih hstands
    simp only [List.map_cons, ExactMessage.replies]
    rw [hreply, hrest]
    rfl

/-- Whatever the configured kind, a new store answers like one in memory, and it is
refused for the same maximum. -/
theorem factoryNew_stands (hknown : storage ≠ .unknown) (slot : Bool) (maxBytes : ℤ) :
    maxBytes < 1 ∧ factoryNew storage slot maxBytes none = .error .maximumNotPositive ∨
      ¬ maxBytes < 1 ∧ ∃ store, factoryNew storage slot maxBytes none = .ok store ∧
        Stands (emptyMemory maxBytes) store := by
  have hempty : Matches (emptyMemory maxBytes) (emptyFile maxBytes) := ⟨rfl, rfl, fun _ => rfl⟩
  by_cases hmax : maxBytes < 1
  · cases storage <;> cases slot <;> simp_all [factoryNew, newExactMessage]
  · right
    refine ⟨hmax, ?_⟩
    cases storage with
    | memory =>
      exact ⟨.memory (emptyMemory maxBytes), by simp [factoryNew, newExactMessage, hmax], rfl⟩
    | file =>
      exact ⟨.file (emptyFile maxBytes),
        by simp [factoryNew, newExactMessage, newFileExactMessage, hmax], hempty⟩
    | hybrid =>
      cases slot with
      | true =>
        exact ⟨.limited (emptyMemory maxBytes) false,
          by simp [factoryNew, newExactMessage, hmax], rfl⟩
      | false =>
        exact ⟨.file (emptyFile maxBytes),
          by simp [factoryNew, newExactMessage, newFileExactMessage, hmax], hempty⟩
    | unknown => exact absurd rfl hknown

/-- Stores of all kinds reply the same to the same calls. -/
theorem replies_same (hknown : storage ≠ .unknown) (slot : Bool) (maxBytes : ℤ)
    (calls : List Call) :
    (factoryNew storage slot maxBytes none).map (·.replies (calls.map (·, .ok))) =
      (newExactMessage .memory maxBytes none).map (·.replies (calls.map (·, .ok))) := by
  rcases factoryNew_stands storage hknown slot maxBytes with ⟨hmax, hnew⟩ | ⟨hmax, store, hnew, h⟩
  · rw [hnew, newExactMessage, if_pos hmax]
  · rw [hnew, newExactMessage, if_neg hmax]
    exact congrArg Except.ok (h.replies calls)

/-- A hybrid store in memory with its sync.Once. `releases` counts how often its
slot was given back and `closes` how many Close calls have returned. -/
structure HybridStore where
  message : MemoryExactMessage
  once : Bool
  releases : ℕ
  closes : ℕ
  deriving DecidableEq

/-- The memory slots of a factory while sessions create and close hybrid stores.
Between its steps a creation holds a slot, and a Close has closed its store. -/
structure SlotState where
  limit : ℕ
  inUse : ℕ
  /-- Creations that hold a slot, by their maximum. -/
  creating : List ℤ
  /-- Creations that failed and have not given their slot back. -/
  refused : ℕ
  stores : List HybridStore
  /-- The stores whose Close has closed the message and is about to release. -/
  closing : List ℕ
  deriving DecidableEq

def newExactMessageFactory (memoryMessageLimit : ℤ) : SlotState :=
  ⟨(max memoryMessageLimit 0).toNat, 0, [], 0, [], []⟩

/-- The atomic steps of New and Close on hybrid stores. -/
inductive SlotStep
  | acquire (maxBytes : ℤ)
  | construct (maxBytes : ℤ)
  | giveBack
  | closeMessage (k : ℕ)
  | releaseOnce (k : ℕ)
  deriving DecidableEq

def HybridStore.closeMessage (s : HybridStore) : HybridStore :=
  { s with message := s.message.close.2 }

/-- releaseOnce.Do and the return of Close. -/
def HybridStore.release (s : HybridStore) : HybridStore :=
  { s with once := true, releases := if s.once then s.releases else s.releases + 1,
           closes := s.closes + 1 }

variable (f : SlotState)

/-- A step of one session; `none` when no session can take it, which includes a
receive from an empty channel. -/
def SlotState.step : SlotStep → Option SlotState
  | .acquire maxBytes =>
    -- without a free slot the default branch creates a file store
    if f.inUse < f.limit then
      some { f with inUse := f.inUse + 1, creating := maxBytes :: f.creating }
    else some f
  | .construct maxBytes =>
    if maxBytes ∉ f.creating then none
    else match newExactMessage .memory maxBytes none with
      | .ok (.memory m) => some { f with
          creating := f.creating.erase maxBytes
          stores := f.stores ++ [⟨m, false, 0, 0⟩] }
      | _ => some { f with creating := f.creating.erase maxBytes, refused := f.refused + 1 }
  | .giveBack =>
    if f.refused = 0 ∨ f.inUse = 0 then none
    else some { f with refused := f.refused - 1, inUse := f.inUse - 1 }
  | .closeMessage k =>
    if k < f.stores.length then some { f with
      stores := f.stores.modify k HybridStore.closeMessage, closing := k :: f.closing }
    else none
  | .releaseOnce k =>
    match f.stores[k]? with
    | none => none
    | some s =>
      if k ∉ f.closing then none
      else if s.once then some { f with
        stores := f.stores.modify k HybridStore.release, closing := f.closing.erase k }
      else if f.inUse = 0 then none
      else some { f with
        stores := f.stores.modify k HybridStore.release, closing := f.closing.erase k
        inUse := f.inUse - 1 }

def SlotState.run (f : SlotState) : List SlotStep → Option SlotState
  | [] => some f
  | a :: rest => (f.step a).bind fun g => g.run rest

private theorem countP_modify {α : Type*} (p : α → Bool) (g : α → α) (l : List α) (k : ℕ) (a : α)
    (h : l[k]? = some a) :
    (l.modify k g).countP p + (if p a then 1 else 0) =
      l.countP p + (if p (g a) then 1 else 0) := by
  induction l generalizing k with
  | nil => simp at h
  | cons b l ih =>
    cases k with
    | zero =>
      obtain rfl : b = a := by simpa using h
      simp only [List.modify_zero_cons, List.countP_cons]
      omega
    | succ k =>
      have hrest := ih k (by simpa using h)
      simp only [List.modify_succ_cons, List.countP_cons]
      omega

private theorem mem_modify {α : Type*} (g : α → α) (l : List α) (k : ℕ) (a : α)
    (h : a ∈ l.modify k g) : a ∈ l ∨ ∃ b ∈ l, a = g b := by
  obtain ⟨i, hi⟩ := List.mem_iff_getElem?.mp h
  rw [List.getElem?_modify] at hi
  obtain ⟨b, hb, rfl⟩ := Option.map_eq_some_iff.mp hi
  have hmem := List.mem_of_getElem? hb
  split
  · exact Or.inr ⟨b, hmem, rfl⟩
  · exact Or.inl hmem

/-- The stores that no Close has returned for. -/
def SlotState.unclosed : ℕ := f.stores.countP fun s => s.closes = 0

/-- What holds between the steps. A slot belongs to a creation or to a store that is
not yet closed. -/
structure SlotInvariant : Prop where
  accounted : f.inUse = f.creating.length + f.refused + f.unclosed
  bounded : f.inUse ≤ f.limit
  once : ∀ s ∈ f.stores, s.once = decide (s.closes ≠ 0)
  released : ∀ s ∈ f.stores, s.releases = if s.closes = 0 then 0 else 1
  closing : ∀ k ∈ f.closing, k < f.stores.length

theorem newExactMessageFactory_invariant (limit : ℤ) :
    SlotInvariant (newExactMessageFactory limit) := by
  refine ⟨rfl, Nat.zero_le _, ?_, ?_, ?_⟩ <;> simp [newExactMessageFactory]

/-- What a step can do. -/
inductive Moves (f : SlotState) : SlotState → Prop
  | idle : Moves f f
  | acquired (maxBytes : ℤ) (h : f.inUse < f.limit) :
      Moves f { f with inUse := f.inUse + 1, creating := maxBytes :: f.creating }
  | created (maxBytes : ℤ) (m : MemoryExactMessage) (h : maxBytes ∈ f.creating) :
      Moves f { f with
        creating := f.creating.erase maxBytes, stores := f.stores ++ [⟨m, false, 0, 0⟩] }
  | failed (maxBytes : ℤ) (h : maxBytes ∈ f.creating) :
      Moves f { f with creating := f.creating.erase maxBytes, refused := f.refused + 1 }
  | gaveBack (h : f.refused ≠ 0) (h' : f.inUse ≠ 0) :
      Moves f { f with refused := f.refused - 1, inUse := f.inUse - 1 }
  | closed (k : ℕ) (s : HybridStore) (h : f.stores[k]? = some s) :
      Moves f { f with
        stores := f.stores.modify k HybridStore.closeMessage, closing := k :: f.closing }
  | released (k : ℕ) (s : HybridStore) (h : f.stores[k]? = some s)
      (h' : s.once = false → f.inUse ≠ 0) :
      Moves f { f with
        stores := f.stores.modify k HybridStore.release, closing := f.closing.erase k
        inUse := if s.once then f.inUse else f.inUse - 1 }

section

variable {g f : SlotState} (hf : SlotInvariant f)

include hf

omit hf in
theorem SlotState.step_moves {a : SlotStep} (h : f.step a = some g) : Moves f g := by
  cases a with
  | acquire maxBytes =>
    simp only [SlotState.step] at h
    split_ifs at h with hfree <;> obtain rfl := Option.some.inj h
    · exact .acquired maxBytes hfree
    · exact .idle
  | construct maxBytes =>
    simp only [SlotState.step] at h
    split_ifs at h with hmem
    split at h <;> obtain rfl := Option.some.inj h
    · exact .created maxBytes _ hmem
    · exact .failed maxBytes hmem
  | giveBack =>
    simp only [SlotState.step] at h
    split_ifs at h with hnone
    obtain rfl := Option.some.inj h
    rw [not_or] at hnone
    exact .gaveBack hnone.1 hnone.2
  | closeMessage k =>
    simp only [SlotState.step] at h
    split_ifs at h with hk
    obtain rfl := Option.some.inj h
    exact .closed k f.stores[k] (List.getElem?_eq_getElem hk)
  | releaseOnce k =>
    simp only [SlotState.step] at h
    split at h
    · simp at h
    · rename_i s hs
      split_ifs at h with hclosing honce hempty <;> obtain rfl := Option.some.inj h
      · simpa [if_pos honce] using Moves.released k s hs (by simp [honce])
      · simpa [if_neg honce] using Moves.released k s hs fun _ => hempty

/-- A store that is changed in a way that keeps its clauses. -/
private theorem SlotInvariant.modify (k : ℕ) (change : HybridStore → HybridStore)
    (honce : ∀ s ∈ f.stores, (change s).once = decide ((change s).closes ≠ 0))
    (hreleased : ∀ s ∈ f.stores, (change s).releases = if (change s).closes = 0 then 0 else 1) :
    (∀ s ∈ f.stores.modify k change, s.once = decide (s.closes ≠ 0)) ∧
      ∀ s ∈ f.stores.modify k change, s.releases = if s.closes = 0 then 0 else 1 := by
  constructor
  · intro s hs
    rcases mem_modify change f.stores k s hs with hold | ⟨b, hb, rfl⟩
    · exact hf.once s hold
    · exact honce b hb
  · intro s hs
    rcases mem_modify change f.stores k s hs with hold | ⟨b, hb, rfl⟩
    · exact hf.released s hold
    · exact hreleased b hb

theorem SlotInvariant.moves (h : Moves f g) : SlotInvariant g ∧ g.limit = f.limit := by
  have haccounted := hf.accounted
  have hbounded := hf.bounded
  cases h with
  | idle => exact ⟨hf, rfl⟩
  | acquired maxBytes hfree =>
    refine ⟨⟨?_, hfree, hf.once, hf.released, hf.closing⟩, rfl⟩
    change f.inUse + 1 = (f.creating.length + 1) + f.refused + f.unclosed
    omega
  | created maxBytes m hmem =>
    have hlength := List.length_erase_of_mem hmem
    have hpos := List.length_pos_of_mem hmem
    refine ⟨⟨?_, hbounded, ?_, ?_, ?_⟩, rfl⟩
    · simp only [SlotState.unclosed, List.countP_append] at haccounted ⊢
      rw [List.countP_singleton, if_pos (by simp)]
      omega
    · exact List.forall_mem_append.mpr ⟨hf.once, List.forall_mem_singleton.mpr rfl⟩
    · exact List.forall_mem_append.mpr ⟨hf.released, List.forall_mem_singleton.mpr rfl⟩
    · intro j hj
      have := hf.closing j hj
      simp only [List.length_append]
      omega
  | failed maxBytes hmem =>
    have hlength := List.length_erase_of_mem hmem
    have hpos := List.length_pos_of_mem hmem
    refine ⟨⟨?_, hbounded, hf.once, hf.released, hf.closing⟩, rfl⟩
    change f.inUse = (f.creating.erase maxBytes).length + (f.refused + 1) + f.unclosed
    omega
  | gaveBack hrefused hinUse =>
    refine ⟨⟨?_, (Nat.sub_le _ _).trans hbounded, hf.once, hf.released, hf.closing⟩, rfl⟩
    change f.inUse - 1 = f.creating.length + (f.refused - 1) + f.unclosed
    omega
  | closed k s hs =>
    obtain ⟨honce, hreleased⟩ := hf.modify k HybridStore.closeMessage hf.once hf.released
    refine ⟨⟨?_, hbounded, honce, hreleased, ?_⟩, rfl⟩
    · have hcount := countP_modify (fun s => s.closes = 0) HybridStore.closeMessage f.stores k s hs
      exact haccounted.trans
        (by rw [SlotState.unclosed, SlotState.unclosed, Nat.add_right_cancel hcount])
    · intro j hj
      rw [List.length_modify]
      rcases List.mem_cons.mp hj with rfl | hold
      · exact (List.getElem?_eq_some_iff.mp hs).1
      · exact hf.closing j hold
  | released k s hs hinUse =>
    have hmem : s ∈ f.stores := List.mem_of_getElem? hs
    have hsOnce := hf.once s hmem
    obtain ⟨honce, hreleased⟩ := hf.modify k HybridStore.release
      (fun b _ => by simp [HybridStore.release]) (fun b hb => by
        have := hf.released b hb
        have := hf.once b hb
        simp only [HybridStore.release]
        cases hb' : b.once <;> simp_all)
    refine ⟨⟨?_, ?_, honce, hreleased, ?_⟩, rfl⟩
    · have hcount := countP_modify (fun s => s.closes = 0) HybridStore.release f.stores k s hs
      simp only [SlotState.unclosed, HybridStore.release] at hcount haccounted ⊢
      cases hs' : s.once with
      | true =>
        have hclosed : s.closes ≠ 0 := by simpa [hs'] using hsOnce
        simp [hclosed] at hcount
        rw [if_pos rfl]
        omega
      | false =>
        have hopen : s.closes = 0 := by simpa [hs'] using hsOnce
        simp [hopen] at hcount
        rw [if_neg Bool.false_ne_true]
        omega
    · split_ifs
      · exact hbounded
      · exact (Nat.sub_le _ _).trans hbounded
    · intro j hj
      rw [List.length_modify]
      exact hf.closing j (List.mem_of_mem_erase hj)

theorem SlotInvariant.run (steps : List SlotStep) (h : f.run steps = some g) :
    SlotInvariant g ∧ g.limit = f.limit := by
  induction steps generalizing f with
  | nil =>
    obtain rfl := Option.some.inj h
    exact ⟨hf, rfl⟩
  | cons a rest ih =>
    obtain ⟨next, hstep, hrest⟩ := Option.bind_eq_some_iff.mp h
    obtain ⟨hnext, hlimit⟩ := hf.moves (SlotState.step_moves hstep)
    obtain ⟨hg, hlimit'⟩ := ih hnext hrest
    exact ⟨hg, hlimit'.trans hlimit⟩

/-- A receive finds a slot in the channel, so what was begun can be completed. -/
theorem SlotInvariant.unblocked :
    (f.refused ≠ 0 → (f.step .giveBack).isSome = true) ∧
      ∀ k ∈ f.closing, (f.step (.releaseOnce k)).isSome = true := by
  have haccounted := hf.accounted
  constructor
  · intro hrefused
    simp only [SlotState.step]
    rw [if_neg (by omega)]
    rfl
  · intro k hk
    have hlt := hf.closing k hk
    simp only [SlotState.step, List.getElem?_eq_getElem hlt]
    rw [if_neg (not_not.mpr hk)]
    cases honce : f.stores[k].once with
    | true => rfl
    | false =>
      have hmem : f.stores[k] ∈ f.stores := List.getElem_mem hlt
      have hopen : f.stores[k].closes = 0 := by simpa [honce] using hf.once _ hmem
      have hpos : 0 < f.unclosed := List.countP_pos_iff.mpr ⟨_, hmem, by simpa using hopen⟩
      rw [if_neg Bool.false_ne_true, if_neg (by omega)]
      rfl

end

/-- Stores of every kind reply alike while no file operation fails. In every
interleaving of the steps of New and Close the slots in use are those of the
creations under way and of the hybrid stores in memory that are not yet closed; they
never exceed the limit, each closed store has given back one slot, and no session
waits for a slot. -/
theorem exact_messages_interchangeable (hknown : storage ≠ .unknown) (slot : Bool) (maxBytes : ℤ)
    (calls : List Call) (memoryMessageLimit : ℤ) (steps : List SlotStep) (f : SlotState)
    (hrun : (newExactMessageFactory memoryMessageLimit).run steps = some f) :
    (factoryNew storage slot maxBytes none).map (·.replies (calls.map (·, .ok))) =
        (newExactMessage .memory maxBytes none).map (·.replies (calls.map (·, .ok))) ∧
      f.inUse = f.creating.length + f.refused + f.unclosed ∧
      f.inUse ≤ (max memoryMessageLimit 0).toNat ∧
      (∀ s ∈ f.stores, s.releases = if s.closes = 0 then 0 else 1) ∧
      (f.refused ≠ 0 → (f.step .giveBack).isSome = true) ∧
      ∀ k ∈ f.closing, (f.step (.releaseOnce k)).isSome = true := by
  obtain ⟨hf, hlimit⟩ := (newExactMessageFactory_invariant memoryMessageLimit).run steps hrun
  have hbounded := hf.bounded
  rw [hlimit] at hbounded
  exact ⟨replies_same storage hknown slot maxBytes calls, hf.accounted, hbounded, hf.released,
    hf.unblocked⟩

/-- One slot, taken by a store that is closed twice while a second creation finds no
slot free. -/
def closedTwice : List SlotStep :=
  [.acquire 5, .construct 5, .acquire 5, .closeMessage 0, .closeMessage 0, .releaseOnce 0,
    .releaseOnce 0]

def closedTwiceEnd : SlotState := ⟨1, 0, [], 0, [⟨⟨[], 5, true⟩, true, 1, 2⟩], []⟩

theorem exact_messages_interchangeable_closed_twice :
    (newExactMessageFactory 1).run closedTwice = some closedTwiceEnd ∧
      (factoryNew .file false 5 none).map
        (·.replies ([.addBody [1], .readerAt, .close].map (·, .ok))) =
        (newExactMessage .memory 5 none).map
          (·.replies ([.addBody [1], .readerAt, .close].map (·, .ok))) ∧
      closedTwiceEnd.inUse = closedTwiceEnd.unclosed :=
  ⟨by decide, (exact_messages_interchangeable .file (by decide) false 5
      [.addBody [1], .readerAt, .close] 1 closedTwice closedTwiceEnd (by decide)).1,
    (exact_messages_interchangeable .file (by decide) false 5 [] 1 closedTwice closedTwiceEnd
      (by decide)).2.1.trans (by decide)⟩

end MilterGuard.ExactMessages
