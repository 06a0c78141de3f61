import MilterGuard.ExactMessages
import MilterGuard.SessionSteps
import MilterGuard.ValidTexts

/-!
The exact message of a transaction as the authentication verifier receives it. The
capture is the part of a session that the callbacks of a message act on: its phase,
the store and the error that stops the capture. The session model, which knows a
store by its number only, moves in step with it.
-/
namespace MilterGuard.ExactCapture

open ByteStrings WireProtocol SessionState SessionCommands ExactMessages
open ValidTexts (replaceAll_singleton)

/-- Every line ending as CRLF: a CRLF, a CR and a LF are one line ending each. -/
def withCRLF : Bytes → Bytes
  | 0x0D :: 0x0A :: rest => 0x0D :: 0x0A :: withCRLF rest
  | 0x0D :: rest => 0x0D :: 0x0A :: withCRLF rest
  | 0x0A :: rest => 0x0D :: 0x0A :: withCRLF rest
  | b :: rest => b :: withCRLF rest
  | [] => []

private theorem replaceAll_crlf_cons (b : UInt8) (rest : Bytes)
    (h : ¬ (b = 0x0D ∧ rest.head? = some 0x0A)) :
    replaceAll (b :: rest) crlf [0x0A] = b :: replaceAll rest crlf [0x0A] := by
  have hnot : hasPrefix (b :: rest) crlf = false := by
    rw [Bool.eq_false_iff]
    intro hstart
    obtain ⟨tail, htail⟩ := List.isPrefixOf_iff_prefix.mp hstart
    obtain ⟨rfl, rfl⟩ := List.cons.inj htail.symm
    exact h ⟨rfl, rfl⟩
  simp only [replaceAll, replaceFrom, hnot, Bool.false_eq_true, if_false]

private theorem replaceAll_crlf (rest : Bytes) :
    replaceAll (0x0D :: 0x0A :: rest) crlf [0x0A] = 0x0A :: replaceAll rest crlf [0x0A] := rfl

/-- The three replacements convert every line ending. -/
theorem headerValue_eq (value : Bytes) : headerValue value = withCRLF value := by
  have hlines : ∀ text : Bytes, replaceAll (replaceAll text [0x0D] [0x0A]) [0x0A] crlf =
      text.flatMap fun b => if b = 0x0D ∨ b = 0x0A then crlf else [b] := by
    intro text
    rw [replaceAll_singleton, replaceAll_singleton, List.flatMap_assoc]
    congr 1
    funext b
    by_cases hcr : b = 0x0D
    · simp [hcr]
    · by_cases hlf : b = 0x0A <;> simp [hcr]
  rw [headerValue, hlines]
  fun_induction withCRLF value with
  | case1 rest ih => rw [replaceAll_crlf, List.flatMap_cons, ih]; rfl
  | case2 rest hrest ih =>
    rw [replaceAll_crlf_cons, List.flatMap_cons, ih]
    · rfl
    · rintro ⟨-, hhead⟩
      obtain ⟨tail, rfl⟩ := List.head?_eq_some_iff.mp hhead
      exact hrest tail rfl
  | case3 rest ih =>
    rw [replaceAll_crlf_cons _ _ (by simp), List.flatMap_cons, ih]
    rfl
  | case4 b rest hcrlf hcr hlf ih =>
    rw [replaceAll_crlf_cons _ _ (by simpa using fun h => absurd h hcr), List.flatMap_cons, ih,
      if_neg (by simpa using ⟨hcr, hlf⟩)]
    rfl
  | case5 => rfl

/-- The settings of the exact-message capture in internal authentication mode. -/
structure CaptureSettings where
  storage : Option Storage
  factory : Bool
  maxMessageSize : ℤ

structure Capture where
  phase : ProtocolPhase
  store : Option ExactMessage
  failed : Bool

/-- resetMessage for a new envelope. An unset storage is memory. -/
def openCapture (settings : CaptureSettings) (slot : Bool) (fault : Option ExactError) : Capture :=
  if ¬ settings.factory then ⟨.envelope, none, true⟩
  else match factoryNew (settings.storage.getD .memory) slot settings.maxMessageSize fault with
    | .ok store => ⟨.envelope, some store, false⟩
    | .error _ => ⟨.envelope, none, true⟩

def Reply.failed : Reply → Bool
  | .done err => err.isSome
  | .reader (.error _) => true
  | .reader (.ok _) => false

variable (c : Capture)

/-- Whether the write that a call makes would fail. -/
def Capture.writeFails (call : Call) (answer : FileAnswer) : Bool :=
  match c.store with
  | none => false
  | some store => Reply.failed (store.call answer call).1

def Capture.captureExact (call : Call) (answer : FileAnswer) : Capture :=
  match c.store with
  | none => c
  | some store =>
    if c.failed then c
    else { c with
      store := some (store.call answer call).2
      failed := Reply.failed (store.call answer call).1 }

/-- The callbacks before the end of the body. -/
inductive Callback
  | header (payload : Bytes)
  | endHeaders
  | body (payload : Bytes)
  deriving DecidableEq

/-- The call that a callback makes on the store; `none` when the session ends. -/
def Capture.callFor : Callback → Option Call
  | .header payload =>
    if c.phase ≠ .envelope then none
    else (parseHeader payload).map fun header => .addHeader header.1 header.2
  | .endHeaders => if c.phase ≠ .envelope then none else some .endHeaders
  | .body payload => if c.phase ≠ .body then none else some (.addBody payload)

def Callback.phaseAfter (phase : ProtocolPhase) : Callback → ProtocolPhase
  | .endHeaders => .body
  | _ => phase

def Capture.callback (cb : Callback) (answer : FileAnswer) : Option Capture :=
  (c.callFor cb).map fun call =>
    { c with phase := cb.phaseAfter c.phase }.captureExact call answer

def Capture.run (c : Capture) : List (Callback × FileAnswer) → Option Capture
  | [] => some c
  | (cb, answer) :: rest => (c.callback cb answer).bind fun c => c.run rest

/-- The end of the body, with its last chunk if there is one. -/
def Capture.endBody (payload : Bytes) (answer : FileAnswer) : Option Capture :=
  if c.phase ≠ .body then none
  else if payload ≠ [] then some (c.captureExact (.addBody payload) answer)
  else some c

/-- The message of the transaction that is verified: what the reader gives from the
start to its size. -/
def Capture.message : Option Bytes :=
  match c.store with
  | none => none
  | some store =>
    if c.failed then none
    else match (store.call .ok .readerAt).1 with
      | .reader (.ok reader) => some (reader.readAt reader.size 0).1
      | _ => none

/-- An open store with the given contents. -/
def Holds (bytes : Bytes) : ExactMessage → Prop
  | .memory m => m.data = bytes ∧ m.closed = false
  | .limited m _ => m.data = bytes ∧ m.closed = false
  | .file m => m.contents = bytes ∧ m.closed = false

/-- The bytes that a writing call appends. -/
def Call.bytes : Call → Option Bytes
  | .addHeader name value => some (exactHeader name value)
  | .endHeaders => some crlf
  | .addBody payload => some payload
  | .readerAt => none
  | .close => none

variable {c c' : Capture} {payload last : Bytes} {store : ExactMessage} {call : Call}
  {cb : Callback} {answer : FileAnswer} (settings : CaptureSettings) (slot : Bool)
  (fault : Option ExactError) (callbacks : List (Callback × FileAnswer))

private theorem memory_append_holds {m : MemoryExactMessage} {bytes : Bytes}
    (h : m.data = bytes ∧ m.closed = false) (hok : (m.append payload).1 = none) :
    (m.append payload).2.data = bytes ++ payload ∧ (m.append payload).2.closed = false := by
  unfold MemoryExactMessage.append at hok ⊢
  split_ifs at hok ⊢
  exact ⟨by rw [← h.1], h.2⟩

private theorem file_append_holds {m : FileExactMessage} {bytes : Bytes}
    (h : m.contents = bytes ∧ m.closed = false) (hok : (m.append answer payload).1 = none) :
    (m.append answer payload).2.contents = bytes ++ payload ∧
      (m.append answer payload).2.closed = false := by
  unfold FileExactMessage.append at hok ⊢
  dsimp only at hok ⊢
  split_ifs at hok ⊢ with hclosed hlarge hwrite hshort
  rw [not_not] at hshort
  refine ⟨?_, h.2⟩
  simp only [FileExactMessage.wrote, hshort, List.take_length, h.1]

/-- A write that succeeds appends its bytes, whatever the kind of the store. -/
theorem Holds.write {bytes : Bytes} (h : Holds bytes store) (hcall : Call.bytes call = some payload)
    (hok : Reply.failed (store.call answer call).1 = false) :
    Holds (bytes ++ payload) (store.call answer call).2 := by
  have hnone : ∀ err : Option ExactError, Reply.failed (.done err) = false → err = none := by
    intro err herr
    simpa [Reply.failed] using herr
  cases store with
  | memory m | limited m released =>
    cases call <;> simp only [Call.bytes, Option.some.injEq, reduceCtorEq] at hcall <;>
      subst hcall <;> exact memory_append_holds h (hnone _ hok)
  | file m =>
    cases call <;> simp only [Call.bytes, Option.some.injEq, reduceCtorEq] at hcall <;>
      subst hcall <;> exact file_append_holds h (hnone _ hok)

/-- The verifier reads the whole contents. -/
theorem message_of_holds {bytes : Bytes} (hstore : c.store = some store)
    (hfailed : c.failed = false) (h : Holds bytes store) : c.message = some bytes := by
  have hread : ∀ data : Bytes, (fileReadAt data data.length 0).1 = data := by
    simp [fileReadAt]
  simp only [Capture.message, hstore, hfailed]
  cases store with
  | memory m | limited m released =>
    obtain ⟨rfl, hopen⟩ := h
    simp [ExactMessage.call, MemoryExactMessage.call, MemoryExactMessage.readerAt, hopen, readAt_eq,
      hread]
  | file m =>
    obtain ⟨rfl, hopen⟩ := h
    simp [ExactMessage.call, FileExactMessage.call, FileExactMessage.readerAt, hopen, m.sized,
      hread]

/-- As long as nothing failed the store holds what was captured. -/
def Captures (c : Capture) (bytes : Bytes) : Prop :=
  c.failed = false → ∃ store, c.store = some store ∧ Holds bytes store

theorem openCapture_captures : Captures (openCapture settings slot fault) [] := by
  have hempty : ∀ storage store, factoryNew storage slot settings.maxMessageSize fault = .ok store →
      Holds [] store := by
    intro storage store hnew
    unfold factoryNew newExactMessage newFileExactMessage at hnew
    split_ifs at hnew <;> cases storage <;> cases fault <;> simp_all <;> subst hnew <;>
      exact ⟨rfl, rfl⟩
  intro hfailed
  unfold openCapture at hfailed ⊢
  split_ifs at hfailed ⊢
  rcases hnew : factoryNew (settings.storage.getD .memory) slot settings.maxMessageSize fault with
    err | store
  · simp [hnew] at hfailed
  · exact ⟨store, rfl, hempty _ store hnew⟩

theorem message_of_failed (h : c.failed = true) : c.message = none := by
  unfold Capture.message
  cases c.store with
  | none => rfl
  | some store => rw [h]; rfl

theorem Captures.message {bytes : Bytes} (h : Captures c bytes) :
    c.message = if c.failed then none else some bytes := by
  cases hfailed : c.failed with
  | true => exact message_of_failed hfailed
  | false =>
    obtain ⟨store, hstore, hholds⟩ := h hfailed
    exact message_of_holds hstore hfailed hholds

/-- A write keeps the invariant, the first failure sets the error, and the error stays. -/
theorem Captures.captureExact {bytes : Bytes} (h : Captures c bytes) (answer : FileAnswer)
    (hcall : Call.bytes call = some payload) :
    Captures (c.captureExact call answer) (bytes ++ payload) ∧
      (c.captureExact call answer).failed = (c.failed || c.writeFails call answer) := by
  unfold Capture.captureExact Capture.writeFails
  cases hfailed : c.failed with
  | true =>
    cases hstore : c.store with
    | none => exact ⟨fun hok => by simp [hfailed] at hok, hfailed⟩
    | some store =>
      exact ⟨fun hok => by simp [hfailed] at hok, hfailed⟩
  | false =>
    obtain ⟨store, hstore, hholds⟩ := h hfailed
    simp only [hstore, Bool.false_eq_true, if_false, Bool.false_or, and_true]
    intro hok
    exact ⟨_, rfl, hholds.write hcall hok⟩

/-- The bytes that a callback adds. -/
def Callback.bytes : Callback → Bytes
  | .header payload => ((parseHeader payload).map fun h => exactHeader h.1 h.2).getD []
  | .endHeaders => crlf
  | .body payload => payload

theorem callFor_bytes (h : c.callFor cb = some call) :
    Call.bytes call = some cb.bytes := by
  cases cb with
  | header payload =>
    simp only [Capture.callFor] at h
    split_ifs at h
    obtain ⟨header, hparse, rfl⟩ := Option.map_eq_some_iff.mp h
    simp [Call.bytes, Callback.bytes, hparse]
  | endHeaders | body payload =>
    simp only [Capture.callFor] at h
    split_ifs at h
    obtain rfl := Option.some.inj h
    rfl

/-- Whether a write of the run fails. -/
def Capture.someWriteFails (c : Capture) : List (Callback × FileAnswer) → Bool
  | [] => false
  | (cb, answer) :: rest =>
    (c.callFor cb).any (c.writeFails · answer) ||
      (c.callback cb answer).any (·.someWriteFails rest)

theorem Captures.callback {bytes : Bytes} (h : Captures c bytes)
    (hc : c.callback cb answer = some c') :
    Captures c' (bytes ++ cb.bytes) ∧
      c'.failed = (c.failed || (c.callFor cb).any (c.writeFails · answer)) := by
  obtain ⟨call, hcall, rfl⟩ := Option.map_eq_some_iff.mp hc
  have hphase : Captures { c with phase := cb.phaseAfter c.phase } bytes := h
  obtain ⟨hnext, hfailed⟩ := hphase.captureExact answer (callFor_bytes hcall)
  refine ⟨hnext, ?_⟩
  rw [hfailed, hcall]
  rfl

/-- After a run the store holds the bytes of all its callbacks unless a write failed. -/
theorem Captures.run {bytes : Bytes} (h : Captures c bytes) (hrun : c.run callbacks = some c') :
    Captures c' (bytes ++ callbacks.flatMap fun step => step.1.bytes) ∧
      c'.failed = (c.failed || c.someWriteFails callbacks) := by
  induction callbacks generalizing c bytes with
  | nil =>
    obtain rfl := Option.some.inj hrun
    refine ⟨?_, by simp [Capture.someWriteFails]⟩
    simpa using h
  | cons step rest ih =>
    obtain ⟨next, hnext, hrest⟩ := Option.bind_eq_some_iff.mp hrun
    obtain ⟨hcaptures, hfailed⟩ := h.callback hnext
    obtain ⟨hend, hfailedEnd⟩ := ih hcaptures hrest
    constructor
    · simpa using hend
    · rw [hfailedEnd, hfailed, Capture.someWriteFails, hnext, Option.any_some, Bool.or_assoc]

def headers (callbacks : List Callback) : List (Bytes × Bytes) :=
  callbacks.filterMap fun
    | .header payload => parseHeader payload
    | _ => none

def bodies (callbacks : List Callback) : List Bytes :=
  callbacks.filterMap fun
    | .body payload => some payload
    | _ => none

/-- The message of a transaction byte for byte, with the last chunk of its body. -/
def exactContents (callbacks : List Callback) (last : Bytes) : Bytes :=
  (headers callbacks).flatMap (fun h => h.1 ++ ascii ": " ++ withCRLF h.2 ++ crlf) ++ crlf ++
    (bodies callbacks).flatten ++ last

theorem callback_phase (h : c.callback cb answer = some c') : c'.phase = cb.phaseAfter c.phase := by
  obtain ⟨call, -, rfl⟩ := Option.map_eq_some_iff.mp h
  unfold Capture.captureExact
  split
  · rfl
  · split_ifs <;> rfl

/-- After the end of the headers only body chunks are taken. -/
private theorem run_from_body (hphase : c.phase = .body) (hrun : c.run callbacks = some c') :
    headers (callbacks.map Prod.fst) = [] ∧
      callbacks.flatMap (fun step => step.1.bytes) = (bodies (callbacks.map Prod.fst)).flatten := by
  induction callbacks generalizing c with
  | nil => exact ⟨rfl, rfl⟩
  | cons step rest ih =>
    obtain ⟨cb, answer⟩ := step
    obtain ⟨next, hnext, hrest⟩ := Option.bind_eq_some_iff.mp hrun
    have hnextPhase := callback_phase hnext
    cases cb with
    | header payload | endHeaders => simp [Capture.callback, Capture.callFor, hphase] at hnext
    | body payload =>
      obtain ⟨hheaders, hbytes⟩ := ih (hnextPhase.trans hphase) hrest
      refine ⟨by simpa [headers] using hheaders, ?_⟩
      rw [List.flatMap_cons, hbytes]
      rfl

/-- A run to the body phase takes headers, one end of the headers and body chunks. -/
private theorem run_from_envelope (hphase : c.phase = .envelope) (hrun : c.run callbacks = some c')
    (hend : c'.phase = .body) :
    callbacks.flatMap (fun step => step.1.bytes) = exactContents (callbacks.map Prod.fst) [] := by
  induction callbacks generalizing c with
  | nil =>
    obtain rfl := Option.some.inj hrun
    exact absurd (hphase.symm.trans hend) (by decide)
  | cons step rest ih =>
    obtain ⟨cb, answer⟩ := step
    obtain ⟨next, hnext, hrest⟩ := Option.bind_eq_some_iff.mp hrun
    have hnextPhase := callback_phase hnext
    cases cb with
    | header payload =>
      rw [List.flatMap_cons, ih (hnextPhase.trans hphase) hrest]
      cases hparse : parseHeader payload with
      | none => simp [Capture.callback, Capture.callFor, hparse] at hnext
      | some header =>
        simp [exactContents, headers, bodies, Callback.bytes, exactHeader, hparse, headerValue_eq]
    | endHeaders =>
      obtain ⟨hheaders, hbytes⟩ := run_from_body rest hnextPhase hrest
      have hcons : exactContents (.endHeaders :: rest.map Prod.fst) [] =
          exactContents (rest.map Prod.fst) [] := rfl
      rw [List.flatMap_cons, hbytes, List.map_cons, hcons, exactContents, hheaders]
      simp [Callback.bytes]
    | body payload => simp [Capture.callback, Capture.callFor, hphase] at hnext

/-- What the verifier receives for the callbacks of one transaction. -/
def verifierMessage (last : Bytes) (answer : FileAnswer) : Option Bytes :=
  (((openCapture settings slot fault).run callbacks).bind (·.endBody last answer)).bind
    Capture.message

/-- Whether an append of the transaction fails, that of the last chunk included. -/
def Capture.appendFails (c : Capture) (callbacks : List (Callback × FileAnswer)) (last : Bytes)
    (answer : FileAnswer) : Bool :=
  c.someWriteFails callbacks ||
    (c.run callbacks).any fun ready => last ≠ [] && ready.writeFails (.addBody last) answer

theorem openCapture_phase : (openCapture settings slot fault).phase = .envelope := by
  unfold openCapture
  split_ifs
  · split <;> rfl
  · rfl

theorem Captures.endBody {bytes : Bytes} (h : Captures c bytes)
    (hend : c.endBody last answer = some c') :
    c.phase = .body ∧ Captures c' (bytes ++ last) ∧
      c'.failed = (c.failed || (last ≠ [] && c.writeFails (.addBody last) answer)) := by
  unfold Capture.endBody at hend
  split_ifs at hend with hphase hlast
  · obtain rfl := Option.some.inj hend
    obtain ⟨hnext, hfailed⟩ := h.captureExact answer
      (show Call.bytes (.addBody last) = some last from rfl)
    exact ⟨not_not.mp hphase, hnext, by simpa [hlast] using hfailed⟩
  · obtain rfl := Option.some.inj hend
    obtain rfl := not_not.mp hlast
    exact ⟨not_not.mp hphase, by simpa using h, by simp⟩

/-- A transaction that reaches the verifier gives it the exact contents, unless the
store could not be created or an append failed. -/
theorem verifierMessage_eq
    (hend : ((openCapture settings slot fault).run callbacks).bind (·.endBody last answer) =
      some c) :
    verifierMessage settings slot fault callbacks last answer =
      if (openCapture settings slot fault).failed ||
          (openCapture settings slot fault).appendFails callbacks last answer then none
      else some (exactContents (callbacks.map Prod.fst) last) := by
  obtain ⟨ready, hrun, hlast⟩ := Option.bind_eq_some_iff.mp hend
  obtain ⟨hready, hreadyFailed⟩ := (openCapture_captures settings slot fault).run callbacks hrun
  obtain ⟨hphase, hcaptures, hfailed⟩ := hready.endBody hlast
  have hbytes := run_from_envelope callbacks (openCapture_phase settings slot fault) hrun hphase
  have hcontents : [] ++ callbacks.flatMap (fun step => step.1.bytes) ++ last =
      exactContents (callbacks.map Prod.fst) last := by
    rw [hbytes]
    simp [exactContents]
  rw [verifierMessage, hend, Option.bind_some, hcaptures.message, hcontents, hfailed, hreadyFailed,
    Capture.appendFails, hrun, Option.any_some, Bool.or_assoc]

/-- The verifier receives no message or the exact contents; after a failed append it
receives none, and without a failure it does receive the contents. -/
theorem verifier_message_exact (last : Bytes) (answer : FileAnswer) :
    (verifierMessage settings slot fault callbacks last answer = none ∨
      verifierMessage settings slot fault callbacks last answer =
        some (exactContents (callbacks.map Prod.fst) last)) ∧
    ((openCapture settings slot fault).appendFails callbacks last answer = true →
      verifierMessage settings slot fault callbacks last answer = none) ∧
    (verifierMessage settings slot fault callbacks last answer ≠ none ↔
      (((openCapture settings slot fault).run callbacks).bind (·.endBody last answer)).isSome ∧
        (openCapture settings slot fault).failed = false ∧
        (openCapture settings slot fault).appendFails callbacks last answer = false) := by
  cases hend : ((openCapture settings slot fault).run callbacks).bind (·.endBody last answer) with
  | none =>
    have hnone : verifierMessage settings slot fault callbacks last answer = none := by
      rw [verifierMessage, hend]
      rfl
    exact ⟨Or.inl hnone, fun _ => hnone, by simp [hnone]⟩
  | some c =>
    rw [verifierMessage_eq settings slot fault callbacks hend]
    cases (openCapture settings slot fault).failed <;>
      cases (openCapture settings slot fault).appendFails callbacks last answer <;> simp

/-- A header, the end of the headers and two chunks of which the first exceeds the limit. -/
def oversizedChunk : List (Callback × FileAnswer) :=
  [(.header (ascii "A" ++ [0] ++ ascii "b" ++ [0x0A] ++ ascii " c" ++ [0]), .ok),
    (.endHeaders, .ok), (.body (ascii "0123456789"), .ok), (.body (ascii "x"), .ok)]

/-- The second chunk would fit, but the verifier receives no message. -/
theorem verifier_message_exact_oversized :
    (openCapture ⟨some .hybrid, true, 20⟩ false none).appendFails oversizedChunk [] .ok = true ∧
      verifierMessage ⟨some .hybrid, true, 20⟩ false none oversizedChunk [] .ok = none :=
  have hfails : (openCapture ⟨some .hybrid, true, 20⟩ false none).appendFails oversizedChunk []
      .ok = true := by decide +kernel
  ⟨hfails, (verifier_message_exact ⟨some .hybrid, true, 20⟩ false none oversizedChunk [] .ok).2.1
    hfails⟩

/-! ### The session moves in step with the capture -/

section Session

open Procedures SessionSteps FinishMessage SessionRun

structure Agrees (ss : Session) (c : Capture) : Prop where
  phase : ss.phase = c.phase
  store : ss.exactMessage.isSome = c.store.isSome
  failed : ss.exactMessageErr = c.failed

variable {d : Deps}

/-- A new envelope opens the capture when the factory answers as the model of it. -/
theorem resetMessage_agrees (closeErr : Bool) (s : St) (hinternal : d.internalAuthentication = true)
    (hfactory : d.exactFactory = settings.factory) :
    Agrees (resetMessage d .envelope closeErr (openCapture settings slot fault).failed
      s).state.session (openCapture settings slot fault) := by
  have hopened : (openCapture settings slot fault).store.isSome =
      !(openCapture settings slot fault).failed := by
    unfold openCapture
    split_ifs
    · split <;> rfl
    · rfl
  have hunavailable : settings.factory = false →
      (openCapture settings slot fault).failed = true := by
    intro hnone
    simp [openCapture, hnone]
  refine ⟨?_, ?_, ?_⟩ <;>
    simp only [resetMessage, bind_run, update, hinternal, and_self, if_true,
      openExactMessage, openCapture_phase] <;>
    cases hfailed : (openCapture settings slot fault).failed <;>
    cases hsettings : settings.factory <;> simp_all [Session.cleared]

/-- The capture in the session follows the write of the store. -/
theorem captureExact_agrees {s : St} (call : Call) (answer : FileAnswer)
    (h : Agrees s.session c) :
    Agrees (SessionState.captureExact (c.writeFails call answer) s).state.session
      (c.captureExact call answer) := by
  obtain ⟨hphase, hstore, hfailed⟩ := h
  unfold SessionState.captureExact Capture.captureExact Capture.writeFails
  cases hs : s.session.exactMessage with
  | none =>
    have hnone : c.store = none := by simpa [hs] using hstore.symm
    rw [hnone]
    exact ⟨hphase, by simp [hs, hnone], hfailed⟩
  | some number =>
    obtain ⟨store, hsome⟩ := Option.isSome_iff_exists.mp (hstore.symm.trans (by rw [hs]; rfl))
    simp only [hsome, hfailed]
    split_ifs with hlatched
    · exact ⟨hphase, by simp [hs, hsome], hfailed⟩
    · exact ⟨hphase, by simp [hs], rfl⟩

/-- The procedure of the session for a callback. -/
def Callback.handle (d : Deps) (env : CommandEnv) : Callback → Run Bool
  | .header payload => SessionCommands.addHeader d env payload
  | .endHeaders => SessionCommands.endHeaders d env
  | .body payload => SessionCommands.body d env payload

/-- A callback that the capture does not take ends the session. One that it takes edits the
session in step with the capture, writes to the store and goes on. -/
theorem handle_cases (cb : Callback) (env : CommandEnv) {s : St} (h : Agrees s.session c) :
    c.callFor cb = none ∧ (cb.handle d env s).value = false ∨
      ∃ call edit, c.callFor cb = some call ∧
        Agrees (edit s.session) { c with phase := cb.phaseAfter c.phase } ∧
        cb.handle d env s = (do
          update edit
          SessionState.captureExact env.exactWriteErr
          sendContinue d : Run Bool) s := by
  cases cb with
  | header payload =>
    rw [Callback.handle, SessionCommands.addHeader, view_bind, h.phase, Capture.callFor]
    split_ifs with hphase
    · exact Or.inl ⟨rfl, rfl⟩
    · cases parseHeader payload with
      | none => exact Or.inl ⟨rfl, rfl⟩
      | some header =>
        refine Or.inr ⟨_, Session.addHeader d header.1 header.2, rfl, ?_, rfl⟩
        obtain ⟨domain, collected, truncated, message, heq⟩ :=
          addHeader_frame (d := d) header.1 header.2 s.session
        rw [heq]
        exact ⟨h.phase, h.store, h.failed⟩
  | endHeaders =>
    rw [Callback.handle, SessionCommands.endHeaders, view_bind, h.phase, Capture.callFor]
    split_ifs with hphase
    · exact Or.inl ⟨rfl, rfl⟩
    · exact Or.inr ⟨_, _, rfl, ⟨rfl, h.store, h.failed⟩, rfl⟩
  | body payload =>
    rw [Callback.handle, SessionCommands.body, view_bind, h.phase, Capture.callFor]
    split_ifs with hphase
    · exact Or.inl ⟨rfl, rfl⟩
    · exact Or.inr ⟨_, fun ss => { ss with message := MessageBuffer.addBody ss.message payload },
        rfl, ⟨h.phase, h.store, h.failed⟩, rfl⟩

/-- The environment of each callback reports the write as the store answers it. -/
def Reported (c : Capture) : List ((Callback × FileAnswer) × CommandEnv) → Prop
  | [] => True
  | ((cb, answer), env) :: rest =>
    (∀ call, c.callFor cb = some call → env.exactWriteErr = c.writeFails call answer) ∧
      ∀ c', c.callback cb answer = some c' → Reported c' rest

/-- A session that stays open through the callbacks ends as their capture does. -/
theorem handleAll_agrees (steps : List ((Callback × FileAnswer) × CommandEnv)) {s : St}
    (h : Agrees s.session c) (hreported : Reported c steps)
    (hopen : (attemptAll (fun step => step.1.1.handle d step.2) steps s).value = true) :
    ∃ c', c.run (steps.map Prod.fst) = some c' ∧
      Agrees (attemptAll (fun step => step.1.1.handle d step.2) steps s).state.session c' := by
  induction steps generalizing c s with
  | nil => exact ⟨c, rfl, h⟩
  | cons step rest ih =>
    obtain ⟨⟨cb, answer⟩, env⟩ := step
    cases hvalue : (cb.handle d env s).value with
    | false => simp [attemptAll, hvalue] at hopen
    | true =>
      rcases handle_cases (d := d) cb env h with
        ⟨-, hclosed⟩ | ⟨call, edit, hcall, hedited, hhandle⟩
      · exact absurd hvalue (by simp [hclosed])
      have hnext : c.callback cb answer =
          some ({ c with phase := cb.phaseAfter c.phase }.captureExact call answer) := by
        rw [Capture.callback, hcall]
        rfl
      have hmoved : Agrees (cb.handle d env s).state.session
          ({ c with phase := cb.phaseAfter c.phase }.captureExact call answer) := by
        rw [hhandle, hreported.1 call hcall]
        simp only [bind_run, sendContinue, writeFrame_session]
        exact captureExact_agrees (s := { s with session := edit s.session }) call answer hedited
      simp only [attemptAll, bind_run, hvalue] at hopen ⊢
      obtain ⟨c', hrun, hagrees⟩ := ih hmoved (hreported.2 _ hnext) hopen
      refine ⟨c', ?_, hagrees⟩
      rw [List.map_cons, Capture.run, hnext]
      exact hrun

/-- The verification reads the store exactly when the capture has a message. -/
theorem readExactMessage_agrees {s : St} {bytes : Bytes} (h : Agrees s.session c)
    (hcaptures : Captures c bytes) :
    (readExactMessage false s).events = [] ↔ c.message = none := by
  rw [hcaptures.message]
  unfold readExactMessage
  cases hs : s.session.exactMessage with
  | none =>
    have hnone : c.store = none := by simpa [hs] using h.store.symm
    cases hfailed : c.failed with
    | true => simp
    | false =>
      obtain ⟨store, hsome, -⟩ := hcaptures hfailed
      exact absurd (hsome.symm.trans hnone) (by simp)
  | some number =>
    simp only [h.failed]
    split_ifs <;> simp

private theorem lastChunk_agrees {env : CommandEnv} (answer : FileAnswer) {s : St}
    (h : Agrees s.session c) (hphase : c.phase = .body)
    (hwrite : env.exactWriteErr = c.writeFails (.addBody last) answer) :
    ∃ c', c.endBody last answer = some c' ∧ Agrees (lastChunk env last s).state.session c' := by
  unfold lastChunk Capture.endBody
  rw [if_neg (not_not.mpr hphase)]
  split_ifs with hlast
  · refine ⟨_, rfl, ?_⟩
    rw [bodyChunk, hwrite]
    exact captureExact_agrees (s := { s with session := { s.session with
      message := MessageBuffer.addBody s.session.message last } }) _ answer
      ⟨h.phase, h.store, h.failed⟩
  · exact ⟨c, rfl, h⟩

end Session

end MilterGuard.ExactCapture
