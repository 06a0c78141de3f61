import MilterGuard.Hostnames

/-!
Milter frames: the command and response bytes, the payload readers, and the
frames that are written and read. The macro reader takes name and value pairs up to
the end of the payload and gives up at the first pair that is malformed.
-/
namespace MilterGuard.WireProtocol

open ByteStrings

def commandAbort : UInt8 := 0x41
def commandBody : UInt8 := 0x42
def commandConnect : UInt8 := 0x43
def commandMacro : UInt8 := 0x44
def commandEndBody : UInt8 := 0x45
def commandHelo : UInt8 := 0x48
def commandQuitSMTPConnection : UInt8 := 0x4B
def commandHeader : UInt8 := 0x4C
def commandMail : UInt8 := 0x4D
def commandEndHeaders : UInt8 := 0x4E
def commandOptionNegotiation : UInt8 := 0x4F
def commandQuitMilterConnection : UInt8 := 0x51
def commandRecipient : UInt8 := 0x52
def commandData : UInt8 := 0x54
def commandUnknown : UInt8 := 0x55

def responseAccept : UInt8 := 0x61
def responseContinue : UInt8 := 0x63
def responseDiscard : UInt8 := 0x64
def responseTempfail : UInt8 := 0x74
def responseReply : UInt8 := 0x79
def responseAddHeader : UInt8 := 0x68
def responseChangeHeader : UInt8 := 0x6D
def responseDeleteRecipient : UInt8 := 0x2D
def responseProgress : UInt8 := 0x70

def minimumProtocolVersion : UInt32 := 2
def supportedProtocolVersion : UInt32 := 6
def optionPayloadBytes : ℕ := 12
def maxFrameBytes : ℕ := 2 ^ 20
def maxSMTPReplyBytes : ℕ := 510
def maxMacroPairs : ℕ := 128
def maxAuthenticationBytes : ℕ := 1024

def actionAddHeaders : UInt32 := 0x01
def actionDeleteRecipient : UInt32 := 0x08
def actionChangeHeaders : UInt32 := 0x10
def resultHeaderActions : UInt32 := actionAddHeaders ||| actionChangeHeaders

def putUint32 (n : UInt32) : Bytes :=
  [(n >>> 24).toUInt8, (n >>> 16).toUInt8, (n >>> 8).toUInt8, n.toUInt8]

def uint32 : Bytes → UInt32
  | a :: b :: c :: d :: _ =>
    a.toUInt32 <<< 24 ||| b.toUInt32 <<< 16 ||| c.toUInt32 <<< 8 ||| d.toUInt32
  | _ => 0

def optionResponse (version actions : UInt32) : Bytes :=
  commandOptionNegotiation :: putUint32 version ++ putUint32 actions ++ putUint32 0

def addHeaderResponse (name value : Bytes) : Bytes :=
  responseAddHeader :: name ++ 0 :: value ++ [0]

/-- Removes the first occurrence; sent once for each occurrence. -/
def deleteHeaderResponse (name : Bytes) : Bytes :=
  responseChangeHeader :: putUint32 1 ++ name ++ [0, 0]

def deleteRecipientResponse (recipient : Bytes) : Bytes :=
  responseDeleteRecipient :: recipient ++ [0]

def truncateUTF8 (value : Bytes) (maxBytes : ℕ) : Bytes := cutAtRune (toValidUTF8 value) maxBytes

def cleanReply (value : Bytes) : Bytes :=
  (value.filter (· ≠ 0)).map fun b => if b = 0x0D ∨ b = 0x0A then 0x20 else b

def replyCode (code enhanced text : Bytes) : Bytes :=
  let reply := cleanReply code ++ 0x20 :: cleanReply enhanced ++ 0x20 :: cleanReply text
  let reply := truncateUTF8 (reply.flatMap fun b => if b = 0x25 then [b, b] else [b])
    maxSMTPReplyBytes
  let trailingPercents := (reply.reverse.takeWhile (· = 0x25)).length
  let reply := if trailingPercents % 2 ≠ 0 then reply.dropLast else reply
  responseReply :: reply ++ [0]

variable (payload : Bytes)

def parseHeader : Option (Bytes × Bytes) :=
  match cut 0 payload with
  | none => none
  | some (name, remainder) =>
    if name = [] ∨ remainder.getLast? ≠ some 0 then none
    else if 0 ∈ remainder.dropLast then none
    else some (name, remainder.dropLast)

def parseEnvelopeAddress : Option Bytes :=
  match cut 0 payload with
  | none => none
  | some (address, _) => if address = [] then none else some address

def parseSMTPIdentity : Option Bytes :=
  if payload.getLast? ≠ some 0 ∨ 0 ∈ payload.dropLast then none else some payload.dropLast

/-- The arguments after the address, one of them named SMTPUTF8. The last one
must be terminated too. -/
def hasSMTPUTF8 : List Bytes → Bool
  | [] => false
  | [_] => false
  | argument :: rest =>
    equalFold ((cut 0x3D argument).map (·.1) |>.getD argument) (ascii "SMTPUTF8") ||
      hasSMTPUTF8 rest

def envelopeHasSMTPUTF8 : Bool :=
  match cut 0 payload with
  | none => false
  | some (_, arguments) => hasSMTPUTF8 (split 0 arguments)

def parseConnectHostname : Option Bytes := (cut 0 payload).map (·.1)

structure SessionMacroValues where
  authenticationIdentity : Option Bytes
  mtaHostname : Option Bytes
  daemonAddress : Option Bytes
  interfaceAddress : Option Bytes
  deriving DecidableEq

/-- The receiving interface is preferred to the daemon address. -/
def SessionMacroValues.receiverAddress (values : SessionMacroValues) : Option Bytes :=
  values.interfaceAddress.or values.daemonAddress

/-- strings.Trim with the two braces. -/
def trimBraces (name : Bytes) : Bytes :=
  let brace := fun b : UInt8 => b = 0x7B || b = 0x7D
  ((name.dropWhile brace).reverse.dropWhile brace).reverse

/-- A macro is stored once, within its length limit. -/
def store (field : Option Bytes) (value : Bytes) (limit : ℕ) : Option (Option Bytes) :=
  if field.isSome ∨ value.length > limit then none else some (some value)

def addMacro (values : SessionMacroValues) (name value : Bytes) : Option SessionMacroValues :=
  let macroName := trimBraces name
  if equalFold macroName (ascii "auth_authen") then
    (store values.authenticationIdentity value maxAuthenticationBytes).map
      fun found => { values with authenticationIdentity := found }
  else if equalFold macroName (ascii "j") then
    (store values.mtaHostname value 253).map fun found => { values with mtaHostname := found }
  else if equalFold macroName (ascii "daemon_addr") then
    (store values.daemonAddress value 64).map fun found => { values with daemonAddress := found }
  else if equalFold macroName (ascii "if_addr") then
    (store values.interfaceAddress value 64).map
      fun found => { values with interfaceAddress := found }
  else some values

/-- The pair loop; `pairs` is the number of pairs still allowed. -/
def readMacros : ℕ → SessionMacroValues → Bytes → Option SessionMacroValues
  | _, values, [] => some values
  | 0, _, _ :: _ => none
  | pairs + 1, values, a :: remainder =>
    match cut 0 (a :: remainder) with
    | none => none
    | some (name, rest) =>
      if name = [] then none
      else match cut 0 rest with
        | none => none
        | some (value, rest) =>
          match addMacro values name value with
          | none => none
          | some values => readMacros pairs values rest

def parseSessionMacros : Option (UInt8 × SessionMacroValues) :=
  match payload with
  | [] => none
  | target :: remainder =>
    if remainder = [] then some (target, ⟨none, none, none, none⟩)
    else if remainder.getLast? ≠ some 0 then none
    else (readMacros maxMacroPairs ⟨none, none, none, none⟩ remainder).map fun v => (target, v)

def cleanSMTPIdentity (value : Bytes) : Bytes :=
  let value := trimSpace (mapRunes (fun r => if isControl r then none else some r)
    (toValidUTF8 value))
  if value = [] ∨ equalFold value (ascii "unknown") ∨ equalFold value (ascii "[unknown]") then []
  else truncateRunes 255 value

/-- The bytes that arrive, with `none` where a read times out. -/
abbrev Arrivals := List (Option UInt8)

inductive ReadError
  | timeout
  | other
  deriving DecidableEq

/-- io.ReadFull: the bytes read, the error and what has yet to arrive. -/
def readFull : ℕ → Arrivals → Bytes × Option ReadError × Arrivals
  | 0, arrivals => ([], none, arrivals)
  | _ + 1, [] => ([], some .other, [])
  | _ + 1, none :: rest => ([], some .timeout, rest)
  | n + 1, some b :: rest => (b :: (readFull n rest).1, (readFull n rest).2)

/-- The frame, the number of bytes read, the error and what has yet to arrive. -/
def readFrameProgress (arrivals : Arrivals) : Bytes × ℕ × Option ReadError × Arrivals :=
  match readFull 4 arrivals with
  | (header, some err, rest) => ([], header.length, some err, rest)
  | (header, none, rest) =>
    let length := (uint32 header).toNat
    if length = 0 ∨ maxFrameBytes < length then ([], header.length, some .other, rest)
    else
      let (frame, err, rest) := readFull length rest
      (frame, header.length + frame.length, err, rest)

def undisturbed (arrivals : Arrivals) : Arrivals := arrivals.filter Option.isSome

/-- A read that succeeds meets no timeout, and one that takes no byte meets nothing else. -/
theorem readFull_spec (n : ℕ) (arrivals : Arrivals) :
    let read := readFull n arrivals
    (read.2.1 = none → read.1.length = n ∧
      readFull n (undisturbed arrivals) = (read.1, none, undisturbed read.2.2)) ∧
    (read.1 = [] → undisturbed read.2.2 = undisturbed arrivals) := by
  fun_induction readFull n arrivals with
  | case1 arrivals => simp [readFull]
  | case2 => simp
  | case3 n rest => simp [undisturbed]
  | case4 n b rest ih =>
    refine ⟨fun hok => ?_, nofun⟩
    obtain ⟨hlength, hread⟩ := ih.1 hok
    simp_all [undisturbed, readFull]

theorem readFrameProgress_spec (arrivals : Arrivals) :
    let read := readFrameProgress arrivals
    (read.2.2.1 = none → (0 < read.1.length ∧ read.1.length ≤ maxFrameBytes) ∧
      readFrameProgress (undisturbed arrivals) =
        (read.1, read.2.1, none, undisturbed read.2.2.2)) ∧
    (read.2.1 = 0 → undisturbed read.2.2.2 = undisturbed arrivals) := by
  obtain ⟨hheader, hnothing⟩ := readFull_spec 4 arrivals
  fun_cases readFrameProgress arrivals with
  | case1 header err rest hread =>
    rw [hread] at hnothing
    exact ⟨nofun, fun hzero => hnothing (List.eq_nil_of_length_eq_zero hzero)⟩
  | case2 header rest hread length hinvalid =>
    rw [hread] at hheader
    exact ⟨nofun, fun hzero => absurd ((hheader rfl).1.symm.trans hzero) (by decide)⟩
  | case3 header rest hread length hvalid frame err left hframe =>
    rw [hread] at hheader
    obtain ⟨hfour, hundisturbed⟩ := hheader rfl
    constructor
    · rintro rfl
      have hpayload := (readFull_spec length rest).1
      rw [hframe] at hpayload
      obtain ⟨hlength, hpayload⟩ := hpayload rfl
      refine ⟨by dsimp only at hlength ⊢; omega, ?_⟩
      simp only [readFrameProgress, hundisturbed, hpayload, length]
      exact if_neg hvalid
    · dsimp only at hfour ⊢
      omega

end MilterGuard.WireProtocol
