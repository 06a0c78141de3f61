import MilterGuard.ByteStrings

/-!
The addr-spec of RFC 5322 on byte strings: a local part that is a dot-atom or a
quoted string, an at sign, and a dot-atom domain. Reading a quoted local part
gives its content without quotes and escapes, so that content need not be a
local part again.
-/
namespace MilterGuard.AddrSpec

open ByteStrings

/-- A visible character; bytes of multi-byte runes count as visible. -/
def vchar (b : UInt8) : Bool := 0x21 ≤ b && b ≤ 0x7E || 0x80 ≤ b

/-- The specials other than the dot. -/
def specials : Bytes := ascii "()<>[]:;@\\,\""

def atextOrDot (b : UInt8) : Bool := vchar b && !specials.contains b

def dotAtom (value : Bytes) : Bool :=
  validUTF8 value && value.all atextOrDot && (split 0x2E value).all (· ≠ [])

def blank (b : UInt8) : Bool := b = 0x20 || b = 0x09

/-- The content of a quoted string after its opening quote. The closing quote
must be the last byte. -/
def unquote : Bytes → Option Bytes
  | [] => none
  | 0x22 :: rest => if rest = [] then some [] else none
  | 0x5C :: b :: rest => if vchar b || blank b then (unquote rest).map (b :: ·) else none
  | b :: rest => if b ≠ 0x5C && (vchar b || blank b) then (unquote rest).map (b :: ·) else none

/-- The local part that a text denotes. -/
def localPart (text : Bytes) : Option Bytes :=
  if dotAtom text then some text
  else match text with
    | 0x22 :: rest => if validUTF8 rest then (unquote rest).filter (· ≠ []) else none
    | _ => none

end MilterGuard.AddrSpec
