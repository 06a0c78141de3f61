import MilterGuard.AttachmentNames

/-!
What the scanner recognizes in the bytes of a file: archive formats, the
formats whose extension is blocked, native executables and scripts.
-/
namespace MilterGuard.ContentSignatures

open ByteStrings Hostnames AttachmentNames

inductive ArchiveFormat
  | zip
  | tar
  | gzip
  | bzip2
  deriving DecidableEq

/-- The bytes from `start` up to `stop`. -/
def slice (data : Bytes) (start stop : ℕ) : Bytes := (data.take stop).drop start

variable (table : CaseTable)

def archiveFormat (filename mediaType data : Bytes) : Option ArchiveFormat :=
  let lowerName := toLower table filename
  if hasPrefix data [0x50, 0x4B, 3, 4] ∨ hasPrefix data [0x50, 0x4B, 5, 6] ∨
      hasPrefix data [0x50, 0x4B, 7, 8] then some .zip
  else if hasPrefix data [0x1F, 0x8B] then some .gzip
  else if hasPrefix data (ascii "BZh") then some .bzip2
  else if 265 ≤ data.length ∧ slice data 257 262 = ascii "ustar" then some .tar
  else if hasSuffix lowerName (ascii ".zip") ∨ mediaType = ascii "application/zip" then some .zip
  else if hasSuffix lowerName (ascii ".tar") ∨ mediaType = ascii "application/x-tar" then some .tar
  else if hasSuffix lowerName (ascii ".gz") ∨ hasSuffix lowerName (ascii ".gzip") ∨
      mediaType = ascii "application/gzip" ∨ mediaType = ascii "application/x-gzip" then some .gzip
  else if hasSuffix lowerName (ascii ".bz2") ∨ hasSuffix lowerName (ascii ".bzip2") ∨
      mediaType = ascii "application/x-bzip2" then some .bzip2
  else none

variable (blocked : List Bytes)

def blocksAny (extensions : List String) : Bool :=
  extensions.any fun extension => ascii extension ∈ blocked

def shellLinkHeader : Bytes :=
  [0x4C, 0x00, 0x00, 0x00, 0x01, 0x14, 0x02, 0x00, 0x00, 0x00, 0x00, 0x00,
    0xC0, 0x00, 0x00, 0x00, 0x00, 0x00, 0x00, 0x46]

def oneNoteHeader : Bytes :=
  [0xE4, 0x52, 0x5C, 0x7B, 0x8C, 0xD8, 0xA7, 0x4D,
    0xAE, 0xB1, 0x53, 0x78, 0xD0, 0x29, 0x96, 0xD3]

/-- The flag byte of a Unix compress file: 9 to 16 bits, the reserved bits clear. -/
def compressFlags (flags : UInt8) : Bool :=
  flags &&& 0x60 = 0 && 9 ≤ flags &&& 0x1F && flags &&& 0x1F ≤ 16

variable (data : Bytes)

def configuredFormatSignature : Option Bytes :=
  let size := data.length
  if blocksAny blocked ["lnk"] ∧ hasPrefix data shellLinkHeader then
    some (ascii "Windows shell link signature")
  else if blocksAny blocked ["cab", "onepkg"] ∧ hasPrefix data (ascii "MSCF") then
    some (ascii "Microsoft cabinet signature")
  else if blocksAny blocked ["chm"] ∧ hasPrefix data (ascii "ITSF") then
    some (ascii "compiled HTML Help signature")
  else if blocksAny blocked ["iso", "img"] ∧ 32774 ≤ size ∧
      slice data 32769 32774 = ascii "CD001" then
    some (ascii "ISO disk image signature")
  else if blocksAny blocked ["vhdx"] ∧ hasPrefix data (ascii "vhdxfile") then
    some (ascii "VHDX disk image signature")
  else if blocksAny blocked ["vhd"] ∧ (hasPrefix data (ascii "conectix") ∨
      512 ≤ size ∧ slice data (size - 512) (size - 504) = ascii "conectix") then
    some (ascii "VHD disk image signature")
  else if blocksAny blocked ["dmg"] ∧ 512 ≤ size ∧
      slice data (size - 512) (size - 508) = ascii "koly" then
    some (ascii "Apple disk image signature")
  else if blocksAny blocked ["one", "onepkg"] ∧ hasPrefix data oneNoteHeader then
    some (ascii "Microsoft OneNote signature")
  else if blocksAny blocked ["apk"] ∧ 8 ≤ size ∧ slice data 0 4 = ascii "dex\n" ∧
      data.getD 7 0 = 0 then
    some (ascii "Android DEX executable signature")
  else if blocksAny blocked ["z"] ∧ 3 ≤ size ∧ hasPrefix data [0x1F, 0x9D] ∧
      compressFlags (data.getD 2 0) then
    some (ascii "Unix compress archive signature")
  else if blocksAny blocked ["rar"] ∧ (hasPrefix data (ascii "Rar!" ++ [0x1A, 0x07, 0x00]) ∨
      hasPrefix data (ascii "Rar!" ++ [0x1A, 0x07, 0x01, 0x00])) then
    some (ascii "RAR archive signature")
  else if blocksAny blocked ["7z"] ∧ hasPrefix data (ascii "7z" ++ [0xBC, 0xAF, 0x27, 0x1C]) then
    some (ascii "7z archive signature")
  else none

def binaryExecutableSignature : Option Bytes :=
  if hasPrefix data (ascii "MZ") then some (ascii "DOS/Windows executable signature")
  else if hasPrefix data [0x7F, 0x45, 0x4C, 0x46] then some (ascii "ELF executable signature")
  else if [[0xFE, 0xED, 0xFA, 0xCE], [0xCE, 0xFA, 0xED, 0xFE], [0xFE, 0xED, 0xFA, 0xCF],
      [0xCF, 0xFA, 0xED, 0xFE]].any (hasPrefix data) then
    some (ascii "Mach-O executable signature")
  else if [[0xCA, 0xFE, 0xBA, 0xBE], [0xBE, 0xBA, 0xFE, 0xCA], [0xCA, 0xFE, 0xBA, 0xBF],
      [0xBF, 0xBA, 0xFE, 0xCA]].any (hasPrefix data) then
    some (ascii "Mach-O universal executable signature")
  else none

def dangerousInterpreters : List Bytes :=
  ["ash", "bash", "csh", "dash", "fish", "ksh", "node", "perl", "php", "pwsh", "python", "python2",
    "python3", "ruby", "sh", "tcsh", "zsh"].map ascii

def scriptInterpreter : Option Bytes :=
  if hasPrefix data (ascii "#!") then
    let line := (slice data 2 256).takeWhile fun b => b ≠ 0x0D && b ≠ 0x0A
    let interpreter :=
      match fields (toLower table line) with
      | [] => []
      | [command] => pathBase command
      | command :: argument :: _ =>
        if pathBase command = ascii "env" then pathBase argument else pathBase command
    if interpreter ∈ dangerousInterpreters then some interpreter else none
  else none

def executableSignature : Option Bytes :=
  binaryExecutableSignature data <|> (scriptInterpreter table data).map fun interpreter =>
    ascii "executable script signature (" ++ interpreter ++ ascii ")"

def prohibitedSignature : Option Bytes :=
  configuredFormatSignature blocked data <|> executableSignature table data

end MilterGuard.ContentSignatures
