import AgentMail.Base.Bytes
import AgentMail.Base.Decimal
import AgentMail.Lib.SortedSearch

/-!
# Never-written pages

The proof that reported pages were never written, and the rows that report them
(`crates/mcp-agent-mail-db/src/never_written_pages.rs:29–75`, `97–105`, `184–380`). A file that
opens is its bytes; page numbers and sizes are natural numbers, as no offset of 32-bit numbers
leaves 64 bits.
-/

namespace AgentMail.Integrity

open Base Lib

/-- `b"SQLite format 3\0"`. -/
def sqliteHeaderMagic : Bytes := ("SQLite format 3".toList.map fun c => UInt8.ofNat c.toNat) ++ [0]

def sqliteHeaderLen : Nat := 100

def walHeaderLen : Nat := 32

def walFrameHeaderLen : Nat := 24

/-- Big-endian and little-endian checksums. -/
def walMagic : List Nat := [0x377f0682, 0x377f0683]

/-- Which stored image of a page held other bytes than zero. -/
inductive PageImageSource where
  | mainFile
  | walFrame

inductive NeverWrittenProofRefusal where
  | noPages
  | unreadableMainFile (reason : Text)
  | pageOutsideMainFile (page : Nat)
  | pageHasContent (page : Nat) (source : PageImageSource)
  | unreadableWal (reason : Text)

/-- Pages reported as never used and proven never written. -/
structure NeverWrittenOrphanPages where
  pages : List Nat
  pageSize : Nat
  ascending : pages.Pairwise (· < ·)

/-- `std::io::Error`, when a file is opened. -/
structure IoError where
  notFound : Bool
  text : Text

/-! ### Bytes -/

/-- `from_be_bytes`. -/
def fromBeBytes (bytes : Bytes) : Nat := bytes.foldl (fun n b => 256 * n + b.toNat) 0

/-- `Read::read_exact`: the bytes read, and those still to be read. -/
def readExact (n : Nat) (rest : Bytes) : Option (Bytes × Bytes) :=
  if n ≤ rest.length then some (rest.take n, rest.drop n) else none

def unexpectedEof : Text := "failed to fill whole buffer".toList

/-- `u32::is_power_of_two`. -/
def isPowerOfTwo (n : Nat) : Bool := 2 ^ n.log2 == n

/-- `image.iter().any(|byte| *byte != 0)`. -/
def hasContent (image : Bytes) : Bool := image.any (· != 0)

/-! ### The proof -/

/-- `read_page_size`. -/
def readPageSize (main : Bytes) : Except NeverWrittenProofRefusal Nat :=
  match readExact sqliteHeaderLen main with
  | none => .error (.unreadableMainFile unexpectedEof)
  | some (header, _) =>
    if header.take 16 ≠ sqliteHeaderMagic then
      .error (.unreadableMainFile "missing SQLite header magic".toList)
    else
      let raw := fromBeBytes ((header.drop 16).take 2)
      let pageSize := if raw = 1 then 65536 else raw
      if !(512 ≤ pageSize && pageSize ≤ 65536) || !isPowerOfTwo pageSize then
        .error (.unreadableMainFile ("invalid page size ".toList ++ natText pageSize))
      else .ok pageSize

/-- One round of `require_zero_in_main_file`. -/
def requireZeroPage (main : Bytes) (pageSize page : Nat) : Except NeverWrittenProofRefusal Unit :=
  let offset := (page - 1) * pageSize
  if offset + pageSize > main.length then .error (.pageOutsideMainFile page)
  else
    match readExact pageSize (main.drop offset) with
    | none => .error (.unreadableMainFile unexpectedEof)
    | some (image, _) =>
      if hasContent image then .error (.pageHasContent page .mainFile) else .ok ()

/-- `require_zero_in_main_file`. -/
def requireZeroInMainFile (main : Bytes) (pageSize : Nat) (pages : List Nat) :
    Except NeverWrittenProofRefusal Unit :=
  pages.foldlM (fun _ page => requireZeroPage main pageSize page) ()

/-- The frames of `require_zero_in_wal`, from where the reader stands. -/
def requireZeroInFrames (pageSize : Nat) (pages : List Nat) :
    Nat → Bytes → Except NeverWrittenProofRefusal Unit
  | 0, _ => .ok ()
  | frames + 1, rest =>
    match readExact walFrameHeaderLen rest with
    | none => .error (.unreadableWal unexpectedEof)
    | some (frameHeader, rest) =>
      let page := fromBeBytes (frameHeader.take 4)
      if binarySearch pages page then
        match readExact pageSize rest with
        | none => .error (.unreadableWal unexpectedEof)
        | some (image, rest) =>
          if hasContent image then .error (.pageHasContent page .walFrame)
          else requireZeroInFrames pageSize pages frames rest
      -- `seek_relative` steps over the image.
      else requireZeroInFrames pageSize pages frames (rest.drop pageSize)

/-- `require_zero_in_wal` for a log that opens. -/
def requireZeroInLog (wal : Bytes) (pageSize : Nat) (pages : List Nat) :
    Except NeverWrittenProofRefusal Unit :=
  if wal.length ≤ walHeaderLen then .ok ()
  else
    match readExact walHeaderLen wal with
    | none => .error (.unreadableWal unexpectedEof)
    | some (header, rest) =>
      if fromBeBytes (header.take 4) ∉ walMagic then
        .error (.unreadableWal "missing WAL header magic".toList)
      else
        let walPageSize := fromBeBytes ((header.drop 8).take 4)
        if walPageSize ≠ pageSize then
          .error (.unreadableWal ("WAL page size ".toList ++ natText walPageSize ++
            " differs from the database page size ".toList ++ natText pageSize))
        else
          let frameLen := walFrameHeaderLen + pageSize
          let completeFrames := (wal.length - walHeaderLen) / frameLen
          requireZeroInFrames pageSize pages completeFrames rest

/-- `require_zero_in_wal`. -/
def requireZeroInWal (wal : Except IoError Bytes) (pageSize : Nat) (pages : List Nat) :
    Except NeverWrittenProofRefusal Unit :=
  match wal with
  | .ok wal => requireZeroInLog wal pageSize pages
  | .error error => if error.notFound then .ok () else .error (.unreadableWal error.text)

/-- `prove_pages_never_written`, on what opening the main file and its log gives. -/
def provePagesNeverWritten (main wal : Except IoError Bytes) (pages : List Nat) :
    Except NeverWrittenProofRefusal NeverWrittenOrphanPages :=
  if pages.isEmpty then .error .noPages
  else
    let sorted := sortDedup pages
    if sorted.head? = some 0 then .error (.pageOutsideMainFile 0)
    else
      match main with
      | .error error => .error (.unreadableMainFile error.text)
      | .ok main => do
        let pageSize ← readPageSize main
        requireZeroInMainFile main pageSize sorted
        requireZeroInWal wal pageSize sorted
        return ⟨sorted, pageSize, pairwise_sortDedup pages⟩

/-! ### The rows -/

/-- `parse::<u32>`. -/
def parseU32 (t : Text) : Option Nat :=
  let digits := (stripHead ['+'] t).getD t
  (if digits.isEmpty then none else digitsVal digits).filter fun n => n < 2 ^ 32

/-- `never_used_page_number`. -/
def neverUsedPageNumber (detail : Text) : Option Nat :=
  let lower := (trim detail).map Char.toLower
  let row := (stripHead "database disk image is malformed: ".toList lower).getD lower
  (stripHead "page ".toList row).bind fun rest =>
    let digits := rest.takeWhile Char.isDigit
    let tail := rest.dropWhile Char.isDigit
    if tail ≠ ": never used".toList && tail ≠ " is never used".toList then none
    else (parseU32 digits).filter fun page => page ≥ 1

/-- A blank row or a section header, which carries no verdict. -/
def carriesNoVerdict (trimmed : Text) : Bool :=
  trimmed.isEmpty || ("***".toList.isPrefixOf trimmed && "***".toList.isSuffixOf trimmed)

/-- One round of `never_used_page_numbers`. -/
def pushVerdict (pages : List Nat) (detail : Text) : Option (List Nat) :=
  let trimmed := trim detail
  if carriesNoVerdict trimmed then some pages
  else (neverUsedPageNumber trimmed).map fun page => pages ++ [page]

/-- `never_used_page_numbers`. -/
def neverUsedPageNumbers (details : List Text) : Option (List Nat) :=
  (details.foldlM pushVerdict []).bind fun pages =>
    if pages.isEmpty then none else some (sortDedup pages)

end AgentMail.Integrity
