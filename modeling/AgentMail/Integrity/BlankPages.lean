import AgentMail.Integrity.NeverWritten
import AgentMail.Lib.Loop
import AgentMail.Lib.Table

/-!
# A proven page is blank to every reader

What a reader sees of a page depends on which frames of the log it honours: the last of those that
name the page, else the page's slot in the main file. The proof looks at all of them. The rows are
specified apart from the parser that reads them.
-/

namespace AgentMail.Integrity

open Base Lib List

/-! ### Readers -/

/-- The page size in the header of a main file. -/
def mainPageSize (main : Bytes) : Nat :=
  let raw := fromBeBytes ((main.drop 16).take 2)
  if raw = 1 then 65536 else raw

/-- The page size in the header of a log. -/
def logPageSize (wal : Bytes) : Nat := fromBeBytes ((wal.drop 8).take 4)

def frameLength (wal : Bytes) : Nat := walFrameHeaderLen + logPageSize wal

/-- The frames that the log holds whole. -/
def frameCount (wal : Bytes) : Nat := (wal.length - walHeaderLen) / frameLength wal

/-- The log from a frame on. -/
def frame (wal : Bytes) (i : Nat) : Bytes := (wal.drop walHeaderLen).drop (i * frameLength wal)

def framePage (wal : Bytes) (i : Nat) : Nat := fromBeBytes ((frame wal i).take 4)

def frameImage (wal : Bytes) (i : Nat) : Bytes :=
  ((frame wal i).drop walFrameHeaderLen).take (logPageSize wal)

/-- The page's slot, when it lies wholly inside the main file. -/
def slot (main : Bytes) (page : Nat) : Option Bytes :=
  if 1 ≤ page ∧ page * mainPageSize main ≤ main.length then
    some ((main.drop ((page - 1) * mainPageSize main)).take (mainPageSize main))
  else none

/-- What a reader that honours some of the frames sees of a page. -/
def effectiveImage (main wal : Bytes) (honours : Nat → Bool) (page : Nat) : Option Bytes :=
  match ((range (frameCount wal)).filter fun i =>
      honours i && framePage wal i == page).getLast? with
  | some i => some (frameImage wal i)
  | none => slot main page

/-- What a reader finds of a log. -/
def logBytes : Except IoError Bytes → Bytes
  | .ok wal => wal
  | .error _ => []

/-! ### Rows -/

def Blank (row : Text) : Prop := trim row = []

/-- `*** in database main ***`. -/
def SectionHeader (row : Text) : Prop :=
  "***".toList <+: trim row ∧ "***".toList <:+ trim row

instance (row : Text) : Decidable (Blank row) := inferInstanceAs (Decidable (trim row = []))

instance (row : Text) : Decidable (SectionHeader row) :=
  inferInstanceAs (Decidable (_ <+: _ ∧ _ <:+ _))

def rowHeads : List Text := [[], "database disk image is malformed: ".toList]

def rowTails : List Text := [": never used".toList, " is never used".toList]

/-- The row says of the page, in either dialect and in any case, that it is never used. -/
def NeverUsedRow (row : Text) (page : Nat) : Prop :=
  ∃ head ∈ rowHeads, ∃ digits, ∃ tail ∈ rowTails,
    (trim row).map Char.toLower = head ++ ("page ".toList ++ (digits ++ tail)) ∧
    digits ≠ [] ∧ (∀ c ∈ digits, c.isDigit = true) ∧ digitsVal digits = some page ∧
    1 ≤ page ∧ page < 2 ^ 32

/-! ### The scan -/

theorem readExact_eq_some {n : Nat} {bytes image rest : Bytes} :
    readExact n bytes = some (image, rest) ↔
      n ≤ bytes.length ∧ image = bytes.take n ∧ rest = bytes.drop n := by
  rw [readExact]
  split
  · rename_i hn
    simp [hn, eq_comm]
  · rename_i hn
    simp [hn]

/-- An image without content is zero throughout. -/
theorem eq_replicate_of_not_hasContent {image : Bytes} (h : hasContent image = false) :
    image = replicate image.length 0 := by
  rw [eq_replicate_iff]
  refine ⟨rfl, fun b hb => ?_⟩
  rw [hasContent, any_eq_false] at h
  simpa using h b hb

theorem slot_of_requireZeroPage {main : Bytes} {page : Nat} (hpage : 1 ≤ page)
    (h : requireZeroPage main (mainPageSize main) page = .ok ()) :
    slot main page = some (replicate (mainPageSize main) 0) := by
  rw [requireZeroPage] at h
  generalize hsize : mainPageSize main = size at h
  obtain ⟨k, rfl⟩ : ∃ k, page = k + 1 := ⟨page - 1, by omega⟩
  have hend : (k + 1) * size = k * size + size := Nat.succ_mul k size
  simp only [Nat.add_sub_cancel] at h
  split at h
  · cases h
  · rename_i hin
    have hle : (k + 1) * size ≤ main.length := by omega
    have hlen : size ≤ (main.drop (k * size)).length := by
      rw [length_drop]
      omega
    rw [readExact, if_pos hlen] at h
    simp only at h
    split at h
    · cases h
    · rename_i hblank
      have himage := eq_replicate_of_not_hasContent (Bool.eq_false_of_not_eq_true hblank)
      rw [length_take_of_le hlen] at himage
      rw [slot, hsize, if_pos ⟨hpage, hle⟩, Nat.add_sub_cancel, himage]

variable {pages : List Nat}

theorem requireZeroPage_of_mem {main : Bytes} {size : Nat}
    (h : requireZeroInMainFile main size pages = .ok ()) {page : Nat} (hpage : page ∈ pages) :
    requireZeroPage main size page = .ok () := by
  rw [requireZeroInMainFile] at h
  induction pages with
  | nil => cases hpage
  | cons first rest ih =>
    obtain ⟨⟨⟩, hfirst, hrest⟩ := foldlM_cons_eq_ok.mp h
    cases mem_cons.mp hpage with
    | inl heq => rwa [heq]
    | inr hin => exact ih hrest hin

/-- The reader stands at the start of a frame before each round, whichever way it went past the
image before. -/
theorem not_hasContent_of_requireZeroInFrames {size frames : Nat}
    (hpages : pages.Pairwise (· < ·)) {rest : Bytes}
    (h : requireZeroInFrames size pages frames rest = .ok ()) {i : Nat} (hi : i < frames)
    (hpage : fromBeBytes ((rest.drop (i * (walFrameHeaderLen + size))).take 4) ∈ pages) :
    hasContent (((rest.drop (i * (walFrameHeaderLen + size))).drop walFrameHeaderLen).take size) =
      false := by
  induction frames generalizing rest i with
  | zero => omega
  | succ frames ih =>
    rw [requireZeroInFrames] at h
    split at h
    · cases h
    · rename_i frameHeader after hread
      obtain ⟨_, rfl, rfl⟩ := readExact_eq_some.mp hread
      have hnext (j : Nat) : ((rest.drop walFrameHeaderLen).drop size).drop
          (j * (walFrameHeaderLen + size)) = rest.drop ((j + 1) * (walFrameHeaderLen + size)) := by
        rw [drop_drop, drop_drop, Nat.succ_mul]
        congr 1
        omega
      simp only [take_take, show min 4 walFrameHeaderLen = 4 from rfl] at h
      split at h
      · split at h
        · cases h
        · rename_i image after' hread'
          obtain ⟨_, rfl, rfl⟩ := readExact_eq_some.mp hread'
          split at h
          · cases h
          · rename_i hblank
            cases i with
            | zero =>
              rw [Nat.zero_mul, drop_zero]
              exact Bool.eq_false_of_not_eq_true hblank
            | succ i =>
              rw [← hnext] at hpage ⊢
              exact ih h (by omega) hpage
      · rename_i hmiss
        cases i with
        | zero =>
          rw [Nat.zero_mul, drop_zero] at hpage
          exact absurd ((binarySearch_iff hpages).mpr hpage) hmiss
        | succ i =>
          rw [← hnext] at hpage ⊢
          exact ih h (by omega) hpage

/-- A frame that lies in the log whole has an image of a whole page. -/
theorem length_frameImage {wal : Bytes} {i : Nat} (hi : i < frameCount wal) :
    (frameImage wal i).length = logPageSize wal := by
  have hend : (i + 1) * frameLength wal ≤ wal.length - walHeaderLen := by
    refine (Nat.mul_le_mul_right _ (show i + 1 ≤ frameCount wal by omega)).trans ?_
    exact Nat.div_mul_le_self _ _
  rw [Nat.succ_mul] at hend
  unfold frameImage frame
  have hframe : frameLength wal = walFrameHeaderLen + logPageSize wal := rfl
  simp only [length_take, length_drop]
  omega

/-- Every whole frame of a log that passes is blank when it names one of the pages. -/
theorem frameImage_of_requireZeroInLog {wal : Bytes} {size : Nat}
    (hpages : pages.Pairwise (· < ·)) (h : requireZeroInLog wal size pages = .ok ()) {i : Nat}
    (hi : i < frameCount wal) (hpage : framePage wal i ∈ pages) :
    frameImage wal i = replicate size 0 := by
  rw [requireZeroInLog] at h
  split at h
  · rename_i hshort
    have hnone : frameCount wal = 0 := by
      rw [frameCount, Nat.sub_eq_zero_of_le hshort, Nat.zero_div]
    omega
  · split at h
    · cases h
    · rename_i header rest hread
      obtain ⟨_, rfl, rfl⟩ := readExact_eq_some.mp hread
      split at h
      · cases h
      · simp only [ne_eq, ite_not] at h
        split at h
        · rename_i hsize
          have hlog : logPageSize wal = size := by
            rw [← hsize, logPageSize, drop_take, take_take]
            rfl
          have hcount : frameCount wal = (wal.length - walHeaderLen) / (walFrameHeaderLen + size) := by
            rw [frameCount, frameLength, hlog]
          have hlen := length_frameImage hi
          rw [framePage, frame, frameLength, hlog] at hpage
          have hblank := not_hasContent_of_requireZeroInFrames hpages h (hcount ▸ hi) hpage
          rw [frameImage, frame, frameLength, hlog] at hlen ⊢
          have himage := eq_replicate_of_not_hasContent hblank
          rwa [hlen] at himage
        · cases h

/-! ### The rows, as they are parsed -/

theorem parseU32_digits {digits : Text} (hne : digits ≠ [])
    (hall : ∀ c ∈ digits, c.isDigit = true) :
    parseU32 digits = (digitsVal digits).filter fun n => n < 2 ^ 32 := by
  have hplus : stripHead ['+'] digits = none := by
    rw [stripHead, if_neg]
    rintro hprefix
    obtain ⟨rest, rfl⟩ := List.isPrefixOf_iff_prefix.mp hprefix
    exact absurd (hall '+' mem_cons_self) (by decide)
  have hempty : digits.isEmpty = false := isEmpty_eq_false_iff.mpr hne
  rw [parseU32, hplus, Option.getD_none, hempty, if_neg Bool.false_ne_true]

/-- The digits of a row end where its tail starts. -/
theorem span_digits {digits tail : Text} (hall : ∀ c ∈ digits, c.isDigit = true)
    (htail : tail ∈ rowTails) :
    (digits ++ tail).takeWhile Char.isDigit = digits ∧
      (digits ++ tail).dropWhile Char.isDigit = tail := by
  rw [takeWhile_append_of_pos hall, dropWhile_append_of_pos hall]
  have hends : ∀ t ∈ rowTails, t.takeWhile Char.isDigit = [] ∧ t.dropWhile Char.isDigit = t := by
    decide
  rw [(hends tail htail).1, (hends tail htail).2, append_nil]
  exact ⟨rfl, rfl⟩

theorem pageTail_iff {rest : Text} {page : Nat} :
    (let digits := rest.takeWhile Char.isDigit
     let tail := rest.dropWhile Char.isDigit
     if tail ≠ ": never used".toList && tail ≠ " is never used".toList then none
     else (parseU32 digits).filter fun page => page ≥ 1) = some page ↔
      ∃ digits, ∃ tail ∈ rowTails, rest = digits ++ tail ∧ digits ≠ [] ∧
        (∀ c ∈ digits, c.isDigit = true) ∧ digitsVal digits = some page ∧
        1 ≤ page ∧ page < 2 ^ 32 := by
  constructor
  · intro h
    simp only at h
    split at h
    · cases h
    · rename_i htail
      have hall : ∀ c ∈ rest.takeWhile Char.isDigit, c.isDigit = true := fun c hc =>
        mem_takeWhile_imp hc
      have hmem : rest.dropWhile Char.isDigit ∈ rowTails := by
        simp only [Bool.and_eq_true, decide_eq_true_eq, not_and_or, not_not, ne_eq] at htail
        simpa [rowTails] using htail
      have hne : rest.takeWhile Char.isDigit ≠ [] := by
        intro hnil
        rw [hnil] at h
        cases h
      rw [parseU32_digits hne hall] at h
      simp only [Option.filter_eq_some_iff, decide_eq_true_eq] at h
      exact ⟨_, _, hmem, takeWhile_append_dropWhile.symm, hne, hall, h.1.1, h.2, h.1.2⟩
  · rintro ⟨digits, tail, htail, rfl, hne, hall, hval, hpos, hlt⟩
    have hspan := span_digits hall htail
    simp only [hspan.1, hspan.2, parseU32_digits hne hall, hval]
    have hmem : ¬ (tail ≠ ": never used".toList && tail ≠ " is never used".toList) = true := by
      simp only [rowTails, mem_cons, not_mem_nil, or_false] at htail
      simp only [Bool.and_eq_true, decide_eq_true_eq, not_and_or, not_not, ne_eq]
      exact htail
    rw [if_neg hmem, Option.filter_eq_some_iff, Option.filter_eq_some_iff]
    exact ⟨⟨rfl, decide_eq_true hlt⟩, decide_eq_true hpos⟩

/-- The parser accepts exactly the rows of the two dialects. -/
theorem neverUsedPageNumber_iff {row : Text} {page : Nat} :
    neverUsedPageNumber row = some page ↔ NeverUsedRow row page := by
  rw [neverUsedPageNumber, Option.bind_eq_some_iff]
  generalize hlower : (trim row).map Char.toLower = lower
  constructor
  · intro ⟨rest, hrest, hpage⟩
    obtain ⟨digits, tail, htail, rfl, hdigits⟩ := pageTail_iff.mp hpage
    rw [stripHead_eq_some] at hrest
    cases hhead : stripHead "database disk image is malformed: ".toList lower with
    | none =>
      rw [hhead] at hrest
      refine ⟨[], by simp [rowHeads], digits, tail, htail, ?_, hdigits⟩
      rw [hlower]
      exact hrest
    | some inner =>
      rw [hhead] at hrest
      refine ⟨_, mem_cons_of_mem _ mem_cons_self, digits, tail, htail, ?_, hdigits⟩
      rw [hlower, ← show inner = _ from hrest]
      exact stripHead_eq_some.mp hhead
  · rintro ⟨head, hhead, digits, tail, htail, heq, hdigits⟩
    refine ⟨digits ++ tail, ?_, pageTail_iff.mpr ⟨digits, tail, htail, rfl, hdigits⟩⟩
    rw [hlower] at heq
    rw [heq]
    simp only [rowHeads, mem_cons, not_mem_nil, or_false] at hhead
    rcases hhead with rfl | rfl
    · -- the page comes first, so that there is nothing to strip
      have hnone : stripHead "database disk image is malformed: ".toList
          ([] ++ ("page ".toList ++ (digits ++ tail))) = none := by
        rw [stripHead, if_neg]
        exact Bool.false_ne_true
      rw [hnone]
      exact stripHead_append _ _
    · rw [stripHead_append]
      exact stripHead_append _ _

/-! ### All rows -/

theorem exists_forall₂ {α β : Type*} {R : α → β → Prop} {l : List α} (h : ∀ a ∈ l, ∃ b, R a b) :
    ∃ found, Forall₂ R l found := by
  induction l with
  | nil => exact ⟨[], .nil⟩
  | cons a l ih =>
    rw [forall_mem_cons] at h
    obtain ⟨b, hb⟩ := h.1
    obtain ⟨found, hfound⟩ := ih h.2
    exact ⟨b :: found, .cons hb hfound⟩

theorem carriesNoVerdict_iff {row : Text} :
    carriesNoVerdict (trim row) = true ↔ Blank row ∨ SectionHeader row := by
  simp [carriesNoVerdict, Blank, SectionHeader, List.isPrefixOf_iff_prefix, isSuffixOf_iff_suffix]

/-- The rows that carry a verdict. -/
def verdicts (rows : List Text) : List Text := rows.filter fun row => !carriesNoVerdict (trim row)

theorem mem_verdicts {rows : List Text} {row : Text} :
    row ∈ verdicts rows ↔ row ∈ rows ∧ ¬ Blank row ∧ ¬ SectionHeader row := by
  rw [verdicts, mem_filter, Bool.not_eq_true', ← Bool.not_eq_true, carriesNoVerdict_iff, not_or]

/-- The loop pushes one page for each verdict and stops at the first that is not one of ours. -/
theorem pushVerdicts_iff {rows : List Text} {start : List Nat} :
    rows.foldlM pushVerdict start = some pages ↔
      ∃ found, Forall₂ NeverUsedRow (verdicts rows) found ∧ pages = start ++ found := by
  induction rows generalizing start with
  | nil => simp [verdicts, eq_comm]
  | cons row rows ih =>
    rw [foldlM_cons, pushVerdict]
    cases hnone : carriesNoVerdict (trim row) with
    | true =>
      have hskip : verdicts (row :: rows) = verdicts rows := by
        rw [verdicts, filter_cons_of_neg (by simp [hnone])]
        rfl
      rw [hskip]
      exact ih
    | false =>
      have hkeep : verdicts (row :: rows) = row :: verdicts rows := by
        rw [verdicts, filter_cons_of_pos (by simp [hnone])]
        rfl
      have htrim : neverUsedPageNumber (trim row) = neverUsedPageNumber row := by
        unfold neverUsedPageNumber
        rw [trim_trim]
      rw [hkeep]
      simp only [htrim, Bool.false_eq_true, if_false]
      constructor
      · intro h
        obtain ⟨pushed, hpushed, hrest⟩ := Option.bind_eq_some_iff.mp h
        obtain ⟨page, hpage, rfl⟩ := Option.map_eq_some_iff.mp hpushed
        obtain ⟨found, hfound, rfl⟩ := ih.mp hrest
        refine ⟨page :: found, .cons (neverUsedPageNumber_iff.mp hpage) hfound, ?_⟩
        rw [append_assoc]
        rfl
      · rintro ⟨_, hfound, rfl⟩
        cases hfound with
        | cons hpage hfound =>
          rename_i page found
          rw [neverUsedPageNumber_iff.mpr hpage]
          exact ih.mpr ⟨found, hfound, by rw [append_assoc]; rfl⟩

theorem neverUsedPageNumbers_eq_some {rows : List Text} :
    neverUsedPageNumbers rows = some pages ↔
      ∃ found, Forall₂ NeverUsedRow (verdicts rows) found ∧ found ≠ [] ∧
        pages = sortDedup found := by
  rw [neverUsedPageNumbers, Option.bind_eq_some_iff]
  constructor
  · intro ⟨found, hpushed, h⟩
    obtain ⟨_, hfound, rfl⟩ := pushVerdicts_iff.mp hpushed
    split at h
    · cases h
    · rename_i hne
      exact ⟨_, hfound, fun hnil => hne (by rw [hnil]; rfl), (Option.some.inj h).symm⟩
  · rintro ⟨found, hfound, hne, rfl⟩
    refine ⟨found, pushVerdicts_iff.mpr ⟨found, hfound, rfl⟩, ?_⟩
    rw [if_neg (fun hnil => hne (List.isEmpty_iff.mp hnil))]

/-! ### The results -/

theorem readPageSize_eq {main : Bytes} {size : Nat} (h : readPageSize main = .ok size) :
    size = mainPageSize main := by
  rw [readPageSize] at h
  split at h
  · cases h
  · rename_i header rest hread
    obtain ⟨_, rfl, _⟩ := readExact_eq_some.mp hread
    split at h
    · cases h
    · have hraw : ((main.take sqliteHeaderLen).drop 16).take 2 = (main.drop 16).take 2 := by
        rw [drop_take, take_take]
        rfl
      have hfold : (if fromBeBytes ((main.drop 16).take 2) = 1 then 65536
          else fromBeBytes ((main.drop 16).take 2)) = mainPageSize main := rfl
      simp only [hraw, hfold] at h
      split at h
      · cases h
      · exact (Except.ok.inj h).symm

theorem provePagesNeverWritten_eq_ok {main : Bytes} {wal : Except IoError Bytes}
    {proven : NeverWrittenOrphanPages}
    (h : provePagesNeverWritten (.ok main) wal pages = .ok proven) :
    0 ∉ pages ∧ requireZeroInMainFile main (mainPageSize main) (sortDedup pages) = .ok () ∧
      requireZeroInWal wal (mainPageSize main) (sortDedup pages) = .ok () := by
  rw [provePagesNeverWritten] at h
  split at h
  · cases h
  · simp only at h
    split at h
    · cases h
    · rename_i hzero
      obtain ⟨size, hsize, h⟩ := bind_eq_ok.mp h
      obtain ⟨⟨⟩, hmain, h⟩ := bind_eq_ok.mp h
      obtain ⟨⟨⟩, hwal, _⟩ := bind_eq_ok.mp h
      rw [readPageSize_eq hsize] at hmain hwal
      refine ⟨?_, hmain, hwal⟩
      intro hmem
      -- The least page stands first.
      have hsorted := pairwise_sortDedup pages
      rw [← mem_sortDedup] at hmem
      cases hl : sortDedup pages with
      | nil =>
        rw [hl] at hmem
        cases hmem
      | cons first rest =>
        rw [hl] at hmem hsorted hzero
        cases mem_cons.mp hmem with
        | inl heq => exact hzero (by rw [heq]; rfl)
        | inr hin => exact absurd (rel_of_pairwise_cons hsorted hin) (Nat.not_lt_zero _)

/-- A page of a successful proof exists for every reader and is zero throughout; a list of pages is
given exactly when some row carries a verdict and every verdict is that a page is never used, and
then it lists these pages. -/
theorem proven_pages_blank :
    (∀ (main : Bytes) (wal : Except IoError Bytes) (pages : List Nat)
        (proven : NeverWrittenOrphanPages),
      provePagesNeverWritten (.ok main) wal pages = .ok proven →
        ∀ page ∈ pages, ∀ honours : Nat → Bool, effectiveImage main (logBytes wal) honours page =
          some (replicate (mainPageSize main) 0)) ∧
    (∀ rows : List Text, (∃ pages, neverUsedPageNumbers rows = some pages) ↔
      (∃ row ∈ rows, ¬ Blank row ∧ ¬ SectionHeader row) ∧
        ∀ row ∈ rows, ¬ Blank row → ¬ SectionHeader row → ∃ page, NeverUsedRow row page) ∧
    (∀ (rows : List Text) (pages : List Nat), neverUsedPageNumbers rows = some pages →
      pages.Pairwise (· < ·) ∧ ∀ page, page ∈ pages ↔
        ∃ row ∈ rows, ¬ Blank row ∧ ¬ SectionHeader row ∧ NeverUsedRow row page) := by
  refine ⟨?_, ?_, ?_⟩
  · intro main wal pages proven h page hpage honours
    obtain ⟨hzero, hmain, hwal⟩ := provePagesNeverWritten_eq_ok h
    have hpos : 1 ≤ page := Nat.one_le_iff_ne_zero.mpr fun heq => hzero (heq ▸ hpage)
    rw [← mem_sortDedup] at hpage
    rw [effectiveImage]
    split
    · rename_i i hlast
      have hi := mem_of_getLast? hlast
      rw [mem_filter, List.mem_range, Bool.and_eq_true, beq_iff_eq] at hi
      obtain ⟨hcount, _, hnames⟩ := hi
      cases wal with
      | error error => simp [logBytes, frameCount] at hcount
      | ok wal =>
        rw [← hnames] at hpage
        rw [logBytes, frameImage_of_requireZeroInLog (pairwise_sortDedup pages) hwal hcount hpage]
    · exact slot_of_requireZeroPage hpos (requireZeroPage_of_mem hmain hpage)
  · intro rows
    constructor
    · intro ⟨pages, h⟩
      obtain ⟨found, hfound, hne, _⟩ := neverUsedPageNumbers_eq_some.mp h
      constructor
      · have hsome : verdicts rows ≠ [] := fun hnil => by
          rw [hnil] at hfound
          exact hne (List.forall₂_nil_left_iff.mp hfound)
        obtain ⟨row, hrow⟩ := exists_mem_of_ne_nil _ hsome
        exact ⟨row, mem_verdicts.mp hrow⟩
      · intro row hrow hblank hheader
        obtain ⟨page, _, hpage⟩ := exists_of_forall₂_left hfound (mem_verdicts.mpr ⟨hrow, hblank, hheader⟩)
        exact ⟨page, hpage⟩
    · intro ⟨⟨row, hrow⟩, hall⟩
      obtain ⟨found, hfound⟩ := exists_forall₂ fun row hrow => by
        obtain ⟨hin, hblank, hheader⟩ := mem_verdicts.mp hrow
        exact hall row hin hblank hheader
      refine ⟨_, neverUsedPageNumbers_eq_some.mpr ⟨found, hfound, ?_, rfl⟩⟩
      rintro rfl
      have hnil := List.forall₂_nil_right_iff.mp hfound
      have hmem := mem_verdicts.mpr hrow
      rw [hnil] at hmem
      cases hmem
  · intro rows pages h
    obtain ⟨found, hfound, _, rfl⟩ := neverUsedPageNumbers_eq_some.mp h
    refine ⟨pairwise_sortDedup found, fun page => ?_⟩
    rw [mem_sortDedup]
    constructor
    · intro hpage
      obtain ⟨row, hrow, hused⟩ := exists_of_forall₂_right hfound hpage
      obtain ⟨hin, hblank, hheader⟩ := mem_verdicts.mp hrow
      exact ⟨row, hin, hblank, hheader, hused⟩
    · intro ⟨row, hrow, hblank, hheader, hused⟩
      obtain ⟨page', hpage', hused'⟩ := exists_of_forall₂_left hfound
        (mem_verdicts.mpr ⟨hrow, hblank, hheader⟩)
      rw [← neverUsedPageNumber_iff] at hused hused'
      rwa [Option.some.inj (hused.symm.trans hused')]

/-- A main file of two pages of 512 bytes whose second is blank. -/
def blankMain : Bytes := sqliteHeaderMagic ++ [2, 0] ++ replicate 1006 0

/-- A log with one blank frame for the second page. -/
def blankLog : Bytes := [0x37, 0x7f, 0x06, 0x82, 0, 0, 0, 0, 0, 0, 2, 0] ++ replicate 20 0 ++
  [0, 0, 0, 2] ++ replicate 532 0

theorem proven_pages_blank_sample :
    effectiveImage blankMain blankLog (fun _ => true) 2 =
      some (replicate (mainPageSize blankMain) 0) ∧
    ∃ pages, neverUsedPageNumbers ["*** in database main ***".toList, "Page 2: never used".toList] =
      some pages := by
  constructor
  · have hok : (provePagesNeverWritten (.ok blankMain) (.ok blankLog) [2]).isOk = true := by
      decide +kernel
    cases h : provePagesNeverWritten (.ok blankMain) (.ok blankLog) [2] with
    | error refusal =>
      rw [h] at hok
      cases hok
    | ok proven => exact proven_pages_blank.1 blankMain (.ok blankLog) [2] proven h 2 (by decide) _
  · rw [proven_pages_blank.2.1]
    refine ⟨⟨_, mem_cons_of_mem _ mem_cons_self, by decide, by decide⟩, ?_⟩
    intro row hrow hblank hheader
    refine ⟨2, ?_⟩
    rw [← neverUsedPageNumber_iff]
    revert row
    decide

/-- A result of nothing but a section header has no verdict that could fail, and yet no list. -/
theorem header_alone_unlisted :
    ¬ ((∃ pages, neverUsedPageNumbers ["*** in database main ***".toList] = some pages) ↔
      ∀ row ∈ ["*** in database main ***".toList], ¬ Blank row → ¬ SectionHeader row →
        ∃ page, NeverUsedRow row page) := by
  have hnone : neverUsedPageNumbers ["*** in database main ***".toList] = none := by decide
  have hheader : SectionHeader "*** in database main ***".toList := by decide
  intro h
  obtain ⟨pages, hpages⟩ := h.mpr fun row hrow _ hrow' =>
    absurd (mem_singleton.mp hrow ▸ hheader) hrow'
  rw [hnone] at hpages
  cases hpages

end AgentMail.Integrity
