import AgentMail.Base.Lossy
import AgentMail.Lib.Lines

/-!
# The name-status stream

The guard reads `git diff --name-status -z` twice: whole, in `parse_name_status_z`, and in chunks
as a pipe hands them over, in `NameStatusStream`, where a cap on the records bounds the work. Both
are compared with the records that stand in the output.
-/

namespace AgentMail.Guard

open Base Lib List

/-- Renames and copies name two paths. -/
def namesTwoPaths (status : Text) : Bool :=
  match status with
  | c :: _ => c == 'R' || c == 'C'
  | [] => false

/-! ### The whole output -/

def nonEmptyPaths (parts : List Text) : List Text := parts.filter (!·.isEmpty)

/-- The loop of `parse_name_status_z`, over the parts from `i` on. -/
def parseLoop : Nat → List Text → List Text
  | turns + 1, part :: parts =>
    let status := trim part
    if status.isEmpty then parseLoop turns parts
    else if namesTwoPaths status then
      nonEmptyPaths (parts.take 2) ++ parseLoop turns (parts.drop 2)
    else nonEmptyPaths (parts.take 1) ++ parseLoop turns (parts.drop 1)
  | _, _ => []

def parseNameStatusZ (raw : Bytes) : List Text :=
  let parts := (fromUtf8Lossy raw).splitOn '\x00'
  parseLoop parts.length parts

/-! ### The stream -/

structure NameStatusStream where
  tail : Bytes := []
  pathsLeft : Nat := 0
  records : Nat := 0
  capped : Bool := false
  paths : List Text := []

namespace NameStatusStream

/-- What `push_token` does with the text of a token. -/
def pushText (s : NameStatusStream) (token : Text) (maxRecords : Option Nat) :
    NameStatusStream × Bool :=
  if s.pathsLeft = 0 then
    let status := trim token
    if status.isEmpty then (s, true)
    else if maxRecords.any (· ≤ s.records) then (s, false)
    else
      ({ s with
          records := s.records + 1
          pathsLeft := if namesTwoPaths status then 2 else 1 }, true)
  else
    ({ s with
        paths := if token.isEmpty then s.paths else s.paths ++ [token]
        pathsLeft := s.pathsLeft - 1 }, true)

def pushToken (s : NameStatusStream) (start tokenEnd : Nat) (maxRecords : Option Nat) :
    NameStatusStream × Bool :=
  s.pushText (fromUtf8Lossy ((s.tail.drop start).take (tokenEnd - start))) maxRecords

/-- The loop of `feed`, with what it has consumed of the tail; one turn takes a byte or more. -/
def feedLoop (maxRecords : Option Nat) : Nat → Nat → NameStatusStream → NameStatusStream × Nat
  | turns + 1, consumed, s =>
    match (s.tail.drop consumed).findIdx? (· == 0) with
    | none => (s, consumed)
    | some len =>
      let tokenEnd := consumed + len
      let (s', keepGoing) := s.pushToken consumed tokenEnd maxRecords
      if keepGoing then feedLoop maxRecords turns (tokenEnd + 1) s'
      else ({ s' with capped := true }, tokenEnd + 1)
  | 0, consumed, s => (s, consumed)

/-- The flag says whether the stream is still read. -/
def feed (s : NameStatusStream) (chunk : Bytes) (maxRecords : Option Nat) :
    NameStatusStream × Bool :=
  if s.capped then (s, false)
  else
    let tail := s.tail ++ chunk
    let (s', consumed) := feedLoop maxRecords tail.length 0 { s with tail := tail }
    ({ s' with tail := s'.tail.drop consumed }, !s'.capped)

/-- The reader of `drive_pipeline`: chunks until the end or until a feed says stop. -/
def feedAll (maxRecords : Option Nat) : NameStatusStream → List Bytes → NameStatusStream
  | s, [] => s
  | s, chunk :: chunks =>
    match s.feed chunk maxRecords with
    | (s', true) => feedAll maxRecords s' chunks
    | (s', false) => s'

end NameStatusStream

/-! ### Records -/

/-- The records of a list of parts, each with the paths it names. -/
def recordPaths : List Text → List (List Text)
  | [] => []
  | part :: parts =>
    let status := trim part
    if status.isEmpty then recordPaths parts
    else
      let count := if namesTwoPaths status then 2 else 1
      nonEmptyPaths (parts.take count) :: recordPaths (parts.drop count)
termination_by parts => parts.length
decreasing_by
  · simp
  · rw [length_drop, length_cons]
    omega

/-- The texts that a zero byte ends. -/
def completeTokens (raw : Bytes) : List Text := (raw.splitOn 0).dropLast.map fromUtf8Lossy

/-- The records of an output: a record starts where its status ends. -/
def recordsOf (raw : Bytes) : List (List Text) := recordPaths (completeTokens raw)

theorem recordPaths_nil : recordPaths [] = [] := by rw [recordPaths]

theorem recordPaths_blank {part : Text} (h : (trim part).isEmpty = true) (parts : List Text) :
    recordPaths (part :: parts) = recordPaths parts := by
  rw [recordPaths, if_pos h]

theorem recordPaths_cons {part : Text} (h : (trim part).isEmpty = false) (parts : List Text) :
    recordPaths (part :: parts) =
      nonEmptyPaths (parts.take (if namesTwoPaths (trim part) then 2 else 1)) ::
        recordPaths (parts.drop (if namesTwoPaths (trim part) then 2 else 1)) := by
  rw [recordPaths, if_neg (by rw [h]; exact Bool.false_ne_true)]

/-- An empty part at the end starts no record and names no path. -/
theorem recordPaths_concat_nil (parts : List Text) : recordPaths (parts ++ [[]]) = recordPaths parts := by
  have hlong : ∀ k, ∀ parts : List Text, parts.length ≤ k →
      recordPaths (parts ++ [[]]) = recordPaths parts := by
    intro k
    induction k with
    | zero =>
      intro parts hk
      rw [length_eq_zero_iff.mp (Nat.le_zero.mp hk), nil_append, recordPaths_blank rfl]
    | succ k ih =>
      intro parts hk
      cases parts with
      | nil => rw [nil_append, recordPaths_blank rfl]
      | cons part parts =>
        rw [length_cons] at hk
        rw [cons_append]
        cases hpart : (trim part).isEmpty with
        | true => rw [recordPaths_blank hpart, recordPaths_blank hpart, ih parts (by omega)]
        | false =>
          rw [recordPaths_cons hpart, recordPaths_cons hpart]
          generalize hcount : (if namesTwoPaths (trim part) then 2 else 1) = count
          congr 1
          · rw [take_append, nonEmptyPaths, filter_append]
            cases count - parts.length <;> simp [nonEmptyPaths]
          · rw [drop_append]
            by_cases hle : count ≤ parts.length
            · rw [Nat.sub_eq_zero_of_le hle, drop_zero]
              apply ih
              rw [length_drop]
              omega
            · have hne : count - parts.length ≠ 0 := by omega
              obtain ⟨n, hn⟩ := Nat.exists_eq_succ_of_ne_zero hne
              rw [hn, drop_succ_cons, drop_nil, append_nil]
  exact hlong parts.length parts le_rfl

theorem parseLoop_eq {turns : Nat} {parts : List Text} (h : parts.length ≤ turns) :
    parseLoop turns parts = (recordPaths parts).flatten := by
  induction turns generalizing parts with
  | zero =>
    rw [length_eq_zero_iff.mp (Nat.le_zero.mp h), recordPaths_nil]
    rfl
  | succ turns ih =>
    cases parts with
    | nil =>
      rw [recordPaths_nil]
      rfl
    | cons part parts =>
      rw [length_cons] at h
      have hdrop : ∀ n, (parts.drop n).length ≤ turns := fun n => by
        rw [length_drop]
        omega
      rw [parseLoop]
      cases hpart : (trim part).isEmpty with
      | true =>
        rw [if_pos rfl, recordPaths_blank hpart]
        exact ih (by omega)
      | false =>
        rw [if_neg Bool.false_ne_true, recordPaths_cons hpart, flatten_cons]
        split
        · rw [ih (hdrop 2)]
        · rw [ih (hdrop 1)]

/-- The whole output is read record by record. -/
theorem parseNameStatusZ_eq {raw : Bytes} (h : Closed 0 raw) :
    parseNameStatusZ raw = (recordsOf raw).flatten := by
  rw [parseNameStatusZ, parseLoop_eq le_rfl, splitOn_fromUtf8Lossy, h.splitOn_eq, map_append, map_singleton,
    fromUtf8Lossy_nil, recordPaths_concat_nil]
  rfl

/-! ### The stream, token by token -/

/-- The first records up to a cap. -/
def capRecords (maxRecords : Option Nat) (rs : List (List Text)) : List (List Text) :=
  match maxRecords with
  | none => rs
  | some n => rs.take n

namespace NameStatusStream

/-- The stream after some tokens. -/
def pushTexts (maxRecords : Option Nat) : NameStatusStream → List Text → NameStatusStream
  | s, [] => s
  | s, token :: tokens =>
    match s.pushText token maxRecords with
    | (s', true) => pushTexts maxRecords s' tokens
    | (s', false) => { s' with capped := true }

variable {maxRecords : Option Nat}

/-- How many records more may start. -/
def room (maxRecords : Option Nat) (s : NameStatusStream) : Option Nat :=
  maxRecords.map (· - s.records)

variable {s : NameStatusStream}

theorem pushText_blank (hleft : s.pathsLeft = 0) {token : Text} (h : (trim token).isEmpty = true) :
    s.pushText token maxRecords = (s, true) := by
  rw [pushText, if_pos hleft, if_pos h]

theorem pushText_full (hleft : s.pathsLeft = 0) {token : Text} (h : (trim token).isEmpty = false)
    {n : Nat} (hn : maxRecords = some n) (hle : n ≤ s.records) :
    s.pushText token maxRecords = (s, false) := by
  rw [pushText, if_pos hleft]
  dsimp only
  rw [h, if_neg Bool.false_ne_true, hn]
  exact if_pos (decide_eq_true hle)

theorem pushText_status (hleft : s.pathsLeft = 0) {token : Text}
    (h : (trim token).isEmpty = false) (hroom : ∀ n, maxRecords = some n → s.records < n) :
    s.pushText token maxRecords = ({ s with
          records := s.records + 1
          pathsLeft := if namesTwoPaths (trim token) then 2 else 1 }, true) := by
  rw [pushText, if_pos hleft]
  dsimp only
  rw [h, if_neg Bool.false_ne_true]
  apply if_neg
  cases maxRecords with
  | none => exact Bool.false_ne_true
  | some n =>
    have := hroom n rfl
    simp only [Option.any_some, decide_eq_true_eq]
    omega

theorem pushText_path (hleft : s.pathsLeft ≠ 0) (token : Text) :
    s.pushText token maxRecords = ({ s with
          paths := s.paths ++ nonEmptyPaths [token]
          pathsLeft := s.pathsLeft - 1 }, true) := by
  rw [pushText, if_neg hleft]
  cases token with
  | nil => simp [nonEmptyPaths]
  | cons c token => simp [nonEmptyPaths]

/-- Tokens finish the open record, and then come the records that there is room for. -/
theorem paths_pushTexts (maxRecords : Option Nat) (hcap : s.capped = false)
    (hroom : ∀ n, maxRecords = some n → s.records ≤ n) (tokens : List Text) :
    (pushTexts maxRecords s tokens).paths = s.paths ++ nonEmptyPaths (tokens.take s.pathsLeft) ++
          (capRecords (room maxRecords s) (recordPaths (tokens.drop s.pathsLeft))).flatten ∧
      ((pushTexts maxRecords s tokens).capped = true ↔
        ∃ n, room maxRecords s = some n ∧ n < (recordPaths (tokens.drop s.pathsLeft)).length) := by
  induction tokens generalizing s with
  | nil =>
    rw [pushTexts, take_nil, drop_nil, recordPaths_nil, hcap]
    constructor
    · cases room maxRecords s <;> simp [capRecords, nonEmptyPaths]
    · simp
  | cons token tokens ih =>
    rw [pushTexts]
    by_cases hleft : s.pathsLeft = 0
    · cases htoken : (trim token).isEmpty with
      | true =>
        -- A blank between records.
        rw [pushText_blank hleft htoken, hleft, take_zero, drop_zero, recordPaths_blank htoken]
        have h := ih hcap hroom
        rw [hleft, take_zero, drop_zero] at h
        exact h
      | false =>
        by_cases hfull : ∃ n, maxRecords = some n ∧ n ≤ s.records
        · -- The cap keeps the record from starting.
          obtain ⟨n, hn, hle⟩ := hfull
          have hzero : room maxRecords s = some 0 := by
            rw [room, hn, Option.map_some, Nat.sub_eq_zero_of_le hle]
          rw [pushText_full hleft htoken hn hle, hleft, take_zero, drop_zero,
            recordPaths_cons htoken, hzero]
          constructor
          · simp [capRecords, nonEmptyPaths]
          · simp
        · have hless : ∀ n, maxRecords = some n → s.records < n := by
            intro n hn
            apply Nat.lt_of_not_le
            exact fun hle => hfull ⟨n, hn, hle⟩
          rw [pushText_status hleft htoken hless, hleft, take_zero, drop_zero,
            recordPaths_cons htoken]
          obtain ⟨hpaths, hcapped⟩ := ih (s := { s with
            records := s.records + 1
            pathsLeft := if namesTwoPaths (trim token) then 2 else 1 }) hcap hless
          dsimp only at hpaths hcapped ⊢
          rw [hpaths, hcapped]
          cases hmax : maxRecords with
          | none =>
            constructor
            · simp [capRecords, room, nonEmptyPaths]
            · simp [room]
          | some n =>
            have hn := hless n hmax
            obtain ⟨m, hm⟩ := Nat.exists_eq_add_of_lt hn
            have hroom₀ : n - s.records = m + 1 := by omega
            have hroom₁ : n - (s.records + 1) = m := by omega
            constructor
            · simp [capRecords, room, nonEmptyPaths, hroom₀, hroom₁]
            · simp [room, hroom₀, hroom₁]
    · -- A path of the open record.
      obtain ⟨left, hsucc⟩ := Nat.exists_eq_succ_of_ne_zero hleft
      rw [pushText_path hleft, hsucc, take_succ_cons, drop_succ_cons]
      obtain ⟨hpaths, hcapped⟩ := ih (s := { s with
        paths := s.paths ++ nonEmptyPaths [token]
        pathsLeft := left }) hcap hroom
      dsimp only [Nat.succ_sub_one] at hpaths hcapped ⊢
      rw [hpaths, hcapped]
      constructor
      · rw [append_assoc s.paths]
        congr 2
        rw [nonEmptyPaths, nonEmptyPaths, ← filter_append]
        rfl
      · rfl

theorem frame_pushText (s : NameStatusStream) (token : Text) (maxRecords : Option Nat) :
    (s.pushText token maxRecords).1.tail = s.tail ∧
      (s.pushText token maxRecords).1.capped = s.capped := by
  unfold pushText
  split
  · dsimp only
    split
    · exact ⟨rfl, rfl⟩
    · split
      · exact ⟨rfl, rfl⟩
      · exact ⟨rfl, rfl⟩
  · exact ⟨rfl, rfl⟩

theorem pushTexts_nil (s : NameStatusStream) : pushTexts maxRecords s [] = s := rfl

theorem tail_pushTexts (s : NameStatusStream) (tokens : List Text) :
    (pushTexts maxRecords s tokens).tail = s.tail := by
  induction tokens generalizing s with
  | nil => rfl
  | cons token tokens ih =>
    have hframe := (frame_pushText s token maxRecords).1
    rw [pushTexts]
    split
    · next s' hpush =>
      rw [hpush] at hframe
      rw [ih, hframe]
    · next s' hpush =>
      rw [hpush] at hframe
      exact hframe

/-- What of a stream its tokens decide. -/
def read (s : NameStatusStream) : NameStatusStream := { s with tail := [] }

/-- The tail plays no part in what tokens do. -/
theorem pushText_read (s : NameStatusStream) (token : Text) :
    s.read.pushText token maxRecords =
      ((s.pushText token maxRecords).1.read, (s.pushText token maxRecords).2) := by
  by_cases hleft : s.pathsLeft = 0
  · cases htoken : (trim token).isEmpty with
    | true => simp only [pushText, read, if_pos hleft, htoken, if_true]
    | false =>
      cases hfull : maxRecords.any (· ≤ s.records) with
      | true => simp [pushText, read, hleft, htoken, hfull]
      | false => simp [pushText, read, hleft, htoken, hfull]
  · simp [pushText, read, hleft]

theorem read_pushTexts (s : NameStatusStream) (tokens : List Text) :
    (pushTexts maxRecords s tokens).read = pushTexts maxRecords s.read tokens := by
  induction tokens generalizing s with
  | nil => rfl
  | cons token tokens ih =>
    rw [pushTexts, pushTexts, pushText_read]
    rcases s.pushText token maxRecords with ⟨s', _ | _⟩
    · rfl
    · exact ih s'

theorem pushTexts_append {front : List Text} (hs : s.capped = false) (back : List Text) :
    pushTexts maxRecords s (front ++ back) =
      if (pushTexts maxRecords s front).capped then pushTexts maxRecords s front
      else pushTexts maxRecords (pushTexts maxRecords s front) back := by
  induction front generalizing s with
  | nil =>
    rw [pushTexts_nil, hs, if_neg Bool.false_ne_true]
    rfl
  | cons token front ih =>
    have hframe := (frame_pushText s token maxRecords).2
    rw [cons_append, pushTexts, pushTexts]
    cases hpush : s.pushText token maxRecords with
    | mk s' keepGoing =>
      rw [hpush] at hframe
      cases keepGoing with
      | false => rfl
      | true => exact ih (hframe.trans hs)

/-- The loop takes the complete tokens of what it has not consumed. -/
theorem feedLoop_eq (maxRecords : Option Nat) {turns consumed : Nat} (hs : s.capped = false)
    (hturns : (s.tail.drop consumed).length ≤ turns) :
    (feedLoop maxRecords turns consumed s).1 =
        pushTexts maxRecords s (completeTokens (s.tail.drop consumed)) ∧
      ((feedLoop maxRecords turns consumed s).1.capped = false →
        s.tail.drop (feedLoop maxRecords turns consumed s).2 =
          ((s.tail.drop consumed).splitOn 0).getLastD []) := by
  induction turns generalizing consumed s with
  | zero =>
    have hnil := length_eq_zero_iff.mp (Nat.le_zero.mp hturns)
    rw [feedLoop, hnil]
    exact ⟨rfl, fun _ => rfl⟩
  | succ turns ih =>
    rw [feedLoop]
    cases hfind : (s.tail.drop consumed).findIdx? (· == 0) with
    | none =>
      have hmem : 0 ∉ s.tail.drop consumed := by
        intro hmem
        have hne := List.findIdx?_eq_none_iff.mp hfind 0 hmem
        cases hne
      rw [completeTokens, splitOn_eq_singleton hmem]
      exact ⟨rfl, fun _ => rfl⟩
    | some len =>
      have hlen := (List.findIdx?_eq_some_iff_getElem.mp hfind).choose
      have hsplit := splitOn_of_findIdx? hfind
      have hne := splitOn_ne_nil 0 ((s.tail.drop consumed).drop (len + 1))
      have htokens : completeTokens (s.tail.drop consumed) =
          fromUtf8Lossy ((s.tail.drop consumed).take len) ::
            completeTokens ((s.tail.drop consumed).drop (len + 1)) := by
        rw [completeTokens, completeTokens, hsplit, dropLast_cons_of_ne_nil hne, map_cons]
      have hdrop : (s.tail.drop consumed).drop (len + 1) = s.tail.drop (consumed + len + 1) := by
        rw [drop_drop, Nat.add_assoc]
      have hlast : ((s.tail.drop consumed).splitOn 0).getLastD [] =
          ((s.tail.drop (consumed + len + 1)).splitOn 0).getLastD [] := by
        rw [hsplit, hdrop]
        rw [hdrop] at hne
        cases hback : (s.tail.drop (consumed + len + 1)).splitOn 0 with
        | nil => exact absurd hback hne
        | cons piece pieces => rfl
      have hframe := frame_pushText s (fromUtf8Lossy ((s.tail.drop consumed).take len)) maxRecords
      have htoken : s.pushToken consumed (consumed + len) maxRecords =
          s.pushText (fromUtf8Lossy ((s.tail.drop consumed).take len)) maxRecords := by
        rw [pushToken, Nat.add_sub_cancel_left]
      rw [htokens, hlast, pushTexts]
      dsimp only
      rw [htoken]
      rcases hpush : s.pushText (fromUtf8Lossy ((s.tail.drop consumed).take len)) maxRecords with
        ⟨s', _ | _⟩
      · refine ⟨rfl, fun hcap => ?_⟩
        cases hcap
      · rw [hpush] at hframe
        dsimp only at hframe ⊢
        rw [hdrop, ← hframe.1]
        apply ih (hframe.2.trans hs)
        rw [hframe.1, ← hdrop, length_drop]
        omega

/-- A feed takes the complete tokens of the tail and the chunk, and keeps what is behind them. -/
theorem feed_eq (maxRecords : Option Nat) (hs : s.capped = false) (chunk : Bytes) :
    (s.feed chunk maxRecords).1.read =
        pushTexts maxRecords s.read (completeTokens (s.tail ++ chunk)) ∧
      ((s.feed chunk maxRecords).1.capped = false →
        (s.feed chunk maxRecords).1.tail = ((s.tail ++ chunk).splitOn 0).getLastD []) ∧
      (s.feed chunk maxRecords).2 = !(s.feed chunk maxRecords).1.capped := by
  obtain ⟨hstate, htail⟩ := feedLoop_eq maxRecords (s := { s with tail := s.tail ++ chunk }) hs
    (show ((s.tail ++ chunk).drop 0).length ≤ (s.tail ++ chunk).length from le_rfl)
  rw [feed, if_neg (by rw [hs]; exact Bool.false_ne_true)]
  dsimp only
  refine ⟨?_, ?_, rfl⟩
  · rw [drop_zero] at hstate
    have hread := congrArg read hstate
    rw [read_pushTexts] at hread
    exact hread
  · intro hcap
    rw [hstate, tail_pushTexts]
    exact htail hcap

/-- What a stream knows of the bytes fed so far. -/
def Follows (maxRecords : Option Nat) (raw : Bytes) (s : NameStatusStream) : Prop :=
  s.read = pushTexts maxRecords {} (completeTokens raw) ∧
    (s.capped = false → s.tail = (raw.splitOn 0).getLastD [])

theorem completeTokens_append (front back : Bytes) :
    completeTokens (front ++ back) =
      completeTokens front ++ completeTokens ((front.splitOn 0).getLastD [] ++ back) := by
  rw [completeTokens, splitOn_append, dropLast_append_of_ne_nil (splitOn_ne_nil 0 _), map_append]
  rfl

theorem follows_nil (maxRecords : Option Nat) : Follows maxRecords [] {} := ⟨rfl, fun _ => rfl⟩

theorem Follows.feed {raw : Bytes} (h : Follows maxRecords raw s) (hs : s.capped = false)
    (chunk : Bytes) : Follows maxRecords (raw ++ chunk) (s.feed chunk maxRecords).1 := by
  obtain ⟨hread, htail, _⟩ := feed_eq maxRecords hs chunk
  have hopen : (pushTexts maxRecords {} (completeTokens raw)).capped = false := by
    rw [← h.1]
    exact hs
  constructor
  · rw [hread, h.1, h.2 hs, completeTokens_append raw chunk, pushTexts_append (s := {}) rfl, hopen]
    rfl
  · intro hcap
    rw [htail hcap, h.2 hs, ← getLastD_splitOn_append]

theorem Follows.more {raw : Bytes} (h : Follows maxRecords raw s) (hs : s.capped = true)
    (rest : Bytes) : Follows maxRecords (raw ++ rest) s := by
  have hclosed : (pushTexts maxRecords {} (completeTokens raw)).capped = true := by
    rw [← h.1]
    exact hs
  constructor
  · rw [h.1, completeTokens_append, pushTexts_append (s := {}) rfl, hclosed]
    rfl
  · intro hcap
    rw [hs] at hcap
    cases hcap

theorem Follows.feedAll {raw : Bytes} (h : Follows maxRecords raw s) (hs : s.capped = false)
    (chunks : List Bytes) :
    Follows maxRecords (raw ++ chunks.flatten) (feedAll maxRecords s chunks) := by
  induction chunks generalizing raw s with
  | nil =>
    rw [flatten_nil, append_nil]
    exact h
  | cons chunk chunks ih =>
    have hfed := h.feed hs chunk
    have hflag := (feed_eq maxRecords hs chunk).2.2
    rw [NameStatusStream.feedAll, flatten_cons, ← append_assoc]
    rcases hpush : s.feed chunk maxRecords with ⟨s', _ | _⟩
    · rw [hpush] at hfed hflag
      have hcap : s'.capped = true := by simpa using hflag
      exact hfed.more hcap chunks.flatten
    · rw [hpush] at hfed hflag
      have hcap : s'.capped = false := by simpa using hflag
      exact ih hfed hcap

end NameStatusStream

/-- What a stream that is cut into chunks comes to. -/
theorem feedAll_eq (maxRecords : Option Nat) (chunks : List Bytes) :
    (NameStatusStream.feedAll maxRecords {} chunks).paths =
        (capRecords maxRecords (recordsOf chunks.flatten)).flatten ∧
      ((NameStatusStream.feedAll maxRecords {} chunks).capped = true ↔
        ∃ n, maxRecords = some n ∧ n < (recordsOf chunks.flatten).length) := by
  have hfollows := (NameStatusStream.follows_nil maxRecords).feedAll rfl chunks
  have hroom : NameStatusStream.room maxRecords {} = maxRecords := by cases maxRecords <;> rfl
  obtain ⟨hpaths, hcapped⟩ := NameStatusStream.paths_pushTexts maxRecords (s := {})
    rfl (fun n _ => Nat.zero_le n) (completeTokens chunks.flatten)
  rw [hroom] at hpaths hcapped
  rw [nil_append, NameStatusStream.Follows] at hfollows
  rw [← hfollows.1] at hpaths hcapped
  exact ⟨hpaths, hcapped⟩

/-- A stream says what the whole output says, wherever it is cut; under a cap it says what the
first records say, and whether there are more. -/
theorem stream_eq_parse (chunks : List Bytes) :
    (Closed 0 chunks.flatten →
      (NameStatusStream.feedAll none {} chunks).paths = parseNameStatusZ chunks.flatten ∧
        parseNameStatusZ chunks.flatten = (recordsOf chunks.flatten).flatten) ∧
    ∀ n, (NameStatusStream.feedAll (some n) {} chunks).paths =
        ((recordsOf chunks.flatten).take n).flatten ∧
      ((NameStatusStream.feedAll (some n) {} chunks).capped = true ↔
        n < (recordsOf chunks.flatten).length) := by
  constructor
  · intro hclosed
    rw [parseNameStatusZ_eq hclosed]
    exact ⟨(feedAll_eq none chunks).1, rfl⟩
  · intro n
    obtain ⟨hpaths, hcapped⟩ := feedAll_eq (some n) chunks
    refine ⟨hpaths, hcapped.trans ?_⟩
    constructor
    · rintro ⟨m, hm, hlt⟩
      cases hm
      exact hlt
    · intro hlt
      exact ⟨n, rfl, hlt⟩

/-- A rename and a change, cut inside the status and between the two paths. -/
def renameChunks : List Bytes := [[82], [49, 0, 97], [0, 98, 0, 77, 0, 99, 0]]

theorem stream_eq_parse_rename :
    Closed 0 renameChunks.flatten ∧ (NameStatusStream.feedAll none {} renameChunks).paths =
        parseNameStatusZ renameChunks.flatten ∧
      parseNameStatusZ renameChunks.flatten = [['a'], ['b'], ['c']] ∧
      ((NameStatusStream.feedAll (some 1) {} renameChunks).capped = true ↔
        1 < (recordsOf renameChunks.flatten).length) ∧
      (NameStatusStream.feedAll (some 1) {} renameChunks).paths = [['a'], ['b']] := by
  have hclosed : Closed 0 renameChunks.flatten :=
    .inr ⟨[82, 49, 0, 97, 0, 98, 0, 77, 0, 99], by decide⟩
  obtain ⟨hwhole, hcap⟩ := stream_eq_parse renameChunks
  exact ⟨hclosed, (hwhole hclosed).1, by decide, (hcap 1).2, by decide⟩

end AgentMail.Guard
