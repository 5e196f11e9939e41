import AgentMail.Base.Text
import AgentMail.Lib.Table

/-!
# Build-slot leases

The lease files of one slot directory: `crates/mcp-agent-mail-tools/src/build_slots.rs:24–230`,
`312–322` and `404–533`. Every call holds the lock of the slot; contention, which changes nothing, is
not modelled.
-/

namespace AgentMail.BuildSlots

open Base Lib

/-- `BuildSlotLease`. -/
structure BuildSlotLease where
  slot : Text
  agent : Text
  branch : Option Text
  exclusive : Bool
  acquiredTs : Text
  expiresTs : Text
  releasedTs : Option Text
deriving DecidableEq

/-- `AcquireBuildSlotResponse`. -/
structure AcquireBuildSlotResponse where
  granted : BuildSlotLease
  conflicts : List BuildSlotLease

/-- `RenewBuildSlotResponse`. -/
structure RenewBuildSlotResponse where
  renewed : Bool
  expiresTs : Text

/-- `ReleaseBuildSlotResponse`. -/
structure ReleaseBuildSlotResponse where
  released : Bool
  releasedAt : Text

/-- What the leases need of `chrono` and `sha2`: reading RFC 3339, `to_rfc3339`, adding seconds, and
the sixteen digits of a name's hash. -/
structure Crates (τ : Type) where
  parse : Text → Option τ
  format : τ → Text
  addSeconds : τ → Int → τ
  shortHash : Text → Text

/-! ### The directory -/

/-- What a file holds, if it can be read as a lease. -/
abbrev Content : Type := Option BuildSlotLease

/-- The files of a slot directory by name. -/
structure SlotDir where
  entries : List (Text × Content)
  distinct : (entries.map (·.1)).Nodup

namespace SlotDir

def empty : SlotDir := ⟨[], List.nodup_nil⟩

def file? (d : SlotDir) (name : Text) : Option Content := Assoc.get? name d.entries

/-- `exists`. -/
def hasFile (d : SlotDir) (name : Text) : Bool := Assoc.contains name d.entries

/-- `write_lease_json`, as far as it succeeds. -/
def write (d : SlotDir) (name : Text) (lease : BuildSlotLease) : SlotDir :=
  ⟨Assoc.insert name (some lease) d.entries, Assoc.nodup_keys_insert d.distinct⟩

theorem file?_eq_some {d : SlotDir} {name : Text} {content : Content} :
    d.file? name = some content ↔ (name, content) ∈ d.entries :=
  Assoc.get?_eq_some d.distinct

theorem file?_write {d : SlotDir} {name name' : Text} {lease : BuildSlotLease} :
    (d.write name' lease).file? name = if name' = name then some (some lease) else d.file? name :=
  Assoc.get?_insert

theorem hasFile_iff {d : SlotDir} {name : Text} :
    d.hasFile name = true ↔ ∃ content, d.file? name = some content := by
  rw [hasFile, ← Assoc.get?_isSome, Option.isSome_iff_exists]
  rfl

end SlotDir

/-- `extension` is `json`; a name that is only an extension has none. -/
def isJson (name : Text) : Bool := ".json".toList.isSuffixOf name && name != ".json".toList

/-! ### File names -/

/-- The characters that `safe_component` replaces. -/
def isUnsafe (c : Char) : Bool := "/\\:*?\"<>| ".toList.contains c

def safeComponent (value : Text) : Text :=
  let safe := (trim value).map fun c => if isUnsafe c then '_' else c
  if safe.isEmpty || safe == ".".toList || safe == "..".toList then "unknown".toList else safe

def holderIdentity (agentName : Text) (branch : Option Text) : Text :=
  match branch with
  | none => agentName
  | some b => agentName ++ ":::".toList ++ b

section

variable {τ : Type} (C : Crates τ) (d : SlotDir) (agentName : Text) (branch : Option Text)

def leasePathForHolder : Text :=
  safeComponent agentName ++ "--".toList ++ C.shortHash agentName ++ ".json".toList

def legacyLeasePathForHolder : Text :=
  safeComponent (holderIdentity agentName branch) ++ ".json".toList

/-- The loop of `existing_agent_lease_path` over the files in the order in which they are listed. -/
def sameAgentLoop : List (Text × Content) → List Text → Option Text
  | [], sameAgentPaths =>
    if sameAgentPaths.length == 1 then sameAgentPaths.getLast? else none
  | (name, content) :: rest, sameAgentPaths =>
    if !isJson name then sameAgentLoop rest sameAgentPaths
    else
      match content with
      | none => sameAgentLoop rest sameAgentPaths
      | some lease =>
        if lease.agent != agentName then sameAgentLoop rest sameAgentPaths
        else if lease.branch == branch then some name
        else sameAgentLoop rest (sameAgentPaths ++ [name])

def existingAgentLeasePath (listing : List (Text × Content)) : Option Text :=
  sameAgentLoop agentName branch listing []

def resolveHolderLeasePath (listing : List (Text × Content)) : Text :=
  let preferred := leasePathForHolder C agentName
  if d.hasFile preferred then preferred
  else
    let legacy := legacyLeasePathForHolder agentName branch
    if d.hasFile legacy then legacy
    else
      match existingAgentLeasePath agentName branch listing with
      | some existing => existing
      | none => preferred

end

/-! ### Reading the leases -/

/-- The failures of a call. -/
inductive SlotError where
  | invalidLease (name : Text)
  | invalidExpiry (name : Text)
  | writeFailed

/-- `ActiveSlotLease`. -/
structure ActiveSlotLease (τ : Type) where
  path : Text
  lease : BuildSlotLease
  expiresAt : τ

section

variable {τ : Type} [LinearOrder τ] (C : Crates τ) (now : τ)

def readEntries : List (Text × Content) → Except SlotError (List (ActiveSlotLease τ))
  | [] => .ok []
  | (name, content) :: rest =>
    if !isJson name then readEntries rest
    else
      match content with
      | none => .error (.invalidLease name)
      | some lease =>
        match C.parse lease.expiresTs with
        | none => .error (.invalidExpiry name)
        | some expiresAt =>
          if expiresAt ≤ now then readEntries rest
          else (readEntries rest).map (⟨name, lease, expiresAt⟩ :: ·)

def readActiveLeaseEntries (listing : List (Text × Content)) :
    Except SlotError (List (ActiveSlotLease τ)) :=
  (readEntries C now listing).map fun results =>
    results.mergeSort fun left right => textLe left.path right.path

def readActiveLeases (listing : List (Text × Content)) : Except SlotError (List BuildSlotLease) :=
  (readActiveLeaseEntries C now listing).map (·.map (·.lease))

def computeRenewedExpiry (currentExpiresTs : Text) (extendSeconds : Int) : Text :=
  let currentExpiry := (C.parse currentExpiresTs).getD now
  C.format (C.addSeconds (max now currentExpiry) extendSeconds)

end

/-! ### The operations -/

def collectSlotConflicts (active : List BuildSlotLease) (agentName : Text)
    (requestExclusive : Bool) : List BuildSlotLease :=
  active.filter fun entry =>
    entry.releasedTs.isNone && entry.agent != agentName && (requestExclusive || entry.exclusive)

section

variable {τ : Type} [LinearOrder τ] (C : Crates τ) (now : τ) (listing : List (Text × Content))
  (room : Nat)

/-- Write lease files one after the other, until a write fails. -/
def writeAll : Nat → List (Text × BuildSlotLease) → SlotDir → Bool × SlotDir
  | _, [], d => (true, d)
  | 0, _ :: _, d => (false, d)
  | room + 1, (name, lease) :: rest, d => writeAll room rest (d.write name lease)

def acquireSlotLease (d : SlotDir) (slot agentName : Text) (branch : Option Text) (ttl : Int)
    (isExclusive : Bool) : Except SlotError AcquireBuildSlotResponse × SlotDir :=
  match readActiveLeases C now listing with
  | .error e => (.error e, d)
  | .ok active =>
    let granted : BuildSlotLease := {
      slot
      agent := agentName
      branch
      exclusive := isExclusive
      acquiredTs := C.format now
      expiresTs := C.format (C.addSeconds now ttl)
      releasedTs := none }
    let leasePath := resolveHolderLeasePath C d agentName branch listing
    match writeAll room [(leasePath, granted)] d with
    | (true, d') => (.ok ⟨granted, collectSlotConflicts active agentName isExclusive⟩, d')
    | (false, d') => (.error .writeFailed, d')

def renewSlotLease (d : SlotDir) (agentName : Text) (extend : Int) :
    Except SlotError RenewBuildSlotResponse × SlotDir :=
  match readActiveLeaseEntries C now listing with
  | .error e => (.error e, d)
  | .ok active =>
    let owned := active.filter fun entry =>
      entry.lease.agent == agentName && entry.lease.releasedTs.isNone
    match (owned.map (·.expiresAt)).max? with
    | none => (.ok ⟨false, []⟩, d)
    | some latest =>
      let newExp := computeRenewedExpiry C now (C.format latest) extend
      match writeAll room (owned.map fun entry =>
          (entry.path, { entry.lease with expiresTs := newExp })) d with
      | (true, d') => (.ok ⟨true, newExp⟩, d')
      | (false, d') => (.error .writeFailed, d')

/-- The loop of `release_slot_lease`. -/
def releaseLoop (releasedNow agentName : Text) : Nat → List (ActiveSlotLease τ) →
    ReleaseBuildSlotResponse → SlotDir → Except SlotError ReleaseBuildSlotResponse × SlotDir
  | _, [], response, d => (.ok response, d)
  | room, entry :: rest, response, d =>
    if entry.lease.agent != agentName then releaseLoop releasedNow agentName room rest response d
    else
      let later (releasedAt : Text) : ReleaseBuildSlotResponse :=
        ⟨true, if textLe releasedAt response.releasedAt then response.releasedAt else releasedAt⟩
      match entry.lease.releasedTs with
      | some existing => releaseLoop releasedNow agentName room rest (later existing) d
      | none =>
        match room with
        | 0 => (.error .writeFailed, d)
        | room + 1 =>
          releaseLoop releasedNow agentName room rest (later releasedNow)
            (d.write entry.path { entry.lease with releasedTs := some releasedNow })

def releaseSlotLease (d : SlotDir) (agentName : Text) :
    Except SlotError ReleaseBuildSlotResponse × SlotDir :=
  match readActiveLeaseEntries C now listing with
  | .error e => (.error e, d)
  | .ok active => releaseLoop (C.format now) agentName room active ⟨false, []⟩ d

end

/-! ### Calls -/

inductive Operation where
  | acquire (slot agentName : Text) (branch : Option Text) (ttlSeconds : Option Int)
    (exclusive : Option Bool)
  | renew (agentName : Text) (branch : Option Text) (extendSeconds : Option Int)
  | release (agentName : Text) (branch : Option Text)

def Operation.agentName : Operation → Text
  | .acquire _ agentName _ _ _ => agentName
  | .renew agentName _ _ => agentName
  | .release agentName _ => agentName

/-- `clamp(60, 31_536_000)`. -/
def clampSeconds (seconds : Int) : Int := max 60 (min seconds 31536000)

def ttlOf (ttlSeconds : Option Int) : Int := ttlSeconds.elim 3600 clampSeconds

def extendOf (extendSeconds : Option Int) : Int := extendSeconds.elim 1800 clampSeconds

/-- A call: when it reads the clock, the order in which it finds the files, and how many writes
succeed before one fails. -/
structure Call (τ : Type) where
  operation : Operation
  now : τ
  listing : List (Text × Content)
  room : Nat

inductive SlotResponse where
  | acquired (response : AcquireBuildSlotResponse)
  | renewed (response : RenewBuildSlotResponse)
  | released (response : ReleaseBuildSlotResponse)

/-- The directory, if there is one, and the clock of the last call. -/
structure Slot (τ : Type) where
  dir : Option SlotDir
  clock : τ

/-- What the directory holds. -/
def Slot.files {τ : Type} (s : Slot τ) : SlotDir := s.dir.getD .empty

section

variable {τ : Type} [LinearOrder τ] (C : Crates τ)

/-- One call under the lock; renew and release find nothing where there is no directory. -/
def Slot.run (s : Slot τ) (c : Call τ) : Except SlotError SlotResponse × Slot τ :=
  match c.operation with
  | .acquire slot agentName branch ttlSeconds exclusive =>
    let (response, d) := acquireSlotLease C c.now c.listing c.room s.files slot agentName branch
      (ttlOf ttlSeconds) (exclusive.getD true)
    (response.map .acquired, ⟨some d, c.now⟩)
  | .renew agentName _ extendSeconds =>
    match s.dir with
    | none => (.ok (.renewed ⟨false, []⟩), ⟨none, c.now⟩)
    | some d =>
      let (response, d') := renewSlotLease C c.now c.listing c.room d agentName
        (extendOf extendSeconds)
      (response.map .renewed, ⟨some d', c.now⟩)
  | .release agentName _ =>
    match s.dir with
    | none => (.ok (.released ⟨false, []⟩), ⟨none, c.now⟩)
    | some d =>
      let (response, d') := releaseSlotLease C c.now c.listing c.room d agentName
      (response.map .released, ⟨some d', c.now⟩)

/-- The clock does not go back, and a listing has every file once. -/
def Slot.step (s : Slot τ) (c : Call τ) : Option (Except SlotError SlotResponse × Slot τ) :=
  if s.clock ≤ c.now ∧ c.listing.Perm s.files.entries then some (s.run C c) else none

end

end AgentMail.BuildSlots
