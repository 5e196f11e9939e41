import Mathlib.Data.BitVec
import AgentMail.Base.Text
import AgentMail.Base.Values
import AgentMail.Lib.BucketMap
import AgentMail.Lib.Loop
import AgentMail.Lib.Table

/-!
# The open-experience index

The unresolved experiences in memory (`crates/mcp-agent-mail-core/src/atc_open_index.rs`): entries by
id, the ids of each subject, and the ids of each creation time in time order. Hash maps are lists
of entries with distinct keys, hash sets lists of distinct ids. The counters wrap as `u64` does in a
release build.
-/

namespace AgentMail.Experience

open Base Lib

structure OpenExperienceEntry where
  experienceId : Nat
  decisionId : Nat
  subject : Text
  createdTsMicros : I64
  effectKind : Text
  subsystem : Text
  potentiallyConfounded : Bool

/-- `subject.to_ascii_lowercase()`. -/
def subjectKey (subject : Text) : Text := subject.map Char.toLower

structure OpenExperienceIndex where
  entries : List (Nat × OpenExperienceEntry)
  bySubject : List (Text × List Nat)
  byCreation : BucketMap I64 Nat
  capacity : Nat
  resolutionWindowMicros : I64
  totalAdded : BitVec 64
  totalResolved : BitVec 64
  totalExpired : BitVec 64
  totalCensored : BitVec 64
  totalEvicted : BitVec 64

structure ResolutionCandidate where
  experienceId : Nat
  decisionId : Nat
  createdTsMicros : I64
  effectKind : Text
  ageMicros : Int

namespace OpenExperienceIndex

/-- A capacity of zero could never make room; it is raised to one. -/
def withCapacity (capacity : Nat) (resolutionWindowMicros : I64) : OpenExperienceIndex :=
  ⟨[], [], .empty, max capacity 1, resolutionWindowMicros, 0, 0, 0, 0, 0⟩

/-- `existing.potentially_confounded = flag` through `get_mut`. -/
def markConfounded (flag : Bool) (entries : List (Nat × OpenExperienceEntry)) (id : Nat) :
    List (Nat × OpenExperienceEntry) :=
  Assoc.modify id (fun entry => { entry with potentiallyConfounded := flag }) entries

def insertEntry (idx : OpenExperienceIndex) (entry : OpenExperienceEntry) (subjectKey : Text) :
    OpenExperienceIndex :=
  let ids := (Assoc.get? subjectKey idx.bySubject).getD []
  { idx with
    bySubject := Assoc.insert subjectKey (ids.insert entry.experienceId) idx.bySubject
    byCreation := idx.byCreation.push entry.createdTsMicros entry.experienceId
    entries := Assoc.insert entry.experienceId entry idx.entries
    totalAdded := idx.totalAdded + 1 }

/-- Drop a subject without ids; the only entry of a subject is not confounded any more. -/
def reconcileSubjectConfounding (idx : OpenExperienceIndex) (subjectKey : Text) :
    OpenExperienceIndex :=
  match Assoc.get? subjectKey idx.bySubject with
  | some [] => { idx with bySubject := Assoc.erase subjectKey idx.bySubject }
  | some [id] => { idx with entries := markConfounded false idx.entries id }
  | _ => idx

/-- `set.remove(&id)` where the subject has a set, and the reconciliation that follows. -/
def forgetSubject (idx : OpenExperienceIndex) (subjectKey : Text) (id : Nat) :
    OpenExperienceIndex :=
  reconcileSubjectConfounding
    { idx with bySubject := Assoc.modify subjectKey (·.erase id) idx.bySubject } subjectKey

def evictOldest (idx : OpenExperienceIndex) : OpenExperienceIndex :=
  let taken := idx.byCreation.popFirst
  let idx := { idx with byCreation := taken.2 }
  match taken.1 with
  | none => idx
  | some id =>
    match Assoc.get? id idx.entries with
    | none => idx
    | some entry =>
      let idx := { idx with entries := Assoc.erase id idx.entries }
      let idx := idx.forgetSubject (subjectKey entry.subject) id
      { idx with totalEvicted := idx.totalEvicted + 1 }

/-- `while self.entries.len() >= self.capacity`: one turn evicts. -/
def makeRoom (fuel : Nat) (idx : OpenExperienceIndex) : Except Unit OpenExperienceIndex :=
  iterate (fun idx : OpenExperienceIndex =>
    .ok (if idx.capacity ≤ idx.entries.length then .inr idx.evictOldest else .inl idx)) () fuel idx

/-- `add`; the fuel bounds the evictions, and its exhaustion is an error. -/
def add (fuel : Nat) (idx : OpenExperienceIndex) (entry : OpenExperienceEntry) :
    Except Unit OpenExperienceIndex :=
  if Assoc.contains entry.experienceId idx.entries then .ok idx
  else do
    let idx ← makeRoom fuel idx
    let key := subjectKey entry.subject
    match Assoc.get? key idx.bySubject with
    | some (id :: ids) =>
      let entries := (id :: ids).foldl (markConfounded true) idx.entries
      return insertEntry { idx with entries } { entry with potentiallyConfounded := true } key
    | _ => return insertEntry idx entry key

def remove (idx : OpenExperienceIndex) (experienceId : Nat) :
    Option (OpenExperienceEntry × OpenExperienceIndex) := do
  let entry ← Assoc.get? experienceId idx.entries
  let idx := { idx with entries := Assoc.erase experienceId idx.entries }
  let idx := idx.forgetSubject (subjectKey entry.subject) experienceId
  return (entry, { idx with
    byCreation := idx.byCreation.retain entry.createdTsMicros (· != experienceId) })

def markResolved (idx : OpenExperienceIndex) (experienceId : Nat) :
    Option (OpenExperienceEntry × OpenExperienceIndex) := do
  let (entry, idx) ← idx.remove experienceId
  return (entry, { idx with totalResolved := idx.totalResolved + 1 })

def markExpired (idx : OpenExperienceIndex) (experienceId : Nat) :
    Option (OpenExperienceEntry × OpenExperienceIndex) := do
  let (entry, idx) ← idx.remove experienceId
  return (entry, { idx with totalExpired := idx.totalExpired + 1 })

def markCensored (idx : OpenExperienceIndex) (experienceId : Nat) :
    Option (OpenExperienceEntry × OpenExperienceIndex) := do
  let (entry, idx) ← idx.remove experienceId
  return (entry, { idx with totalCensored := idx.totalCensored + 1 })

/-- The walk over the creation times stops at the first one after the cutoff. -/
def expiredCandidates (idx : OpenExperienceIndex) (nowMicros : I64) : List ResolutionCandidate :=
  let cutoff := saturatingSub nowMicros idx.resolutionWindowMicros
  let due := idx.byCreation.entries.takeWhile fun e => decide (e.1.1 ≤ cutoff)
  due.flatMap fun e => e.2.filterMap fun id =>
    (Assoc.get? id idx.entries).map fun entry =>
      { experienceId := entry.experienceId
        decisionId := entry.decisionId
        createdTsMicros := entry.createdTsMicros
        effectKind := entry.effectKind
        ageMicros := saturatingSub nowMicros entry.createdTsMicros }

end OpenExperienceIndex

/-- One call on the index. -/
inductive IndexCall where
  | add (entry : OpenExperienceEntry)
  | markResolved (experienceId : Nat)
  | markExpired (experienceId : Nat)
  | markCensored (experienceId : Nat)

/-- The index after a call; a mark of an unknown id returns `None` and changes nothing. -/
def OpenExperienceIndex.call (fuel : Nat) (idx : OpenExperienceIndex) :
    IndexCall → Except Unit OpenExperienceIndex
  | .add entry => idx.add fuel entry
  | .markResolved id => .ok (((idx.markResolved id).map (·.2)).getD idx)
  | .markExpired id => .ok (((idx.markExpired id).map (·.2)).getD idx)
  | .markCensored id => .ok (((idx.markCensored id).map (·.2)).getD idx)

end AgentMail.Experience
