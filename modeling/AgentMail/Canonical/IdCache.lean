import AgentMail.Base.Json
import AgentMail.Lib.Table

/-!
# The cache of canonical message ids

`collect_canonical_message_id_index_with_window` of
`crates/mcp-agent-mail-storage/src/lib.rs:9391–9620`, over a directory that changes while it is read:
every observation of the file system or the clock takes place at an instant of its own. The archive's
locks, the permissions of files and failing system calls are not modelled.
-/

namespace AgentMail.Canonical

open Base Lib

/-! ### The directory -/

/-- A file name, as the bytes of an `OsStr`. -/
abbrev Name : Type := List UInt8

/-- A path below the messages directory of a project. -/
abbrev Path : Type := List Name

/-- `MessageFileStamp`. -/
structure MessageFileStamp where
  len : Nat
  device : Nat
  inode : Nat
  modifiedNs : Int
  changedNs : Int
deriving DecidableEq

/-- A regular file; `content` is `none` where the bytes are not UTF-8. -/
structure MessageFile where
  stamp : MessageFileStamp
  content : Option Text
deriving DecidableEq

/-- What stands at a path. -/
inductive Node where
  | dir (names : List Name)
  | file (f : MessageFile)
  | symlink
  | other
deriving DecidableEq

/-- The file system around the messages directory; `linked` when a directory above it is a symbolic
link. -/
structure Tree where
  linked : Bool
  node : Path → Option Node

namespace Tree

variable (T : Tree)

/-- `path_existing_prefix_has_symlink`. -/
def hasSymlink (path : Path) : Bool :=
  T.linked || path.inits.any fun front => decide (T.node front = some .symlink)

/-- `read_dir`. -/
def names (path : Path) : List Name :=
  match T.node path with
  | some (.dir names) => names
  | _ => []

def file? (path : Path) : Option MessageFile :=
  match T.node path with
  | some (.file f) => some f
  | _ => none

def isDir (path : Path) : Bool :=
  match T.node path with
  | some (.dir _) => true
  | _ => false

end Tree

/-- What an observer meets. The clock never goes back, and a file that is new at a path, written or
put there, has a change time within the racy window of the time at which that happened. -/
structure World where
  racyWindowNs : Nat
  tree : Nat → Tree
  clock : Nat → Int
  clock_mono : ∀ k, clock k ≤ clock (k + 1)
  fresh : ∀ k path f, (tree (k + 1)).file? path = some f → (tree k).file? path = some f ∨
    ∃ t, clock k ≤ t ∧ t ≤ clock (k + 1) ∧ |f.stamp.changedNs - t| ≤ racyWindowNs

/-! ### Reading a message -/

/-- `StorageError`, as far as this function and `read_message_file_inner` return it. -/
inductive StorageError where
  | invalidPath (message : String) (path : Path)
  | lockContention (message : String) (path : Path)
  | io (message : String)
  | serde

/-- The limit of `read_message_file_inner`. -/
def maxMessageBytes : Nat := 50 * 1024 * 1024

/-- The content of a file to `read_message_file_inner` with complete frontmatter: the JSON between
the markers, `Null` where there is none. -/
def readContent (parseJson : Text → Option Json) (path : Path) (f : MessageFile) :
    Except StorageError Json :=
  if f.stamp.len > maxMessageBytes then .error (.io "message file exceeds maximum size of 50MB")
  else
    match f.content with
    | none => .error (.io "invalid utf-8 sequence")
    | some content =>
      match stripHead "---json\n".toList content with
      | none => .ok .null
      | some rest =>
        match findFrom "\n---\n".toList rest 0 with
        | none => .error (.invalidPath "unterminated canonical message frontmatter: " path)
        | some endIdx =>
          match parseJson (rest.take endIdx) with
          | none => .error .serde
          | some frontmatter => .ok frontmatter

/-- `frontmatter.get("id").and_then(Value::as_i64)`. -/
def frontmatterId (frontmatter : Json) : Option Int := (frontmatter.get? "id".toList).bind Json.asI64

/-- The id of a message file. -/
def messageId (parseJson : Text → Option Json) (path : Path) (f : MessageFile) :
    Except StorageError (Option Int) :=
  (readContent parseJson path f).map frontmatterId

/-- `read_message_file_inner` at one instant, with the id of its frontmatter. -/
def readMessageId (parseJson : Text → Option Json) (T : Tree) (path : Path) :
    Except StorageError (Option Int) :=
  if T.hasSymlink path then .error (.io "refusing to read message through symlinked path")
  else
    match T.node path with
    | none => .error (.io "not found")
    | some (.file f) => messageId parseJson path f
    | some _ => .error (.io "message path is not a regular file")

/-! ### The cache -/

/-- `CanonicalIdCacheEntry`. -/
structure CanonicalIdCacheEntry where
  stamp : MessageFileStamp
  parsedAtNs : Int
  id : Option Int

/-- `CanonicalIdCache`. -/
abbrev CanonicalIdCache : Type := List (Path × CanonicalIdCacheEntry)

/-- `trusted_for`. -/
def CanonicalIdCacheEntry.trustedFor (entry : CanonicalIdCacheEntry) (stamp : MessageFileStamp)
    (racyWindowNs : Nat) : Bool :=
  entry.stamp == stamp && decide (stamp.changedNs + racyWindowNs < entry.parsedAtNs)

/-- `unix_time_ns`: a time before the epoch counts as the epoch. -/
def unixTimeNs (time : Int) : Int := max 0 time

/-- The id index: the files of each id in the order of the walk. -/
abbrev IdIndex : Type := List (Int × List Path)

/-- `index.entry(existing_id).or_insert_with(Vec::new).push(file_path)`, for a wanted id. -/
def recordId (wanted : List Int) (path : Path) (id : Option Int) (index : IdIndex) : IdIndex :=
  match id with
  | none => index
  | some id =>
    if id ∈ wanted then Assoc.insert id ((Assoc.get? id index).getD [] ++ [path]) index
    else index

/-! ### The walk -/

/-- Four digits. -/
def isYear (name : Name) : Bool := name.length == 4 && name.all fun b => decide (48 ≤ b ∧ b ≤ 57)

/-- Two digits. -/
def isMonth (name : Name) : Bool := name.length == 2 && name.all fun b => decide (48 ≤ b ∧ b ≤ 57)

/-- The extension is `md`. -/
def isMarkdown (name : Name) : Bool := [46, 109, 100].isSuffixOf name && decide (3 < name.length)

/-- The state of the walk; `tick` is the instant of the next observation. -/
structure Walk where
  tick : Nat
  cache : CanonicalIdCache
  seen : List Path
  index : IdIndex
  parsed : Nat

def Walk.next (w : Walk) : Walk := { w with tick := w.tick + 1 }

/-- A loop over entries that ends with the first error; what was done before it stays done. -/
def eachEntry (step : Name → Walk → Walk × Except StorageError Unit) :
    List Name → Walk → Walk × Except StorageError Unit
  | [], w => (w, .ok ())
  | name :: rest, w =>
    match step name w with
    | (w, .ok ()) => eachEntry step rest w
    | (w, .error e) => (w, .error e)

section

variable (ω : World) (unix : Bool) (parseJson : Text → Option Json) (wanted : List Int)

/-- `message_file_stamp`: without a change time there is no stamp. -/
def messageFileStamp (f : MessageFile) : Option MessageFileStamp :=
  if unix then some f.stamp else none

/-- The cached id of a file with this stamp. -/
def cachedId (cache : CanonicalIdCache) (path : Path) (stamp : Option MessageFileStamp) :
    Option (Option Int) :=
  stamp.bind fun stamp =>
    ((Assoc.get? path cache).filter fun entry => entry.trustedFor stamp ω.racyWindowNs).map (·.id)

/-- The file is parsed: the clock is read before it and its stamp compared after it. -/
def parseFile (path : Path) (stamp : Option MessageFileStamp) (w : Walk) :
    Walk × Except StorageError (Option Int) :=
  let w := { w with parsed := w.parsed + 1 }
  let parsedAtNs := unixTimeNs (ω.clock w.tick)
  let w := w.next
  match readMessageId parseJson (ω.tree w.tick) path with
  | .error e => ({ w.next with cache := Assoc.erase path w.cache }, .error e)
  | .ok id =>
    let w := w.next
    match (ω.tree w.tick).node path with
    | none => (w.next, .error (.io "not found"))
    | some (.file after) =>
      if messageFileStamp unix after = stamp then
        ({ w.next with
            cache := match stamp with
              | some stamp => Assoc.insert path ⟨stamp, parsedAtNs, id⟩ w.cache
              | none => w.cache }, .ok id)
      else
        ({ w.next with cache := Assoc.erase path w.cache },
          .error (.lockContention "canonical message changed during identity inspection: " path))
    | some _ =>
      ({ w.next with cache := Assoc.erase path w.cache },
        .error (.lockContention "canonical message changed during identity inspection: " path))

/-- One file of a month. -/
def inspectFile (path : Path) (w : Walk) : Walk × Except StorageError Unit :=
  match (ω.tree w.tick).node path with
  | none => (w.next, .error (.io "not found"))
  | some (.file f) =>
    let w := { w.next with seen := path :: w.seen }
    let stamp := messageFileStamp unix f
    match cachedId ω w.cache path stamp with
    | some id => ({ w with index := recordId wanted path id w.index }, .ok ())
    | none =>
      match parseFile ω unix parseJson path stamp w with
      | (w, .ok id) => ({ w with index := recordId wanted path id w.index }, .ok ())
      | (w, .error e) => (w, .error e)
  | some _ => (w.next, .error (.invalidPath "canonical message is not a regular file: " path))

/-- One entry of a month. -/
def fileEntry (year month name : Name) (w : Walk) : Walk × Except StorageError Unit :=
  if isMarkdown name then inspectFile ω unix parseJson wanted [year, month, name] w else (w, .ok ())

/-- One entry of a year; the type of an entry is known from the listing. -/
def monthEntry (listing : Nat) (year name : Name) (w : Walk) : Walk × Except StorageError Unit :=
  if !isMonth name then (w, .ok ())
  else if !(ω.tree listing).isDir [year, name] then
    (w, .error (.invalidPath "canonical message month is not a regular directory: " [year, name]))
  else
    eachEntry (fileEntry ω unix parseJson wanted year name)
      ((ω.tree w.tick).names [year, name]) w.next

/-- One entry of the messages directory. -/
def yearEntry (listing : Nat) (name : Name) (w : Walk) : Walk × Except StorageError Unit :=
  if !isYear name then (w, .ok ())
  else if !(ω.tree listing).isDir [name] then
    (w, .error (.invalidPath "canonical message year is not a regular directory: " [name]))
  else
    eachEntry (monthEntry ω unix parseJson wanted w.tick name) ((ω.tree w.tick).names [name]) w.next

/-- What a call leaves behind: the instant, the cache and its result. -/
structure Collected where
  tick : Nat
  cache : CanonicalIdCache
  result : Except StorageError (IdIndex × Nat)

/-- `collect_canonical_message_id_index_with_window`, from an instant on. -/
def collectIndex (tick : Nat) (cache : CanonicalIdCache) : Collected :=
  if wanted.isEmpty then ⟨tick, cache, .ok ([], 0)⟩
  else if (ω.tree tick).hasSymlink [] then
    ⟨tick + 1, cache,
      .error (.invalidPath "canonical message directory must not include symlinks: " [])⟩
  else
    match (ω.tree (tick + 1)).node [] with
    | none => ⟨tick + 2, cache, .ok ([], 0)⟩
    | some (.dir _) =>
      let w : Walk := ⟨tick + 3, cache, [], [], 0⟩
      match eachEntry (yearEntry ω unix parseJson wanted (tick + 2))
          ((ω.tree (tick + 2)).names []) w with
      | (w, .error e) => ⟨w.tick, w.cache, .error e⟩
      | (w, .ok ()) =>
        ⟨w.tick, w.cache.filter fun entry => w.seen.contains entry.1, .ok (w.index, w.parsed)⟩
    | some _ =>
      ⟨tick + 2, cache, .error (.invalidPath "canonical message root is not a directory: " [])⟩

end

/-! ### The reference -/

/-- The canonical message files of a directory. -/
def canonicalFiles (T : Tree) : List Path :=
  ((T.names []).filter isYear).flatMap fun year =>
    ((T.names [year]).filter isMonth).flatMap fun month =>
      ((T.names [year, month]).filter isMarkdown).map fun name => [year, month, name]

/-- The index that parsing every canonical file yields. -/
def uncachedIndex (parseJson : Text → Option Json) (wanted : List Int) (T : Tree) :
    Except StorageError IdIndex :=
  if wanted.isEmpty then .ok []
  else (canonicalFiles T).foldlM (fun index path =>
    (readMessageId parseJson T path).map fun id => recordId wanted path id index) []

end AgentMail.Canonical
