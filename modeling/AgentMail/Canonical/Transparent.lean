import AgentMail.Canonical.IdCache
import AgentMail.Lib.Trace

/-!
# The id cache is transparent

An entry remembers an instant at which its file was parsed. A file that is older than that instant by
more than the racy window stood there already, so that the id of a trusted entry is its id.
-/

namespace AgentMail.Canonical

open Base Lib List

/-! ### Old files -/

variable {path : Path} {f : MessageFile} {T : Tree}

namespace World

variable (ω : World)

theorem clock_le {j k : Nat} (h : j ≤ k) : ω.clock j ≤ ω.clock k :=
  monotone_nat_of_le_succ ω.clock_mono h

/-- A file whose change time lies more than the window before an instant was there at that
instant. -/
theorem file?_of_old {j k : Nat} (h : j ≤ k) (hf : (ω.tree k).file? path = some f)
    (hold : f.stamp.changedNs + ω.racyWindowNs < ω.clock j) : (ω.tree j).file? path = some f := by
  induction k, h using Nat.le_induction with
  | base => exact hf
  | succ k hjk ih =>
    rcases ω.fresh k path f hf with hbefore | ⟨t, hlow, -, hnear⟩
    · exact ih hbefore
    · have hclock := ω.clock_le hjk
      rw [abs_le] at hnear
      omega

/-- Nothing changes between two instants. -/
def Frozen (T : Tree) (start stop : Nat) : Prop := ∀ k, start ≤ k → k < stop → ω.tree k = T

theorem Frozen.mono {ω : World} {start stop start' stop' : Nat} (h : ω.Frozen T start stop)
    (hstart : start ≤ start') (hstop : stop' ≤ stop) : ω.Frozen T start' stop' :=
  fun k hlow hhigh => h k (hstart.trans hlow) (hhigh.trans_le hstop)

end World

/-! ### Entries and readings -/

variable {cache : CanonicalIdCache}

section

variable (ω : World) (parseJson : Text → Option Json)

/-- The entry was parsed at an instant not before its time. -/
def Parsed (tick : Nat) (path : Path) (entry : CanonicalIdCacheEntry) : Prop :=
  ∃ j ≤ tick, entry.parsedAtNs ≤ ω.clock j ∧
    ∃ f, (ω.tree j).file? path = some f ∧ messageId parseJson path f = .ok entry.id

/-- Every entry of the cache was parsed. -/
def Sound (tick : Nat) (cache : CanonicalIdCache) : Prop :=
  ∀ e ∈ cache, Parsed ω parseJson tick e.1 e.2

/-- A file as it was met during a call, with its id. -/
structure Reading where
  path : Path
  tick : Nat
  id : Option Int

/-- The id is that of the file at the instant of the reading. -/
def Reading.Current (r : Reading) : Prop :=
  ∃ f, (ω.tree r.tick).file? r.path = some f ∧ messageId parseJson r.path f = .ok r.id

variable {ω parseJson}

theorem Sound.mono {tick tick' : Nat} (h : Sound ω parseJson tick cache) (htick : tick ≤ tick') :
    Sound ω parseJson tick' cache := by
  intro e he
  obtain ⟨j, hj, hparsed⟩ := h e he
  exact ⟨j, hj.trans htick, hparsed⟩

theorem Sound.erase {tick : Nat} (h : Sound ω parseJson tick cache) (path : Path) :
    Sound ω parseJson tick (Assoc.erase path cache) :=
  fun e he => h e (Assoc.mem_erase.mp he).1

theorem Sound.insert {tick : Nat} (h : Sound ω parseJson tick cache)
    {entry : CanonicalIdCacheEntry} (hentry : Parsed ω parseJson tick path entry) :
    Sound ω parseJson tick (Assoc.insert path entry cache) := by
  intro e he
  rcases Assoc.mem_insert.mp he with hold | rfl
  · exact h e hold.1
  · exact hentry

/-- A cached id is the id of the file that bears the stamp. -/
theorem messageId_of_cached {tick : Nat} (h : Sound ω parseJson tick cache) {unix : Bool}
    (hf : (ω.tree tick).file? path = some f) {id : Option Int}
    (hcached : cachedId ω cache path (messageFileStamp unix f) = some id) :
    messageId parseJson path f = .ok id := by
  rw [cachedId, messageFileStamp, Option.bind_eq_some_iff] at hcached
  obtain ⟨stamp, hstamp, hcached⟩ := hcached
  rw [Option.map_eq_some_iff] at hcached
  obtain ⟨entry, hentry, rfl⟩ := hcached
  rw [Option.filter_eq_some_iff] at hentry
  obtain ⟨hget, htrusted⟩ := hentry
  have hsame : stamp = f.stamp := by
    split at hstamp
    · exact (Option.some.inj hstamp).symm
    · cases hstamp
  rw [CanonicalIdCacheEntry.trustedFor, Bool.and_eq_true, decide_eq_true_eq, hsame] at htrusted
  obtain ⟨j, hj, hclock, g, hg, hid⟩ := h _ (Assoc.mem_of_get? hget)
  -- The file is older than the parse, so it is the file that was parsed.
  have hthere := ω.file?_of_old hj hf (htrusted.2.trans_le hclock)
  rw [hg, Option.some.injEq] at hthere
  rw [← hthere]
  exact hid

end

/-! ### The steps of the walk -/

section

variable (ω : World) (parseJson : Text → Option Json) (wanted : List Int)

/-- The files of these readings are recorded in the index. -/
def recordAll (readings : List Reading) (index : IdIndex) : IdIndex :=
  readings.foldl (fun index r => recordId wanted r.path r.id index) index

/-- A part of the walk goes on from a sound cache to a sound cache. When it succeeds, it records files
with the ids they have while it runs, and these files are those of the directory if that does not
change meanwhile. -/
structure Walks (w w' : Walk) (result : Except StorageError Unit) (paths : Tree → List Path) :
    Prop where
  forward : w.tick ≤ w'.tick
  sound : Sound ω parseJson w'.tick w'.cache
  reads : result = .ok () → ∃ readings, w'.index = recordAll wanted readings w.index ∧
    (∀ r ∈ readings, w.tick ≤ r.tick ∧ r.tick < w'.tick ∧ r.Current ω parseJson) ∧
    ∀ T, ω.Frozen T w.tick w'.tick → readings.map (·.path) = paths T

/-- A step keeps a sound cache. -/
def GoodStep (step : Walk → Walk × Except StorageError Unit) (paths : Tree → List Path) : Prop :=
  ∀ w, Sound ω parseJson w.tick w.cache → Walks ω parseJson wanted w (step w).1 (step w).2 paths

variable {ω parseJson wanted} {unix : Bool}

theorem walks_error {w w' : Walk} {e : StorageError} {paths : Tree → List Path}
    (hforward : w.tick ≤ w'.tick) (hsound : Sound ω parseJson w'.tick w'.cache) :
    Walks ω parseJson wanted w w' (.error e) paths := by
  refine ⟨hforward, hsound, ?_⟩
  intro hok
  cases hok

theorem goodStep_skip : GoodStep ω parseJson wanted (fun w => (w, .ok ())) fun _ => [] := by
  intro w hw
  refine ⟨Nat.le_refl _, hw, fun _ => ⟨[], rfl, ?_, fun _ _ => rfl⟩⟩
  intro r hr
  cases hr

theorem walks_reading {w w' : Walk} {id : Option Int} {k : Nat} (hlow : w.tick ≤ k)
    (hhigh : k < w'.tick) (hsound : Sound ω parseJson w'.tick w'.cache)
    (hindex : w'.index = recordId wanted path id w.index)
    (hcurrent : Reading.Current ω parseJson ⟨path, k, id⟩) :
    Walks ω parseJson wanted w w' (.ok ()) fun _ => [path] := by
  refine ⟨hlow.trans hhigh.le, hsound, fun _ => ⟨[⟨path, k, id⟩], hindex, ?_, fun _ _ => rfl⟩⟩
  intro r hr
  rw [mem_singleton.mp hr]
  exact ⟨hlow, hhigh, hcurrent⟩

theorem file?_of_node (h : T.node path = some (.file f)) : T.file? path = some f := by
  rw [Tree.file?, h]

theorem current_of_readMessageId {id : Option Int} (h : readMessageId parseJson T path = .ok id) :
    ∃ f, T.file? path = some f ∧ messageId parseJson path f = .ok id := by
  unfold readMessageId at h
  split at h
  · cases h
  · split at h
    · cases h
    · next f hnode => exact ⟨f, file?_of_node hnode, h⟩
    · cases h

theorem parseFile_spec (hepoch : 0 ≤ ω.clock 0) (unix : Bool) (path : Path)
    (stamp : Option MessageFileStamp) {w : Walk} (hw : Sound ω parseJson w.tick w.cache) :
    w.tick ≤ (parseFile ω unix parseJson path stamp w).1.tick ∧
      Sound ω parseJson (parseFile ω unix parseJson path stamp w).1.tick
        (parseFile ω unix parseJson path stamp w).1.cache ∧
      (parseFile ω unix parseJson path stamp w).1.index = w.index ∧
      ∀ id, (parseFile ω unix parseJson path stamp w).2 = .ok id →
        ∃ k, w.tick ≤ k ∧ k < (parseFile ω unix parseJson path stamp w).1.tick ∧
          Reading.Current ω parseJson ⟨path, k, id⟩ := by
  have hclock : unixTimeNs (ω.clock w.tick) ≤ ω.clock (w.tick + 1) := by
    have hnonneg := ω.clock_le (Nat.zero_le w.tick)
    have hnext := ω.clock_mono w.tick
    rw [unixTimeNs]
    omega
  unfold parseFile
  dsimp only [Walk.next]
  cases hread : readMessageId parseJson (ω.tree (w.tick + 1)) path with
  | error e =>
    refine ⟨?_, (hw.erase path).mono ?_, rfl, fun id hid => by cases hid⟩
    · show w.tick ≤ w.tick + 1 + 1
      omega
    · show w.tick ≤ w.tick + 1 + 1
      omega
  | ok id =>
    have hcurrent := current_of_readMessageId hread
    have hlong : w.tick ≤ w.tick + 1 + 1 + 1 := by omega
    dsimp only
    cases (ω.tree (w.tick + 1 + 1)).node path with
    | none => exact ⟨hlong, hw.mono hlong, rfl, fun id hid => by cases hid⟩
    | some node =>
      cases node with
      | dir names => exact ⟨hlong, (hw.erase path).mono hlong, rfl, fun id hid => by cases hid⟩
      | symlink => exact ⟨hlong, (hw.erase path).mono hlong, rfl, fun id hid => by cases hid⟩
      | other => exact ⟨hlong, (hw.erase path).mono hlong, rfl, fun id hid => by cases hid⟩
      | file after =>
        dsimp only
        by_cases hsame : messageFileStamp unix after = stamp
        · rw [if_pos hsame]
          refine ⟨hlong, ?_, rfl, ?_⟩
          · cases stamp with
            | none => exact hw.mono hlong
            | some stamp => exact (hw.mono hlong).insert ⟨w.tick + 1, by omega, hclock, hcurrent⟩
          · intro id' hid
            cases hid
            refine ⟨w.tick + 1, Nat.le_succ _, ?_, hcurrent⟩
            show w.tick + 1 < w.tick + 1 + 1 + 1
            omega
        · rw [if_neg hsame]
          exact ⟨hlong, (hw.erase path).mono hlong, rfl, fun id hid => by cases hid⟩

theorem goodStep_inspectFile (hepoch : 0 ≤ ω.clock 0) (path : Path) :
    GoodStep ω parseJson wanted (inspectFile ω unix parseJson wanted path) fun _ => [path] := by
  intro w hw
  unfold inspectFile
  cases hnode : (ω.tree w.tick).node path with
  | none => exact walks_error (Nat.le_succ _) (hw.mono (Nat.le_succ _))
  | some node =>
    cases node with
    | dir names => exact walks_error (Nat.le_succ _) (hw.mono (Nat.le_succ _))
    | symlink => exact walks_error (Nat.le_succ _) (hw.mono (Nat.le_succ _))
    | other => exact walks_error (Nat.le_succ _) (hw.mono (Nat.le_succ _))
    | file f =>
      have hf := file?_of_node hnode
      dsimp only [Walk.next]
      cases hcached : cachedId ω w.cache path (messageFileStamp unix f) with
      | some id =>
        exact walks_reading (Nat.le_refl _) (Nat.lt_succ_self _) (hw.mono (Nat.le_succ _)) rfl
          ⟨f, hf, messageId_of_cached hw hf hcached⟩
      | none =>
        have hw' : Sound ω parseJson (w.tick + 1) w.cache := hw.mono (Nat.le_succ _)
        obtain ⟨hforward, hsound, hindex, hreads⟩ := parseFile_spec hepoch unix path
          (messageFileStamp unix f)
          (w := ⟨w.tick + 1, w.cache, path :: w.seen, w.index, w.parsed⟩) hw'
        dsimp only
        generalize parseFile ω unix parseJson path (messageFileStamp unix f)
          ⟨w.tick + 1, w.cache, path :: w.seen, w.index, w.parsed⟩ = out
          at hforward hsound hindex hreads ⊢
        obtain ⟨w', result⟩ := out
        have hpast : w.tick ≤ w'.tick := (Nat.le_succ _).trans hforward
        cases result with
        | error e => exact walks_error hpast hsound
        | ok id =>
          obtain ⟨k, hlow, hhigh, hcurrent⟩ := hreads id rfl
          refine walks_reading ((Nat.le_succ _).trans hlow) hhigh hsound ?_ hcurrent
          exact congrArg (recordId wanted path id) hindex

theorem goodStep_eachEntry {step : Name → Walk → Walk × Except StorageError Unit}
    {paths : Name → Tree → List Path} (hstep : ∀ name, GoodStep ω parseJson wanted (step name) (paths name))
    (names : List Name) :
    GoodStep ω parseJson wanted (eachEntry step names) fun T => names.flatMap fun name => paths name T := by
  induction names with
  | nil => exact goodStep_skip
  | cons name rest ih =>
    intro w hw
    have hfirst := hstep name w hw
    rw [eachEntry]
    generalize step name w = out at hfirst ⊢
    obtain ⟨w', result⟩ := out
    cases result with
    | error e => exact walks_error hfirst.forward hfirst.sound
    | ok u =>
      have hrest := ih w' hfirst.sound
      refine ⟨hfirst.forward.trans hrest.forward, hrest.sound, fun hok => ?_⟩
      obtain ⟨readings, hindex, hreadings, hpaths⟩ := hfirst.reads rfl
      obtain ⟨readings', hindex', hreadings', hpaths'⟩ := hrest.reads hok
      refine ⟨readings ++ readings', ?_, ?_, ?_⟩
      · rw [hindex', hindex, recordAll, recordAll, recordAll, foldl_append]
      · intro r hr
        rcases mem_append.mp hr with hr | hr
        · obtain ⟨hlow, hhigh, hcurrent⟩ := hreadings r hr
          exact ⟨hlow, hhigh.trans_le hrest.forward, hcurrent⟩
        · obtain ⟨hlow, hhigh, hcurrent⟩ := hreadings' r hr
          exact ⟨hfirst.forward.trans hlow, hhigh, hcurrent⟩
      · intro T hfrozen
        rw [map_append, hpaths T (hfrozen.mono (Nat.le_refl _) hrest.forward),
          hpaths' T (hfrozen.mono hfirst.forward (Nat.le_refl _)), flatMap_cons]

/-- A directory is listed, and a loop goes over its entries. -/
theorem walks_listing {step : Name → Walk → Walk × Except StorageError Unit}
    {paths : Name → Tree → List Path} (hstep : ∀ name, GoodStep ω parseJson wanted (step name) (paths name))
    (dir : Path) {w : Walk} (hw : Sound ω parseJson w.tick w.cache) :
    Walks ω parseJson wanted w
      (eachEntry step ((ω.tree w.tick).names dir) w.next).1
      (eachEntry step ((ω.tree w.tick).names dir) w.next).2
      fun T => (T.names dir).flatMap fun name => paths name T := by
  have hnext : w.tick ≤ w.next.tick := Nat.le_succ _
  have hloop := goodStep_eachEntry hstep ((ω.tree w.tick).names dir) w.next (hw.mono hnext)
  refine ⟨hnext.trans hloop.forward, hloop.sound, fun hok => ?_⟩
  obtain ⟨readings, hindex, hreadings, hpaths⟩ := hloop.reads hok
  refine ⟨readings, hindex, ?_, ?_⟩
  · intro r hr
    obtain ⟨hlow, hhigh, hcurrent⟩ := hreadings r hr
    exact ⟨hnext.trans hlow, hhigh, hcurrent⟩
  · intro T hfrozen
    have hT : ω.tree w.tick = T := hfrozen w.tick (Nat.le_refl _)
      (Nat.lt_of_lt_of_le (Nat.lt_succ_self _) hloop.forward)
    rw [hpaths T (hfrozen.mono hnext (Nat.le_refl _)), hT]

/-! ### The directories -/

/-- The canonical files among the entries of a month, a year and the messages directory. -/
def filePaths (year month name : Name) (_ : Tree) : List Path :=
  if isMarkdown name then [[year, month, name]] else []

def monthPaths (year name : Name) (T : Tree) : List Path :=
  if isMonth name then (T.names [year, name]).flatMap fun file => filePaths year name file T else []

def yearPaths (name : Name) (T : Tree) : List Path :=
  if isYear name then (T.names [name]).flatMap fun month => monthPaths name month T else []

theorem flatMap_filter_eq {α β : Type} (p : α → Bool) (f : α → List β) (l : List α) :
    (l.filter p).flatMap f = l.flatMap fun x => if p x then f x else [] := by
  induction l with
  | nil => rfl
  | cons x l ih =>
    rw [flatMap_cons, ← ih, filter_cons]
    split
    · rw [flatMap_cons]
    · rfl

theorem canonicalFiles_eq (T : Tree) :
    canonicalFiles T = (T.names []).flatMap fun name => yearPaths name T := by
  have hfiles (year month : Name) : ((T.names [year, month]).filter isMarkdown).map
      (fun name => [year, month, name]) =
      (T.names [year, month]).flatMap fun name => filePaths year month name T := by
    rw [map_eq_flatMap, flatMap_filter_eq]
    rfl
  rw [canonicalFiles, flatMap_filter_eq]
  simp only [flatMap_filter_eq, hfiles]
  rfl

theorem goodStep_fileEntry (hepoch : 0 ≤ ω.clock 0) (year month name : Name) :
    GoodStep ω parseJson wanted (fileEntry ω unix parseJson wanted year month name)
      (filePaths year month name) := by
  intro w hw
  unfold fileEntry filePaths
  split
  · exact goodStep_inspectFile hepoch _ w hw
  · exact goodStep_skip w hw

theorem goodStep_monthEntry (hepoch : 0 ≤ ω.clock 0) (listing : Nat) (year name : Name) :
    GoodStep ω parseJson wanted (monthEntry ω unix parseJson wanted listing year name)
      (monthPaths year name) := by
  intro w hw
  unfold monthEntry monthPaths
  cases isMonth name with
  | false => exact goodStep_skip w hw
  | true =>
    rw [Bool.not_true, if_neg Bool.false_ne_true]
    split
    · exact walks_error (Nat.le_refl _) hw
    · exact walks_listing (goodStep_fileEntry hepoch year name) [year, name] hw

theorem goodStep_yearEntry (hepoch : 0 ≤ ω.clock 0) (listing : Nat) (name : Name) :
    GoodStep ω parseJson wanted (yearEntry ω unix parseJson wanted listing name)
      (yearPaths name) := by
  intro w hw
  unfold yearEntry yearPaths
  cases isYear name with
  | false => exact goodStep_skip w hw
  | true =>
    rw [Bool.not_true, if_neg Bool.false_ne_true]
    split
    · exact walks_error (Nat.le_refl _) hw
    · exact walks_listing (goodStep_monthEntry hepoch w.tick name) [name] hw

end

/-! ### A call -/

section

variable (ω : World) (unix : Bool) (parseJson : Text → Option Json) (wanted : List Int)

/-- What a call that starts at an instant returns. -/
structure CallLaws (start : Nat) (out : Collected) : Prop where
  /-- When nothing changes meanwhile, the index is that of an uncached parse. -/
  exact : ∀ index parsed, out.result = .ok (index, parsed) →
    ω.Frozen (ω.tree start) start out.tick →
      uncachedIndex parseJson wanted (ω.tree start) = .ok index
  /-- In any case each file is recorded with the id it has while the call runs. -/
  current : ∀ index parsed, out.result = .ok (index, parsed) →
    ∃ readings, index = recordAll wanted readings [] ∧
      ∀ r ∈ readings, start ≤ r.tick ∧ r.tick < out.tick ∧ r.Current ω parseJson

variable {ω unix parseJson wanted}

theorem node_of_mem_names {name : Name} (h : name ∈ T.names path) :
    ∃ names, T.node path = some (.dir names) := by
  unfold Tree.names at h
  split at h
  · next names hnode => exact ⟨names, hnode⟩
  · cases h

/-- A canonical file is not below a symbolic link, unless the messages directory is. -/
theorem hasSymlink_canonicalFile (hroot : T.hasSymlink [] = false) (h : path ∈ canonicalFiles T)
    (hf : T.file? path = some f) : T.hasSymlink path = false := by
  unfold canonicalFiles at h
  obtain ⟨year, hyear, h⟩ := mem_flatMap.mp h
  obtain ⟨month, hmonth, h⟩ := mem_flatMap.mp h
  obtain ⟨name, hname, rfl⟩ := mem_map.mp h
  obtain ⟨years, hroot'⟩ := node_of_mem_names (mem_filter.mp hyear).1
  obtain ⟨months, hyear'⟩ := node_of_mem_names (mem_filter.mp hmonth).1
  obtain ⟨files, hmonth'⟩ := node_of_mem_names (mem_filter.mp hname).1
  have hfile : T.node [year, month, name] = some (.file f) := by
    unfold Tree.file? at hf
    split at hf
    · next g hnode =>
      cases hf
      exact hnode
    · cases hf
  have hlinked : T.linked = false := by
    rw [Tree.hasSymlink, Bool.or_eq_false_iff] at hroot
    exact hroot.1
  simp [Tree.hasSymlink, hlinked, hroot', hyear', hmonth', hfile]

/-- Recording the readings of all canonical files is the uncached parse. -/
theorem uncachedIndex_of_readings (hroot : T.hasSymlink [] = false)
    (hwanted : wanted.isEmpty = false) {readings : List Reading}
    (hpaths : readings.map (·.path) = canonicalFiles T)
    (hids : ∀ r ∈ readings, ∃ f, T.file? r.path = some f ∧ messageId parseJson r.path f = .ok r.id) :
    uncachedIndex parseJson wanted T = .ok (recordAll wanted readings []) := by
  have hreads (r : Reading) (hr : r ∈ readings) : readMessageId parseJson T r.path = .ok r.id := by
    obtain ⟨f, hf, hid⟩ := hids r hr
    have hmem : r.path ∈ canonicalFiles T := hpaths ▸ mem_map_of_mem hr
    rw [readMessageId, hasSymlink_canonicalFile hroot hmem hf, if_neg Bool.false_ne_true]
    unfold Tree.file? at hf
    split at hf
    · next g hnode =>
      cases hf
      rw [hnode]
      exact hid
    · cases hf
  rw [uncachedIndex, hwanted, if_neg Bool.false_ne_true, ← hpaths, recordAll]
  generalize ([] : IdIndex) = index
  clear hpaths hids
  induction readings generalizing index with
  | nil => rfl
  | cons r readings ih =>
    rw [map_cons, foldlM_cons, hreads r (mem_cons_self ..), foldl_cons]
    exact ih (fun r' hr' => hreads r' (mem_cons_of_mem _ hr')) _

theorem callLaws_error {start : Nat} {out : Collected} {e : StorageError}
    (h : out.result = .error e) : CallLaws ω parseJson wanted start out := by
  constructor
  · intro index parsed hok
    rw [h] at hok
    cases hok
  · intro index parsed hok
    rw [h] at hok
    cases hok

/-- A call keeps a sound cache and returns what the files show. -/
theorem collectIndex_spec (hepoch : 0 ≤ ω.clock 0) {tick : Nat}
    (hcache : Sound ω parseJson tick cache) :
    tick ≤ (collectIndex ω unix parseJson wanted tick cache).tick ∧
      Sound ω parseJson (collectIndex ω unix parseJson wanted tick cache).tick
        (collectIndex ω unix parseJson wanted tick cache).cache ∧
      CallLaws ω parseJson wanted tick (collectIndex ω unix parseJson wanted tick cache) := by
  unfold collectIndex
  cases hwanted : wanted.isEmpty with
  | true =>
    rw [if_pos rfl]
    refine ⟨Nat.le_refl _, hcache, ?_, ?_⟩
    · intro index parsed hok _
      cases hok
      rw [uncachedIndex, hwanted, if_pos rfl]
    · intro index parsed hok
      cases hok
      exact ⟨[], rfl, fun r hr => absurd hr not_mem_nil⟩
  | false =>
    rw [if_neg Bool.false_ne_true]
    cases hroot : (ω.tree tick).hasSymlink [] with
    | true =>
      rw [if_pos rfl]
      exact ⟨Nat.le_succ _, hcache.mono (Nat.le_succ _), callLaws_error rfl⟩
    | false =>
      rw [if_neg Bool.false_ne_true]
      have htwo : tick ≤ tick + 2 := Nat.le_add_right _ _
      cases hnode : (ω.tree (tick + 1)).node [] with
      | none =>
        dsimp only
        refine ⟨htwo, hcache.mono htwo, ?_, ?_⟩
        · intro index parsed hok hfrozen
          cases hok
          have hT : (ω.tree tick).node [] = none := by
            rw [← hfrozen (tick + 1) (Nat.le_succ _) (Nat.lt_succ_self _)]
            exact hnode
          rw [uncachedIndex, hwanted, if_neg Bool.false_ne_true, canonicalFiles, Tree.names, hT]
          rfl
        · intro index parsed hok
          cases hok
          exact ⟨[], rfl, fun r hr => absurd hr not_mem_nil⟩
      | some node =>
        cases node with
        | file f => exact ⟨htwo, hcache.mono htwo, callLaws_error rfl⟩
        | symlink => exact ⟨htwo, hcache.mono htwo, callLaws_error rfl⟩
        | other => exact ⟨htwo, hcache.mono htwo, callLaws_error rfl⟩
        | dir years =>
          dsimp only
          have hyear (name : Name) : GoodStep ω parseJson wanted
              (yearEntry ω unix parseJson wanted (tick + 2) name) (yearPaths name) :=
            goodStep_yearEntry hepoch (tick + 2) name
          have hwalk := walks_listing hyear [] (w := ⟨tick + 2, cache, [], [], 0⟩)
            (hcache.mono htwo)
          dsimp only [Walk.next] at hwalk
          generalize eachEntry (yearEntry ω unix parseJson wanted (tick + 2))
            ((ω.tree (tick + 2)).names []) ⟨tick + 2 + 1, cache, [], [], 0⟩ = out at hwalk ⊢
          obtain ⟨w, result⟩ := out
          have hpast : tick ≤ w.tick := htwo.trans hwalk.forward
          cases result with
          | error e => exact ⟨hpast, hwalk.sound, callLaws_error rfl⟩
          | ok u =>
            obtain ⟨readings, hindex, hreadings, hpaths⟩ := hwalk.reads rfl
            refine ⟨hpast, fun e he => hwalk.sound e (mem_filter.mp he).1, ?_, ?_⟩
            · intro index parsed hok hfrozen
              cases hok
              rw [hindex]
              apply uncachedIndex_of_readings hroot hwanted
              · rw [canonicalFiles_eq]
                exact hpaths _ (hfrozen.mono htwo (Nat.le_refl _))
              · intro r hr
                obtain ⟨hlow, hhigh, f, hf, hid⟩ := hreadings r hr
                rw [hfrozen r.tick (htwo.trans hlow) hhigh] at hf
                exact ⟨f, hf, hid⟩
            · intro index parsed hok
              cases hok
              refine ⟨readings, hindex, fun r hr => ?_⟩
              obtain ⟨hlow, hhigh, hcurrent⟩ := hreadings r hr
              exact ⟨htwo.trans hlow, hhigh, hcurrent⟩

end

/-! ### A run of calls -/

section

variable (ω : World) (unix : Bool) (parseJson : Text → Option Json)

/-- A call, some instants after the one before it. -/
structure Call where
  gap : Nat
  wanted : List Int

/-- What calls share: the instant and the cache. -/
structure Session where
  tick : Nat
  cache : CanonicalIdCache

/-- A call of a session. -/
def callStep (s : Session) (c : Call) : Option (Collected × Session) :=
  let out := collectIndex ω unix parseJson c.wanted (s.tick + c.gap) s.cache
  some (out, ⟨out.tick, out.cache⟩)

variable {ω}

/-- In every run of calls from an empty cache over a changing directory, each call that succeeds
returns the index of an uncached parse, as long as the clock is not before the epoch. -/
theorem cache_transparent (hepoch : 0 ≤ ω.clock 0) (calls : List Call) :
    ∀ x ∈ trace (callStep ω unix parseJson) ⟨0, []⟩ calls,
      CallLaws ω parseJson x.event.wanted (x.before.tick + x.event.gap) x.response := by
  have hstart : Sound ω parseJson 0 [] := fun e he => absurd he not_mem_nil
  have hkeeps (s : Session) (c : Call) (out : Collected) (s' : Session)
      (hs : Sound ω parseJson s.tick s.cache)
      (hstep : callStep ω unix parseJson s c = some (out, s')) :
      Sound ω parseJson s'.tick s'.cache := by
    cases hstep
    exact (collectIndex_spec hepoch (hs.mono (Nat.le_add_right _ _))).2.1
  intro x hx
  obtain ⟨hsound, hstep, -⟩ := forall_mem_trace hkeeps hstart calls x hx
  have hresponse : x.response = collectIndex ω unix parseJson x.event.wanted
      (x.before.tick + x.event.gap) x.before.cache :=
    (congrArg Prod.fst (Option.some.inj hstep)).symm
  rw [hresponse]
  exact (collectIndex_spec hepoch (hsound.mono (Nat.le_add_right _ _))).2.2

end

/-! ### A clock before the epoch -/

def sampleFile (changedNs : Int) (id : Nat) : MessageFile where
  stamp := ⟨40, 1, 7, changedNs, changedNs⟩
  content := some ("---json\n".toList ++ natText id ++ "\n---\n\nbody".toList)

def sampleTree (f : MessageFile) : Tree where
  linked := false
  node path :=
    if path = [] then some (.dir [[50, 48, 50, 54]])
    else if path = [[50, 48, 50, 54]] then some (.dir [[48, 57]])
    else if path = [[50, 48, 50, 54], [48, 57]] then some (.dir [[97, 46, 109, 100]])
    else if path = [[50, 48, 50, 54], [48, 57], [97, 46, 109, 100]] then some (.file f)
    else none

def sampleJson (t : Text) : Option Json :=
  (parseI64 t).map fun n => .obj [("id".toList, .int n)]

theorem sampleTree_file? {g : MessageFile} (h : (sampleTree f).file? path = some g) : g = f := by
  unfold Tree.file? sampleTree at h
  dsimp only at h
  split at h
  · next hnode =>
    split at hnode
    · cases hnode
    · split at hnode
      · cases hnode
      · split at hnode
        · cases hnode
        · split at hnode
          · cases hnode
            exact (Option.some.inj h).symm
          · cases hnode
  · cases h

/-- A file that is rewritten once, at instant 20, with a change time within the window of both
writes. -/
def rewritten (now changedNs : Int) (hnear : |changedNs - now| ≤ 2) : World where
  racyWindowNs := 2
  tree k := if k < 20 then sampleTree (sampleFile changedNs 1) else sampleTree (sampleFile changedNs 2)
  clock _ := now
  clock_mono _ := Int.le_refl _
  fresh := by
    intro k path f hf
    refine .inr ⟨now, Int.le_refl _, Int.le_refl _, ?_⟩
    have hstamp : f.stamp.changedNs = changedNs := by
      split at hf
      · rw [sampleTree_file? hf]
        rfl
      · rw [sampleTree_file? hf]
        rfl
    rw [hstamp]
    exact hnear

def samplePath : Path := [[50, 48, 50, 54], [48, 57], [97, 46, 109, 100]]

/-- The first call parses the file at a time that counts as the epoch, long after its change, so
that the second one does not notice that it was rewritten. -/
theorem rewrite_before_epoch_unnoticed :
    ¬ ∀ x ∈ trace (callStep (rewritten (-12) (-13) (by decide)) true sampleJson) ⟨0, []⟩
        [⟨0, [1, 2]⟩, ⟨20, [1, 2]⟩],
      CallLaws (rewritten (-12) (-13) (by decide)) sampleJson x.event.wanted
        (x.before.tick + x.event.gap) x.response := by
  intro h
  let ω := rewritten (-12) (-13) (by decide)
  let first := collectIndex ω true sampleJson [1, 2] 0 []
  let second := collectIndex ω true sampleJson [1, 2] (first.tick + 20) first.cache
  have hlaws : CallLaws ω sampleJson [1, 2] (first.tick + 20) second :=
    h ⟨⟨first.tick, first.cache⟩, ⟨20, [1, 2]⟩, second, ⟨second.tick, second.cache⟩⟩
      (mem_cons_of_mem _ (mem_singleton_self _))
  have hsecond : second.result = .ok ([(1, [samplePath])], 0) := by rfl
  have hlate (k : Nat) (hk : first.tick + 20 ≤ k) : ω.tree k = sampleTree (sampleFile (-13) 2) :=
    if_neg (by omega)
  have hfrozen : ω.Frozen (ω.tree (first.tick + 20)) (first.tick + 20) second.tick := by
    intro k hk _
    rw [hlate k hk, hlate _ (Nat.le_refl _)]
  have hindex := hlaws.exact _ _ hsecond hfrozen
  have hnow : uncachedIndex sampleJson [1, 2] (ω.tree (first.tick + 20)) =
      .ok [(2, [samplePath])] := by rfl
  rw [hnow] at hindex
  cases hindex

theorem cache_transparent_rewritten :
    ∃ x ∈ trace (callStep (rewritten 12 11 (by decide)) true sampleJson) ⟨0, []⟩
        [⟨0, [1, 2]⟩, ⟨20, [1, 2]⟩],
      CallLaws (rewritten 12 11 (by decide)) sampleJson x.event.wanted
        (x.before.tick + x.event.gap) x.response :=
  ⟨_, mem_cons_of_mem _ (mem_singleton_self _),
    cache_transparent true sampleJson (by decide) [⟨0, [1, 2]⟩, ⟨20, [1, 2]⟩] _
      (mem_cons_of_mem _ (mem_singleton_self _))⟩

end AgentMail.Canonical
