import AgentMail.Lib.BucketMap
import AgentMail.Lib.Table
import AgentMail.Pattern.Routing

/-!
# Partitioned indexes of patterns

The database and the tools each build an index of reservation patterns with the same three
partitions: literal paths by normalised text, globs by their first literal segment, and the
remaining globs (`crates/mcp-agent-mail-db/src/queries.rs:14702–14740`,
`crates/mcp-agent-mail-tools/src/reservation_index.rs:45–103`). They differ in the text they
route by and in what an entry carries. Each lookup is described here as a selection from the
list the index was built from.
-/

namespace AgentMail.Reservation

open Base Lib Pattern List

/-- The fields that both index structures have. -/
structure PartitionedIndex (ι : Type) where
  exactByPath : BucketMap Text ι
  globsByPrefix : BucketMap Text ι
  rootGlobs : List ι

namespace PartitionedIndex

variable {ι : Type}

def empty : PartitionedIndex ι := ⟨.empty, .empty, []⟩

/-- One turn of the loop in `build`: `key` is the routing text of a path or segment, `pat` the
compiled pattern of an entry. -/
def insert (key : Text → Text) (pat : ι → CompiledPattern) (index : PartitionedIndex ι) (e : ι) :
    PartitionedIndex ι :=
  if !(pat e).isGlob then
    { index with exactByPath := index.exactByPath.push (key (pat e).norm) e }
  else
    match (pat e).firstLiteralSegment with
    | some segment => { index with globsByPrefix := index.globsByPrefix.push (key segment) e }
    | none => { index with rootGlobs := index.rootGlobs ++ [e] }

/-- The loop of `build` over all entries. -/
def build (key : Text → Text) (pat : ι → CompiledPattern) (entries : List ι) :
    PartitionedIndex ι :=
  entries.foldl (insert key pat) empty

/-- `descendant_prefix` and `reservation_descendant_prefix`. -/
def descendantPrefix (norm : Text) : Option Text :=
  if norm.isEmpty then none else some (norm ++ ['/'])

/-- `get` on the literal paths, with no entries for an absent key. -/
def exactAt (index : PartitionedIndex ι) (k : Text) : List ι := (index.exactByPath.get k).getD []

/-- The walk over `range(prefix..)` that stops at the first path that does not start with it. -/
def exactBelow (index : PartitionedIndex ι) (norm : Text) : List ι :=
  (descendantPrefix norm).elim [] fun start =>
    (index.exactByPath.scan start start.isPrefixOf).flatten

/-- All entries for literal paths. -/
def exactAll (index : PartitionedIndex ι) : List ι := index.exactByPath.values.flatten

/-- `get` on the globs with a first literal segment. -/
def globsAt (index : PartitionedIndex ι) (k : Text) : List ι := (index.globsByPrefix.get k).getD []

/-- All globs with a first literal segment. -/
def globsAll (index : PartitionedIndex ι) : List ι := index.globsByPrefix.values.flatten

/-! ### Contents of a built index -/

/-- A glob that starts with a literal segment. -/
def isPrefixed (c : CompiledPattern) : Bool := c.isGlob && c.firstLiteralSegment.isSome

/-- A glob that does not. -/
def isRootGlob (c : CompiledPattern) : Bool := c.isGlob && c.firstLiteralSegment.isNone

/-- The routing text of a glob. -/
def globKey (key : Text → Text) (c : CompiledPattern) : Text := key (c.firstLiteralSegment.getD [])

variable (key : Text → Text) (pat : ι → CompiledPattern)

theorem foldl_insert (entries : List ι) (index : PartitionedIndex ι) :
    (entries.foldl (insert key pat) index).exactByPath.items.Perm (index.exactByPath.items ++
      (entries.filter fun e => !(pat e).isGlob).map fun e => (key (pat e).norm, e)) ∧
    (entries.foldl (insert key pat) index).globsByPrefix.items.Perm (index.globsByPrefix.items ++
      (entries.filter fun e => isPrefixed (pat e)).map fun e => (globKey key (pat e), e)) ∧
    (entries.foldl (insert key pat) index).rootGlobs =
      index.rootGlobs ++ entries.filter fun e => isRootGlob (pat e) := by
  induction entries generalizing index with
  | nil => simp
  | cons e entries ih =>
    obtain ⟨hexact, hglobs, hroot⟩ := ih (insert key pat index e)
    rw [foldl_cons]
    simp only [filter_cons]
    -- The new entry goes to exactly one partition and leaves the other two alone.
    cases hg : (pat e).isGlob with
    | false =>
      have hi : insert key pat index e =
          { index with exactByPath := index.exactByPath.push (key (pat e).norm) e } := by
        rw [insert, hg]
        rfl
      rw [hi] at hexact hglobs hroot ⊢
      simp only [isPrefixed, isRootGlob, hg, Bool.false_and, Bool.not_false, if_true,
        Bool.false_eq_true, if_false, map_cons] at hexact hglobs hroot ⊢
      refine ⟨hexact.trans ?_, hglobs, hroot⟩
      exact ((BucketMap.items_push _ _ _).append_right _).trans perm_middle.symm
    | true =>
      cases hs : (pat e).firstLiteralSegment with
      | some segment =>
        have hi : insert key pat index e =
            { index with globsByPrefix := index.globsByPrefix.push (key segment) e } := by
          rw [insert, hg, hs]
          rfl
        rw [hi] at hexact hglobs hroot ⊢
        simp only [isPrefixed, isRootGlob, globKey, hg, hs, Bool.true_and, Bool.not_true,
          Option.isSome_some, Option.isNone_some, if_true, Bool.false_eq_true, if_false,
          map_cons, Option.getD_some] at hexact hglobs hroot ⊢
        refine ⟨hexact, hglobs.trans ?_, hroot⟩
        exact ((BucketMap.items_push _ _ _).append_right _).trans perm_middle.symm
      | none =>
        have hi : insert key pat index e = { index with rootGlobs := index.rootGlobs ++ [e] } := by
          rw [insert, hg, hs]
          rfl
        rw [hi] at hexact hglobs hroot ⊢
        simp only [isPrefixed, isRootGlob, hg, hs, Bool.true_and, Bool.not_true,
          Option.isSome_none, Option.isNone_none, if_true, Bool.false_eq_true, if_false,
          append_assoc, singleton_append] at hexact hglobs hroot ⊢
        exact ⟨hexact, hglobs, hroot⟩

theorem exact_items (entries : List ι) :
    (build key pat entries).exactByPath.items.Perm
      ((entries.filter fun e => !(pat e).isGlob).map fun e => (key (pat e).norm, e)) :=
  (foldl_insert key pat entries empty).1

theorem globs_items (entries : List ι) :
    (build key pat entries).globsByPrefix.items.Perm
      ((entries.filter fun e => isPrefixed (pat e)).map fun e => (globKey key (pat e), e)) :=
  (foldl_insert key pat entries empty).2.1

/-- The unprefixed globs keep their order. -/
theorem rootGlobs_build (entries : List ι) :
    (build key pat entries).rootGlobs = entries.filter fun e => isRootGlob (pat e) :=
  (foldl_insert key pat entries empty).2.2

theorem select_perm {items : List (Text × ι)} {entries : List ι} {p : ι → Bool}
    {f : ι → Text} (h : items.Perm ((entries.filter p).map fun e => (f e, e))) (q : Text → Bool) :
    ((items.filter (q ·.1)).map (·.2)).Perm (entries.filter fun e => p e && q (f e)) := by
  refine ((h.filter _).map _).trans ?_
  rw [filter_map, map_map, filter_filter]
  simp [Function.comp_def, Bool.and_comm]

/-- A literal lookup selects the literal patterns with that routing text. -/
theorem exactAt_perm (entries : List ι) (k : Text) :
    ((build key pat entries).exactAt k).Perm
      (entries.filter fun e => !(pat e).isGlob && key (pat e).norm == k) := by
  have ht (x : Text) : (x == k) = true ↔ x = k := beq_iff_eq
  rw [exactAt, BucketMap.get_getD _ ht]
  exact select_perm (exact_items key pat entries) (· == k)

/-- The descendant walk selects the literal patterns below a nonempty path. -/
theorem exactBelow_perm (entries : List ι) {norm : Text} (hne : norm ≠ []) :
    ((build key pat entries).exactBelow norm).Perm
      (entries.filter fun e => !(pat e).isGlob && (norm ++ ['/']).isPrefixOf (key (pat e).norm)) := by
  have hstart : descendantPrefix norm = some (norm ++ ['/']) := by
    rw [descendantPrefix, isEmpty_eq_false_iff.mpr hne]
    rfl
  rw [exactBelow, hstart, Option.elim_some,
    BucketMap.scan_flatten _ (fun _ h => not_lt_of_isPrefixOf h) (fun _ _ => isPrefixOf_of_lt)]
  exact select_perm (exact_items key pat entries) (norm ++ ['/']).isPrefixOf

theorem exactBelow_nil (index : PartitionedIndex ι) : index.exactBelow [] = [] := rfl

theorem exactAll_perm (entries : List ι) :
    (build key pat entries).exactAll.Perm (entries.filter fun e => !(pat e).isGlob) := by
  rw [exactAll, BucketMap.values_flatten]
  have h := select_perm (exact_items key pat entries) fun _ => true
  simpa using h

/-- A glob lookup selects the globs with that first segment. -/
theorem globsAt_perm (entries : List ι) (k : Text) :
    ((build key pat entries).globsAt k).Perm
      (entries.filter fun e => isPrefixed (pat e) && globKey key (pat e) == k) := by
  have ht (x : Text) : (x == k) = true ↔ x = k := beq_iff_eq
  rw [globsAt, BucketMap.get_getD _ ht]
  exact select_perm (globs_items key pat entries) (· == k)

theorem globsAll_perm (entries : List ι) :
    (build key pat entries).globsAll.Perm (entries.filter fun e => isPrefixed (pat e)) := by
  rw [globsAll, BucketMap.values_flatten]
  have h := select_perm (globs_items key pat entries) fun _ => true
  simpa using h

/-- The three partitions together make up the whole list. -/
theorem partition_perm (entries : List ι) (p : ι → Bool) :
    ((entries.filter fun e => !(pat e).isGlob && p e) ++
      (entries.filter fun e => isPrefixed (pat e) && p e) ++
      entries.filter fun e => isRootGlob (pat e) && p e).Perm (entries.filter p) := by
  let classes : List (CompiledPattern → Bool) := [fun c => !c.isGlob, isPrefixed, isRootGlob]
  have hclasses : classes.Pairwise fun s t => ∀ c, s c = true → t c = true → False := by
    simp only [classes, pairwise_cons, forall_mem_cons, not_mem_nil,
      List.Pairwise.nil, and_true, false_imp_iff, implies_true, isPrefixed, isRootGlob]
    refine ⟨⟨?_, ?_⟩, ?_⟩
    · intro c h h'
      simp_all
    · intro c h h'
      simp_all
    · intro c h h'
      cases hs : c.firstLiteralSegment <;> simp_all
  have hperm := flatMap_filter_perm entries p pat hclasses
  simp only [classes, flatMap_cons, flatMap_nil, append_nil] at hperm
  simp only [Bool.and_comm _ (p _)]
  rw [append_assoc]
  refine hperm.trans (List.Perm.of_eq (filter_congr fun e _ => ?_))
  simp only [any_cons, any_nil, Bool.or_false, isPrefixed, isRootGlob]
  cases (pat e).isGlob <;> cases (pat e).firstLiteralSegment <;> simp

end PartitionedIndex

end AgentMail.Reservation
