import AgentMail.Base.Decimal
import AgentMail.Lib.Loop
import AgentMail.Share.BundleVerify

/-!
# What an export writes

The files, the map of hashes, the vendored scripts and the chunks of an exported bundle, each as a
function of the staged files.
-/

namespace AgentMail.Share

open Base Lib List

/-! ### Paths and texts -/

theorem pathText_cons (a b : Name) (rest : List Name) :
    pathText (a :: b :: rest) = a.val ++ '/' :: pathText (b :: rest) := by
  have h := joinSlash_append (a := [a.val]) (b := (b :: rest).map Subtype.val) (by simp) (by simp)
  rw [joinSlash_singleton] at h
  exact h

theorem pathText_singleton (a : Name) : pathText [a] = a.val := joinSlash_singleton a.val

variable {p : List Name}

theorem splitSlash_pathText (hp : p ≠ []) : splitSlash (pathText p) = p.map Subtype.val := by
  apply splitSlash_joinSlash
  · intro c hc
    obtain ⟨a, _, rfl⟩ := mem_map.mp hc
    exact a.property.2.2.2.1
  · rwa [ne_eq, map_eq_nil_iff]

/-- The characters of a path are those of its names, and slashes. -/
theorem mem_pathText {c : Char} (h : c ∈ pathText p) : c = '/' ∨ ∃ a ∈ p, c ∈ a.val := by
  induction p with
  | nil => cases h
  | cons a p ih =>
    cases p with
    | nil =>
      rw [pathText_singleton] at h
      exact .inr ⟨a, mem_cons_self, h⟩
    | cons b p =>
      rw [pathText_cons, mem_append, mem_cons] at h
      rcases h with h | h | h
      · exact .inr ⟨a, mem_cons_self, h⟩
      · exact .inl h
      · rcases ih h with h | ⟨x, hx, h⟩
        · exact .inl h
        · exact .inr ⟨x, mem_cons_of_mem _ hx, h⟩

theorem mem_pathText_of_mem {a : Name} {c : Char} (ha : a ∈ p) (hc : c ∈ a.val) :
    c ∈ pathText p := by
  induction p with
  | nil => cases ha
  | cons b p ih =>
    cases p with
    | nil =>
      rw [mem_singleton] at ha
      rwa [pathText_singleton, ← ha]
    | cons b' p =>
      rw [pathText_cons, mem_append, mem_cons]
      rcases mem_cons.mp ha with rfl | ha
      · exact .inl hc
      · exact .inr (.inr (ih ha))

theorem head?_pathText {a : Name} : (pathText (a :: p)).head? ≠ some '/' := by
  have hhead : ∀ rest : Text, (a.val ++ rest).head? ≠ some '/' := by
    intro rest heq
    obtain ⟨c, cs, hval⟩ := exists_cons_of_ne_nil a.property.1
    rw [hval, cons_append, List.head?_cons, Option.some.injEq] at heq
    exact a.property.2.2.2.1 (by rw [hval, heq]; exact mem_cons_self)
  cases p with
  | nil =>
    rw [pathText_singleton, ← append_nil a.val]
    exact hhead []
  | cons b p =>
    rw [pathText_cons]
    exact hhead _

/-- A path without names that a slash could have come from. -/
def Unslashed (p : List Name) : Prop := ∀ a ∈ p, '\\' ∉ a.val

theorem backslash_notMem_pathText (h : Unslashed p) : '\\' ∉ pathText p := by
  intro hmem
  rcases mem_pathText hmem with hslash | ⟨a, ha, hc⟩
  · cases hslash
  · exact h a ha hc

theorem slashed_of_notMem {t : Text} (h : '\\' ∉ t) : slashed t = t := by
  rw [slashed]
  conv_rhs => rw [← map_id t]
  apply map_congr_left
  intro c hc
  have hne : c ≠ '\\' := fun heq => h (heq ▸ hc)
  rw [if_neg hne]
  rfl

theorem backslash_notMem_slashed (t : Text) : '\\' ∉ slashed t := by
  intro h
  obtain ⟨c, _, hc⟩ := mem_map.mp h
  split at hc
  · cases hc
  · next hne => exact hne hc

/-! ### Places -/

theorem walk_name (t : Staging) (dirs : List Name) (a : Name) (cs : List Text) :
    walk t dirs (a.val :: cs) = if t.isDir dirs then walk t (dirs ++ [a]) cs
      else if (t.get? dirs).isSome then .notDirectory else .missing := by
  obtain ⟨hne, hdot, hdots, hslash, hnul⟩ := a.property
  have hskip : ¬ (a.val = [] ∨ a.val = ['.']) := not_or.mpr ⟨hne, hdot⟩
  rw [walk, if_neg hskip, if_neg hdots, dif_pos a.property]
  cases t.isDir dirs <;> simp

variable {t : Staging}

theorem walk_of_exists {dirs : List Name}
    (h : (t.get? (dirs ++ p)).isSome ∨ t.isDir (dirs ++ p) = true) :
    walk t dirs (p.map Subtype.val) = .inside (dirs ++ p) := by
  induction p generalizing dirs with
  | nil => rw [map_nil, walk, append_nil]
  | cons a p ih =>
    have hdir : t.isDir dirs = true := by
      apply FileTree.isDir_of_prefix (prefix_append dirs (a :: p)) _ h
      simp
    have hrest : dirs ++ a :: p = dirs ++ [a] ++ p := by simp
    rw [hrest] at h ⊢
    rw [map_cons, walk_name, if_pos hdir]
    exact ih h

theorem eq_of_walk {dirs q : List Name} (h : walk t dirs (p.map Subtype.val) = .inside q) :
    q = dirs ++ p := by
  induction p generalizing dirs with
  | nil =>
    rw [map_nil, walk, Place.inside.injEq] at h
    rw [← h, append_nil]
  | cons a p ih =>
    rw [map_cons, walk_name] at h
    split at h
    · rw [ih h, append_assoc, singleton_append]
    · split at h <;> cases h

theorem place_pathText (hp : p ≠ []) : place t (pathText p) = walk t [] (p.map Subtype.val) := by
  obtain ⟨a, p, rfl⟩ := exists_cons_of_ne_nil hp
  rw [place, if_neg head?_pathText, splitSlash_pathText hp]

theorem place_of_exists (hp : p ≠ []) (h : (t.get? p).isSome ∨ t.isDir p = true) :
    place t (pathText p) = .inside p := by
  rw [place_pathText hp]
  exact walk_of_exists h

theorem readAt_pathText {outside : Text → Option Bytes} {b : Bytes} (h : t.get? p = some b) :
    readAt outside t (pathText p) = some b := by
  have hp : p ≠ [] := by
    rintro rfl
    rw [FileTree.get?_nil] at h
    cases h
  rw [readAt, place_of_exists hp (.inl (by rw [h]; rfl))]
  exact h

/-! ### Writing -/

theorem get?_writeOutputBytes {t' : Staging} {data : Bytes}
    (h : writeOutputBytes t p data = .ok t') (q : List Name) :
    t'.get? q = if p = q then some data else t.get? q := by
  unfold writeOutputBytes at h
  split at h
  · next hput =>
    cases h
    exact FileTree.get?_put? hput q
  · cases h

theorem isDir_writeOutputBytes {t' : Staging} {data : Bytes}
    (h : writeOutputBytes t p data = .ok t') (q : List Name) :
    t'.isDir q = true ↔ t.isDir q = true ∨ (q <+: p ∧ q ≠ p) := by
  unfold writeOutputBytes FileTree.put? at h
  split at h
  · next hput =>
    split at hput
    · cases hput
      cases h
      exact FileTree.isDir_put _ q
    · cases hput
  · cases h

/-- Where a text of other files leads is the same after a step that writes no file there. -/
structure SameAt (t t' : Staging) (q : List Name) : Prop where
  file : t'.get? q = t.get? q
  dir : t'.isDir q = t.isDir q

theorem SameAt.refl (t : Staging) (q : List Name) : SameAt t t q := ⟨rfl, rfl⟩

theorem SameAt.trans {t' t'' : Staging} {q : List Name} (h : SameAt t t' q) (h' : SameAt t' t'' q) :
    SameAt t t'' q := ⟨h'.file.trans h.file, h'.dir.trans h.dir⟩

theorem sameAt_writeOutputBytes {t' : Staging} {data : Bytes}
    (h : writeOutputBytes t p data = .ok t') {q : List Name} (hq : ¬ q <+: p) : SameAt t t' q := by
  constructor
  · rw [get?_writeOutputBytes h, if_neg]
    rintro rfl
    exact hq prefix_rfl
  · rw [Bool.eq_iff_iff, isDir_writeOutputBytes h]
    constructor
    · rintro (hdir | ⟨hpre, _⟩)
      · exact hdir
      · exact absurd hpre hq
    · exact .inl

/-! ### Chunks -/

theorem flatten_cutChunks {chunkBytes : Nat} (hpos : 0 < chunkBytes) {turns : Nat} {rest : Bytes}
    (h : rest.length ≤ turns) : (cutChunks chunkBytes turns rest).flatten = rest := by
  induction turns generalizing rest with
  | zero => rw [cutChunks, length_eq_zero_iff.mp (by omega : rest.length = 0), flatten_nil]
  | succ turns ih =>
    rw [cutChunks]
    split
    · next hempty => rw [List.isEmpty_iff.mp hempty, flatten_nil]
    · next hne =>
      have hlength : 0 < rest.length := by
        rw [length_pos_iff]
        simpa using hne
      rw [flatten_cons, ih (by rw [length_drop]; omega), take_append_drop]

theorem length_cutChunks {chunkBytes turns : Nat} {rest : Bytes} :
    (cutChunks chunkBytes turns rest).length ≤ turns := by
  induction turns generalizing rest with
  | zero => rw [cutChunks, length_nil]
  | succ turns ih =>
    rw [cutChunks]
    split
    · rw [length_nil]
      omega
    · rw [length_cons]
      have := @ih (rest.drop chunkBytes)
      omega

theorem digitsVal_zeros (k : Nat) (t : Text) :
    digitsVal (replicate k '0' ++ t) = digitsVal t := by
  induction k with
  | zero => rfl
  | succ k ih =>
    rw [← ih]
    rfl

theorem fiveDigits_injective {m n : Nat} (h : fiveDigits m = fiveDigits n) : m = n := by
  have hval := congrArg digitsVal h
  rw [fiveDigits, fiveDigits, digitsVal_zeros, digitsVal_zeros, digitsVal_natText,
    digitsVal_natText, Option.some.injEq] at hval
  exact hval

theorem chunkName_injective {m n : Nat} (h : chunkName m = chunkName n) : m = n :=
  fiveDigits_injective (append_cancel_right (Subtype.mk.inj h))

/-- What is not a chunk is left alone, and each chunk is under its name. -/
theorem writeChunks_spec {C : BundleCrates} {index : Nat} {chunks : List Bytes} {t' : Staging}
    {lines : Text} (h : writeChunks C index chunks t = .ok (t', lines)) :
    (∀ q, (∀ j, index ≤ j → ¬ q <+: [chunksDir, chunkName j]) → SameAt t t' q) ∧
      ∀ j (hj : j < chunks.length),
        t'.get? [chunksDir, chunkName (index + j)] = some chunks[j] := by
  induction chunks generalizing index t lines with
  | nil =>
    cases h
    exact ⟨fun q _ => .refl _ q, fun j hj => absurd hj (Nat.not_lt_zero _)⟩
  | cons chunk chunks ih =>
    rw [writeChunks] at h
    obtain ⟨t₁, hwrite, h⟩ := bind_eq_ok.mp h
    obtain ⟨⟨t₂, rest⟩, hrest, h⟩ := bind_eq_ok.mp h
    cases h
    obtain ⟨hsame, hchunks⟩ := ih hrest
    constructor
    · intro q hq
      exact (sameAt_writeOutputBytes hwrite (hq index le_rfl)).trans
        (hsame q fun j hj => hq j (by omega))
    · intro j hj
      cases j with
      | zero =>
        have hnot : ∀ j, index + 1 ≤ j →
            ¬ [chunksDir, chunkName index] <+: [chunksDir, chunkName j] := by
          intro j hj hpre
          have heq := hpre.eq_of_length rfl
          rw [List.cons.injEq, List.cons.injEq] at heq
          have := chunkName_injective heq.2.1
          omega
        rw [Nat.add_zero, (hsame _ hnot).file, get?_writeOutputBytes hwrite, if_pos rfl]
        rfl
      | succ j =>
        have := hchunks j (by simpa using hj)
        rw [Nat.add_right_comm, Nat.add_assoc] at this
        rw [this]
        rfl

/-! ### Maps of texts -/

/-- What the loop over the entries makes of a map: an entry that is hashed is in it, with the hash of
what is read, and everything else is as before. -/
theorem hashLoop_spec {C : BundleCrates} {outside : Text → Option Bytes} {entries : List Text}
    {files files' : List (Text × Json)} (h : hashLoop C outside t entries files = .ok files') :
    (∀ k ∈ entries, k ∉ unhashedBundleFiles → ∃ data, readAt outside t k = some data ∧
        Assoc.get? k files' = some (.str (hexSha256 C data))) ∧
      (∀ k, k ∉ entries ∨ k ∈ unhashedBundleFiles → Assoc.get? k files' = Assoc.get? k files) ∧
      ((files.map (·.1)).Nodup → (files'.map (·.1)).Nodup) := by
  induction entries generalizing files with
  | nil =>
    cases h
    exact ⟨fun k hk => absurd hk not_mem_nil, fun k _ => rfl, fun hnodup => hnodup⟩
  | cons relative entries ih =>
    rw [hashLoop] at h
    split at h
    · next hun =>
      obtain ⟨hin, hout, hnodup⟩ := ih h
      refine ⟨?_, ?_, hnodup⟩
      · intro k hk hhash
        rcases mem_cons.mp hk with rfl | hk
        · exact absurd hun hhash
        · exact hin k hk hhash
      · intro k hk
        exact hout k (hk.imp_left fun hnot hmem => hnot (mem_cons_of_mem _ hmem))
    · next hhashed =>
      split at h
      · cases h
      · next data hread =>
        obtain ⟨hin, hout, hnodup⟩ := ih h
        refine ⟨?_, ?_, fun hkeys => hnodup (Assoc.nodup_keys_insert hkeys)⟩
        · intro k hk hhash
          by_cases hmem : k ∈ entries
          · exact hin k hmem hhash
          · obtain rfl := (mem_cons.mp hk).resolve_right hmem
            refine ⟨data, hread, ?_⟩
            rw [hout k (.inl hmem), Assoc.get?_insert, if_pos rfl]
        · intro k hk
          have hne : relative ≠ k := by
            rintro rfl
            rcases hk with hk | hk
            · exact hk mem_cons_self
            · exact hhashed hk
          rw [hout k (hk.imp_left fun hnot hmem => hnot (mem_cons_of_mem _ hmem)),
            Assoc.get?_insert, if_neg hne]

/-- The map has the vendored files that can be read, each with its text. -/
theorem foldl_addSri {C : BundleCrates} {outside : Text → Option Bytes} (entries : List Text) :
    (∀ k v, Assoc.get? k (entries.foldl (addSri C outside t) []) = some v ↔
        ∃ relative ∈ entries, ∃ data, k = "vendor/".toList ++ relative ∧
          readAt outside t (vendorPath relative) = some data ∧ v = sriText C data) ∧
      ((entries.foldl (addSri C outside t) []).map (·.1)).Nodup := by
  induction entries using reverseRecOn with
  | nil => exact ⟨fun k v => by simp [Assoc.get?], nodup_nil⟩
  | append_singleton entries relative ih =>
    obtain ⟨hget, hnodup⟩ := ih
    rw [foldl_append, foldl_cons, foldl_nil]
    cases hread : readAt outside t (vendorPath relative) with
    | none =>
      rw [addSri, hread]
      refine ⟨fun k v => (hget k v).trans ?_, hnodup⟩
      constructor
      · rintro ⟨rel, hrel, h⟩
        exact ⟨rel, mem_append_left _ hrel, h⟩
      · rintro ⟨rel, hrel, data, hk, hdata, hv⟩
        rcases mem_append.mp hrel with hrel | hrel
        · exact ⟨rel, hrel, data, hk, hdata, hv⟩
        · rw [mem_singleton.mp hrel, hread] at hdata
          cases hdata
    | some data =>
      rw [addSri, hread]
      refine ⟨fun k v => ?_, Assoc.nodup_keys_insert hnodup⟩
      rw [Assoc.get?_insert]
      split
      · next heq =>
        constructor
        · intro hv
          exact ⟨relative, mem_append_right _ mem_cons_self, data, heq.symm, hread,
            (Option.some.inj hv).symm⟩
        · rintro ⟨rel, _, data', hk, hdata, rfl⟩
          have hrel : relative = rel := append_cancel_left (heq.trans hk)
          rw [← hrel, hread] at hdata
          rw [Option.some.inj hdata]
      · next hne =>
        rw [hget]
        constructor
        · rintro ⟨rel, hrel, h⟩
          exact ⟨rel, mem_append_left _ hrel, h⟩
        · rintro ⟨rel, hrel, data', hk, h⟩
          rcases mem_append.mp hrel with hrel | hrel
          · exact ⟨rel, hrel, data', hk, h⟩
          · exact absurd (by rw [hk, mem_singleton.mp hrel]) hne

/-! ### Sorted keys -/

theorem sortFields_eq (fields : List (Text × Json)) :
    sortFields fields = fields.map fun f => (f.1, sortJsonKeys f.2) := by
  induction fields with
  | nil => rfl
  | cons f fields ih => rw [sortFields, ih, map_cons]

theorem sortJsonKeys_obj (fields : List (Text × Json)) :
    sortJsonKeys (.obj fields) = .obj ((fields.map fun f => (f.1, sortJsonKeys f.2)).insertionSort
      fun a b => a.1 ≤ b.1) := by
  rw [sortJsonKeys, sortFields_eq]

theorem get?_obj (fields : List (Text × Json)) (k : Text) :
    (Json.obj fields).get? k = Assoc.get? k fields := by
  rw [Json.get?, Assoc.get?]
  congr 2
  funext f
  exact beq_eq_decide f.1 k

theorem get?_sortJsonKeys {fields : List (Text × Json)} (h : (fields.map (·.1)).Nodup) (k : Text) :
    (sortJsonKeys (.obj fields)).get? k = (Assoc.get? k fields).map sortJsonKeys := by
  have hkeys : ((fields.map fun f => (f.1, sortJsonKeys f.2)).map (·.1)).Nodup := by
    rw [map_map]
    exact h
  have hperm := perm_insertionSort (fun a b : Text × Json => a.1 ≤ b.1)
    (fields.map fun f => (f.1, sortJsonKeys f.2))
  have hnodup := (hperm.map (·.1)).nodup_iff.mpr hkeys
  have hsorted : Assoc.get? k ((fields.map fun f => (f.1, sortJsonKeys f.2)).insertionSort
      fun a b => a.1 ≤ b.1) = Assoc.get? k (fields.map fun f => (f.1, sortJsonKeys f.2)) := by
    ext v
    rw [Assoc.get?_eq_some hnodup, Assoc.get?_eq_some hkeys, hperm.mem_iff]
  rw [sortJsonKeys_obj, get?_obj, hsorted, Assoc.get?_map, Assoc.get?, Option.map_map]
  rfl

theorem mem_sortJsonKeys {fields sorted : List (Text × Json)} {e : Text × Json}
    (h : sortJsonKeys (.obj fields) = .obj sorted) :
    e ∈ sorted ↔ ∃ f ∈ fields, e = (f.1, sortJsonKeys f.2) := by
  rw [sortJsonKeys_obj, Json.obj.injEq] at h
  rw [← h, (perm_insertionSort _ _).mem_iff, mem_map]
  constructor
  · rintro ⟨f, hf, rfl⟩
    exact ⟨f, hf, rfl⟩
  · rintro ⟨f, hf, rfl⟩
    exact ⟨f, hf, rfl⟩

end AgentMail.Share
