import Mathlib.Order.Lattice
import Mathlib.Data.List.Lex
import Mathlib.Data.List.Perm.Basic
import Mathlib.Data.Char

/-!
# Ordered maps of buckets

An ordered map from keys to lists of values: appending to a bucket, looking a key up, walking all
buckets, scanning the keys from a bound while a test holds, and taking values out. Every operation is
described through `items`, the values with their keys.
-/

namespace AgentMail.Lib

open List

/-- Buckets under strictly increasing keys. -/
structure BucketMap (κ ι : Type*) [LinearOrder κ] where
  entries : List (κ × List ι)
  sorted : entries.Pairwise (·.1 < ·.1)

namespace BucketMap

variable {κ ι : Type*} [LinearOrder κ]

/-- The map without buckets. -/
def empty : BucketMap κ ι := ⟨[], .nil⟩

/-- Append to the bucket of `k`, which is created in key order if it is missing. -/
def pushEntry (k : κ) (v : ι) : List (κ × List ι) → List (κ × List ι)
  | [] => [(k, [v])]
  | e :: rest =>
    if k = e.1 then (e.1, e.2 ++ [v]) :: rest
    else if k < e.1 then (k, [v]) :: e :: rest
    else e :: pushEntry k v rest

variable {l : List (κ × List ι)}

theorem mem_pushEntry {k : κ} {v : ι} {e : κ × List ι} (h : e ∈ pushEntry k v l) :
    e.1 = k ∨ ∃ e' ∈ l, e'.1 = e.1 := by
  induction l with
  | nil =>
    rw [pushEntry, mem_singleton] at h
    exact .inl (by rw [h])
  | cons a l ih =>
    unfold pushEntry at h
    split at h
    · rcases mem_cons.mp h with rfl | h
      · exact .inr ⟨a, mem_cons_self .., rfl⟩
      · exact .inr ⟨e, mem_cons_of_mem _ h, rfl⟩
    · split at h
      · rcases mem_cons.mp h with rfl | h
        · exact .inl rfl
        · exact .inr ⟨e, h, rfl⟩
      · rcases mem_cons.mp h with rfl | h
        · exact .inr ⟨e, mem_cons_self .., rfl⟩
        · rcases ih h with h | ⟨e', he', h⟩
          · exact .inl h
          · exact .inr ⟨e', mem_cons_of_mem _ he', h⟩

theorem pushEntry_sorted (k : κ) (v : ι) (h : l.Pairwise (·.1 < ·.1)) :
    (pushEntry k v l).Pairwise (·.1 < ·.1) := by
  induction l with
  | nil => exact pairwise_singleton _ _
  | cons a l ih =>
    rw [pairwise_cons] at h
    unfold pushEntry
    split
    · exact pairwise_cons.mpr h
    · next hne =>
      split
      · next hlt =>
        refine pairwise_cons.mpr ⟨?_, pairwise_cons.mpr h⟩
        intro e he
        rcases mem_cons.mp he with rfl | he
        · exact hlt
        · exact lt_trans hlt (h.1 e he)
      · next hnlt =>
        have hlt : a.1 < k := lt_of_le_of_ne (not_lt.mp hnlt) (fun he => hne he.symm)
        refine pairwise_cons.mpr ⟨?_, ih h.2⟩
        intro e he
        rcases mem_pushEntry he with he | ⟨e', he', hk⟩
        · rw [he]
          exact hlt
        · rw [← hk]
          exact h.1 e' he'

/-- `entry(k).or_default().push(v)`. -/
def push (m : BucketMap κ ι) (k : κ) (v : ι) : BucketMap κ ι :=
  ⟨pushEntry k v m.entries, pushEntry_sorted k v m.sorted⟩

/-- The bucket of a key. -/
def get (m : BucketMap κ ι) (k : κ) : Option (List ι) := (m.entries.find? (decide <| ·.1 = k)).map (·.2)

/-- All buckets in key order. -/
def values (m : BucketMap κ ι) : List (List ι) := m.entries.map (·.2)

/-- The buckets from the key `start` on, up to the first key that fails the test. -/
def scan (m : BucketMap κ ι) (start : κ) (test : κ → Bool) : List (List ι) :=
  ((m.entries.dropWhile (·.1 < start)).takeWhile (test ·.1)).map (·.2)

/-- The values with their keys. -/
def items (m : BucketMap κ ι) : List (κ × ι) := m.entries.flatMap fun e => e.2.map (e.1, ·)

@[simp] theorem items_empty : (empty : BucketMap κ ι).items = [] := rfl

theorem pushEntry_items (k : κ) (v : ι) (l : List (κ × List ι)) :
    ((pushEntry k v l).flatMap fun e => e.2.map (e.1, ·)).Perm
      ((k, v) :: l.flatMap fun e => e.2.map (e.1, ·)) := by
  induction l with
  | nil => exact .refl _
  | cons a l ih =>
    unfold pushEntry
    split
    · next hk =>
      rw [flatMap_cons, flatMap_cons, map_append, hk, append_assoc]
      exact perm_middle
    · split
      · exact .refl _
      · rw [flatMap_cons, flatMap_cons]
        exact ((ih.append_left _).trans perm_middle)

/-- A push adds one value. -/
theorem items_push (m : BucketMap κ ι) (k : κ) (v : ι) :
    (m.push k v).items.Perm ((k, v) :: m.items) := pushEntry_items k v m.entries

/-- The values whose key passes a test, bucket by bucket. -/
theorem filter_items (m : BucketMap κ ι) (test : κ → Bool) :
    (m.items.filter (test ·.1)).map (·.2) = (m.entries.filter (test ·.1)).flatMap (·.2) := by
  unfold items
  induction m.entries with
  | nil => rfl
  | cons e l ih =>
    rw [flatMap_cons, filter_append, map_append, ih, filter_map]
    cases h : test e.1 with
    | true => simp [h, Function.comp_def]
    | false => simp [h, Function.comp_def]

variable {test : κ → Bool}

theorem find_eq_filter (h : l.Pairwise (·.1 < ·.1)) {k : κ}
    (ht : ∀ x, test x = true ↔ x = k) :
    ((l.find? (decide <| ·.1 = k)).map (·.2)).getD [] = (l.filter (test ·.1)).flatMap (·.2) := by
  induction l with
  | nil => rfl
  | cons e l ih =>
    rw [pairwise_cons] at h
    rw [List.find?_cons, filter_cons]
    by_cases hk : e.1 = k
    · have hrest : l.filter (test ·.1) = [] := by
        rw [filter_eq_nil_iff]
        intro e' he' hk'
        have := h.1 e' he'
        rw [hk, (ht _).mp hk'] at this
        exact lt_irrefl _ this
      rw [decide_eq_true hk, if_pos ((ht _).mpr hk), hrest]
      simp
    · rw [decide_eq_false hk, if_neg (mt (ht _).mp hk)]
      exact ih h.2

/-- A lookup finds the values stored under the key; `test` is any test for that key. -/
theorem get_getD (m : BucketMap κ ι) {k : κ} (ht : ∀ x, test x = true ↔ x = k) :
    (m.get k).getD [] = (m.items.filter (test ·.1)).map (·.2) := by
  rw [filter_items m test, get, find_eq_filter m.sorted ht]

/-- The buckets together hold every value. -/
theorem values_flatten (m : BucketMap κ ι) : m.values.flatten = m.items.map (·.2) := by
  have h := filter_items m (fun _ => true)
  rw [filter_true, filter_true] at h
  rw [h, values, flatMap_def]

theorem scan_entries {start : κ} (h : l.Pairwise (·.1 < ·.1))
    (hge : ∀ k, test k = true → ¬ k < start)
    (hconv : ∀ k k', ¬ k < start → k < k' → test k' = true → test k = true) :
    (l.dropWhile (·.1 < start)).takeWhile (test ·.1) = l.filter (test ·.1) := by
  induction l with
  | nil => rfl
  | cons e l ih =>
    rw [pairwise_cons] at h
    by_cases hlt : e.1 < start
    · have ht : ¬ test e.1 = true := fun ht => hge _ ht hlt
      rw [dropWhile_cons_of_pos (by simpa using hlt), filter_cons, if_neg ht]
      exact ih h.2
    · have hdrop : l.dropWhile (·.1 < start) = l := by
        cases l with
        | nil => rfl
        | cons e' l =>
          have := h.1 e' (mem_cons_self ..)
          exact dropWhile_cons_of_neg (by simpa using (not_lt.mp hlt).trans this.le)
      rw [dropWhile_cons_of_neg (by simpa using not_lt.mp hlt)]
      cases ht : test e.1 with
      | true =>
        have ih := ih h.2
        rw [hdrop] at ih
        rw [takeWhile_cons, filter_cons, ht, if_pos rfl, if_pos rfl, ih]
      | false =>
        -- No later key can pass: the test would have to hold here as well.
        have hnone : (e :: l).filter (test ·.1) = [] := by
          rw [filter_eq_nil_iff]
          intro e' he' ht'
          rcases mem_cons.mp he' with rfl | he'
          · rw [ht] at ht'
            cases ht'
          · rw [hconv e.1 e'.1 hlt (h.1 e' he') ht'] at ht
            cases ht
        rw [takeWhile_cons, ht, if_neg Bool.false_ne_true, hnone]

/-- A scan whose test holds on an interval that starts at the bound finds the values whose key
passes the test. -/
theorem scan_flatten (m : BucketMap κ ι) {start : κ} (hge : ∀ k, test k = true → ¬ k < start)
    (hconv : ∀ k k', ¬ k < start → k < k' → test k' = true → test k = true) :
    (m.scan start test).flatten = (m.items.filter (test ·.1)).map (·.2) := by
  rw [filter_items, scan, scan_entries m.sorted hge hconv, flatMap_def]

/-! ### Taking values out -/

/-- Every bucket holds a value. -/
def Full (m : BucketMap κ ι) : Prop := ∀ e ∈ m.entries, e.2 ≠ []

theorem full_empty : (empty : BucketMap κ ι).Full := by
  intro e he
  cases he

/-- The last value of the first bucket; the bucket goes with its last value. -/
def popEntry : List (κ × List ι) → Option ι × List (κ × List ι)
  | [] => (none, [])
  | e :: rest =>
    (e.2.getLast?, if e.2.dropLast.isEmpty then rest else (e.1, e.2.dropLast) :: rest)

/-- The values of one bucket that pass a test; without any the bucket goes. -/
def retainEntry (k : κ) (p : ι → Bool) (l : List (κ × List ι)) : List (κ × List ι) :=
  l.filterMap fun e =>
    if e.1 = k then if (e.2.filter p).isEmpty then none else some (e.1, e.2.filter p) else some e

theorem popEntry_sorted (h : l.Pairwise (·.1 < ·.1)) :
    (popEntry l).2.Pairwise (·.1 < ·.1) := by
  cases l with
  | nil => exact h
  | cons e rest =>
    rw [pairwise_cons] at h
    unfold popEntry
    dsimp only
    split
    · exact h.2
    · exact pairwise_cons.mpr h

theorem retainEntry_sorted (k : κ) (p : ι → Bool) (h : l.Pairwise (·.1 < ·.1)) :
    (retainEntry k p l).Pairwise (·.1 < ·.1) := by
  have hkey (e e' : κ × List ι) (he : (if e.1 = k then
      if (e.2.filter p).isEmpty then none else some (e.1, e.2.filter p) else some e) = some e') :
      e'.1 = e.1 := by
    split at he
    · split at he
      · cases he
      · cases he
        rfl
    · cases he
      rfl
  apply h.filterMap
  intro a a' hlt b hb b' hb'
  rw [hkey a b hb, hkey a' b' hb']
  exact hlt

def popFirst (m : BucketMap κ ι) : Option ι × BucketMap κ ι :=
  ((popEntry m.entries).1, ⟨(popEntry m.entries).2, popEntry_sorted m.sorted⟩)

def retain (m : BucketMap κ ι) (k : κ) (p : ι → Bool) : BucketMap κ ι :=
  ⟨retainEntry k p m.entries, retainEntry_sorted k p m.sorted⟩

theorem pushEntry_full (k : κ) (v : ι) (h : ∀ e ∈ l, e.2 ≠ []) :
    ∀ e ∈ pushEntry k v l, e.2 ≠ [] := by
  induction l with
  | nil =>
    intro e he
    rw [pushEntry, mem_singleton] at he
    rw [he]
    exact cons_ne_nil _ _
  | cons e l ih =>
    rw [forall_mem_cons] at h
    unfold pushEntry
    split
    · exact forall_mem_cons.mpr ⟨by simp, h.2⟩
    · split
      · exact forall_mem_cons.mpr ⟨cons_ne_nil _ _, forall_mem_cons.mpr h⟩
      · exact forall_mem_cons.mpr ⟨h.1, ih h.2⟩

variable {m : BucketMap κ ι}

theorem Full.push (h : m.Full) (k : κ) (v : ι) : (m.push k v).Full :=
  pushEntry_full k v h

theorem Full.popFirst (h : m.Full) : m.popFirst.2.Full := by
  obtain ⟨entries, sorted⟩ := m
  cases entries with
  | nil => exact h
  | cons e rest =>
    have h' : e.2 ≠ [] ∧ ∀ e' ∈ rest, e'.2 ≠ [] := forall_mem_cons.mp h
    show ∀ e' ∈ (if e.2.dropLast.isEmpty then rest else (e.1, e.2.dropLast) :: rest), e'.2 ≠ []
    split
    · exact h'.2
    · next hempty =>
      rw [List.isEmpty_iff] at hempty
      exact forall_mem_cons.mpr ⟨hempty, h'.2⟩

theorem Full.retain (h : m.Full) (k : κ) (p : ι → Bool) : (m.retain k p).Full := by
  intro e he
  obtain ⟨e', he', hkept⟩ := mem_filterMap.mp he
  split at hkept
  · split at hkept
    · cases hkept
    · next hempty =>
      rw [List.isEmpty_iff] at hempty
      cases hkept
      exact hempty
  · cases hkept
    exact h e he'

/-- What is taken was stored under the least key. -/
theorem items_popFirst {v : ι} (h : m.popFirst.1 = some v) :
    ∃ k, m.items.Perm ((k, v) :: m.popFirst.2.items) ∧ ∀ x ∈ m.items, k ≤ x.1 := by
  obtain ⟨entries, sorted⟩ := m
  cases entries with
  | nil => cases h
  | cons e rest =>
    have hlast : e.2.getLast? = some v := h
    have hsplit : e.2 = e.2.dropLast ++ [v] := (dropLast_append_getLast? v hlast).symm
    have hrest : (BucketMap.popFirst ⟨e :: rest, sorted⟩).2.items =
        e.2.dropLast.map (e.1, ·) ++ rest.flatMap fun e => e.2.map (e.1, ·) := by
      show (if e.2.dropLast.isEmpty then rest else (e.1, e.2.dropLast) :: rest).flatMap _ = _
      split
      · next hempty =>
        rw [List.isEmpty_iff.mp hempty]
        rfl
      · rw [flatMap_cons]
    refine ⟨e.1, ?_, ?_⟩
    · rw [hrest, items, flatMap_cons]
      nth_rewrite 1 [hsplit]
      rw [map_append, append_assoc]
      exact perm_middle
    · intro x hx
      obtain ⟨e', he', hx'⟩ := mem_flatMap.mp hx
      obtain ⟨_, _, rfl⟩ := mem_map.mp hx'
      cases mem_cons.mp he' with
      | inl heq => exact heq ▸ le_rfl
      | inr hmem => exact ((pairwise_cons.mp sorted).1 e' hmem).le

/-- Where every bucket holds a value, one is taken unless there is none. -/
theorem Full.popFirst_isSome (h : m.Full) (hsome : m.items ≠ []) : ∃ v, m.popFirst.1 = some v := by
  obtain ⟨entries, sorted⟩ := m
  cases entries with
  | nil => exact absurd rfl hsome
  | cons e rest =>
    have hne : e.2 ≠ [] := h e mem_cons_self
    exact ⟨e.2.getLast hne, List.getLast?_eq_some_getLast hne⟩

theorem items_retain (m : BucketMap κ ι) (k : κ) (p : ι → Bool) :
    (m.retain k p).items = m.items.filter fun x => x.1 ≠ k || p x.2 := by
  show (retainEntry k p m.entries).flatMap _ = (m.entries.flatMap _).filter _
  induction m.entries with
  | nil => rfl
  | cons e l ih =>
    rw [retainEntry, filterMap_cons, flatMap_cons, filter_append, filter_map, ← ih]
    by_cases hk : e.1 = k
    · have hsame : ((fun x : κ × ι => decide (x.1 ≠ k) || p x.2) ∘ fun v => (e.1, v)) = p := by
        funext v
        simp [hk]
      rw [if_pos hk, hsame]
      split
      · next hempty =>
        split at hempty
        · next hnil =>
          rw [List.isEmpty_iff.mp hnil]
          rfl
        · cases hempty
      · next hkept =>
        split at hkept
        · cases hkept
        · cases hkept
          rfl
    · have hall : ((fun x : κ × ι => decide (x.1 ≠ k) || p x.2) ∘ fun v => (e.1, v)) =
          fun _ => true := by
        funext v
        simp [hk]
      rw [if_neg hk, hall, filter_true]
      rfl

/-- A walk from the least key up to the first key that fails a test which all smaller keys pass. -/
theorem takeWhile_entries (m : BucketMap κ ι)
    (hdown : ∀ k k', k < k' → test k' = true → test k = true) :
    m.entries.takeWhile (test ·.1) = m.entries.filter (test ·.1) := by
  obtain ⟨entries, sorted⟩ := m
  show entries.takeWhile (test ·.1) = entries.filter (test ·.1)
  induction entries with
  | nil => rfl
  | cons e l ih =>
    rw [pairwise_cons] at sorted
    rw [takeWhile_cons, filter_cons]
    cases ht : test e.1 with
    | true => rw [if_pos rfl, if_pos rfl, ih sorted.2]
    | false =>
      have hnone : l.filter (test ·.1) = [] := by
        rw [filter_eq_nil_iff]
        intro e' he' ht'
        rw [hdown e.1 e'.1 (sorted.1 e' he') ht'] at ht
        cases ht
      rw [if_neg Bool.false_ne_true, if_neg Bool.false_ne_true, hnone]

end BucketMap

/-! ### Keys with a common beginning -/

section

variable {α : Type*} [LinearOrder α]

/-- A list is not above any of its extensions. -/
theorem not_lt_of_isPrefixOf {start k : List α} (h : start.isPrefixOf k = true) : ¬ k < start := by
  induction start generalizing k with
  | nil => exact not_lt_nil k
  | cons a start ih =>
    cases k with
    | nil => cases h
    | cons b k =>
      simp only [List.isPrefixOf, Bool.and_eq_true, beq_iff_eq] at h
      obtain ⟨rfl, h⟩ := h
      rw [cons_lt_cons_iff]
      rintro (hlt | ⟨_, hlt⟩)
      · exact lt_irrefl _ hlt
      · exact ih h hlt

/-- The extensions of a list form an interval. -/
theorem isPrefixOf_of_lt {start k k' : List α} (hs : ¬ k < start) (hk : k < k')
    (h : start.isPrefixOf k' = true) : start.isPrefixOf k = true := by
  induction start generalizing k k' with
  | nil => rfl
  | cons a start ih =>
    cases k with
    | nil => exact absurd (nil_lt_cons a start) hs
    | cons b k =>
      cases k' with
      | nil => cases h
      | cons c k' =>
        simp only [List.isPrefixOf, Bool.and_eq_true, beq_iff_eq] at h ⊢
        obtain ⟨rfl, h⟩ := h
        rw [cons_lt_cons_iff] at hk hs
        rw [not_or, not_and] at hs
        rcases hk with hk | ⟨rfl, hk⟩
        · exact absurd hk hs.1
        · exact ⟨rfl, ih (hs.2 rfl) hk h⟩

end

end AgentMail.Lib
