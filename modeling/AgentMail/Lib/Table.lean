import Mathlib.Data.List.Induction
import Mathlib.Data.List.Nodup
import Mathlib.Data.List.Perm.Basic
import Mathlib.Data.Prod.Basic

/-!
# Keyed tables

Lists with a unique key: lookup, joins, selections, batches of keys, and maps kept as lists of
entries.
-/

namespace AgentMail.Lib

open List

universe u v w

variable {α : Type u} {β : Type v} {γ : Type w} {κ : Type*} [DecidableEq κ]

/-! ### Lookup and joins -/

variable {l : List α} {f : α → κ} {a : α}

theorem find?_of_unique (ha : a ∈ l) (h : ∀ b ∈ l, f b = f a → b = a) :
    l.find? (fun x => f x == f a) = some a := by
  cases hfind : l.find? (fun x => f x == f a) with
  | none =>
    rw [List.find?_eq_none] at hfind
    exact absurd BEq.rfl (hfind a ha)
  | some b =>
    have hkey := List.find?_some hfind
    rw [h b (mem_of_find?_eq_some hfind) (beq_iff_eq.mp hkey)]

variable {k : κ}

theorem find?_key_eq_some (h : (l.map f).Nodup) :
    l.find? (fun x => f x == k) = some a ↔ a ∈ l ∧ f a = k := by
  constructor
  · intro hfind
    have hkey := List.find?_some hfind
    exact ⟨mem_of_find?_eq_some hfind, beq_iff_eq.mp hkey⟩
  · rintro ⟨ha, rfl⟩
    exact find?_of_unique ha fun b hb heq => inj_on_of_nodup_map h hb ha heq

omit [DecidableEq κ] in
/-- Where one row is asked for, the order of the rows does not matter. -/
theorem find?_perm {p : α → Bool} {l' : List α} (hp : l.Perm l')
    (hunique : ∀ a ∈ l, ∀ b ∈ l, p a = true → p b = true → a = b) : l.find? p = l'.find? p := by
  cases hfind : l'.find? p with
  | none =>
    rw [List.find?_eq_none] at hfind ⊢
    exact fun a ha => hfind a (hp.mem_iff.mp ha)
  | some b =>
    have hb := hp.mem_iff.mpr (mem_of_find?_eq_some hfind)
    have hpb := List.find?_some hfind
    cases hfind' : l.find? p with
    | none => exact absurd hpb (List.find?_eq_none.mp hfind' b hb)
    | some a =>
      rw [hunique a (mem_of_find?_eq_some hfind') b hb (List.find?_some hfind') hpb]

omit [DecidableEq κ] in
theorem eq_of_map_eq {l' : List α} (hinj : ∀ a ∈ l, ∀ b ∈ l', f a = f b → a = b)
    (h : l.map f = l'.map f) : l = l' := by
  induction l generalizing l' with
  | nil => exact (map_eq_nil_iff.mp h.symm).symm
  | cons a l ih =>
    cases l' with
    | nil => cases h
    | cons b l' =>
      rw [map_cons, map_cons, List.cons.injEq] at h
      have hab := hinj a mem_cons_self b mem_cons_self h.1
      have hrest := ih (fun x hx y hy =>
        hinj x (mem_cons_of_mem _ hx) y (mem_cons_of_mem _ hy)) h.2
      rw [hab, hrest]

/-- One row has a key. -/
theorem filter_key_eq_singleton (h : (l.map f).Nodup) (ha : a ∈ l) :
    l.filter (fun x => f x = f a) = [a] := by
  obtain ⟨front, back, rfl⟩ := append_of_mem ha
  rw [map_append, map_cons, nodup_append, nodup_cons] at h
  have hfront : front.filter (fun x => f x = f a) = [] := by
    rw [filter_eq_nil_iff]
    intro b hb
    rw [decide_eq_true_iff]
    exact h.2.2 _ (mem_map_of_mem hb) _ mem_cons_self
  have hback : back.filter (fun x => f x = f a) = [] := by
    rw [filter_eq_nil_iff]
    intro b hb
    rw [decide_eq_true_iff]
    intro heq
    exact h.2.1.1 (heq ▸ mem_map_of_mem hb)
  rw [filter_append, filter_cons_of_pos (by simp), hfront, hback]
  rfl

/-- Removing the first row with a key removes the key. -/
theorem map_eraseP_key (l : List α) :
    (l.eraseP fun a => decide (f a = k)).map f = (l.map f).erase k := by
  induction l with
  | nil => rfl
  | cons a l ih =>
    by_cases h : f a = k
    · simp [h]
    · simp [h, ih]

omit [DecidableEq κ] in
/-- A row with a new key. -/
theorem nodup_map_concat (h : (l.map f).Nodup) (ha : f a ∉ l.map f) : ((l ++ [a]).map f).Nodup := by
  rw [map_append, map_singleton, nodup_append]
  refine ⟨h, nodup_singleton _, ?_⟩
  intro x hx y hy heq
  rw [mem_singleton.mp hy] at heq
  exact ha (heq ▸ hx)

variable {g : α → β}

theorem filterMap_ite {p : α → Bool} :
    (l.filterMap fun a => if p a then some (g a) else none) = (l.filter p).map g := by
  rw [← filterMap_eq_map, filterMap_filter]
  rfl

omit [DecidableEq κ] in
/-- A selection that keeps the keys has a part of the keys. -/
theorem map_filterMap_sublist {f' : β → κ} {g : α → Option β}
    (h : ∀ a b, g a = some b → f' b = f a) (l : List α) :
    ((l.filterMap g).map f').Sublist (l.map f) := by
  induction l with
  | nil => exact List.Sublist.slnil
  | cons a l ih =>
    rw [filterMap_cons, map_cons]
    cases hg : g a with
    | none => exact ih.cons _
    | some b =>
      rw [map_cons, h a b hg]
      exact ih.cons_cons _

/-- The rows of two tables with equal keys. -/
def join (f : α → κ) (g : β → κ) (l : List α) (m : List β) : List (α × β) :=
  l.filterMap fun a => (m.find? fun b => g b == f a).map fun b => (a, b)

variable {m : List β}

theorem mem_join {g : β → κ} (hm : (m.map g).Nodup) {p : α × β} :
    p ∈ join f g l m ↔ p.1 ∈ l ∧ p.2 ∈ m ∧ g p.2 = f p.1 := by
  rw [join, mem_filterMap]
  constructor
  · rintro ⟨a, ha, hp⟩
    rw [Option.map_eq_some_iff] at hp
    obtain ⟨b, hb, rfl⟩ := hp
    exact ⟨ha, (find?_key_eq_some hm).mp hb⟩
  · rintro ⟨ha, hb⟩
    refine ⟨p.1, ha, ?_⟩
    rw [(find?_key_eq_some hm).mpr hb]
    rfl

theorem nodup_join {g : β → κ} (hl : (l.map f).Nodup) : (join f g l m).Nodup := by
  apply List.Nodup.of_map fun p => f p.1
  refine hl.sublist (map_filterMap_sublist ?_ l)
  intro a p hp
  rw [Option.map_eq_some_iff] at hp
  obtain ⟨b, _, rfl⟩ := hp
  rfl

/-- A join may start from either table. -/
theorem filterMap_find?_comm {g : β → κ} (hl : (l.map f).Nodup) (hm : (m.map g).Nodup)
    (h : α → β → Option γ) :
    (l.filterMap fun a => (m.find? fun b => g b == f a).bind (h a)).Perm
      (m.filterMap fun b => (l.find? fun a => f a == g b).bind fun a => h a b) := by
  have hleft : (l.filterMap fun a => (m.find? fun b => g b == f a).bind (h a)) =
      (join f g l m).filterMap fun p => h p.1 p.2 := by
    rw [join, filterMap_filterMap]
    congr 1
    funext a
    cases m.find? (fun b => g b == f a) <;> rfl
  have hright : (m.filterMap fun b => (l.find? fun a => f a == g b).bind fun a => h a b) =
      ((join g f m l).map Prod.swap).filterMap fun p => h p.1 p.2 := by
    rw [join, map_filterMap, filterMap_filterMap]
    congr 1
    funext b
    cases l.find? (fun a => f a == g b) <;> rfl
  rw [hleft, hright]
  apply List.Perm.filterMap
  rw [perm_ext_iff_of_nodup (nodup_join hl)
    ((nodup_join hm).map Prod.swap_injective)]
  intro p
  rw [mem_join hm, mem_map]
  constructor
  · rintro ⟨ha, hb, hkey⟩
    exact ⟨p.swap, (mem_join hl).mpr ⟨hb, ha, hkey.symm⟩, Prod.swap_swap p⟩
  · rintro ⟨q, hq, rfl⟩
    obtain ⟨hb, ha, hkey⟩ := (mem_join hl).mp hq
    exact ⟨ha, hb, hkey.symm⟩

/-- Looking up, among some entries, the rows whose key is there joins the table with them. -/
theorem filterMap_lookup_perm {g : β → κ} {rows : List α} {entries : List β} {keep : α → Bool}
    (hl : (l.map f).Nodup) (hentries : (entries.map g).Nodup) (hrows : rows.Perm (l.filter keep))
    (hkeep : ∀ a, keep a = true ↔ f a ∈ entries.map g) (h : α → β → Option γ) :
    (rows.filterMap fun a => (entries.find? fun e => g e == f a).bind (h a)).Perm
      (entries.filterMap fun e => (l.find? fun a => f a == g e).bind fun a => h a e) := by
  have hall : (l.filter keep).filterMap (fun a => (entries.find? fun e => g e == f a).bind (h a)) =
      l.filterMap fun a => (entries.find? fun e => g e == f a).bind (h a) := by
    rw [filterMap_filter]
    apply filterMap_congr
    intro a _
    split
    · rfl
    · next hnot =>
      have hnone : entries.find? (fun e => g e == f a) = none := by
        rw [List.find?_eq_none]
        intro e he heq
        exact hnot ((hkeep a).mpr (mem_map.mpr ⟨e, he, beq_iff_eq.mp heq⟩))
      rw [hnone]
      rfl
  exact (hrows.filterMap _).trans (hall ▸ filterMap_find?_comm hl hentries h)

/-! ### Disjoint selections -/

/-- Two selections that exclude each other make up one. -/
theorem filter_append_filter_perm {ι : Type*} {l : List ι} {p q : ι → Bool}
    (h : ∀ x ∈ l, p x = true → q x = true → False) :
    (l.filter p ++ l.filter q).Perm (l.filter fun x => p x || q x) := by
  induction l with
  | nil => exact .nil
  | cons x l ih =>
    have ih := ih fun y hy => h y (mem_cons_of_mem _ hy)
    have hx := h x (mem_cons_self ..)
    simp only [filter_cons]
    cases hp : p x with
    | true =>
      have hq : q x = false := by
        rw [← Bool.not_eq_true]
        exact hx hp
      rw [hq, Bool.true_or, if_pos rfl, if_neg Bool.false_ne_true]
      exact ih.cons x
    | false =>
      rw [Bool.false_or, if_neg Bool.false_ne_true]
      cases q x with
      | true => exact perm_middle.trans (ih.cons x)
      | false => exact ih

/-- Selections by tests of the key that pairwise exclude each other make up one. -/
theorem flatMap_filter_perm {ι κ : Type*} (l : List ι) (p : ι → Bool) (f : ι → κ)
    {tests : List (κ → Bool)} (h : tests.Pairwise fun s t => ∀ k, s k = true → t k = true → False) :
    (tests.flatMap fun t => l.filter fun x => p x && t (f x)).Perm
      (l.filter fun x => p x && tests.any (· (f x))) := by
  induction tests with
  | nil => simp
  | cons t tests ih =>
    rw [pairwise_cons] at h
    rw [flatMap_cons]
    simp only [any_cons, Bool.and_or_distrib_left]
    refine ((ih h.2).append_left _).trans (filter_append_filter_perm ?_)
    intro x _ ht hts
    rw [Bool.and_eq_true] at ht hts
    obtain ⟨u, hu, hux⟩ := any_eq_true.mp hts.2
    exact h.1 u hu (f x) ht.2 hux

/-- Selecting the values of one key after the other selects the values of all these keys. -/
theorem flatMap_key_perm {ι κ : Type*} [BEq κ] [LawfulBEq κ] (l : List ι) (p : ι → Bool)
    (f : ι → κ) {ks : List κ} (h : ks.Nodup) :
    (ks.flatMap fun k => l.filter fun x => p x && f x == k).Perm
      (l.filter fun x => p x && ks.contains (f x)) := by
  have hpair : (ks.map fun k x => x == k).Pairwise
      fun s t => ∀ k, s k = true → t k = true → False := by
    rw [pairwise_map]
    refine h.imp fun {k k'} hne x hk hk' => hne ?_
    rw [← beq_iff_eq.mp hk, beq_iff_eq.mp hk']
  have hany (x : κ) : (ks.map fun k x => x == k).any (· x) = ks.contains x := by
    induction ks with
    | nil => rfl
    | cons k ks ih =>
      rw [map_cons] at hpair
      rw [map_cons, any_cons, contains_cons, ih (nodup_cons.mp h).2 (pairwise_cons.mp hpair).2]
  have hperm := flatMap_filter_perm l p f hpair
  simp only [flatMap_map, hany] at hperm
  exact hperm

/-- A selection that holds for everything before a selected element is a beginning of the list. -/
theorem filter_eq_take {p : α → Bool} (h : l.Pairwise fun a b => p b = true → p a = true) :
    l.filter p = l.take (l.filter p).length := by
  induction l with
  | nil => rfl
  | cons a l ih =>
    rw [pairwise_cons] at h
    rw [filter_cons]
    split
    · rw [length_cons, take_succ_cons, ← ih h.2]
    · next ha =>
      have hnone : l.filter p = [] := by
        rw [filter_eq_nil_iff]
        intro b hb hpb
        exact ha (h.1 b hb hpb)
      rw [hnone]
      rfl

/-- Selecting by batches of keys selects the rows of all these keys. -/
theorem flatMap_batch_perm {ι κ : Type*} [BEq κ] [LawfulBEq κ] (l : List ι) (f : ι → κ)
    {batches : List (List κ)} (h : batches.flatten.Nodup) :
    (batches.flatMap fun b => l.filter fun x => b.contains (f x)).Perm
      (l.filter fun x => batches.flatten.contains (f x)) := by
  have hpair : (batches.map fun b x => b.contains x).Pairwise
      fun s t => ∀ k, s k = true → t k = true → False := by
    rw [pairwise_map]
    rw [nodup_flatten] at h
    apply h.2.imp
    intro b b' hdisjoint k hb hb'
    exact hdisjoint (contains_iff_mem.mp hb) (contains_iff_mem.mp hb')
  have hany (x : κ) : (batches.map fun b x => b.contains x).any (· x) = batches.flatten.contains x := by
    rw [Bool.eq_iff_iff, any_map, any_eq_true, contains_iff_mem, mem_flatten]
    simp
  have hperm := flatMap_filter_perm l (fun _ => true) f hpair
  simpa only [flatMap_map, hany, Bool.true_and] using hperm

/-! ### Batches -/

/-- `chunks(n)` of a slice. -/
def chunks (n : Nat) : List α → List (List α)
  | [] => []
  | a :: l => (a :: l.take (n - 1)) :: chunks n (l.drop (n - 1))
termination_by l => l.length
decreasing_by
  rw [length_drop, length_cons]
  omega

theorem flatten_chunks (n : Nat) (l : List α) : (chunks n l).flatten = l := by
  fun_induction chunks n l with
  | case1 => rfl
  | case2 a l ih => rw [flatten_cons, ih, cons_append, take_append_drop]

theorem length_le_of_mem_chunks {n : Nat} (hn : 0 < n) {batch : List α} (h : batch ∈ chunks n l) :
    batch.length ≤ n := by
  fun_induction chunks n l with
  | case1 => cases h
  | case2 a l ih =>
    rcases mem_cons.mp h with rfl | hrest
    · rw [length_cons, length_take]
      omega
    · exact ih hrest

/-- Looking batches of keys up finds the rows of all keys. -/
theorem flatMap_chunks_perm {lookup : List κ → List α}
    (h : ∀ batch, (lookup batch).Perm (l.filter fun x => batch.contains (f x))) {keys : List κ}
    (hkeys : keys.Nodup) (n : Nat) :
    ((chunks n keys).flatMap lookup).Perm (l.filter fun x => keys.contains (f x)) := by
  have hflatten : (chunks n keys).flatten.Nodup := by rwa [flatten_chunks]
  have hbatch := flatMap_batch_perm l f hflatten
  rw [flatten_chunks] at hbatch
  exact (List.Perm.flatMap_left _ fun batch _ => h batch).trans hbatch

/-- There are at most as many rows as keys. -/
theorem length_filter_contains_le (h : (l.map f).Nodup) (keys : List κ) :
    (l.filter fun x => keys.contains (f x)).length ≤ keys.length := by
  have hnodup : ((l.filter fun x => keys.contains (f x)).map f).Nodup :=
    h.sublist (filter_sublist.map f)
  have hsub : (l.filter fun x => keys.contains (f x)).map f ⊆ keys := by
    intro k hk
    obtain ⟨x, hx, rfl⟩ := mem_map.mp hk
    exact contains_iff_mem.mp (mem_filter.mp hx).2
  have hle := (subperm_of_subset hnodup hsub).length_le
  rwa [length_map] at hle

/-- One half of a composite key is a key where the other half is fixed. -/
theorem nodup_map_filter_of_pair {g : α → κ} (h : (l.map fun x => (f x, g x)).Nodup) (k : κ) :
    ((l.filter fun x => g x == k).map f).Nodup := by
  rw [nodup_iff_pairwise_ne, pairwise_map] at h ⊢
  apply (h.sublist (filter_sublist (p := fun x => g x == k))).imp_of_mem
  intro a b ha hb hne heq
  have hga := beq_iff_eq.mp (mem_filter.mp ha).2
  have hgb := beq_iff_eq.mp (mem_filter.mp hb).2
  exact hne (by rw [heq, hga, hgb])

/-! ### Splitting a list -/

omit [DecidableEq κ] in
/-- Where an item of an extended list stands. -/
theorem concat_eq_split {bs front back : List α} {b c : α} :
    bs ++ [b] = front ++ c :: back ↔ (∃ back', back = back' ++ [b] ∧ bs = front ++ c :: back') ∨
        back = [] ∧ front = bs ∧ c = b := by
  constructor
  · intro h
    rcases eq_nil_or_concat back with rfl | ⟨back', x, rfl⟩
    · rw [append_inj_left' h rfl]
      have hc := append_inj_right' h rfl
      exact Or.inr ⟨rfl, rfl, (List.cons.inj hc).1.symm⟩
    · rw [concat_eq_append, ← cons_append, ← append_assoc] at h
      have hx := append_inj_right' h rfl
      have hfront := append_inj_left' h rfl
      rw [concat_eq_append, (List.cons.inj hx).1]
      exact Or.inl ⟨back', rfl, hfront⟩
  · rintro (⟨back', rfl, rfl⟩ | ⟨rfl, rfl, rfl⟩)
    · simp
    · rfl

omit [DecidableEq κ] in
theorem eq_singleton_of_nodup (hnodup : l.Nodup) (ha : a ∈ l) (hall : ∀ b ∈ l, b = a) :
    l = [a] := by
  cases l with
  | nil => exact absurd ha not_mem_nil
  | cons b l =>
    obtain rfl := hall b mem_cons_self
    cases l with
    | nil => rfl
    | cons c l =>
      have hc := hall c (by simp)
      rw [hc] at hnodup
      simp at hnodup

/-! ### Keeping the first -/

/-- Keep an item unless it repeats one that was kept. -/
def keepNew (same : α → α → Bool) (l : List α) : List α :=
  l.foldl (fun kept a => if kept.any fun b => same b a then kept else kept ++ [a]) []

omit [DecidableEq κ] in
theorem keepNew_concat (same : α → α → Bool) (l : List α) (a : α) :
    keepNew same (l ++ [a]) =
      if (keepNew same l).any fun b => same b a then keepNew same l else keepNew same l ++ [a] := by
  rw [keepNew, foldl_append]
  rfl

omit [DecidableEq κ] in
variable {same : α → α → Bool}

/-- What repeats an item repeats one that was kept. -/
theorem any_keepNew (htrans : ∀ a b c, same a b = true → same b c = true → same a c = true)
    (l : List α) (a : α) : ((keepNew same l).any fun b => same b a) = l.any fun b => same b a := by
  induction l using reverseRecOn with
  | nil => rfl
  | append_singleton l c ih =>
    rw [keepNew_concat, any_append, ← ih]
    split
    · next hc =>
      by_cases hca : same c a = true
      · obtain ⟨b, hb, hbc⟩ := any_eq_true.mp hc
        have hany : ((keepNew same l).any fun b => same b a) = true :=
          any_eq_true.mpr ⟨b, hb, htrans b c a hbc hca⟩
        rw [hany, Bool.true_or]
      · simp [hca]
    · rw [any_append]

omit [DecidableEq κ] in
theorem mem_keepNew (htrans : ∀ a b c, same a b = true → same b c = true → same a c = true) :
    a ∈ keepNew same l ↔ ∃ front back, l = front ++ a :: back ∧ ∀ b ∈ front, same b a = false := by
  induction l using reverseRecOn with
  | nil => simp [keepNew]
  | append_singleton l c ih =>
    have hsplit : (∃ front back, l ++ [c] = front ++ a :: back ∧ ∀ b ∈ front, same b a = false) ↔
        a ∈ keepNew same l ∨ a = c ∧ (l.any fun b => same b c) = false := by
      rw [ih]
      constructor
      · rintro ⟨front, back, h, hfront⟩
        obtain ⟨back', rfl, hl⟩ | ⟨rfl, rfl, rfl⟩ := concat_eq_split.mp h
        · exact Or.inl ⟨front, back', hl, hfront⟩
        · exact Or.inr ⟨rfl, any_eq_false.mpr fun b hb => by simp [hfront b hb]⟩
      · rintro (⟨front, back, rfl, hfront⟩ | ⟨rfl, hl⟩)
        · exact ⟨front, back ++ [c], by simp, hfront⟩
        · refine ⟨l, [], rfl, ?_⟩
          intro b hb
          simpa using any_eq_false.mp hl b hb
    rw [hsplit, keepNew_concat, any_keepNew htrans]
    by_cases hc : (l.any fun b => same b c) = true
    · simp [hc]
    · simp [hc]

omit [DecidableEq κ] in
theorem pairwise_keepNew (same : α → α → Bool) (l : List α) :
    (keepNew same l).Pairwise fun a b => same a b = false := by
  induction l using reverseRecOn with
  | nil => exact List.Pairwise.nil
  | append_singleton l c ih =>
    rw [keepNew_concat]
    split
    · exact ih
    · next hc =>
      rw [pairwise_append]
      refine ⟨ih, pairwise_singleton _ _, ?_⟩
      intro a ha b hb
      rw [mem_singleton] at hb
      rw [Bool.not_eq_true, any_eq_false] at hc
      simpa [hb] using hc a ha

omit [DecidableEq κ] in
/-- Every item repeats one that was kept, or was kept itself. -/
theorem exists_same_keepNew (hrefl : ∀ a, same a a = true) (ha : a ∈ l) :
    ∃ b ∈ keepNew same l, same b a = true := by
  induction l using reverseRecOn with
  | nil => exact absurd ha not_mem_nil
  | append_singleton l c ih =>
    rw [keepNew_concat]
    rw [mem_append, mem_singleton] at ha
    split
    · next hc =>
      rcases ha with ha | rfl
      · exact ih ha
      · exact any_eq_true.mp hc
    · rcases ha with ha | rfl
      · obtain ⟨b, hb, hsame⟩ := ih ha
        exact ⟨b, mem_append_left _ hb, hsame⟩
      · exact ⟨a, by simp, hrefl a⟩

omit [DecidableEq κ] in
theorem keepNew_subset (h : a ∈ keepNew same l) : a ∈ l := by
  induction l using reverseRecOn with
  | nil => exact h
  | append_singleton l c ih =>
    rw [keepNew_concat] at h
    split at h
    · exact mem_append_left _ (ih h)
    · rw [mem_append] at h
      exact mem_append.mpr (h.imp_left ih)

omit [DecidableEq κ] in
/-- Keeping the first and translating commute where the translation keeps what is the same. -/
theorem keepNew_map {same' : β → β → Bool} (h : ∀ a ∈ l, ∀ b ∈ l, same' (g a) (g b) = same a b) :
    keepNew same' (l.map g) = (keepNew same l).map g := by
  induction l using reverseRecOn with
  | nil => rfl
  | append_singleton l c ih =>
    have hl : keepNew same' (l.map g) = (keepNew same l).map g :=
      ih fun a ha b hb => h a (mem_append_left _ ha) b (mem_append_left _ hb)
    have hany : (((keepNew same l).map g).any fun b => same' b (g c)) =
        (keepNew same l).any fun b => same b c := by
      rw [any_map, Bool.eq_iff_iff, any_eq_true, any_eq_true]
      constructor
      · rintro ⟨a, ha, hsame⟩
        exact ⟨a, ha, (h a (mem_append_left _ (keepNew_subset ha)) c (by simp)).symm ▸ hsame⟩
      · rintro ⟨a, ha, hsame⟩
        refine ⟨a, ha, ?_⟩
        rw [Function.comp_apply, h a (mem_append_left _ (keepNew_subset ha)) c (by simp)]
        exact hsame
    rw [map_append, map_singleton, keepNew_concat, keepNew_concat, hl, hany]
    split
    · rfl
    · rw [map_append, map_singleton]

omit [DecidableEq κ] in
/-- What an insertion that ignores repetitions does to a part of the table. -/
theorem filter_insertNew {q p : α → Bool} (hp : ∀ b, q b = true → p a = true → p b = true)
    (l : List α) :
    (if l.any q then l else l ++ [a]).filter p =
      if p a = true ∧ ((l.filter p).any q) = false then l.filter p ++ [a]
      else l.filter p := by
  by_cases ha : p a = true
  · have hany : ((l.filter p).any q) = l.any q := by
      rw [any_filter, Bool.eq_iff_iff, any_eq_true, any_eq_true]
      constructor
      · rintro ⟨b, hb, hb'⟩
        exact ⟨b, hb, (Bool.and_eq_true_iff.mp hb').2⟩
      · rintro ⟨b, hb, hb'⟩
        exact ⟨b, hb, Bool.and_eq_true_iff.mpr ⟨hp b hb' ha, hb'⟩⟩
    rw [hany]
    by_cases h : (l.any q) = true
    · simp [h]
    · simp [h, ha]
  · by_cases h : (l.any q) = true
    · simp [h, ha]
    · simp [h, ha]

/-! ### Tables in step -/

omit [DecidableEq κ] in
theorem exists_of_forall₂_left {r : α → β → Prop} (h : Forall₂ r l m) (ha : a ∈ l) :
    ∃ b ∈ m, r a b := by
  induction h with
  | nil => exact absurd ha not_mem_nil
  | @cons x y l m hxy _ ih =>
    rcases mem_cons.mp ha with rfl | ha
    · exact ⟨y, mem_cons_self, hxy⟩
    · obtain ⟨b, hb, hab⟩ := ih ha
      exact ⟨b, mem_cons_of_mem _ hb, hab⟩

omit [DecidableEq κ] in
theorem exists_of_forall₂_right {r : α → β → Prop} (h : Forall₂ r l m) {b : β} (hb : b ∈ m) :
    ∃ a ∈ l, r a b :=
  exists_of_forall₂_left h.flip hb

omit [DecidableEq κ] in
/-- Rows that belong to entries which are the same are one row, if the entries are not repeated. -/
theorem eq_of_forall₂ {r : α → β → Prop} {same : β → β → Bool} (h : Forall₂ r l m)
    (hm : m.Pairwise fun x y => same x y = false) {a' : α} (ha : a ∈ l) (ha' : a' ∈ l)
    (hsame : ∀ b ∈ m, ∀ b' ∈ m, r a b → r a' b' → same b b' = true ∧ same b' b = true) :
    a = a' := by
  induction h with
  | nil => exact absurd ha not_mem_nil
  | @cons x y l m hxy hrest ih =>
    rw [pairwise_cons] at hm
    rw [mem_cons] at ha ha'
    rcases ha with rfl | ha
    · rcases ha' with rfl | ha'
      · rfl
      · obtain ⟨b, hb, hrb⟩ := exists_of_forall₂_left hrest ha'
        have htrue := (hsame y mem_cons_self b (mem_cons_of_mem _ hb) hxy hrb).1
        rw [hm.1 b hb] at htrue
        cases htrue
    · rcases ha' with rfl | ha'
      · obtain ⟨b, hb, hrb⟩ := exists_of_forall₂_left hrest ha
        have htrue := (hsame b (mem_cons_of_mem _ hb) y mem_cons_self hrb hxy).2
        rw [hm.1 b hb] at htrue
        cases htrue
      · apply ih hm.2 ha ha'
        intro b hb b' hb'
        exact hsame b (mem_cons_of_mem _ hb) b' (mem_cons_of_mem _ hb')

/-! ### Maps as lists of entries -/

namespace Assoc

/-- Insert an entry, replacing the one with the same key. -/
def insert (k : κ) (v : β) (entries : List (κ × β)) : List (κ × β) :=
  entries.filter (fun e => e.1 != k) ++ [(k, v)]

def get? (k : κ) (entries : List (κ × β)) : Option β := (entries.find? fun e => e.1 == k).map (·.2)

def erase (k : κ) (entries : List (κ × β)) : List (κ × β) := entries.filter fun e => e.1 != k

def contains (k : κ) (entries : List (κ × β)) : Bool := entries.any fun e => e.1 == k

/-- Change the value of a key in place. -/
def modify (k : κ) (f : β → β) (entries : List (κ × β)) : List (κ × β) :=
  entries.map fun e => if e.1 = k then (e.1, f e.2) else e

theorem keys_modify (k : κ) (f : β → β) (entries : List (κ × β)) :
    (modify k f entries).map (·.1) = entries.map (·.1) := by
  rw [modify, map_map]
  apply map_congr_left
  intro e _
  dsimp only [Function.comp_apply]
  split <;> rfl

variable {entries : List (κ × β)}

theorem get?_modify {k' : κ} {f : β → β} :
    get? k (modify k' f entries) = if k' = k then (get? k entries).map f else get? k entries := by
  have hkey : (fun e : κ × β => e.1 == k) ∘ (fun e => if e.1 = k' then (e.1, f e.2) else e) =
      fun e => e.1 == k := by
    funext e
    dsimp only [Function.comp_apply]
    split <;> rfl
  rw [get?, get?, modify, List.find?_map, hkey]
  cases hfind : entries.find? (fun e => e.1 == k) with
  | none => simp
  | some e =>
    have hk : e.1 = k := by simpa using List.find?_some hfind
    by_cases hsame : k' = k
    · simp [hk, hsame]
    · simp [hk, hsame, Ne.symm hsame]

variable {v : β}

theorem insert_of_new (h : k ∉ entries.map (·.1)) : insert k v entries = entries ++ [(k, v)] := by
  rw [insert, filter_eq_self.mpr]
  intro e he
  rw [bne_iff_ne]
  intro heq
  exact h (heq ▸ mem_map_of_mem he)

theorem contains_iff : contains k entries = true ↔ k ∈ entries.map (·.1) := by
  rw [contains, any_eq_true, mem_map]
  simp

theorem get?_isSome : (get? k entries).isSome = contains k entries := by
  rw [get?, Option.isSome_map, contains, Bool.eq_iff_iff, List.find?_isSome, any_eq_true]

theorem mem_of_get? (h : get? k entries = some v) : (k, v) ∈ entries := by
  rw [get?, Option.map_eq_some_iff] at h
  obtain ⟨⟨k', v'⟩, hfind, rfl⟩ := h
  have hkey := List.find?_some hfind
  rw [beq_iff_eq] at hkey
  exact hkey ▸ mem_of_find?_eq_some hfind

theorem get?_filter {p : κ → Bool} (h : p k = true) (entries : List (κ × β)) :
    get? k (entries.filter fun e => p e.1) = get? k entries := by
  rw [get?, get?, List.find?_filter]
  congr 2
  funext e
  by_cases he : e.1 = k
  · simp [he, h]
  · simp [he]

theorem get?_map : get? k (l.map fun a => (f a, g a)) = (l.find? fun a => f a == k).map g := by
  rw [get?, List.find?_map, Option.map_map]
  rfl

theorem get?_insert {k' : κ} :
    get? k (insert k' v entries) = if k' = k then some v else get? k entries := by
  rw [get?, insert, List.find?_append]
  split
  · next heq =>
    have hnone : (entries.filter fun e => e.1 != k').find? (fun e => e.1 == k) = none := by
      rw [List.find?_eq_none]
      intro e he
      rw [mem_filter, bne_iff_ne] at he
      rw [beq_iff_eq, ← heq]
      exact he.2
    rw [hnone, heq]
    simp
  · next hne =>
    rw [← get?_filter (p := fun x => x != k') (bne_iff_ne.mpr (Ne.symm hne)) entries, get?]
    simp [hne]

theorem get?_eq_some (h : (entries.map (·.1)).Nodup) :
    get? k entries = some v ↔ (k, v) ∈ entries := by
  refine ⟨mem_of_get?, fun hmem => ?_⟩
  rw [get?, (find?_key_eq_some h (a := (k, v))).mpr ⟨hmem, rfl⟩]
  rfl

theorem get?_eq_none : get? k entries = none ↔ k ∉ entries.map (·.1) := by
  rw [← contains_iff, ← get?_isSome]
  cases get? k entries <;> simp

theorem erase_of_get?_none (h : get? k entries = none) : erase k entries = entries := by
  rw [erase, filter_eq_self]
  intro e he
  rw [bne_iff_ne]
  rintro rfl
  exact get?_eq_none.mp h (mem_map_of_mem he)

theorem mem_erase {e : κ × β} : e ∈ erase k entries ↔ e ∈ entries ∧ e.1 ≠ k := by
  rw [erase, mem_filter, bne_iff_ne]

theorem mem_insert {e : κ × β} : e ∈ insert k v entries ↔ (e ∈ entries ∧ e.1 ≠ k) ∨ e = (k, v) := by
  rw [insert, mem_append, mem_singleton, mem_filter, bne_iff_ne]

theorem get?_erase {k' : κ} :
    get? k (erase k' entries) = if k' = k then none else get? k entries := by
  split
  · next heq =>
    rw [get?_eq_none]
    intro hmem
    obtain ⟨e, he, hkey⟩ := mem_map.mp hmem
    exact (mem_erase.mp he).2 (hkey.trans heq.symm)
  · next hne =>
    exact get?_filter (p := fun x => x != k') (bne_iff_ne.mpr (Ne.symm hne)) entries

theorem get?_append {entries' : List (κ × β)} :
    get? k (entries ++ entries') = (get? k entries).or (get? k entries') := by
  rw [get?, List.find?_append, get?, get?]
  cases entries.find? (fun e => e.1 == k) <;> rfl

theorem nodup_keys_erase (h : (entries.map (·.1)).Nodup) : ((erase k entries).map (·.1)).Nodup :=
  h.sublist (filter_sublist.map _)

theorem nodup_keys_insert (h : (entries.map (·.1)).Nodup) :
    ((insert k v entries).map (·.1)).Nodup := by
  rw [insert, map_append, map_singleton, nodup_append]
  refine ⟨nodup_keys_erase h, nodup_singleton k, ?_⟩
  intro x hx y hy
  obtain ⟨e, he, rfl⟩ := mem_map.mp hx
  rw [mem_singleton.mp hy]
  exact (mem_erase.mp he).2

/-- An entry and the others. -/
theorem perm_cons_erase (h : (entries.map (·.1)).Nodup) (hmem : (k, v) ∈ entries) :
    entries.Perm ((k, v) :: erase k entries) := by
  have hsplit := (filter_append_perm (fun e : κ × β => decide (e.1 = k)) entries).symm
  have hone := filter_key_eq_singleton h hmem
  dsimp only at hone
  rw [hone] at hsplit
  exact hsplit

/-- Looking up a key among inserted rows, when equal keys come with equal values. -/
theorem get?_foldl_insert (h : ∀ a ∈ l, ∀ b ∈ l, f a = f b → g a = g b) (k : κ) :
    get? k (l.foldl (fun m a => insert (f a) (g a) m) []) = (l.find? fun a => f a == k).map g := by
  induction l using reverseRecOn with
  | nil => rfl
  | append_singleton front x ih =>
    have ih := ih fun a ha b hb => h a (mem_append_left _ ha) b (mem_append_left _ hb)
    rw [foldl_append, foldl_cons, foldl_nil, get?_insert, ih, List.find?_append]
    split
    · next hx =>
      cases hfind : front.find? (fun a => f a == k) with
      | none => simp [hx]
      | some a =>
        have hkey := List.find?_some hfind
        rw [beq_iff_eq] at hkey
        have hmem := mem_append_left [x] (mem_of_find?_eq_some hfind)
        rw [Option.some_or, Option.map_some, h a hmem x (by simp) (by rw [hkey, hx])]
    · next hx =>
      cases front.find? (fun a => f a == k) <;> simp [hx]

/-- Inserting rows with distinct keys lists them. -/
theorem foldl_insert (h : (l.map f).Nodup) :
    l.foldl (fun m a => insert (f a) (g a) m) [] = l.map fun a => (f a, g a) := by
  have hrest (front back : List α) (hl : l = front ++ back) :
      back.foldl (fun m a => insert (f a) (g a) m) (front.map fun a => (f a, g a)) =
        l.map fun a => (f a, g a) := by
    induction back generalizing front with
    | nil => rw [hl, append_nil, foldl_nil]
    | cons a back ih =>
      have hnew : f a ∉ (front.map fun a => (f a, g a)).map (·.1) := by
        rw [map_map]
        rw [hl, map_append, nodup_append] at h
        intro hmem
        exact h.2.2 _ hmem _ (by simp) rfl
      rw [foldl_cons, insert_of_new hnew, ← ih (front ++ [a])]
      · rw [map_append]
        rfl
      · rw [hl, append_assoc, singleton_append]
  exact hrest [] l rfl

/-- Removing keys one after the other. -/
theorem foldl_erase (keys : List κ) (entries : List (κ × β)) :
    keys.foldl (fun m k => erase k m) entries = entries.filter fun e => !keys.contains e.1 := by
  induction keys generalizing entries with
  | nil => simp
  | cons k keys ih =>
    rw [foldl_cons, ih, erase, filter_filter]
    apply filter_congr
    intro e _
    rw [contains_cons, Bool.not_or, Bool.and_comm]
    rfl

/-- A fold over looked-up rows that takes the entry of each row out. -/
theorem foldlM_take {σ ε : Type*}
    {step : List (κ × β) × σ → α → Except ε (List (κ × β) × σ)} {g : σ → α × β → σ}
    (hstep : ∀ entries s a v, get? (f a) entries = some v →
      step (entries, s) a = .ok (erase (f a) entries, g s (a, v)))
    {rows : List α} (hrows : (rows.map f).Nodup)
    (h : ∀ a ∈ rows, contains (f a) entries = true) (s : σ) :
    ∃ left, rows.foldlM step (entries, s) = .ok (left,
      (rows.filterMap fun a => (get? (f a) entries).map (a, ·)).foldl g s) := by
  induction rows generalizing entries s with
  | nil => exact ⟨entries, rfl⟩
  | cons a rows ih =>
    rw [map_cons, nodup_cons] at hrows
    have ha := h a (mem_cons_self ..)
    rw [← get?_isSome, Option.isSome_iff_exists] at ha
    obtain ⟨v, hv⟩ := ha
    have hget (b : α) (hb : b ∈ rows) : get? (f b) (erase (f a) entries) = get? (f b) entries := by
      rw [get?_erase, if_neg]
      intro heq
      exact hrows.1 (heq ▸ mem_map_of_mem hb)
    have hrest (b : α) (hb : b ∈ rows) : contains (f b) (erase (f a) entries) = true := by
      rw [← get?_isSome, hget b hb, get?_isSome]
      exact h b (mem_cons_of_mem _ hb)
    obtain ⟨left, hleft⟩ := ih hrows.2 hrest (g s (a, v))
    refine ⟨left, ?_⟩
    rw [foldlM_cons, hstep entries s a v hv]
    refine hleft.trans ?_
    rw [filterMap_cons, hv, filterMap_congr fun b hb => by rw [hget b hb]]
    rfl

end Assoc

end AgentMail.Lib
