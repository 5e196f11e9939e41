import Mathlib.Data.List.Sort

/-!
# Windows of a keyed collection

The first `n` elements of a list in descending order of a key. `top` sorts and cuts; `offer`
keeps a bounded window up to date one element at a time. Both depend only on the elements, not
on their order, as long as no two share a key.
-/

namespace AgentMail.Lib.Window

open List

universe u v

variable {α : Type u} {κ : Type v} [LinearOrder κ] (key : α → κ)

/-- Descending order of the key. -/
def newer (a b : α) : Bool := decide (key b ≤ key a)

/-- Stable sort by descending key. -/
def sort (l : List α) : List α := l.mergeSort (newer key)

/-- The first `n` elements in descending order of the key. -/
def top (n : Nat) (l : List α) : List α := (sort key l).take n

/-- Put an element in front of the first one that is not newer. -/
def place (x : α) (l : List α) : List α := l.orderedInsert (fun a b => key b ≤ key a) x

/-- One step of a bounded window, newest first: an element enters if there is room or it is newer
than the oldest one, which then leaves. -/
def offer (n : Nat) (window : List α) (x : α) : List α :=
  if window.length < n || window.getLast?.any (fun old => key old < key x) then
    let window := place key x window
    if n < window.length then window.dropLast else window
  else window

/-- Strictly descending keys. -/
def Descending (l : List α) : Prop := l.Pairwise fun a b => key b < key a

variable {key}

theorem sort_perm (l : List α) : (sort key l).Perm l := mergeSort_perm l _

@[simp] theorem length_sort (l : List α) : (sort key l).length = l.length := (sort_perm l).length_eq

variable {l : List α}

theorem Descending.nodup (h : Descending key l) : (l.map key).Nodup := by
  rw [nodup_iff_pairwise_ne, pairwise_map]
  exact h.imp fun hab => hab.ne'

/-- Descending lists with the same elements are equal. -/
theorem Descending.eq_of_perm {l' : List α} (h : Descending key l) (h' : Descending key l')
    (hp : l.Perm l') : l = l' :=
  hp.eq_of_pairwise (fun _ _ _ _ hab hba => absurd hab (not_lt_of_gt hba)) h h'

theorem descending_of_newer (hs : l.Pairwise fun a b => key b ≤ key a)
    (hn : (l.map key).Nodup) : Descending key l := by
  rw [nodup_iff_pairwise_ne, pairwise_map] at hn
  exact hs.imp₂ (fun a b hle hne => lt_of_le_of_ne hle (Ne.symm hne)) hn

theorem descending_sort (h : (l.map key).Nodup) : Descending key (sort key l) := by
  apply descending_of_newer
  · have htrans (a b c : α) (hab : newer key a b = true) (hbc : newer key b c = true) :
        newer key a c = true := by
      rw [newer, decide_eq_true_eq] at *
      exact le_trans hbc hab
    have htotal (a b : α) : (newer key a b || newer key b a) = true := by
      rw [newer, newer, Bool.or_eq_true, decide_eq_true_eq, decide_eq_true_eq]
      exact le_total _ _
    exact (pairwise_mergeSort htrans htotal l).imp fun hab => of_decide_eq_true hab
  · exact ((sort_perm l).map key).nodup_iff.mpr h

theorem sort_of_descending (h : Descending key l) : sort key l = l :=
  (descending_sort h.nodup).eq_of_perm h (sort_perm l)

/-- The window does not depend on the order of the elements. -/
theorem sort_congr {l' : List α} (hp : l.Perm l') (h : (l.map key).Nodup) :
    sort key l = sort key l' :=
  (descending_sort h).eq_of_perm (descending_sort ((hp.map key).nodup_iff.mp h))
    ((sort_perm l).trans (hp.trans (sort_perm l').symm))

theorem top_congr {l' : List α} (n : Nat) (hp : l.Perm l') (h : (l.map key).Nodup) :
    top key n l = top key n l' := by
  rw [top, top, sort_congr hp h]

theorem top_of_descending (n : Nat) (h : Descending key l) : top key n l = l.take n := by
  rw [top, sort_of_descending h]

theorem descending_top (n : Nat) (h : (l.map key).Nodup) :
    Descending key (top key n l) := List.Pairwise.sublist (take_sublist ..) (descending_sort h)

theorem mem_of_mem_top {n : Nat} {x : α} (h : x ∈ top key n l) : x ∈ l :=
  (sort_perm l).mem_iff.mp (mem_of_mem_take h)

theorem length_top (n : Nat) (l : List α) : (top key n l).length = min n l.length := by
  rw [top, length_take, length_sort]

/-- Windows commute with maps that keep the key. -/
theorem sort_map {β : Type*} {key' : β → κ} {f : α → β} (hf : ∀ x, key' (f x) = key x)
    (h : (l.map key).Nodup) : sort key' (l.map f) = (sort key l).map f := by
  have hkeys (l : List α) : (l.map f).map key' = l.map key := by
    rw [map_map]
    exact map_congr_left fun x _ => hf x
  have hdesc : Descending key' ((sort key l).map f) := by
    rw [Descending, pairwise_map]
    apply (descending_sort h).imp
    intro a b hab
    rw [hf, hf]
    exact hab
  apply Descending.eq_of_perm (descending_sort (by rw [hkeys]; exact h)) hdesc
  exact (sort_perm _).trans ((sort_perm l).map f).symm

theorem top_map {β : Type*} {key' : β → κ} {f : α → β} (hf : ∀ x, key' (f x) = key x) (n : Nat)
    (h : (l.map key).Nodup) : top key' n (l.map f) = (top key n l).map f := by
  rw [top, sort_map hf h, ← map_take, top]

/-! ### Placing one element -/

theorem length_place (x : α) (l : List α) : (place key x l).length = l.length + 1 :=
  orderedInsert_length _ l x

theorem descending_place {x : α} (h : Descending key l) (hx : key x ∉ l.map key) :
    Descending key (place key x l) := by
  have hp : (place key x l).Perm (x :: l) := perm_orderedInsert _ x l
  apply descending_of_newer
  · have : Std.Total (fun a b : α => key b ≤ key a) := ⟨fun a b => le_total _ _⟩
    have : IsTrans α (fun a b : α => key b ≤ key a) := ⟨fun a b c hab hbc => le_trans hbc hab⟩
    exact List.Pairwise.orderedInsert x l (h.imp fun hab => le_of_lt hab)
  · rw [(hp.map key).nodup_iff, map_cons, nodup_cons]
    exact ⟨hx, h.nodup⟩

theorem sort_cons {x : α} (h : ((x :: l).map key).Nodup) :
    sort key (x :: l) = place key x (sort key l) := by
  rw [map_cons, nodup_cons] at h
  have hx : key x ∉ (sort key l).map key := by
    rw [((sort_perm l).map key).mem_iff]
    exact h.1
  have hnodup : ((x :: l).map key).Nodup := by
    rw [map_cons, nodup_cons]
    exact h
  apply (descending_sort hnodup).eq_of_perm (descending_place (descending_sort h.2) hx)
  exact (sort_perm _).trans (((sort_perm l).symm.cons x).trans (perm_orderedInsert _ x _).symm)

/-- Placing into a window and cutting it again is placing into the whole list and cutting. -/
theorem take_place_take (n : Nat) (x : α) (l : List α) :
    (place key x (l.take n)).take n = (place key x l).take n := by
  induction l generalizing n with
  | nil => rw [take_nil]
  | cons y l ih =>
    cases n with
    | zero => rfl
    | succ n =>
      unfold place at ih ⊢
      rw [take_succ_cons, orderedInsert_cons, orderedInsert_cons]
      split
      · rw [take_succ_cons, take_succ_cons]
        cases n with
        | zero => rfl
        | succ n => rw [take_succ_cons, take_succ_cons, take_take, Nat.min_eq_left (Nat.le_succ n)]
      · rw [take_succ_cons, take_succ_cons, ih]

/-- An element older than a full window does not enter it. -/
theorem take_place_of_full {n : Nat} {x : α} (hl : n ≤ l.length)
    (h : ∀ y ∈ l.take n, key x < key y) : (place key x l).take n = l.take n := by
  induction l generalizing n with
  | nil =>
    have hn : n = 0 := Nat.le_zero.mp hl
    rw [hn, take_zero, take_zero]
  | cons y l ih =>
    cases n with
    | zero => rfl
    | succ n =>
      have hy : ¬ key y ≤ key x := not_le_of_gt (h y (by simp))
      unfold place at ih ⊢
      rw [orderedInsert_cons, if_neg hy, take_succ_cons, take_succ_cons, ih (Nat.le_of_succ_le_succ hl) (fun z hz => h z (by simp [hz]))]

/-! ### The bounded window -/

/-- An element that is not offered to a window is older than all of it. -/
theorem older_of_not_offered {n : Nat} {x : α} (h : ((x :: l).map key).Nodup)
    (hoffer : ((top key n l).length < n || (top key n l).getLast?.any fun old => key old < key x) =
      false) : (top key n l).length = n ∧ ∀ y ∈ top key n l, key x < key y := by
  rw [Bool.or_eq_false_iff, decide_eq_false_iff_not, Nat.not_lt] at hoffer
  obtain ⟨hroom, hold⟩ := hoffer
  have hle : (top key n l).length ≤ n := by
    rw [length_top]
    exact Nat.min_le_left ..
  refine ⟨Nat.le_antisymm hle hroom, ?_⟩
  intro y hy
  have hne : top key n l ≠ [] := ne_nil_of_mem hy
  rw [List.getLast?_eq_some_getLast hne, Option.any_some, decide_eq_false_iff_not, not_lt] at hold
  rw [map_cons, nodup_cons] at h
  -- The oldest element of the window is not newer than any other, and not `x` itself.
  have hlast : key ((top key n l).getLast hne) ≤ key y := by
    have hdesc := descending_top n h.2
    have hsplit := dropLast_append_getLast hne
    rw [← hsplit] at hy
    rw [Descending, ← hsplit, pairwise_append] at hdesc
    rcases mem_append.mp hy with hmem | hmem
    · exact le_of_lt (hdesc.2.2 y hmem _ (mem_singleton_self _))
    · rw [mem_singleton.mp hmem]
  have hyx : key x ≠ key y := by
    intro he
    exact h.1 (he ▸ mem_map_of_mem (mem_of_mem_top hy))
  exact lt_of_le_of_ne (le_trans hold hlast) hyx

/-- One step keeps the window of everything seen so far. -/
theorem offer_top (n : Nat) {x : α} (h : ((x :: l).map key).Nodup) :
    offer key n (top key n l) x = top key n (x :: l) := by
  have htop : top key n (x :: l) = (place key x (top key n l)).take n := by
    rw [top, sort_cons h, top, take_place_take]
  have hlen : (place key x (top key n l)).length = (top key n l).length + 1 := length_place x _
  have hle : (top key n l).length ≤ n := by
    rw [length_top]
    exact Nat.min_le_left ..
  unfold offer
  split
  · dsimp only
    rw [htop]
    split
    · next hlong =>
      rw [dropLast_eq_take]
      congr 1
      omega
    · next hshort => rw [take_of_length_le (by omega)]
  · next hfull =>
    obtain ⟨hlength, holder⟩ := older_of_not_offered h (Bool.not_eq_true _ ▸ hfull)
    rw [htop, take_place_of_full (Nat.le_of_eq hlength.symm), take_of_length_le hle]
    rw [take_of_length_le hle]
    exact holder

/-- A step that keeps the window of everything seen so far keeps it over a list. -/
theorem foldl_top {n : Nat} {step : List α → α → List α}
    (hstep : ∀ (l : List α) (x : α), ((x :: l).map key).Nodup → step (top key n l) x = top key n (x :: l))
    {a b : List α} (h : ((a ++ b).map key).Nodup) :
    b.foldl step (top key n a) = top key n (a ++ b) := by
  induction b generalizing a with
  | nil => rw [foldl_nil, append_nil]
  | cons x b ih =>
    have hmid : (a ++ x :: b).Perm ((x :: a) ++ b) := perm_middle
    have hnodup : (((x :: a) ++ b).map key).Nodup := (hmid.map key).nodup_iff.mp h
    have hhead : ((x :: a).map key).Nodup := by
      rw [map_append] at hnodup
      exact hnodup.of_append_left
    rw [foldl_cons, hstep a x hhead, ih hnodup, top_congr n hmid h]

theorem foldl_offer (n : Nat) {a b : List α} (h : ((a ++ b).map key).Nodup) :
    b.foldl (offer key n) (top key n a) = top key n (a ++ b) :=
  foldl_top (fun _ _ hx => offer_top n hx) h

/-- Cutting a part of the elements first does not change the window. -/
theorem top_top_append (n : Nat) {a b : List α} (h : ((a ++ b).map key).Nodup) :
    top key n (top key n a ++ b) = top key n (a ++ b) := by
  have ha : (a.map key).Nodup := by
    rw [map_append] at h
    exact h.of_append_left
  have hdesc := descending_top n ha
  have htop : top key n (top key n a) = top key n a := by
    rw [top_of_descending n hdesc, take_of_length_le]
    rw [length_top]
    exact Nat.min_le_left ..
  have hsub : (top key n a ++ b).Subperm (a ++ b) := by
    rw [subperm_append_right]
    exact (take_sublist n _).subperm.trans (sort_perm a).subperm
  have hnodup : ((top key n a ++ b).map key).Nodup := by
    obtain ⟨l, hl, hsl⟩ := hsub
    exact ((hl.map key).nodup_iff).mp (h.sublist (hsl.map key))
  rw [← foldl_offer n hnodup, htop, foldl_offer n h]

/-- A window of two windows is the window of the whole. -/
theorem top_append_top (n : Nat) {a b : List α} (h : ((a ++ b).map key).Nodup) :
    top key n (top key n a ++ top key n b) = top key n (a ++ b) := by
  have hcomm : ((b ++ a).map key).Nodup := (perm_append_comm.map key).nodup_iff.mp h
  have hsub : (a ++ top key n b).Subperm (a ++ b) := by
    rw [subperm_append_left]
    exact (take_sublist n _).subperm.trans (sort_perm b).subperm
  have hnodup : ((a ++ top key n b).map key).Nodup := by
    obtain ⟨l, hl, hsl⟩ := hsub
    exact ((hl.map key).nodup_iff).mp (h.sublist (hsl.map key))
  rw [top_top_append n hnodup, top_congr n perm_append_comm hnodup, top_top_append n hcomm,
    top_congr n perm_append_comm hcomm]

/-- Elements older than a full window do not change it. -/
theorem top_append_of_older {n : Nat} {a b : List α} (h : ((a ++ b).map key).Nodup)
    (hfull : (top key n a).length = n) (hold : ∀ x ∈ b, ∀ y ∈ top key n a, key x < key y) :
    top key n (a ++ b) = top key n a := by
  rw [← foldl_offer n h]
  induction b with
  | nil => rfl
  | cons x b ih =>
    have hstay : offer key n (top key n a) x = top key n a := by
      unfold offer
      rw [if_neg]
      rw [Bool.or_eq_true, decide_eq_true_eq, not_or, hfull, Bool.not_eq_true]
      refine ⟨Nat.lt_irrefl n, ?_⟩
      cases hlast : (top key n a).getLast? with
      | none => rfl
      | some y =>
        have hy := hold x (mem_cons_self ..) y (mem_of_getLast? hlast)
        rw [Option.any_some, decide_eq_false_iff_not]
        exact not_lt_of_gt hy
    rw [foldl_cons, hstay]
    apply ih
    · exact h.sublist ((List.Sublist.append (List.Sublist.refl a) (sublist_cons_self x b)).map key)
    · exact fun z hz => hold z (mem_cons_of_mem x hz)

/-- Elements that are not offered may be left out. -/
theorem top_append_filter (n : Nat) {a b : List α} (h : ((a ++ b).map key).Nodup) {p : α → Bool}
    (hp : ∀ x ∈ b, p x = false → (top key n a).length = n ∧ ∀ y ∈ top key n a, key x < key y) :
    top key n (a ++ b.filter p) = top key n (a ++ b) := by
  have hsplit : (a ++ b).Perm (a ++ b.filter (fun x => !p x) ++ b.filter p) := by
    rw [append_assoc]
    exact (perm_append_comm.trans (filter_append_perm p b)).symm.append_left a
  have hnodup := (hsplit.map key).nodup_iff.mp h
  have hleft : ((a ++ b.filter fun x => !p x).map key).Nodup := by
    rw [map_append] at hnodup
    exact hnodup.of_append_left
  have hkept : ((a ++ b.filter p).map key).Nodup :=
    h.sublist ((filter_sublist.append_left a).map key)
  have holder : top key n (a ++ b.filter fun x => !p x) = top key n a := by
    cases hnone : b.filter fun x => !p x with
    | nil => rw [append_nil]
    | cons x rest =>
      have hout (z : α) (hz : z ∈ b.filter fun x => !p x) :=
        hp z (mem_filter.mp hz).1 (Bool.not_eq_true' _ ▸ (mem_filter.mp hz).2)
      rw [← hnone]
      refine top_append_of_older hleft (hout x ?_).1 fun z hz => (hout z hz).2
      rw [hnone]
      exact mem_cons_self ..
  rw [top_congr n hsplit h, ← top_top_append n hnodup, holder, top_top_append n hkept]

end AgentMail.Lib.Window
