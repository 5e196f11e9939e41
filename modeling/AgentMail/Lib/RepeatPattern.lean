import Mathlib.Data.List.Forall2

/-!
# Sequences with repeat items

A pattern is a list of items, some of which are repeats. A repeat accepts any number
of letters, zero included; every other item accepts exactly one letter. `accepts` is
membership of a word and `overlap` the suffix recurrence that decides whether two
patterns can be read against each other. Nothing here fixes the item or letter type.
-/

namespace AgentMail.Lib.RepeatPattern

open List

universe u v

variable {α : Type u} {σ : Type v}

variable {a : α}

section

variable (isRepeat : α → Bool) (acc : α → σ → Bool)

/-- Acceptance for a pattern starting with `a`, given acceptance of the rest.
The recursion is on the word: a repeat either stops or absorbs one more letter. -/
def acceptsCons (a : α) (rest : List σ → Bool) : List σ → Bool
  | [] => isRepeat a && rest []
  | s :: w =>
    if isRepeat a then rest (s :: w) || acceptsCons a rest w else acc a s && rest w

/-- Membership of a word in the language of a pattern. -/
def accepts : List α → List σ → Bool
  | [] => List.isEmpty
  | a :: l => acceptsCons isRepeat acc a (accepts l)

@[simp] theorem accepts_nil_nil : accepts isRepeat acc [] [] = true := rfl

@[simp] theorem accepts_nil_cons (s : σ) (w : List σ) :
    accepts isRepeat acc [] (s :: w) = false := rfl

@[simp] theorem accepts_cons_nil (a : α) (l : List α) :
    accepts isRepeat acc (a :: l) [] = (isRepeat a && accepts isRepeat acc l []) := rfl

/-- One letter against one item, with both readings of a repeat. -/
theorem accepts_cons_cons (a : α) (l : List α) (s : σ) (w : List σ) :
    accepts isRepeat acc (a :: l) (s :: w) =
      if isRepeat a then accepts isRepeat acc l (s :: w) || accepts isRepeat acc (a :: l) w
      else acc a s && accepts isRepeat acc l w := rfl

theorem accepts_repeat (ha : isRepeat a = true) (l : List α) (s : σ) (w : List σ) :
    accepts isRepeat acc (a :: l) (s :: w) =
      (accepts isRepeat acc l (s :: w) || accepts isRepeat acc (a :: l) w) := by
  rw [accepts_cons_cons, ha, if_pos rfl]

theorem accepts_item (ha : isRepeat a = false) (l : List α) (s : σ) (w : List σ) :
    accepts isRepeat acc (a :: l) (s :: w) = (acc a s && accepts isRepeat acc l w) := by
  rw [accepts_cons_cons, ha, if_neg Bool.false_ne_true]

/-- A repeat in front only enlarges the language. -/
theorem accepts_cons_of_accepts (ha : isRepeat a = true) {l : List α} {w : List σ}
    (h : accepts isRepeat acc l w = true) : accepts isRepeat acc (a :: l) w = true := by
  cases w with
  | nil => rw [accepts_cons_nil, ha, h]; rfl
  | cons s w => rw [accepts_repeat isRepeat acc ha, h, Bool.true_or]

/-- The empty word needs every item to be a repeat. -/
theorem accepts_nil_right (l : List α) : accepts isRepeat acc l [] = l.all isRepeat := by
  induction l with
  | nil => rfl
  | cons a l ih => rw [accepts_cons_nil, ih, all_cons]

/-- A nonempty pattern of repeats accepts every word. -/
theorem accepts_of_all_repeat {l : List α} (h : (a :: l).all isRepeat = true) (w : List σ) :
    accepts isRepeat acc (a :: l) w = true := by
  induction w with
  | nil => rw [accepts_nil_right, h]
  | cons s w ih =>
    have ha : isRepeat a = true := by
      rw [all_cons, Bool.and_eq_true] at h
      exact h.1
    rw [accepts_repeat isRepeat acc ha, ih, Bool.or_true]

/-- A doubled repeat is one repeat. -/
theorem accepts_of_double_repeat {l : List α} {w : List σ}
    (h : accepts isRepeat acc (a :: a :: l) w = true) (ha : isRepeat a = true) :
    accepts isRepeat acc (a :: l) w = true := by
  induction w with
  | nil =>
    rw [accepts_cons_nil, Bool.and_eq_true] at h
    exact h.2
  | cons s w ih =>
    rw [accepts_repeat _ _ ha, Bool.or_eq_true] at h
    rcases h with h | h
    · exact h
    · rw [accepts_repeat _ _ ha, ih h, Bool.or_true]

/-- Enlarging the language of a suffix enlarges the language of the whole pattern. -/
theorem accepts_append_mono {r r' : List α}
    (h : ∀ w, accepts isRepeat acc r w = true → accepts isRepeat acc r' w = true)
    (l : List α) (w : List σ) (hl : accepts isRepeat acc (l ++ r) w = true) :
    accepts isRepeat acc (l ++ r') w = true := by
  induction l generalizing w with
  | nil => exact h w hl
  | cons a l ih =>
    rw [cons_append] at hl ⊢
    induction w with
    | nil =>
      rw [accepts_cons_nil, Bool.and_eq_true] at hl ⊢
      exact ⟨hl.1, ih [] hl.2⟩
    | cons s w ihw =>
      cases ha : isRepeat a with
      | true =>
        rw [accepts_repeat _ _ ha, Bool.or_eq_true] at hl ⊢
        exact hl.imp (ih (s :: w)) ihw
      | false =>
        rw [accepts_item _ _ ha, Bool.and_eq_true] at hl ⊢
        exact ⟨hl.1, ih w hl.2⟩

/-- Acceptance depends on the items only through their repeat flag and the letters of the
word they accept. -/
theorem accepts_map {β : Type*} (f : β → α) (isRepeat' : β → Bool) (acc' : β → σ → Bool)
    (l : List β) (w : List σ) (hr : ∀ b ∈ l, isRepeat (f b) = isRepeat' b)
    (ha : ∀ b ∈ l, isRepeat' b = false → ∀ s ∈ w, acc (f b) s = acc' b s) :
    accepts isRepeat acc (l.map f) w = accepts isRepeat' acc' l w := by
  induction l generalizing w with
  | nil => cases w <;> rfl
  | cons b l ih =>
    have hb := hr b (mem_cons_self ..)
    have ihl (v : List σ) (hv : ∀ s ∈ v, s ∈ w) :
        accepts isRepeat acc (l.map f) v = accepts isRepeat' acc' l v :=
      ih v (fun b hm => hr b (mem_cons_of_mem _ hm))
        (fun b hm hn s hs => ha b (mem_cons_of_mem _ hm) hn s (hv s hs))
    rw [map_cons]
    induction w with
    | nil => rw [accepts_cons_nil, accepts_cons_nil, hb, ihl [] (by simp)]
    | cons s w ihw =>
      cases hrep : isRepeat' b with
      | true =>
        have htail := ihw (fun b hm hn t ht => ha b hm hn t (mem_cons_of_mem _ ht))
          (fun v hv => ihl v (fun t ht => mem_cons_of_mem _ (hv t ht)))
        rw [accepts_repeat _ _ (hb.trans hrep), accepts_repeat _ _ hrep,
          ihl (s :: w) (fun _ h => h), htail]
      | false =>
        rw [accepts_item _ _ (hb.trans hrep), accepts_item _ _ hrep,
          ihl w (fun _ h => mem_cons_of_mem _ h), ha b (mem_cons_self ..) hrep s (mem_cons_self ..)]

/-- Items that accept more letters make a larger language. -/
theorem accepts_mono {acc' : α → σ → Bool} (h : ∀ a s, acc a s = true → acc' a s = true)
    {l : List α} {w : List σ} (hl : accepts isRepeat acc l w = true) :
    accepts isRepeat acc' l w = true := by
  induction l generalizing w with
  | nil => exact hl
  | cons a l ih =>
    induction w with
    | nil =>
      rw [accepts_cons_nil, Bool.and_eq_true] at hl ⊢
      exact ⟨hl.1, ih hl.2⟩
    | cons s w ihw =>
      cases ha : isRepeat a with
      | true =>
        rw [accepts_repeat _ _ ha, Bool.or_eq_true] at hl ⊢
        exact hl.imp ih ihw
      | false =>
        rw [accepts_item _ _ ha, Bool.and_eq_true] at hl ⊢
        exact ⟨h a s hl.1, ih hl.2⟩

/-- Without repeats the items take one letter each. -/
theorem accepts_items {l : List α} (hl : ∀ a ∈ l, isRepeat a = false) {w : List σ} :
    accepts isRepeat acc l w = true ↔ Forall₂ (fun a s => acc a s = true) l w := by
  induction l generalizing w with
  | nil => cases w <;> simp
  | cons a l ih =>
    have ha := hl a (mem_cons_self ..)
    have ih := @ih (fun b hb => hl b (mem_cons_of_mem _ hb))
    cases w with
    | nil => simp [ha]
    | cons s w => rw [accepts_item _ _ ha, Bool.and_eq_true, List.forall₂_cons, ih]

/-- A word accepted by two patterns in a row has a part for each. -/
theorem exists_of_accepts_append {l r : List α} {w : List σ}
    (h : accepts isRepeat acc (l ++ r) w = true) :
    ∃ u v, w = u ++ v ∧ accepts isRepeat acc l u = true ∧ accepts isRepeat acc r v = true := by
  induction l generalizing w with
  | nil => exact ⟨[], w, rfl, rfl, h⟩
  | cons a l ih =>
    rw [cons_append] at h
    induction w with
    | nil =>
      rw [accepts_cons_nil, Bool.and_eq_true] at h
      obtain ⟨u, v, hw, hl, hr⟩ := ih h.2
      rw [eq_comm, append_eq_nil_iff] at hw
      obtain ⟨rfl, rfl⟩ := hw
      exact ⟨[], [], rfl, by rw [accepts_cons_nil, h.1, hl]; rfl, hr⟩
    | cons s w ihw =>
      cases ha : isRepeat a with
      | true =>
        rw [accepts_repeat _ _ ha, Bool.or_eq_true] at h
        rcases h with h | h
        · obtain ⟨u, v, hw, hl, hr⟩ := ih h
          exact ⟨u, v, hw, accepts_cons_of_accepts _ _ ha hl, hr⟩
        · obtain ⟨u, v, rfl, hl, hr⟩ := ihw h
          refine ⟨s :: u, v, rfl, ?_, hr⟩
          rw [accepts_repeat _ _ ha, hl, Bool.or_true]
      | false =>
        rw [accepts_item _ _ ha, Bool.and_eq_true] at h
        obtain ⟨u, v, rfl, hl, hr⟩ := ih h.2
        refine ⟨s :: u, v, rfl, ?_, hr⟩
        rw [accepts_item _ _ ha, h.1, hl]
        rfl

/-- Two parts make a word accepted by both patterns in a row. -/
theorem accepts_append {l r : List α} {u v : List σ} (hl : accepts isRepeat acc l u = true)
    (hr : accepts isRepeat acc r v = true) : accepts isRepeat acc (l ++ r) (u ++ v) = true := by
  induction l generalizing u with
  | nil =>
    cases u with
    | nil => exact hr
    | cons s u => cases hl
  | cons a l ih =>
    rw [cons_append]
    induction u with
    | nil =>
      rw [accepts_cons_nil, Bool.and_eq_true] at hl
      exact accepts_cons_of_accepts _ _ hl.1 (ih hl.2)
    | cons s u ihu =>
      rw [cons_append]
      cases ha : isRepeat a with
      | true =>
        rw [accepts_repeat _ _ ha, Bool.or_eq_true] at hl ⊢
        exact hl.imp ih ihu
      | false =>
        rw [accepts_item _ _ ha, Bool.and_eq_true] at hl ⊢
        exact ⟨hl.1, ih hl.2⟩

/-- A mandatory item of an accepting pattern accepts some letter of the word. -/
theorem exists_of_accepts {l : List α} {w : List σ} (h : accepts isRepeat acc l w = true)
    (hm : a ∈ l) (ha : isRepeat a = false) : ∃ s ∈ w, acc a s = true := by
  induction l generalizing w with
  | nil => cases hm
  | cons b l ih =>
    induction w with
    | nil =>
      rw [accepts_nil_right, all_eq_true] at h
      rw [h a hm] at ha
      cases ha
    | cons s w ihw =>
      have hcons {v : List σ} (hv : ∀ t ∈ v, t ∈ s :: w) (he : ∃ t ∈ v, acc a t = true) :
          ∃ t ∈ s :: w, acc a t = true := by
        obtain ⟨t, ht, hat⟩ := he
        exact ⟨t, hv t ht, hat⟩
      have htail (t : σ) (ht : t ∈ w) : t ∈ s :: w := mem_cons_of_mem s ht
      cases hb : isRepeat b with
      | true =>
        have hne : a ≠ b := by
          rintro rfl
          rw [hb] at ha
          cases ha
        rw [accepts_repeat _ _ hb, Bool.or_eq_true] at h
        rcases h with h | h
        · exact ih h (mem_of_ne_of_mem hne hm)
        · exact hcons htail (ihw h)
      | false =>
        rw [accepts_item _ _ hb, Bool.and_eq_true] at h
        rcases mem_cons.mp hm with rfl | hm
        · exact ⟨s, mem_cons_self .., h.1⟩
        · exact hcons htail (ih h.2 hm)

end

section

variable (isRepeat : α → Bool) (compatible : α → α → Bool)

/-- The overlap recurrence for a left pattern starting with `a`, given the row of its rest. -/
def overlapCons (a : α) (rest : List α → Bool) : List α → Bool
  | [] => isRepeat a && rest []
  | b :: r =>
    if isRepeat a || isRepeat b then rest (b :: r) || overlapCons a rest r
    else compatible a b && rest r

/-- Two patterns overlap when a repeat can be empty or absorb the other's next item,
and two single-letter items meet only when compatible. -/
def overlap : List α → List α → Bool
  | [] => fun r => r.all isRepeat
  | a :: l => overlapCons isRepeat compatible a (overlap l)

@[simp] theorem overlap_nil_left (r : List α) : overlap isRepeat compatible [] r = r.all isRepeat :=
  rfl

theorem overlap_cons_nil (a : α) (l : List α) :
    overlap isRepeat compatible (a :: l) [] =
      (isRepeat a && overlap isRepeat compatible l []) := rfl

theorem overlap_cons_cons (a : α) (l : List α) (b : α) (r : List α) :
    overlap isRepeat compatible (a :: l) (b :: r) = if isRepeat a || isRepeat b then
        overlap isRepeat compatible l (b :: r) || overlap isRepeat compatible (a :: l) r
      else compatible a b && overlap isRepeat compatible l r := rfl

@[simp] theorem overlap_nil_right (l : List α) :
    overlap isRepeat compatible l [] = l.all isRepeat := by
  induction l with
  | nil => rfl
  | cons a l ih => rw [overlap_cons_nil, ih, all_cons]

variable {isRepeat compatible}

theorem overlap_repeat {b : α} (h : (isRepeat a || isRepeat b) = true) (l r : List α) :
    overlap isRepeat compatible (a :: l) (b :: r) =
      (overlap isRepeat compatible l (b :: r) || overlap isRepeat compatible (a :: l) r) := by
  rw [overlap_cons_cons, h, if_pos rfl]

theorem overlap_item {b : α} (h : (isRepeat a || isRepeat b) = false) (l r : List α) :
    overlap isRepeat compatible (a :: l) (b :: r) =
      (compatible a b && overlap isRepeat compatible l r) := by
  rw [overlap_cons_cons, h, if_neg Bool.false_ne_true]

/-- A nonempty pattern of repeats overlaps everything. -/
theorem overlap_of_all_repeat {l : List α} (h : (a :: l).all isRepeat = true) (r : List α) :
    overlap isRepeat compatible (a :: l) r = true := by
  induction r with
  | nil => rw [overlap_nil_right, h]
  | cons b r ih =>
    have ha : isRepeat a = true := by
      rw [all_cons, Bool.and_eq_true] at h
      exact h.1
    rw [overlap_repeat (by rw [ha, Bool.true_or]), ih, Bool.or_true]

/-- The recurrence is symmetric whenever compatibility is. -/
theorem overlap_comm (hc : ∀ a b, compatible a b = compatible b a) (l r : List α) :
    overlap isRepeat compatible l r = overlap isRepeat compatible r l := by
  induction l generalizing r with
  | nil => rw [overlap_nil_left, overlap_nil_right]
  | cons a l ih =>
    induction r with
    | nil => rw [overlap_nil_left, overlap_nil_right]
    | cons b r ihr =>
      cases h : isRepeat a || isRepeat b with
      | true =>
        have hs : (isRepeat b || isRepeat a) = true := by rw [Bool.or_comm, h]
        rw [overlap_repeat h, overlap_repeat hs, ih, ihr, Bool.or_comm]
      | false =>
        have hs : (isRepeat b || isRepeat a) = false := by rw [Bool.or_comm, h]
        rw [overlap_item h, overlap_item hs, ih, hc]

theorem all_append_item {b : α} (hb : isRepeat b = false) (r : List α) :
    (r ++ [b]).all isRepeat = false := by
  rw [all_append, all_cons, hb, Bool.false_and, Bool.and_false]

theorem overlap_singleton_append {b : α} (ha : isRepeat a = false)
    (hb : isRepeat b = false) (r : List α) :
    overlap isRepeat compatible [a] (r ++ [b]) = (r.all isRepeat && compatible a b) := by
  induction r with
  | nil =>
    rw [nil_append, overlap_item (by rw [ha, hb, Bool.or_false])]
    simp
  | cons c r ih =>
    rw [cons_append, all_cons]
    cases hc : isRepeat c with
    | true =>
      rw [overlap_repeat (by rw [hc, Bool.or_true]), ih, overlap_nil_left, ← cons_append,
        all_append_item hb, Bool.false_or, Bool.true_and]
    | false =>
      rw [overlap_item (by rw [ha, hc, Bool.or_false]), overlap_nil_left, all_append_item hb]
      simp

/-- Two mandatory last items can be stripped together, as two mandatory first items can. -/
theorem overlap_append_item {b : α} (ha : isRepeat a = false) (hb : isRepeat b = false)
    (l r : List α) :
    overlap isRepeat compatible (l ++ [a]) (r ++ [b]) =
      (overlap isRepeat compatible l r && compatible a b) := by
  induction l generalizing r with
  | nil => rw [nil_append, overlap_singleton_append ha hb, overlap_nil_left]
  | cons c l ih =>
    rw [cons_append]
    induction r with
    | nil =>
      have ih0 := ih []
      rw [nil_append] at ih0 ⊢
      cases hc : isRepeat c with
      | true =>
        have hn : overlap isRepeat compatible (c :: (l ++ [a])) [] = false := by
          rw [overlap_nil_right, ← cons_append, all_append_item ha]
        rw [overlap_repeat (by rw [hc, Bool.true_or]), ih0, hn, Bool.or_false, overlap_nil_right,
          overlap_nil_right, all_cons, hc, Bool.true_and]
      | false =>
        rw [overlap_item (by rw [hc, hb, Bool.or_false]), overlap_nil_right, all_append_item ha,
          overlap_nil_right, all_cons, hc]
        simp
    | cons d r ihr =>
      rw [cons_append]
      cases h : isRepeat c || isRepeat d with
      | true =>
        rw [overlap_repeat h, overlap_repeat h, ihr, ← cons_append, ih (d :: r),
          Bool.and_or_distrib_right]
      | false => rw [overlap_item h, overlap_item h, ih r, Bool.and_assoc]

end

section

variable {isRepeat : α → Bool} {compatible : α → α → Bool} {acc : α → σ → Bool}

/-- Completeness of the recurrence: patterns with a common word overlap, provided items of
the two patterns that share a letter are compatible. -/
theorem overlap_of_common_word {l r : List α} {w : List σ}
    (hc : ∀ a ∈ l, ∀ b ∈ r, isRepeat a = false → isRepeat b = false →
      ∀ s, acc a s = true → acc b s = true → compatible a b = true)
    (hl : accepts isRepeat acc l w = true) (hr : accepts isRepeat acc r w = true) :
    overlap isRepeat compatible l r = true := by
  induction l generalizing r w with
  | nil =>
    cases w with
    | nil => rwa [accepts_nil_right] at hr
    | cons s w => rw [accepts_nil_cons] at hl; cases hl
  | cons a l ih =>
    have ih {r : List α} {w : List σ} (hsub : ∀ a ∈ l, ∀ b ∈ r, isRepeat a = false →
        isRepeat b = false → ∀ s, acc a s = true → acc b s = true → compatible a b = true)
        (hl : accepts isRepeat acc l w = true) (hr : accepts isRepeat acc r w = true) :
        overlap isRepeat compatible l r = true := ih hsub hl hr
    -- The right pattern shrinks next; within one pair of items the word shrinks last.
    induction r generalizing w with
    | nil =>
      cases w with
      | nil => rwa [overlap_nil_right, ← accepts_nil_right isRepeat acc]
      | cons s w => rw [accepts_nil_cons] at hr; cases hr
    | cons b r ihr =>
      have ihl {w : List σ} (h : accepts isRepeat acc l w = true)
          (h' : accepts isRepeat acc (b :: r) w = true) :
          overlap isRepeat compatible l (b :: r) = true :=
        ih (fun x hx => hc x (mem_cons_of_mem _ hx)) h h'
      have ihr {w : List σ} (h : accepts isRepeat acc (a :: l) w = true)
          (h' : accepts isRepeat acc r w = true) :
          overlap isRepeat compatible (a :: l) r = true :=
        ihr (fun x hx y hy => hc x hx y (mem_cons_of_mem _ hy)) h h'
      cases ha : isRepeat a with
      | true =>
        rw [overlap_repeat (by rw [ha, Bool.true_or]), Bool.or_eq_true]
        induction w with
        | nil =>
          rw [accepts_cons_nil, Bool.and_eq_true] at hl
          exact .inl (ihl hl.2 hr)
        | cons s w ihw =>
          rw [accepts_repeat _ _ ha, Bool.or_eq_true] at hl
          rcases hl with hl | hl
          · exact .inl (ihl hl hr)
          · cases hb : isRepeat b with
            | true =>
              rw [accepts_repeat _ _ hb, Bool.or_eq_true] at hr
              rcases hr with hr | hr
              · refine .inr (ihr ?_ hr)
                rw [accepts_repeat _ _ ha, hl, Bool.or_true]
              · exact ihw hl hr
            | false =>
              rw [accepts_item _ _ hb, Bool.and_eq_true] at hr
              exact .inr (ihr hl hr.2)
      | false =>
        cases w with
        | nil => rw [accepts_cons_nil, ha] at hl; cases hl
        | cons s w =>
          rw [accepts_item _ _ ha, Bool.and_eq_true] at hl
          cases hb : isRepeat b with
          | true =>
            rw [overlap_repeat (by rw [hb, Bool.or_true]), Bool.or_eq_true]
            rw [accepts_repeat _ _ hb, Bool.or_eq_true] at hr
            rcases hr with hr | hr
            · refine .inr (ihr ?_ hr)
              rw [accepts_item _ _ ha, hl.1, hl.2, Bool.true_and]
            · exact .inl (ihl hl.2 hr)
          | false =>
            rw [accepts_item _ _ hb, Bool.and_eq_true] at hr
            have hab := hc a (mem_cons_self ..) b (mem_cons_self ..) ha hb s hl.1 hr.1
            have hrest := ih (fun x hx y hy =>
              hc x (mem_cons_of_mem _ hx) y (mem_cons_of_mem _ hy)) hl.2 hr.2
            rw [overlap_item (by rw [ha, hb, Bool.or_false]), hab, hrest, Bool.true_and]

/-- Soundness of the recurrence: patterns that overlap have a common word, provided that every item
accepts a letter and compatible items share one; the letters can be chosen among some. -/
theorem exists_common_word {Q : σ → Prop} {l r : List α}
    (hl : ∀ a ∈ l, isRepeat a = false → ∃ s, Q s ∧ acc a s = true)
    (hr : ∀ b ∈ r, isRepeat b = false → ∃ s, Q s ∧ acc b s = true)
    (hc : ∀ a ∈ l, ∀ b ∈ r, isRepeat a = false → isRepeat b = false → compatible a b = true →
      ∃ s, Q s ∧ acc a s = true ∧ acc b s = true)
    (h : overlap isRepeat compatible l r = true) :
    ∃ w, (∀ s ∈ w, Q s) ∧ accepts isRepeat acc l w = true ∧ accepts isRepeat acc r w = true := by
  induction l generalizing r with
  | nil => exact ⟨[], by simp, rfl, by rwa [accepts_nil_right]⟩
  | cons a l ih =>
    have hl' := fun x hx => hl x (mem_cons_of_mem a hx)
    -- The right pattern shrinks next.
    induction r with
    | nil =>
      rw [overlap_nil_right] at h
      exact ⟨[], by simp, by rwa [accepts_nil_right], rfl⟩
    | cons b r ihr =>
      have hr' := fun y hy => hr y (mem_cons_of_mem b hy)
      cases hrep : isRepeat a || isRepeat b with
      | true =>
        rw [overlap_repeat hrep, Bool.or_eq_true] at h
        rw [Bool.or_eq_true] at hrep
        rcases h with h | h
        · obtain ⟨w, hw, hlw, hrw⟩ := ih hl' hr (fun x hx => hc x (mem_cons_of_mem a hx)) h
          cases ha : isRepeat a with
          | true => exact ⟨w, hw, accepts_cons_of_accepts _ _ ha hlw, hrw⟩
          | false =>
            have hb : isRepeat b = true := by simpa [ha] using hrep
            obtain ⟨s, hs, has⟩ := hl a (mem_cons_self ..) ha
            refine ⟨s :: w, forall_mem_cons.mpr ⟨hs, hw⟩, ?_, ?_⟩
            · rw [accepts_item _ _ ha, has, hlw, Bool.and_self]
            · rw [accepts_repeat _ _ hb, hrw, Bool.or_true]
        · obtain ⟨w, hw, hlw, hrw⟩ :=
            ihr hr' (fun x hx y hy => hc x hx y (mem_cons_of_mem b hy)) h
          cases hb : isRepeat b with
          | true => exact ⟨w, hw, hlw, accepts_cons_of_accepts _ _ hb hrw⟩
          | false =>
            have ha : isRepeat a = true := by simpa [hb] using hrep
            obtain ⟨s, hs, hbs⟩ := hr b (mem_cons_self ..) hb
            refine ⟨s :: w, forall_mem_cons.mpr ⟨hs, hw⟩, ?_, ?_⟩
            · rw [accepts_repeat _ _ ha, hlw, Bool.or_true]
            · rw [accepts_item _ _ hb, hbs, hrw, Bool.and_self]
      | false =>
        rw [overlap_item hrep, Bool.and_eq_true] at h
        rw [Bool.or_eq_false_iff] at hrep
        obtain ⟨s, hs, has, hbs⟩ :=
          hc a (mem_cons_self ..) b (mem_cons_self ..) hrep.1 hrep.2 h.1
        obtain ⟨w, hw, hlw, hrw⟩ :=
          ih hl' hr' (fun x hx y hy =>
            hc x (mem_cons_of_mem a hx) y (mem_cons_of_mem b hy)) h.2
        refine ⟨s :: w, forall_mem_cons.mpr ⟨hs, hw⟩, ?_, ?_⟩
        · rw [accepts_item _ _ hrep.1, has, hlw, Bool.and_self]
        · rw [accepts_item _ _ hrep.2, hbs, hrw, Bool.and_self]

/-- Against a pattern of single letters the recurrence is plain membership. -/
theorem overlap_letters (letter : σ → α) (hi : ∀ s, isRepeat (letter s) = false)
    (r : List α) (w : List σ) :
    overlap isRepeat compatible (w.map letter) r =
      accepts isRepeat (fun b s => compatible (letter s) b) r w := by
  induction r generalizing w with
  | nil =>
    cases w with
    | nil => rfl
    | cons s w =>
      rw [overlap_nil_right, map_cons, all_cons, hi, Bool.false_and, accepts_nil_cons]
  | cons b r ih =>
    induction w with
    | nil => rw [map_nil, overlap_nil_left, accepts_nil_right]
    | cons s w ihw =>
      have ihr := ih (s :: w)
      rw [map_cons] at ihr ⊢
      cases hb : isRepeat b with
      | true =>
        rw [overlap_repeat (by rw [hb, Bool.or_true]), accepts_repeat _ _ hb, ihr, ihw,
          Bool.or_comm]
      | false =>
        rw [overlap_item (by rw [hi, hb, Bool.or_false]), accepts_item _ _ hb, ih w]

end

end AgentMail.Lib.RepeatPattern
