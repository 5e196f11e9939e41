import Mathlib.Algebra.Order.Ring.Nat
import Mathlib.Algebra.Order.BigOperators.Group.List
import Mathlib.Algebra.Order.Group.Nat
import AgentMail.Cache.S3Fifo

/-!
# What every eviction of the S3-FIFO cache keeps

The queues stay coherent and within their shares, and an eviction makes the room it is called
for. While `insert` turns a ghost into a visible key, that ghost is still indexed but counted no
more: it is the key that is owed.
-/

namespace AgentMail.Cache

open Lib TicketQueues List

variable {K V : Type*} [DecidableEq K]

variable {n : Node V}

theorem Node.kind_of_value_eq_none (h : n.value? = none) : n.kind = .ghost := by
  cases n with
  | small value freq seq => cases h
  | main value freq seq => cases h
  | ghost seq => rfl

theorem Node.value_of_kind_ghost (h : n.kind = .ghost) : n.value? = none := by
  cases n with
  | small value freq seq => cases h
  | main value freq seq => cases h
  | ghost seq => rfl

namespace Store

/-- Evictions index no new key, and a key that stays visible keeps its value. -/
def Ages (Q Q' : Store K V) : Prop :=
  ∀ k m, Q'.node k = some m → ∃ n, Q.node k = some n ∧ (m.value? = none ∨ m.value? = n.value?)

theorem Ages.refl (Q : Store K V) : Ages Q Q := fun _ m hm => ⟨m, hm, Or.inr rfl⟩

theorem Ages.trans {Q Q' Q'' : Store K V} (h : Ages Q Q') (h' : Ages Q' Q'') : Ages Q Q'' := by
  intro k m hm
  obtain ⟨n', hn', hvalue'⟩ := h' k m hm
  obtain ⟨n, hn, hvalue⟩ := h k n' hn'
  refine ⟨n, hn, ?_⟩
  rcases hvalue' with hnone | heq
  · exact Or.inl hnone
  · rw [heq]
    exact hvalue

variable {k : K}

theorem Ages.node_eq_none {Q Q' : Store K V} (h : Ages Q Q') (hk : Q.node k = none) :
    Q'.node k = none := by
  cases hm : Q'.node k with
  | none => rfl
  | some m =>
    obtain ⟨n, hn, _⟩ := h k m hm
    rw [hk] at hn
    cases hn

/-- Coherent queues within their shares. -/
structure Fits (capacity : Kind → Nat) (owed : Option K) (Q : Store K V) : Prop
    extends Coherent Node.kind Node.seq owed Q where
  freq : ∀ k n, Q.node k = some n → n.freq ≤ 3
  within : ∀ a, Q.live a ≤ capacity a
  owedGhost : ∀ k n, owed = some k → Q.node k = some n → n.kind = .ghost

/-- The length up to which a queue is not compacted. -/
def bound (capacity : Kind → Nat) (a : Kind) : Nat := max (capacity a * 4) 4

/-- No queue is longer than that by more than the last entry. -/
def Short (capacity : Kind → Nat) (Q : Store K V) : Prop :=
  ∀ a, (Q.queue a).length ≤ bound capacity a + 1

/-- What an eviction does. -/
structure Evicts (capacity : Kind → Nat) (owed : Option K) (Q Q' : Store K V) : Prop where
  fits : Fits capacity owed Q'
  ages : Ages Q Q'
  spare : ∀ t, Q.Spare t → Q'.Spare t
  short : Short capacity Q → Short capacity Q'

/-- What an eviction does that stays in one queue. -/
structure EvictsFrom (a : Kind) (capacity : Kind → Nat) (owed : Option K) (Q Q' : Store K V) : Prop
    extends Evicts capacity owed Q Q' where
  live_eq : ∀ b, b ≠ a → Q'.live b = Q.live b
  queue_eq : ∀ b, b ≠ a → Q'.queue b = Q.queue b
  length_le : (Q'.queue a).length ≤ (Q.queue a).length

variable {capacity : Kind → Nat} {owed : Option K} {Q Q' Q'' : Store K V} {a : Kind}

theorem Evicts.trans (h : Evicts capacity owed Q Q') (h' : Evicts capacity owed Q' Q'') :
    Evicts capacity owed Q Q'' :=
  ⟨h'.fits, h.ages.trans h'.ages, fun t ht => h'.spare t (h.spare t ht), h'.short ∘ h.short⟩

omit [DecidableEq K] in
theorem Short.of_length_le (h : Short capacity Q) (hqueue : ∀ b, b ≠ a → Q'.queue b = Q.queue b)
    (hlength : (Q'.queue a).length ≤ bound capacity a + 1) : Short capacity Q' := by
  intro b
  by_cases hb : b = a
  · rw [hb]
    exact hlength
  · rw [hqueue b hb]
    exact h b

theorem EvictsFrom.refl (h : Fits capacity owed Q) : EvictsFrom a capacity owed Q Q :=
  ⟨⟨h, Ages.refl Q, fun _ ht => ht, id⟩, fun _ _ => rfl, fun _ _ => rfl, Nat.le_refl _⟩

theorem EvictsFrom.trans (h : EvictsFrom a capacity owed Q Q')
    (h' : EvictsFrom a capacity owed Q' Q'') : EvictsFrom a capacity owed Q Q'' where
  toEvicts := h.toEvicts.trans h'.toEvicts
  live_eq b hb := (h'.live_eq b hb).trans (h.live_eq b hb)
  queue_eq b hb := (h'.queue_eq b hb).trans (h.queue_eq b hb)
  length_le := h'.length_le.trans h.length_le

/-! ### Single steps -/

theorem Fits.compactIfLong (h : Fits capacity owed Q) (a : Kind) :
    EvictsFrom a capacity owed Q (Q.compactIfLong capacity a) := by
  unfold Store.compactIfLong
  split
  · have hqueue (b : Kind) (hb : b ≠ a) : (Q.compact Node.kind Node.seq a).queue b = Q.queue b := by
      unfold compact
      rw [queue_setQueue, if_neg hb]
    have hlength : ((Q.compact Node.kind Node.seq a).queue a).length ≤ (Q.queue a).length := by
      unfold compact
      rw [queue_setQueue, if_pos rfl]
      exact length_filter_le ..
    exact ⟨⟨⟨h.toCoherent.compact a, h.freq, h.within, h.owedGhost⟩, Ages.refl Q,
      fun t ht => ht.compact, fun hs => hs.of_length_le hqueue (hlength.trans (hs a))⟩, fun b hb => rfl,
      hqueue, hlength⟩
  · exact EvictsFrom.refl h

/-- A queue that was long enough has only its live entries left. -/
theorem Fits.length_compactIfLong (h : Fits capacity owed Q) (a : Kind) :
    ((Q.compactIfLong capacity a).queue a).length ≤ bound capacity a := by
  unfold Store.compactIfLong bound
  split
  · have hlength := h.toCoherent.length_compact_le a
    have hwithin := h.within a
    omega
  · omega

theorem live_compactIfLong (b : Kind) : (Q.compactIfLong capacity a).live b = Q.live b := by
  unfold compactIfLong
  split <;> rfl

/-- Taking the front entry off a queue that owes nothing. -/
theorem Fits.take (h : Fits capacity owed Q) {e : K × Nat} {rest : List (K × Nat)}
    (hqueue : Q.queue a = e :: rest) (howed : owed ≠ none → a ≠ .ghost) :
    ∃ r, Q.take Node.kind Node.seq a e rest = some r ∧ Taken Node.kind Q a e rest r ∧
      EvictsFrom a capacity owed Q r.2 ∧ (r.1 = none ↔ Q.holds Node.kind Node.seq a e = false) := by
  have hkind : ∀ k n, owed = some k → Q.node k = some n → n.kind ≠ a := by
    intro k n hk hn hn'
    exact howed (by simp [hk]) (hn'.symm.trans (h.owedGhost k n hk hn))
  obtain ⟨r, hr, htaken, hcoherent, hholds⟩ := h.toCoherent.take hqueue hkind
  have hnode : ∀ k n, r.2.node k = some n → Q.node k = some n := by
    intro k n hn
    rcases htaken.node_eq k with heq | ⟨_, _, hnone⟩
    · rw [← heq]
      exact hn
    · rw [hn] at hnone
      cases hnone
  have hqueueEq (b : Kind) (hb : b ≠ a) : r.2.queue b = Q.queue b := by
    rw [htaken.queue_eq, if_neg hb]
  have hlength : (r.2.queue a).length ≤ (Q.queue a).length := by
    rw [htaken.queue_eq, if_pos rfl, hqueue]
    exact Nat.le_succ _
  refine ⟨r, hr, htaken, ⟨⟨⟨hcoherent, ?_, ?_, ?_⟩, ?_, ?_,
    fun hs => hs.of_length_le hqueueEq (hlength.trans (hs a))⟩, ?_, hqueueEq, hlength⟩, hholds⟩
  · exact fun k n hn => h.freq k n (hnode k n hn)
  · intro b
    by_cases hb : b = a
    · rw [hb]
      exact htaken.live_le.trans (h.within a)
    · rw [htaken.live_of_ne hb]
      exact h.within b
  · exact fun k n hk hn => h.owedGhost k n hk (hnode k n hn)
  · exact fun k m hm => ⟨m, hnode k m hm, Or.inr rfl⟩
  · exact fun t ht => htaken.spare hqueue ht
  · exact fun b hb => htaken.live_of_ne hb

/-- A key that is not indexed joins a queue with room, under a ticket of its own. -/
theorem Fits.push (h : Fits capacity owed Q) (hk : Q.node k = none) (hspare : Q.Spare n.seq)
    (hfreq : n.freq ≤ 3) (hroom : Q.live n.kind < capacity n.kind) (howed : owed ≠ some k) :
    Fits capacity owed (Q.push Node.kind Node.seq k n) where
  toCoherent := h.toCoherent.push hspare (Or.inl ⟨hk, rfl⟩) howed
  freq k' m hm := by
    rw [node_push] at hm
    split at hm
    · exact Option.some.inj hm ▸ hfreq
    · exact h.freq k' m hm
  within b := by
    rw [live_push]
    split
    · next hb =>
      subst hb
      omega
    · exact h.within b
  owedGhost k' m hk' hm := by
    rw [node_push, if_neg (fun heq => howed (by rw [heq, hk']))] at hm
    exact h.owedGhost k' m hk' hm

theorem Fits.push_owed (h : Fits capacity (some k) Q) (hspare : Q.Spare n.seq)
    (hfreq : n.freq ≤ 3) (hroom : Q.live n.kind < capacity n.kind) :
    Fits capacity none (Q.push Node.kind Node.seq k n) where
  toCoherent := h.toCoherent.push hspare (Or.inr ⟨rfl, rfl⟩) (by simp)
  freq k' m hm := by
    rw [node_push] at hm
    split at hm
    · exact Option.some.inj hm ▸ hfreq
    · exact h.freq k' m hm
  within b := by
    rw [live_push]
    split
    · next hb =>
      subst hb
      omega
    · exact h.within b
  owedGhost k' m hk' hm := by cases hk'

theorem Fits.draw (h : Fits capacity owed Q) : Fits capacity owed Q.draw :=
  ⟨h.toCoherent.draw, h.freq, h.within, h.owedGhost⟩

/-! ### The ghost queue -/

theorem Fits.evictGhostLoop (h : Fits capacity owed Q) (hshare : 0 < capacity .ghost)
    {turns : Nat} (hturns : (Q.queue .ghost).length ≤ turns)
    (howed : owed ≠ none → Q.live .ghost < capacity .ghost) :
    ∃ Q', Store.evictGhostLoop capacity turns Q = some Q' ∧
      EvictsFrom .ghost capacity owed Q Q' ∧ Q'.live .ghost < capacity .ghost := by
  induction turns generalizing Q with
  | zero =>
    refine ⟨Q, rfl, EvictsFrom.refl h, ?_⟩
    by_contra hfull
    have hne := h.toCoherent.queue_ne_nil (a := .ghost) (by omega)
    exact hne (eq_nil_of_length_eq_zero (by omega))
  | succ turns ih =>
    unfold Store.evictGhostLoop
    by_cases hroom : Q.live .ghost < capacity .ghost
    · rw [if_pos hroom]
      exact ⟨Q, rfl, EvictsFrom.refl h, hroom⟩
    rw [if_neg hroom]
    have hpaid : owed = none := by
      by_contra hne
      exact hroom (howed hne)
    cases hqueue : Q.queue .ghost with
    | nil => exact absurd hqueue (h.toCoherent.queue_ne_nil (by omega))
    | cons e rest =>
      obtain ⟨r, hr, htaken, hevicts, _⟩ := h.take hqueue (by simp [hpaid])
      have hlength : (r.2.queue .ghost).length ≤ turns := by
        rw [htaken.queue_eq, if_pos rfl]
        rw [hqueue, length_cons] at hturns
        omega
      obtain ⟨Q', hloop, hrest, hless⟩ := ih hevicts.fits hlength (fun hne => absurd hpaid hne)
      refine ⟨Q', ?_, hevicts.trans hrest, hless⟩
      dsimp only
      rw [hr]
      exact hloop

/-- `evict_ghost_if_full` makes room for a ghost. -/
theorem Fits.evictGhostIfFull (h : Fits capacity owed Q) (hshare : 0 < capacity .ghost)
    (howed : owed ≠ none → Q.live .ghost < capacity .ghost) :
    ∃ Q', Store.evictGhostIfFull capacity Q = some Q' ∧
      EvictsFrom .ghost capacity owed Q Q' ∧ Q'.live .ghost < capacity .ghost ∧
        (Q'.queue .ghost).length ≤ bound capacity .ghost := by
  have hcompact := h.compactIfLong .ghost
  obtain ⟨Q', hloop, hevicts, hroom⟩ := hcompact.fits.evictGhostLoop hshare (Nat.le_refl _)
    (by rw [live_compactIfLong]; exact howed)
  exact ⟨Q', hloop, hcompact.trans hevicts, hroom, hevicts.length_le.trans (h.length_compactIfLong _)⟩

/-! ### The main queue

Every turn either drops a dead entry, or lowers a frequency, or evicts. So the entries and the
frequencies of the queue bound the turns before the first eviction. -/

/-- The turns that an entry can take up. -/
def cost (Q : Store K V) (e : K × Nat) : Nat :=
  if Q.holds Node.kind Node.seq .main e then ((Q.node e.1).map Node.freq).getD 0 + 1 else 1

/-- The turns that the main queue can take up before it evicts. -/
def work (Q : Store K V) : Nat := ((Q.queue .main).map Q.cost).sum

theorem Fits.work_le (h : Fits capacity owed Q) : work Q ≤ (Q.queue .main).length * 4 := by
  have hcost : ∀ x ∈ (Q.queue .main).map Q.cost, x ≤ 4 := by
    intro x hx
    obtain ⟨e, _, rfl⟩ := mem_map.mp hx
    unfold cost
    split
    · next hholds =>
      obtain ⟨n, hn, _⟩ := holds_iff.mp hholds
      have hfreq := h.freq e.1 n hn
      rw [hn, Option.map_some, Option.getD_some]
      omega
    · omega
  have hsum := sum_le_card_nsmul _ 4 hcost
  rw [length_map] at hsum
  exact hsum

theorem cost_pos (Q : Store K V) (e : K × Nat) : 0 < cost Q e := by
  unfold cost
  split <;> omega

/-- The entries left behind cost what they did, as long as no key comes back under one of their
tickets. -/
theorem cost_rest {e e' : K × Nat} {Q' : Store K V} (hne : e'.2 ≠ e.2)
    (hheld : Q.holds Node.kind Node.seq .main e = true)
    (hsame : ∀ k, k ≠ e.1 → Q'.node k = Q.node k)
    (hback : ∀ n, Q'.node e.1 = some n → n.seq ≠ e'.2) : cost Q' e' = cost Q e' := by
  unfold cost holds
  by_cases hk : e'.1 = e.1
  · obtain ⟨n, hn, _, hseq⟩ := holds_iff.mp hheld
    rw [hk, hn]
    have hold : (Option.any (fun n : Node V => n.kind == .main && n.seq == e'.2) (some n)) = false := by
      simp [hseq, Ne.symm hne]
    rw [hold]
    cases hn' : Q'.node e.1 with
    | none => rfl
    | some n' =>
      have hnew : (Option.any (fun n : Node V => n.kind == .main && n.seq == e'.2) (some n')) =
          false := by
        simp [hback n' hn']
      rw [hnew]
      rfl
  · rw [hsame e'.1 hk]

theorem work_stale {e : K × Nat} {rest : List (K × Nat)} (hqueue : Q.queue .main = e :: rest) :
    work (Q.setQueue .main rest) < work Q := by
  have hpos := cost_pos Q e
  unfold work
  rw [queue_setQueue, if_pos rfl, hqueue, map_cons, sum_cons]
  change (rest.map Q.cost).sum < _
  omega

section

variable (h : Fits capacity owed Q)
include h

theorem work_requeue {e : K × Nat} {rest : List (K × Nat)} {value : V} {freq seq : Nat} (hqueue : Q.queue .main = e :: rest)
    (hnode : Q.node e.1 = some (.main value freq seq))
    (htaken : Taken Node.kind Q .main e rest (some (.main value freq seq), Q'))
    (hheld : Q.holds Node.kind Node.seq .main e = true) (hfreq : 1 ≤ freq) :
    work (Q'.draw.push Node.kind Node.seq e.1 (.main value (freq - 1) Q'.draw.issued)) < work Q := by
  have hfresh : ∀ e' ∈ rest, Q'.draw.issued ≠ e'.2 := by
    intro e' he'
    have hle := h.bounded .main e' (hqueue ▸ mem_cons_of_mem e he')
    have hissued := htaken.issued_eq
    dsimp only at hissued
    change Q'.issued + 1 ≠ e'.2
    omega
  have hrest : rest.map (cost (Q'.draw.push Node.kind Node.seq e.1
      (.main value (freq - 1) Q'.draw.issued))) = rest.map Q.cost := by
    apply map_congr_left
    intro e' he'
    apply cost_rest _ hheld
    · intro k hk
      rw [node_push, if_neg (Ne.symm hk), node_draw]
      rcases htaken.node_eq k with heq | ⟨_, heq, _⟩
      · exact heq
      · exact absurd heq.symm hk
    · intro n hn
      rw [node_push, if_pos rfl] at hn
      rw [← Option.some.inj hn]
      exact hfresh e' he'
    · have hnodup := h.distinct .main
      rw [hqueue, map_cons, nodup_cons] at hnodup
      intro heq
      exact hnodup.1 (heq ▸ mem_map_of_mem he')
  have hfront : cost Q e = freq + 1 := by
    rw [cost, if_pos hheld, hnode]
    rfl
  have hback : cost (Q'.draw.push Node.kind Node.seq e.1 (.main value (freq - 1) Q'.draw.issued))
      (e.1, Q'.draw.issued) = freq := by
    have hnew : (Q'.draw.push Node.kind Node.seq e.1 (.main value (freq - 1) Q'.draw.issued)).holds
        Node.kind Node.seq .main (e.1, Q'.draw.issued) = true :=
      holds_iff.mpr ⟨_, by rw [node_push, if_pos rfl], rfl, rfl⟩
    rw [cost, if_pos hnew, node_push, if_pos rfl]
    change freq - 1 + 1 = freq
    omega
  have hqueue' : (Q'.draw.push Node.kind Node.seq e.1 (.main value (freq - 1) Q'.draw.issued)).queue
      .main = rest ++ [(e.1, Q'.draw.issued)] := by
    have hleft := htaken.queue_eq .main
    rw [if_pos rfl] at hleft
    rw [queue_push]
    exact congrArg (· ++ [(e.1, Q'.draw.issued)]) hleft
  unfold work
  rw [hqueue', hqueue, map_append, sum_append, hrest, map_singleton, hback,
    sum_singleton, map_cons, sum_cons, hfront]
  omega

theorem Fits.requeue (value : V) {freq : Nat} (hk : Q.node k = none)
    (hfreq : freq ≤ 3) (hroom : Q.live .main < capacity .main) (howed : owed ≠ some k) :
    Fits capacity owed (Q.draw.push Node.kind Node.seq k (.main value freq Q.draw.issued)) :=
  h.draw.push hk h.toCoherent.spare_draw hfreq hroom howed

theorem Fits.evictMainLoop (hshare : 0 < capacity .main) (budget : Nat)
    (hbudget : work Q < budget ∨ Q.live .main < capacity .main) :
    ∃ Q', Store.evictMainLoop capacity budget Q = some Q' ∧
      EvictsFrom .main capacity owed Q Q' ∧ Q'.live .main < capacity .main := by
  induction budget generalizing Q with
  | zero => exact ⟨Q, rfl, EvictsFrom.refl h, by omega⟩
  | succ budget ih =>
    unfold Store.evictMainLoop
    by_cases hroom : Q.live .main < capacity .main
    · rw [if_pos hroom]
      exact ⟨Q, rfl, EvictsFrom.refl h, hroom⟩
    rw [if_neg hroom]
    cases hqueue : Q.queue .main with
    | nil => exact absurd hqueue (h.toCoherent.queue_ne_nil (by omega))
    | cons e rest =>
      obtain ⟨r, hr, htaken, hevicts, hheld⟩ := h.take hqueue (by simp)
      simp only [hr, Option.bind_eq_bind, Option.bind_some]
      cases htaken with
      | stale =>
        have hless := work_stale hqueue
        replace hevicts : EvictsFrom .main capacity owed Q (Q.setQueue .main rest) := hevicts
        obtain ⟨Q', hloop, hrest, hdone⟩ := ih hevicts.fits (Or.inl (by omega))
        exact ⟨Q', hloop, hevicts.trans hrest, hdone⟩
      | held n Q₁ hnode hkind hunlink hlive =>
        have htaken : Taken Node.kind Q .main e rest (some n, Q₁) :=
          .held n Q₁ hnode hkind hunlink hlive
        have hnone := htaken.node_self
        replace hevicts : EvictsFrom .main capacity owed Q Q₁ := hevicts
        have hroom₁ : Q₁.live .main < capacity .main := by
          have := h.within .main
          omega
        cases n with
        | small value freq seq => cases hkind
        | ghost seq => cases hkind
        | main value freq seq =>
          dsimp only
          by_cases hfreq : freq ≥ 1
          · rw [if_pos hfreq]
            have hheld : Q.holds Node.kind Node.seq .main e = true := by simpa using hheld
            have hless := work_requeue h hqueue hnode htaken hheld hfreq
            have hthree : freq ≤ 3 := h.freq e.1 _ hnode
            have howed : owed ≠ some e.1 := fun heq => nomatch h.owedGhost e.1 _ heq hnode
            have hfits := hevicts.fits.requeue value hnone (show freq - 1 ≤ 3 by omega)
              hroom₁ howed
            obtain ⟨Q', hloop, hrest, hdone⟩ := ih hfits (Or.inl (by omega))
            refine ⟨Q', hloop, EvictsFrom.trans ?_ hrest, hdone⟩
            have hqueueEq (b : Kind) (hb : b ≠ .main) : (Q₁.draw.push Node.kind Node.seq e.1
                (.main value (freq - 1) Q₁.draw.issued)).queue b = Q.queue b := by
              rw [queue_push]
              change (if b = Kind.main then _ else Q₁.queue b) = Q.queue b
              rw [if_neg hb]
              exact hevicts.queue_eq b hb
            have hlength : ((Q₁.draw.push Node.kind Node.seq e.1
                (.main value (freq - 1) Q₁.draw.issued)).queue .main).length ≤
                  (Q.queue .main).length := by
              have hrest : Q₁.queue .main = rest := by rw [htaken.queue_eq, if_pos rfl]
              rw [queue_push, hqueue]
              change (if Kind.main = Kind.main then Q₁.queue .main ++ _ else _).length ≤ _
              rw [if_pos rfl, hrest, length_append]
              exact Nat.le_refl _
            refine ⟨⟨hfits, ?_, ?_, fun hs => hs.of_length_le hqueueEq (hlength.trans (hs _))⟩, ?_,
              hqueueEq, hlength⟩
            · intro k m hm
              rw [node_push] at hm
              split at hm
              · next heq =>
                cases hm
                exact ⟨.main value freq seq, by rw [← heq]; exact hnode, Or.inr rfl⟩
              · exact hevicts.ages k m hm
            · intro t ht
              have ht₁ := hevicts.spare t ht
              exact ht₁.draw.push (Nat.ne_of_gt (Nat.lt_succ_of_le ht₁.drawn))
            · intro b hb
              rw [live_push]
              change Q₁.live b + (if b = Kind.main then 1 else 0) = Q.live b
              rw [if_neg hb]
              exact hevicts.live_eq b hb
          · rw [if_neg hfreq]
            obtain ⟨Q', hloop, hrest, hdone⟩ := ih hevicts.fits (Or.inr hroom₁)
            exact ⟨Q', hloop, hevicts.trans hrest, hdone⟩

/-- `evict_main_if_full` makes room for a visible key: its budget is never the reason to stop. -/
theorem Fits.evictMainIfFull (hshare : 0 < capacity .main) :
    ∃ Q', Store.evictMainIfFull capacity Q = some Q' ∧
      EvictsFrom .main capacity owed Q Q' ∧ Q'.live .main < capacity .main ∧
        (Q'.queue .main).length ≤ bound capacity .main := by
  have hcompact := h.compactIfLong .main
  have hwork := hcompact.fits.work_le
  obtain ⟨Q', hloop, hevicts, hroom⟩ := hcompact.fits.evictMainLoop hshare
    (((Q.compactIfLong capacity .main).queue .main).length * 4 + 1) (Or.inl (by omega))
  refine ⟨Q', ?_, hcompact.trans hevicts, hroom,
    hevicts.length_le.trans (h.length_compactIfLong _)⟩
  unfold Store.evictMainIfFull
  rw [if_neg (by omega)]
  exact hloop

end

/-! ### The small queue -/

/-- Where a key goes that leaves the small queue: its node keeps the value or is a ghost, and the
small queue is not touched. -/
structure Settles (capacity : Kind → Nat) (owed : Option K) (k : K) (value : V) (Q Q' : Store K V) :
    Prop where
  fits : Fits capacity owed Q'
  moved : ∃ n, Q'.node k = some n ∧ (n.value? = none ∨ n.value? = some value)
  others : ∀ k' m, k' ≠ k → Q'.node k' = some m →
    ∃ n, Q.node k' = some n ∧ (m.value? = none ∨ m.value? = n.value?)
  spare : ∀ t, Q.Spare t → Q'.Spare t
  live_eq : Q'.live .small = Q.live .small
  queue_eq : Q'.queue .small = Q.queue .small
  short : Short capacity Q → Short capacity Q'

/-- A queue that was compacted has room for one more entry. -/
theorem Short.push (h : Short capacity Q) (hlength : (Q.queue n.kind).length ≤ bound capacity n.kind) :
    Short capacity (Q.push Node.kind Node.seq k n) := by
  refine h.of_length_le (a := n.kind) (fun b hb => ?_) ?_
  · rw [queue_push, if_neg hb]
  · rw [queue_push, if_pos rfl, length_append, length_singleton]
    exact Nat.succ_le_succ hlength

theorem EvictsFrom.settles {value : V} (h : EvictsFrom n.kind capacity owed Q.draw Q')
    (hQ : Fits capacity owed Q) (hk : Q.node k = none) (howed : owed ≠ some k)
    (hsmall : Kind.small ≠ n.kind) (hseq : n.seq = Q.issued + 1) (hfreq : n.freq ≤ 3)
    (hvalue : n.value? = none ∨ n.value? = some value) (hroom : Q'.live n.kind < capacity n.kind)
    (hlength : (Q'.queue n.kind).length ≤ bound capacity n.kind) :
    Settles capacity owed k value Q (Q'.push Node.kind Node.seq k n) where
  fits := by
    refine h.fits.push (h.ages.node_eq_none hk) ?_ hfreq hroom howed
    rw [hseq]
    exact h.spare _ hQ.toCoherent.spare_draw
  moved := ⟨n, by rw [node_push, if_pos rfl], hvalue⟩
  others k' m hne hm := by
    rw [node_push, if_neg (Ne.symm hne)] at hm
    exact h.ages k' m hm
  spare t ht := by
    refine (h.spare t ht.draw).push ?_
    have := ht.drawn
    omega
  live_eq := by
    rw [live_push, if_neg hsmall]
    exact h.live_eq .small hsmall
  queue_eq := by
    rw [queue_push, if_neg hsmall]
    exact h.queue_eq .small hsmall
  short hs := (h.short hs).push hlength

section

variable (h : Fits capacity owed Q)
include h

theorem Fits.demote (hshare : 0 < capacity .ghost)
    (hghost : owed ≠ none → Q.live .ghost < capacity .ghost) (hk : Q.node k = none)
    (howed : owed ≠ some k) (value : V) :
    ∃ Q', Store.demote capacity k (Q.issued + 1) Q.draw = some Q' ∧
      Settles capacity owed k value Q Q' := by
  obtain ⟨Q₁, hevict, hfrom, hroom, hlength⟩ := h.draw.evictGhostIfFull hshare hghost
  refine ⟨_, ?_, EvictsFrom.settles (n := .ghost (Q.issued + 1)) hfrom h hk howed nofun rfl
    (Nat.zero_le 3) (Or.inl rfl) hroom hlength⟩
  rw [Store.demote, hevict]
  rfl

theorem Fits.promote (hshare : 0 < capacity .main)
    (hk : Q.node k = none) (howed : owed ≠ some k) (value : V) :
    ∃ Q', Store.promote capacity k value (Q.issued + 1) Q.draw = some Q' ∧
      Settles capacity owed k value Q Q' := by
  obtain ⟨Q₁, hevict, hfrom, hroom, hlength⟩ := h.draw.evictMainIfFull hshare
  refine ⟨_, ?_, EvictsFrom.settles (n := .main value 0 (Q.issued + 1)) hfrom h hk howed nofun
    rfl (Nat.zero_le 3) (Or.inr rfl) hroom hlength⟩
  rw [Store.promote, hevict]
  rfl

theorem Fits.leaveSmall (hshare : 0 < capacity .ghost)
    (hghost : owed ≠ none → Q.live .ghost < capacity .ghost) (hk : Q.node k = none)
    (howed : owed ≠ some k) (value : V) (freq : Nat) :
    ∃ Q', Store.leaveSmall capacity k value freq (Q.issued + 1) Q.draw = some Q' ∧
      Settles capacity owed k value Q Q' := by
  unfold Store.leaveSmall
  split
  · split
    · exact h.demote hshare hghost hk howed value
    · next hmain => exact h.promote (Nat.pos_of_ne_zero hmain) hk howed value
  · exact h.demote hshare hghost hk howed value

/-- `evict_main_if_full` ends, within its budget, with room in the main queue. -/
def MakesRoom (capacity : Kind → Nat) (Q : Store K V) : Prop :=
  ∃ Q', Store.evictMainIfFull capacity Q = some Q' ∧ Q'.live .main < capacity .main

/-- The stores on which the loop of `evict_small_if_full` calls `evict_main_if_full`. -/
def mainCallsLoop (capacity : Kind → Nat) : Nat → Store K V → List (Store K V)
  | 0, _ => []
  | turns + 1, Q =>
    if Q.live .small < capacity .small then []
    else
      match Q.queue .small with
      | [] => []
      | e :: rest =>
        match Q.take Node.kind Node.seq .small e rest with
        | none => []
        | some (some (.small value freq _), Q) =>
          let Q := Q.draw
          (if freq ≥ 1 ∧ capacity .main ≠ 0 then [Q] else []) ++
            (Store.leaveSmall capacity e.1 value freq Q.issued Q).elim [] (mainCallsLoop capacity turns)
        | some (_, Q) => mainCallsLoop capacity turns Q

theorem Fits.evictSmallLoop (hshare : 0 < capacity .small)
    (hghost : 0 < capacity .ghost) {turns : Nat} (hturns : (Q.queue .small).length ≤ turns)
    (howed : owed ≠ none → Q.live .ghost < capacity .ghost ∨ Q.live .small < capacity .small) :
    ∃ Q', Store.evictSmallLoop capacity turns Q = some Q' ∧ Evicts capacity owed Q Q' ∧
      Q'.live .small < capacity .small ∧ (Q'.queue .small).length ≤ (Q.queue .small).length ∧
        ∀ S ∈ mainCallsLoop capacity turns Q, MakesRoom capacity S := by
  induction turns generalizing Q with
  | zero =>
    refine ⟨Q, rfl, (EvictsFrom.refl (a := .small) h).toEvicts, ?_, Nat.le_refl _, forall_mem_nil _⟩
    by_contra hfull
    have hne := h.toCoherent.queue_ne_nil (a := .small) (by omega)
    exact hne (eq_nil_of_length_eq_zero (by omega))
  | succ turns ih =>
    unfold Store.evictSmallLoop mainCallsLoop
    by_cases hroom : Q.live .small < capacity .small
    · rw [if_pos hroom, if_pos hroom]
      exact ⟨Q, rfl, (EvictsFrom.refl (a := .small) h).toEvicts, hroom, Nat.le_refl _, forall_mem_nil _⟩
    rw [if_neg hroom, if_neg hroom]
    cases hqueue : Q.queue .small with
    | nil => exact absurd hqueue (h.toCoherent.queue_ne_nil (by omega))
    | cons e rest =>
      obtain ⟨r, hr, htaken, hevicts, _⟩ := h.take hqueue (by simp)
      have hrest : r.2.queue .small = rest := by rw [htaken.queue_eq, if_pos rfl]
      rw [hqueue, length_cons] at hturns
      simp only [hr, Option.bind_eq_bind, Option.bind_some]
      cases htaken with
      | stale =>
        replace hevicts : EvictsFrom .small capacity owed Q (Q.setQueue .small rest) := hevicts
        replace hrest : (Q.setQueue .small rest).queue .small = rest := hrest
        obtain ⟨Q', hloop, hrun, hdone, hlength, hcalls⟩ := ih hevicts.fits (by rw [hrest]; omega) howed
        exact ⟨Q', hloop, hevicts.toEvicts.trans hrun, hdone,
          (hlength.trans hevicts.length_le).trans_eq (congrArg length hqueue), hcalls⟩
      | held n Q₁ hnode hkind hunlink hlive =>
        have htaken : Taken Node.kind Q .small e rest (some n, Q₁) :=
          .held n Q₁ hnode hkind hunlink hlive
        have hnone := htaken.node_self
        replace hevicts : EvictsFrom .small capacity owed Q Q₁ := hevicts
        replace hrest : Q₁.queue .small = rest := hrest
        have hless : Q₁.live .small < capacity .small := by
          have := h.within .small
          omega
        have hghostLive : owed ≠ none → Q₁.live .ghost < capacity .ghost := by
          intro hne
          rw [hevicts.live_eq .ghost (by decide)]
          exact (howed hne).resolve_right hroom
        cases n with
        | main value freq seq => cases hkind
        | ghost seq => cases hkind
        | small value freq seq =>
          have hother : owed ≠ some e.1 := fun heq => nomatch h.owedGhost e.1 _ heq hnode
          obtain ⟨Q₂, hmove, hsettles⟩ := hevicts.fits.leaveSmall hghost hghostLive hnone hother value
            freq
          replace hmove : Store.leaveSmall capacity e.1 value freq Q₁.draw.issued Q₁.draw = some Q₂ :=
            hmove
          simp only [hmove, Option.bind_some]
          have hlength : (Q₂.queue .small).length ≤ turns := by
            rw [hsettles.queue_eq, hrest]
            omega
          have hnext : Q₂.live .small < capacity .small := by
            rw [hsettles.live_eq]
            exact hless
          obtain ⟨Q', hloop, hrun, hdone, hshrinks, hcalls⟩ :=
            ih hsettles.fits hlength fun _ => Or.inr hnext
          refine ⟨Q', hloop, Evicts.trans ⟨hsettles.fits, ?_, ?_, fun hs => hsettles.short (hevicts.short hs)⟩
            hrun, hdone, ?_, ?_⟩
          · intro k m hm
            by_cases hk : k = e.1
            · obtain ⟨n, hn, hvalue⟩ := hsettles.moved
              rw [hk, hn] at hm
              cases hm
              exact ⟨.small value freq seq, by rw [hk]; exact hnode, hvalue⟩
            · obtain ⟨n, hn, hvalue⟩ := hsettles.others k m hk hm
              obtain ⟨n', hn', hvalue'⟩ := hevicts.ages k n hn
              refine ⟨n', hn', ?_⟩
              rcases hvalue with hvalue | hvalue
              · exact Or.inl hvalue
              · rw [hvalue]
                exact hvalue'
          · exact fun t ht => hsettles.spare t (hevicts.spare t ht)
          · rw [hsettles.queue_eq, hrest] at hshrinks
            exact hshrinks.trans (Nat.le_succ _)
          · intro S hS
            rcases mem_append.mp hS with hS | hS
            · split at hS
              · next hmoves =>
                rw [mem_singleton.mp hS]
                obtain ⟨Q₃, hevict, -, hmade, -⟩ :=
                  hevicts.fits.draw.evictMainIfFull (Nat.pos_of_ne_zero hmoves.2)
                exact ⟨Q₃, hevict, hmade⟩
              · cases hS
            · exact hcalls S hS

/-- The stores on which `evict_small_if_full` calls `evict_main_if_full`. -/
def mainCallsSmall (capacity : Kind → Nat) (Q : Store K V) : List (Store K V) :=
  let Q := Q.compactIfLong capacity .small
  mainCallsLoop capacity (Q.queue .small).length Q

/-- `evict_small_if_full` makes room for a new key. -/
theorem Fits.evictSmallIfFull (hshare : 0 < capacity .small)
    (hghost : 0 < capacity .ghost) (howed : owed ≠ none → Q.live .ghost < capacity .ghost) :
    ∃ Q', Store.evictSmallIfFull capacity Q = some Q' ∧ Evicts capacity owed Q Q' ∧
      Q'.live .small < capacity .small ∧ (Q'.queue .small).length ≤ bound capacity .small ∧
        ∀ S ∈ mainCallsSmall capacity Q, MakesRoom capacity S := by
  have hcompact := h.compactIfLong .small
  obtain ⟨Q', hloop, hevicts, hroom, hlength, hcalls⟩ := hcompact.fits.evictSmallLoop hshare hghost (Nat.le_refl _)
    (by rw [live_compactIfLong, live_compactIfLong]; exact fun hne => Or.inl (howed hne))
  exact ⟨Q', hloop, hcompact.toEvicts.trans hevicts, hroom,
    hlength.trans (h.length_compactIfLong _), hcalls⟩

end

end Store

end AgentMail.Cache
