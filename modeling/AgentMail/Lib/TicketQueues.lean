import AgentMail.Lib.Table

/-!
# Queues with entries removed late

Several queues share an index. An indexed key waits in the queue of its node's kind, under the
ticket its node carries. Removing a key only takes it out of the index: its queue entry stays
until it reaches the front, where the ticket tells it from an entry of a later life of the key.
A counter for each kind says how many keys of the kind are indexed.
-/

namespace AgentMail.Lib

open List Function

/-- The queues, their index, the counters and the last ticket drawn. -/
structure TicketQueues (κ K N : Type*) where
  queue : κ → List (K × Nat)
  index : List (K × N)
  live : κ → Nat
  issued : Nat

namespace TicketQueues

variable {κ K N : Type*}

/-! ### Operations -/

def empty : TicketQueues κ K N := ⟨fun _ => [], [], fun _ => 0, 0⟩

/-- The next ticket; it is `issued` afterwards. -/
def draw (Q : TicketQueues κ K N) : TicketQueues κ K N := { Q with issued := Q.issued + 1 }

/-- A ticket that is drawn and in no queue. -/
structure Spare (Q : TicketQueues κ K N) (t : Nat) : Prop where
  drawn : t ≤ Q.issued
  unused : ∀ a, ∀ e ∈ Q.queue a, e.2 ≠ t

theorem Spare.draw {Q : TicketQueues κ K N} {t : Nat} (h : Q.Spare t) : Q.draw.Spare t :=
  ⟨Nat.le_succ_of_le h.drawn, h.unused⟩

variable [DecidableEq K]

def node (Q : TicketQueues κ K N) (k : K) : Option N := Assoc.get? k Q.index

@[simp] theorem node_draw (Q : TicketQueues κ K N) (k : K) : Q.draw.node k = Q.node k := rfl

variable [DecidableEq κ]

def setQueue (Q : TicketQueues κ K N) (a : κ) (entries : List (K × Nat)) : TicketQueues κ K N :=
  { Q with queue := update Q.queue a entries }

/-- Lower the counter of a kind; there is no answer at zero. -/
def uncount (Q : TicketQueues κ K N) (a : κ) : Option (TicketQueues κ K N) :=
  if Q.live a = 0 then none else some { Q with live := update Q.live a (Q.live a - 1) }

/-- Take a key out of the index and lower the counter of its kind. -/
def unlink (Q : TicketQueues κ K N) (a : κ) (k : K) : Option (TicketQueues κ K N) :=
  { Q with index := Assoc.erase k Q.index }.uncount a

/-- Change the node of a key in place. -/
def amend (Q : TicketQueues κ K N) (k : K) (f : N → N) : TicketQueues κ K N :=
  { Q with index := Q.index.map fun e => if e.1 = k then (e.1, f e.2) else e }

section

variable (kind : N → κ) (ticket : N → Nat)

/-- The key of an entry is indexed as this kind and under this ticket. -/
def holds (Q : TicketQueues κ K N) (a : κ) (e : K × Nat) : Bool :=
  (Q.node e.1).any fun n => kind n == a && ticket n == e.2

/-- Drop the entries of a queue that nothing holds. -/
def compact (Q : TicketQueues κ K N) (a : κ) : TicketQueues κ K N :=
  Q.setQueue a ((Q.queue a).filter (Q.holds kind ticket a))

/-- Index a key and queue it. -/
def push (Q : TicketQueues κ K N) (k : K) (n : N) : TicketQueues κ K N where
  queue := update Q.queue (kind n) (Q.queue (kind n) ++ [(k, ticket n)])
  index := Assoc.insert k n Q.index
  live := update Q.live (kind n) (Q.live (kind n) + 1)
  issued := Q.issued

/-- Take the front entry off a queue; a key that it holds leaves the index. -/
def take (Q : TicketQueues κ K N) (a : κ) (e : K × Nat) (rest : List (K × Nat)) :
    Option (Option N × TicketQueues κ K N) :=
  let Q := Q.setQueue a rest
  if Q.holds kind ticket a e then (Q.unlink a e.1).map fun Q' => (Q.node e.1, Q')
  else some (none, Q)

/-! ### Coherence -/

/-- The number of indexed keys of a kind, without one key whose node is given up already. -/
def population (owed : Option K) (Q : TicketQueues κ K N) (a : κ) : Nat :=
  Q.index.countP fun e => decide (kind e.2 = a) && decide (owed ≠ some e.1)

/-- What all operations keep. -/
structure Coherent (owed : Option K) (Q : TicketQueues κ K N) : Prop where
  distinct : ∀ a, ((Q.queue a).map (·.2)).Nodup
  apart : ∀ a b, ∀ e ∈ Q.queue a, ∀ e' ∈ Q.queue b, e.2 = e'.2 → a = b
  bounded : ∀ a, ∀ e ∈ Q.queue a, e.2 ≤ Q.issued
  keys : (Q.index.map (·.1)).Nodup
  queued : ∀ k n, Q.node k = some n → (k, ticket n) ∈ Q.queue (kind n)
  counted : ∀ a, Q.live a = Q.population kind owed a

end

/-! ### Lookups -/

variable {kind : N → κ} {ticket : N → Nat} {owed : Option K} {Q : TicketQueues κ K N} {a : κ} {k : K}
  {n : N} {t : Nat}

@[simp] theorem node_setQueue (entries : List (K × Nat)) (k : K) :
    (Q.setQueue a entries).node k = Q.node k := rfl

@[simp] theorem node_compact (k : K) : (Q.compact kind ticket a).node k = Q.node k := rfl

theorem node_push (k' : K) :
    (Q.push kind ticket k n).node k' = if k = k' then some n else Q.node k' :=
  Assoc.get?_insert

omit [DecidableEq κ] in
theorem node_amend (f : N → N) (k' : K) :
    (Q.amend k f).node k' = if k = k' then (Q.node k').map f else Q.node k' := by
  have hpred : (fun e : K × N => e.1 == k') ∘ (fun e => if e.1 = k then (e.1, f e.2) else e) =
      fun e => e.1 == k' := by
    funext e
    dsimp only [Function.comp]
    split <;> rfl
  rw [node, amend, Assoc.get?, List.find?_map, hpred, node, Assoc.get?]
  cases hfind : Q.index.find? (fun e => e.1 == k') with
  | none => simp
  | some e =>
    have hkey := List.find?_some hfind
    rw [beq_iff_eq] at hkey
    simp only [Option.map_some]
    by_cases hk : e.1 = k
    · rw [if_pos hk, if_pos (hk.symm.trans hkey)]
    · rw [if_neg hk, if_neg (fun heq => hk (hkey.trans heq.symm))]

theorem holds_iff {e : K × Nat} :
    Q.holds kind ticket a e = true ↔ ∃ n, Q.node e.1 = some n ∧ kind n = a ∧ ticket n = e.2 := by
  rw [holds, Option.any_eq_true]
  simp only [Bool.and_eq_true, beq_iff_eq]

theorem unlink_eq_some {Q' : TicketQueues κ K N} (h : Q.unlink a k = some Q') :
    Q' = { Q with index := Assoc.erase k Q.index
                  live := update Q.live a (Q.live a - 1) } := by
  unfold unlink uncount at h
  split at h
  · cases h
  · exact (Option.some.inj h).symm

/-- What is indexed after a removal. -/
theorem node_of_unlink {Q' : TicketQueues κ K N} (h : Q.unlink a k = some Q') (k' : K) :
    Q'.node k' = if k = k' then none else Q.node k' := by
  rw [unlink_eq_some h]
  exact Assoc.get?_erase

namespace Coherent

theorem start : Coherent kind ticket none (empty : TicketQueues κ K N) where
  distinct _ := nodup_nil
  apart _ _ _ he := nomatch he
  bounded _ _ he := nomatch he
  keys := nodup_nil
  queued _ _ h := nomatch h
  counted _ := rfl

theorem mem_index (h : Coherent kind ticket owed Q) : Q.node k = some n ↔ (k, n) ∈ Q.index :=
  Assoc.get?_eq_some h.keys

/-- A key has one entry with its ticket, in the queue of its kind. -/
theorem count_entry (h : Coherent kind ticket owed Q) (hn : Q.node k = some n) (b : κ) :
    (Q.queue b).count (k, ticket n) = if b = kind n then 1 else 0 := by
  have hmem := h.queued k n hn
  split
  · next heq =>
    rw [heq]
    exact count_eq_one_of_mem (List.Nodup.of_map _ (h.distinct _)) hmem
  · next hne =>
    rw [count_eq_zero]
    intro hb
    exact hne (h.apart b (kind n) _ hb _ hmem rfl)

/-- A kind with indexed keys has queue entries. -/
theorem queue_ne_nil (h : Coherent kind ticket owed Q) (hlive : Q.live a ≠ 0) : Q.queue a ≠ [] := by
  rw [h.counted a, population, Ne, countP_eq_zero] at hlive
  push Not at hlive
  obtain ⟨⟨k, n⟩, hmem, hkind⟩ := hlive
  rw [Bool.and_eq_true, decide_eq_true_iff] at hkind
  have hqueued := h.queued k n (h.mem_index.mpr hmem)
  rw [hkind.1] at hqueued
  exact ne_nil_of_mem hqueued

/-! ### Tickets -/

theorem draw (h : Coherent kind ticket owed Q) : Coherent kind ticket owed Q.draw where
  distinct := h.distinct
  apart := h.apart
  bounded a e he := Nat.le_succ_of_le (h.bounded a e he)
  keys := h.keys
  queued := h.queued
  counted := h.counted

theorem spare_draw (h : Coherent kind ticket owed Q) : Q.draw.Spare (Q.issued + 1) where
  drawn := Nat.le_refl _
  unused a e he := by
    have hle := h.bounded a e he
    omega

end Coherent

/-! ### Shorter queues -/

omit [DecidableEq K] in
theorem queue_setQueue (entries : List (K × Nat)) (b : κ) :
    (Q.setQueue a entries).queue b = if b = a then entries else Q.queue b :=
  update_apply ..

omit [DecidableEq K] in
theorem mem_setQueue {entries : List (K × Nat)} (hsub : entries.Sublist (Q.queue a)) {b : κ}
    {e : K × Nat} (he : e ∈ (Q.setQueue a entries).queue b) : e ∈ Q.queue b := by
  rw [queue_setQueue] at he
  split at he
  · next heq => exact heq ▸ hsub.subset he
  · exact he

omit [DecidableEq K] in
theorem Spare.setQueue {entries : List (K × Nat)} (h : Q.Spare t)
    (hsub : entries.Sublist (Q.queue a)) : (Q.setQueue a entries).Spare t :=
  ⟨h.drawn, fun b e he => h.unused b e (mem_setQueue hsub he)⟩

theorem Spare.compact (h : Q.Spare t) : (Q.compact kind ticket a).Spare t :=
  h.setQueue filter_sublist

namespace Coherent

/-- A queue may lose the entries that nothing holds. -/
theorem setQueue {entries : List (K × Nat)} (h : Coherent kind ticket owed Q)
    (hsub : entries.Sublist (Q.queue a))
    (hkeep : ∀ e ∈ Q.queue a, Q.holds kind ticket a e = true → e ∈ entries) :
    Coherent kind ticket owed (Q.setQueue a entries) where
  distinct b := by
    rw [queue_setQueue]
    split
    · exact (h.distinct a).sublist (hsub.map _)
    · exact h.distinct b
  apart b c e he e' he' := h.apart b c e (mem_setQueue hsub he) e' (mem_setQueue hsub he')
  bounded b e he := h.bounded b e (mem_setQueue hsub he)
  keys := h.keys
  queued k n hn := by
    have hmem := h.queued k n hn
    rw [queue_setQueue]
    split
    · next heq =>
      rw [heq] at hmem
      exact hkeep _ hmem (holds_iff.mpr ⟨n, hn, heq, rfl⟩)
    · exact hmem
  counted := h.counted

theorem compact (h : Coherent kind ticket owed Q) (a : κ) :
    Coherent kind ticket owed (Q.compact kind ticket a) :=
  h.setQueue filter_sublist fun _ he hholds => mem_filter.mpr ⟨he, hholds⟩

/-- A compacted queue has one entry for each key of its kind, and one of the keys may be owed. -/
theorem length_compact_le (h : Coherent kind ticket owed Q) (a : κ) :
    ((Q.compact kind ticket a).queue a).length ≤ Q.live a + 1 := by
  have hentries : ((Q.queue a).filter (Q.holds kind ticket a)).length ≤
      (Q.index.filter fun e => kind e.2 = a).length := by
    rw [← @length_map _ _ (Q.index.filter _) fun e => (e.1, ticket e.2)]
    refine (subperm_of_subset ((List.Nodup.of_map _ (h.distinct a)).filter _) ?_).length_le
    intro e he
    obtain ⟨n, hn, hkind, hticket⟩ := holds_iff.mp (mem_filter.mp he).2
    refine mem_map.mpr ⟨(e.1, n), mem_filter.mpr ⟨h.mem_index.mp hn, decide_eq_true hkind⟩, ?_⟩
    rw [hticket]
  have howed : (Q.index.filter fun e => decide (owed = some e.1)).length ≤ 1 := by
    cases owed with
    | none => simp
    | some k =>
      have hcount := nodup_iff_count_le_one.mp h.keys k
      rw [count_eq_countP, countP_map, countP_eq_length_filter] at hcount
      refine le_of_eq_of_le (congrArg length (filter_congr fun e _ => ?_)) hcount
      by_cases hk : e.1 = k
      · simp [hk]
      · simp [hk, Ne.symm hk]
  have hsplit := countP_eq_countP_filter_add Q.index (fun e => decide (kind e.2 = a))
    fun e => decide (owed ≠ some e.1)
  rw [countP_filter, ← population.eq_1, ← h.counted, countP_eq_length_filter] at hsplit
  have hrest : countP (fun e => decide (kind e.2 = a))
      (Q.index.filter fun e => !decide (owed ≠ some e.1)) ≤ 1 := by
    refine Nat.le_trans countP_le_length (Nat.le_trans (Nat.le_of_eq ?_) howed)
    exact congrArg length (filter_congr fun e _ => by simp)
  rw [TicketQueues.compact, queue_setQueue, if_pos rfl]
  omega

/-! ### Removals -/

theorem population_erase (h : Coherent kind ticket owed Q) (hn : Q.node k = some n)
    (howed : owed ≠ some k) (b : κ) :
    Q.population kind owed b = { Q with index := Assoc.erase k Q.index }.population kind owed b +
        if kind n = b then 1 else 0 := by
  rw [population, (Assoc.perm_cons_erase h.keys (h.mem_index.mp hn)).countP_eq, countP_cons]
  simp [population, howed]

/-- Taking a key out of the index lowers the counter of its kind, which is not zero. -/
theorem unlink (h : Coherent kind ticket owed Q) (hn : Q.node k = some n) (howed : owed ≠ some k) :
    ∃ Q', Q.unlink (kind n) k = some Q' ∧ Coherent kind ticket owed Q' ∧
      Q.live (kind n) = Q'.live (kind n) + 1 := by
  have hpop := h.population_erase hn howed
  have hlive : Q.live (kind n) ≠ 0 := by
    rw [h.counted, hpop, if_pos rfl]
    omega
  refine ⟨_, if_neg hlive, ⟨h.distinct, h.apart, h.bounded, Assoc.nodup_keys_erase h.keys, ?_, ?_⟩, ?_⟩
  · intro k' n' hn'
    have hother : (if k = k' then none else Q.node k') = some n' := Assoc.get?_erase.symm.trans hn'
    split at hother
    · cases hother
    · exact h.queued k' n' hother
  · intro b
    have hb := hpop b
    rw [← h.counted] at hb
    dsimp only
    rw [update_apply]
    split
    · next heq =>
      subst heq
      rw [hb, if_pos rfl, Nat.add_sub_cancel]
      rfl
    · next hne =>
      rw [hb, if_neg (Ne.symm hne)]
      rfl
  · dsimp only
    rw [update_self]
    omega

end Coherent

theorem Spare.unlink {Q' : TicketQueues κ K N} (h : Q.Spare t) (hunlink : Q.unlink a k = some Q') :
    Q'.Spare t := by
  rw [unlink_eq_some hunlink]
  exact ⟨h.drawn, h.unused⟩

/-! ### The front of a queue -/

/-- What taking the front entry off a queue does. -/
inductive Taken (kind : N → κ) (Q : TicketQueues κ K N) (a : κ) (e : K × Nat)
    (rest : List (K × Nat)) : Option N × TicketQueues κ K N → Prop
  | stale : Taken kind Q a e rest (none, Q.setQueue a rest)
  | held (n : N) (Q' : TicketQueues κ K N) (hnode : Q.node e.1 = some n) (hkind : kind n = a)
      (hunlink : (Q.setQueue a rest).unlink a e.1 = some Q') (hlive : Q.live a = Q'.live a + 1) :
      Taken kind Q a e rest (some n, Q')

/-- The front entry can always be taken, and an entry that holds its key takes it along. -/
theorem Coherent.take (h : Coherent kind ticket owed Q) {e : K × Nat} {rest : List (K × Nat)}
    (hqueue : Q.queue a = e :: rest)
    (howed : ∀ k n, owed = some k → Q.node k = some n → kind n ≠ a) :
    ∃ r, Q.take kind ticket a e rest = some r ∧ Taken kind Q a e rest r ∧
      Coherent kind ticket owed r.2 ∧ (r.1 = none ↔ Q.holds kind ticket a e = false) := by
  have hsub : rest.Sublist (Q.queue a) := hqueue ▸ sublist_cons_self e rest
  have hholds : (Q.setQueue a rest).holds kind ticket a e = Q.holds kind ticket a e := rfl
  rw [TicketQueues.take, hholds]
  cases hheld : Q.holds kind ticket a e with
  | false =>
    refine ⟨_, rfl, .stale, h.setQueue hsub ?_, by simp⟩
    intro x hx hxholds
    rw [hqueue, mem_cons] at hx
    rcases hx with rfl | hx
    · rw [hheld] at hxholds
      cases hxholds
    · exact hx
  | true =>
    obtain ⟨n, hn, rfl, hticket⟩ := holds_iff.mp hheld
    have hfree : owed ≠ some e.1 := fun heq => howed e.1 n heq hn rfl
    obtain ⟨Q', hQ', hcoherent, hlive⟩ := h.unlink hn hfree
    -- The counters and the index do not see the queues.
    have hswap : (Q.setQueue (kind n) rest).unlink (kind n) e.1 =
        some (Q'.setQueue (kind n) rest) := by
      rw [unlink_eq_some hQ']
      unfold TicketQueues.unlink uncount at hQ' ⊢
      split at hQ'
      · cases hQ'
      · next hpos => exact if_neg hpos
    have hqueue' : Q'.queue (kind n) = e :: rest := by
      rw [unlink_eq_some hQ']
      exact hqueue
    rw [if_pos rfl, hswap, Option.map_some, node_setQueue, hn]
    refine ⟨_, rfl, .held n _ hn rfl hswap hlive, hcoherent.setQueue ?_ ?_, by simp⟩
    · rw [hqueue']
      exact sublist_cons_self e rest
    · intro x hx hxholds
      rw [hqueue', mem_cons] at hx
      rcases hx with rfl | hx
      · obtain ⟨m, hm, _⟩ := holds_iff.mp hxholds
        rw [node_of_unlink hQ', if_pos rfl] at hm
        cases hm
      · exact hx

namespace Taken

variable {e : K × Nat} {rest : List (K × Nat)} {r : Option N × TicketQueues κ K N}

section

variable (h : Taken kind Q a e rest r)
include h

theorem queue_eq (b : κ) :
    r.2.queue b = if b = a then rest else Q.queue b := by
  cases h with
  | stale => exact queue_setQueue rest b
  | held n Q' hnode hkind hunlink hlive =>
    rw [unlink_eq_some hunlink]
    exact queue_setQueue rest b

theorem issued_eq : r.2.issued = Q.issued := by
  cases h with
  | stale => rfl
  | held n Q' hnode hkind hunlink hlive =>
    rw [unlink_eq_some hunlink]
    rfl

theorem live_of_ne {b : κ} (hb : b ≠ a) : r.2.live b = Q.live b := by
  cases h with
  | stale => rfl
  | held n Q' hnode hkind hunlink hlive =>
    rw [unlink_eq_some hunlink]
    exact update_of_ne hb _ _

theorem live_le : r.2.live a ≤ Q.live a := by
  cases h with
  | stale => exact Nat.le_refl _
  | held n Q' hnode hkind hunlink hlive =>
    rw [hlive]
    exact Nat.le_succ _

/-- A key is still indexed as it was, or it is the one that was taken. -/
theorem node_eq (k : K) :
    r.2.node k = Q.node k ∨ (r.1 ≠ none ∧ e.1 = k ∧ r.2.node k = none) := by
  cases h with
  | stale => exact Or.inl rfl
  | held n Q' hnode hkind hunlink hlive =>
    rw [node_of_unlink hunlink]
    by_cases hk : e.1 = k
    · rw [if_pos hk]
      exact Or.inr ⟨by simp, hk, rfl⟩
    · rw [if_neg hk]
      exact Or.inl rfl

end

theorem node_self (h : Taken kind Q a e rest (some n, Q')) : Q'.node e.1 = none := by
  cases h with
  | held _ _ _ _ hunlink _ => rw [node_of_unlink hunlink, if_pos rfl]

theorem spare (h : Taken kind Q a e rest r) (hqueue : Q.queue a = e :: rest) (ht : Q.Spare t) :
    r.2.Spare t := by
  have hrest : (Q.setQueue a rest).Spare t :=
    ht.setQueue (hqueue ▸ sublist_cons_self e rest)
  cases h with
  | stale => exact hrest
  | held n Q' hnode hkind hunlink hlive => exact hrest.unlink hunlink

end Taken

/-! ### Additions -/

theorem queue_push (b : κ) :
    (Q.push kind ticket k n).queue b =
      if b = kind n then Q.queue b ++ [(k, ticket n)] else Q.queue b := by
  unfold push
  dsimp only
  rw [update_apply]
  split
  · next heq => rw [heq]
  · rfl

theorem live_push (b : κ) :
    (Q.push kind ticket k n).live b = Q.live b + if b = kind n then 1 else 0 := by
  unfold push
  dsimp only
  rw [update_apply]
  split
  · next heq => rw [heq]
  · rfl

theorem mem_queue_push {b : κ} {e : K × Nat} :
    e ∈ (Q.push kind ticket k n).queue b ↔ e ∈ Q.queue b ∨ (b = kind n ∧ e = (k, ticket n)) := by
  rw [queue_push]
  split
  · next heq => simp [heq]
  · next hne => simp [hne]

theorem Spare.push (h : Q.Spare t) (ht : ticket n ≠ t) : (Q.push kind ticket k n).Spare t := by
  refine ⟨h.drawn, ?_⟩
  intro b e he
  rcases mem_queue_push.mp he with he | ⟨_, rfl⟩
  · exact h.unused b e he
  · exact ht

/-- A key joins with a ticket of its own. If it was given up before, it is counted again. -/
theorem Coherent.push (h : Coherent kind ticket owed Q) (hspare : Q.Spare (ticket n))
    {owed' : Option K} (hkey : (Q.node k = none ∧ owed' = owed) ∨ (owed = some k ∧ owed' = none))
    (howed : owed' ≠ some k) :
    Coherent kind ticket owed' (Q.push kind ticket k n) where
  distinct b := by
    rw [queue_push]
    split
    · rw [map_append, map_singleton, nodup_append]
      refine ⟨h.distinct b, nodup_singleton _, ?_⟩
      intro x hx y hy
      obtain ⟨e, he, rfl⟩ := mem_map.mp hx
      rw [mem_singleton.mp hy]
      exact hspare.unused b e he
    · exact h.distinct b
  apart b c e he e' he' heq := by
    rcases mem_queue_push.mp he with he | ⟨hb, rfl⟩
    · rcases mem_queue_push.mp he' with he' | ⟨_, rfl⟩
      · exact h.apart b c e he e' he' heq
      · exact absurd heq (hspare.unused b e he)
    · rcases mem_queue_push.mp he' with he' | ⟨hc, _⟩
      · exact absurd heq.symm (hspare.unused c e' he')
      · rw [hb, hc]
  bounded b e he := by
    rcases mem_queue_push.mp he with he | ⟨_, rfl⟩
    · exact h.bounded b e he
    · exact hspare.drawn
  keys := Assoc.nodup_keys_insert h.keys
  queued k' n' hn' := by
    rw [mem_queue_push]
    rw [node_push] at hn'
    split at hn'
    · next heq =>
      cases hn'
      exact Or.inr ⟨rfl, by rw [heq]⟩
    · exact Or.inl (h.queued k' n' hn')
  counted b := by
    have hsame : Q.population kind owed b =
        (Assoc.erase k Q.index).countP fun e => decide (kind e.2 = b) && decide (owed' ≠ some e.1) := by
      rw [Assoc.erase, countP_filter, population]
      apply countP_congr
      intro e he
      rcases hkey with ⟨hnone, rfl⟩ | ⟨rfl, rfl⟩
      · have hne : e.1 ≠ k := by
          rintro rfl
          exact Assoc.get?_eq_none.mp hnone (mem_map_of_mem he)
        simp [hne]
      · by_cases he : k = e.1
        · simp [he]
        · simp [he, Ne.symm he]
    rw [live_push, h.counted b, hsame, population]
    change _ = List.countP _ (Assoc.erase k Q.index ++ [(k, n)])
    rw [countP_append, countP_singleton]
    by_cases hb : b = kind n
    · simp [hb, howed]
    · simp [hb, Ne.symm hb]

/-- A change in place that keeps kind and ticket. -/
theorem Coherent.amend (h : Coherent kind ticket owed Q) {f : N → N} (hkind : ∀ n, kind (f n) = kind n)
    (hticket : ∀ n, ticket (f n) = ticket n) (k : K) : Coherent kind ticket owed (Q.amend k f) where
  distinct := h.distinct
  apart := h.apart
  bounded := h.bounded
  keys := by
    have hfst : (Prod.fst ∘ fun e : K × N => if e.1 = k then (e.1, f e.2) else e) = Prod.fst := by
      funext e
      dsimp only [Function.comp]
      split <;> rfl
    change (((Q.index.map _)).map Prod.fst).Nodup
    rw [map_map, hfst]
    exact h.keys
  queued k' n hn := by
    rw [node_amend] at hn
    split at hn
    · obtain ⟨m, hm, rfl⟩ := Option.map_eq_some_iff.mp hn
      rw [hkind, hticket]
      exact h.queued k' m hm
    · exact h.queued k' n hn
  counted b := by
    change Q.live b = List.countP _ (Q.index.map _)
    rw [h.counted b, population, countP_map]
    apply countP_congr
    intro e _
    dsimp only [Function.comp]
    split
    · rw [hkind]
    · rfl

end TicketQueues

end AgentMail.Lib
