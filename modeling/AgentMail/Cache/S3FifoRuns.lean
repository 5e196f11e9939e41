import AgentMail.Cache.S3FifoBounds

/-!
# Runs of the S3-FIFO cache

From an empty cache of any positive capacity, every sequence of operations goes through: the
counters never fall below zero, they count the nodes of the index, every node has its one queue
entry and all queues stay within their shares. To its callers the cache is a map that may forget:
it shows the last value written under a key or nothing.
-/

namespace AgentMail.Cache

open Lib TicketQueues List

variable {K V : Type*} [DecidableEq K]

/-- An operation of the cache. -/
inductive Op (K V : Type*) where
  | get (key : K)
  | getMut (key : K) (f : V → V)
  | peek (key : K)
  | containsKey (key : K)
  | insert (key : K) (value : V)
  | remove (key : K)
  | clear

namespace S3FifoCache

/-- The cache after an operation. -/
def step (c : S3FifoCache K V) : Op K V → Option (S3FifoCache K V)
  | .get key => some (c.get key).2
  | .getMut key f => some (c.getMut key f).2
  | .peek _ => some c
  | .containsKey _ => some c
  | .insert key value => c.insert key value
  | .remove key => (c.remove key).map (·.2)
  | .clear => some c.clear

/-- The cache after some operations on a new one. -/
def run (total : Nat) (ops : List (Op K V)) : Option (S3FifoCache K V) := do
  ops.foldlM step (← new total)

end S3FifoCache

/-! ### Insertion -/

namespace Store

variable {capacity : Kind → Nat} {owed : Option K} {Q Q' : Store K V}

/-- What a reader sees under a key. -/
def visible (Q : Store K V) (k : K) : Option V := (Q.node k).bind Node.value?

theorem Ages.visible (h : Ages Q Q') (k : K) :
    visible Q' k = none ∨ visible Q' k = visible Q k := by
  unfold Store.visible
  cases hm : Q'.node k with
  | none => exact Or.inl rfl
  | some m =>
    obtain ⟨n, hn, hvalue⟩ := h k m hm
    rw [hn]
    exact hvalue

theorem visible_push {k k' : K} {n : Node V} :
    visible (Q.push Node.kind Node.seq k n) k' = if k = k' then n.value? else visible Q k' := by
  unfold visible
  rw [node_push]
  split <;> rfl

theorem Node.kind_touch (f : V → V) (n : Node V) : (n.touch f).kind = n.kind := by
  cases n <;> rfl

theorem Node.seq_touch (f : V → V) (n : Node V) : (n.touch f).seq = n.seq := by
  cases n <;> rfl

theorem Node.value_touch (f : V → V) (n : Node V) : (n.touch f).value? = n.value?.map f := by
  cases n <;> rfl

theorem Fits.touch (h : Fits capacity none Q) (k : K) (f : V → V) :
    Fits capacity none (Q.amend k (Node.touch f)) where
  toCoherent := h.toCoherent.amend (Node.kind_touch f) (Node.seq_touch f) k
  freq k' m hm := by
    rw [node_amend] at hm
    split at hm
    · obtain ⟨n, hn, rfl⟩ := Option.map_eq_some_iff.mp hm
      cases n with
      | small value freq seq => exact Nat.min_le_right _ _
      | main value freq seq => exact Nat.min_le_right _ _
      | ghost seq => exact Nat.zero_le 3
    · exact h.freq k' m hm
  within := h.within
  owedGhost k' m hk' := nomatch hk'

theorem visible_touch (k k' : K) (f : V → V) :
    visible (Q.amend k (Node.touch f)) k' = if k = k' then (visible Q k').map f else visible Q k' := by
  unfold visible
  rw [node_amend]
  split
  · cases Q.node k' with
    | none => rfl
    | some n => exact Node.value_touch f n
  · rfl

/-- After an insertion the key shows its value and no other key shows anything new. -/
structure Inserted (capacity : Kind → Nat) (k : K) (v : V) (Q Q' : Store K V) : Prop where
  fits : Fits capacity none Q'
  self : visible Q' k = some v
  others : ∀ k', k' ≠ k → visible Q' k' = none ∨ visible Q' k' = visible Q k'
  short : Short capacity Q → Short capacity Q'

/-- The key joins after an eviction made the room. -/
theorem Evicts.inserted {k : K} {v : V} {n : Node V} (h : Evicts capacity owed Q Q')
    (hspare : Q.Spare n.seq) (hfreq : n.freq ≤ 3) (hvalue : n.value? = some v)
    (hroom : Q'.live n.kind < capacity n.kind)
    (hlength : (Q'.queue n.kind).length ≤ bound capacity n.kind)
    (hkey : (Q.node k = none ∧ owed = none) ∨ owed = some k) :
    Inserted capacity k v Q (Q'.push Node.kind Node.seq k n) where
  fits := by
    rcases hkey with ⟨hk, rfl⟩ | rfl
    · exact h.fits.push (h.ages.node_eq_none hk) (h.spare _ hspare) hfreq hroom nofun
    · exact h.fits.push_owed (h.spare _ hspare) hfreq hroom
  self := by rw [visible_push, if_pos rfl, hvalue]
  others k' hne := by
    rw [visible_push, if_neg (Ne.symm hne)]
    exact h.ages.visible k'
  short hs := (h.short hs).push hlength

theorem Fits.admitSmall (h : Fits capacity owed Q) (hsmall : 0 < capacity .small)
    (hghost : 0 < capacity .ghost) (howed : owed ≠ none → Q.live .ghost < capacity .ghost) {k : K}
    {seq : Nat} (hspare : Q.Spare seq) (hkey : (Q.node k = none ∧ owed = none) ∨ owed = some k)
    (v : V) : ∃ Q', Store.admitSmall capacity k v seq Q = some Q' ∧ Inserted capacity k v Q Q' ∧
      ∀ S ∈ mainCallsSmall capacity Q, MakesRoom capacity S := by
  obtain ⟨Q₁, hevict, hevicts, hroom, hlength, hcalls⟩ := h.evictSmallIfFull hsmall hghost howed
  refine ⟨_, ?_,
    hevicts.inserted (n := .small v 0 seq) hspare (Nat.zero_le 3) rfl hroom hlength hkey, hcalls⟩
  rw [Store.admitSmall, hevict]
  rfl

/-- A ghost is given up: it stays indexed and is counted no more. -/
theorem Fits.uncount (h : Fits capacity none Q) {k : K} {n : Node V} (hn : Q.node k = some n)
    (hkind : n.kind = .ghost) :
    ∃ Q', Q.uncount .ghost = some Q' ∧ Fits capacity (some k) Q' ∧
      Q'.live .ghost < capacity .ghost ∧ (∀ k', Q'.node k' = Q.node k') ∧
      (∀ t, Q.Spare t → Q'.Spare t) ∧ Q'.queue = Q.queue := by
  -- The others are counted as they would be if the ghost were not indexed.
  have hpop := h.toCoherent.population_erase hn (by simp)
  have howed (b : Kind) : { Q with index := Assoc.erase k Q.index }.population Node.kind none b =
      Q.population Node.kind (some k) b := by
    unfold population
    dsimp only
    rw [Assoc.erase, countP_filter]
    apply countP_congr
    intro e _
    by_cases he : e.1 = k
    · simp [he]
    · simp [he, Ne.symm he]
  have hlive : Q.live .ghost = Q.population Node.kind (some k) .ghost + 1 := by
    rw [h.counted, hpop, howed, if_pos hkind]
  have hwithin := h.within .ghost
  refine ⟨_, if_neg (by omega), ⟨⟨h.distinct, h.apart, h.bounded, h.keys, h.queued, ?_⟩, h.freq, ?_, ?_⟩,
    ?_, fun _ => rfl, fun t ht => ⟨ht.drawn, ht.unused⟩, rfl⟩
  · intro b
    change Function.update Q.live Kind.ghost (Q.live .ghost - 1) b =
      Q.population Node.kind (some k) b
    rw [Function.update_apply]
    split
    · next hb =>
      rw [hb]
      omega
    · next hb =>
      rw [h.counted, hpop, howed, hkind, if_neg (Ne.symm hb), Nat.add_zero]
  · intro b
    dsimp only
    rw [Function.update_apply]
    split
    · next hb =>
      rw [hb]
      omega
    · exact h.within b
  · intro k' m hk' hm
    have heq : Q.node k = some m := by
      rw [Option.some.inj hk']
      exact hm
    rw [hn] at heq
    rw [← Option.some.inj heq]
    exact hkind
  · dsimp only
    rw [Function.update_self]
    omega

/-- The stores on which `insert` calls `evict_main_if_full`. -/
def mainCallsInsert (capacity : Kind → Nat) (key : K) (Q : Store K V) : List (Store K V) :=
  let Q := Q.draw
  match Q.node key with
  | some (.ghost _) =>
    (Q.uncount .ghost).elim [] fun Q =>
      if capacity .main = 0 then mainCallsSmall capacity Q else [Q]
  | some _ => []
  | none => mainCallsSmall capacity Q

theorem Fits.insert (h : Fits capacity none Q) (hsmall : 0 < capacity .small)
    (hghost : 0 < capacity .ghost) (k : K) (v : V) :
    ∃ Q', Store.insert capacity k v Q = some Q' ∧ Inserted capacity k v Q Q' ∧
      ∀ S ∈ mainCallsInsert capacity k Q, MakesRoom capacity S := by
  have hdraw := h.draw
  have hspare := h.toCoherent.spare_draw
  unfold Store.insert mainCallsInsert
  dsimp only
  cases hn : Q.draw.node k with
  | none =>
    obtain ⟨Q', hadmit, hinserted, hcalls⟩ := hdraw.admitSmall hsmall hghost (by simp) hspare
      (Or.inl ⟨hn, rfl⟩) v
    exact ⟨Q', hadmit, ⟨hinserted.fits, hinserted.self, hinserted.others, hinserted.short⟩, hcalls⟩
  | some n =>
    have hhit : n.kind ≠ .ghost → Inserted capacity k v Q (Q.draw.amend k (Node.touch fun _ => v)) := by
      intro hkind
      have hsome : visible Q.draw k ≠ none := by
        rw [visible, hn]
        exact fun hnone => hkind (Node.kind_of_value_eq_none hnone)
      refine ⟨hdraw.touch k _, ?_, fun k' hne => Or.inr ?_, id⟩
      · rw [visible_touch, if_pos rfl]
        obtain ⟨w, hw⟩ := Option.ne_none_iff_exists'.mp hsome
        rw [hw]
        rfl
      · rw [visible_touch, if_neg (Ne.symm hne)]
        rfl
    cases n with
    | small value freq seq => exact ⟨_, rfl, hhit nofun, forall_mem_nil _⟩
    | main value freq seq => exact ⟨_, rfl, hhit nofun, forall_mem_nil _⟩
    | ghost seq =>
      obtain ⟨Q₁, huncount, hfits, hroom, hnode, hkeep, hqueue⟩ := hdraw.uncount hn rfl
      have hvisible : ∀ k', visible Q₁ k' = visible Q k' := by
        intro k'
        unfold visible
        rw [hnode]
        rfl
      have hback {Q' : Store K V} (hi : Inserted capacity k v Q₁ Q') : Inserted capacity k v Q Q' := by
        refine ⟨hi.fits, hi.self, fun k' hne => ?_, fun hs => hi.short fun a => ?_⟩
        · rw [← hvisible]
          exact hi.others k' hne
        · rw [hqueue]
          exact hs a
      simp only [huncount, Option.bind_eq_bind, Option.bind_some, Option.elim_some]
      split
      · obtain ⟨Q', hadmit, hinserted, hcalls⟩ := hfits.admitSmall hsmall hghost (fun _ => hroom)
          (hkeep _ hspare) (Or.inr rfl) v
        exact ⟨Q', hadmit, hback hinserted, hcalls⟩
      · next hmain =>
        obtain ⟨Q₂, hevict, hevicts, hroom, hlength⟩ :=
          hfits.evictMainIfFull (Nat.pos_of_ne_zero hmain)
        refine ⟨_, ?_, hback (hevicts.toEvicts.inserted (n := .main v 0 (Q.issued + 1))
          (hkeep _ hspare) (Nat.zero_le 3) rfl hroom hlength (Or.inr rfl)), ?_⟩
        · rw [Store.promote, hevict]
          rfl
        · intro S hS
          rw [mem_singleton.mp hS]
          exact ⟨Q₂, hevict, hroom⟩

end Store

/-! ### Every run -/

/-- What an operation writes under a key, after the last value written. The value of a `get_mut`
is rewritten by its caller. -/
def Op.write (k : K) (last : Option V) : Op K V → Option V
  | .insert key value => if key = k then some value else last
  | .getMut key f => if key = k then last.map f else last
  | .remove key => if key = k then none else last
  | .clear => none
  | _ => last

/-- The value of the last insertion of a key since it was removed or all was cleared, if any. -/
def lastWritten (k : K) (ops : List (Op K V)) : Option V := ops.foldl (Op.write k) none

theorem Op.write_none (k : K) (op : Op K V) (last : Option V) :
    op.write k none = none ∨ op.write k none = op.write k last := by
  cases op with
  | insert key value =>
    by_cases hk : key = k
    · simp [Op.write, hk]
    · simp [Op.write, hk]
  | getMut key f => simp [Op.write]
  | remove key => simp [Op.write]
  | get key => simp [Op.write]
  | peek key => simp [Op.write]
  | containsKey key => simp [Op.write]
  | clear => simp [Op.write]

namespace S3FifoCache

variable {c : S3FifoCache K V}

/-- What holds between operations. -/
structure Sound (c : S3FifoCache K V) : Prop where
  fits : Store.Fits c.capacity none c.store
  small : 0 < c.capacity .small
  ghost : 0 < c.capacity .ghost

theorem sound_new {total : Nat} (h : 1 ≤ total) :
    Sound (⟨shares total, TicketQueues.empty⟩ : S3FifoCache K V) where
  fits := ⟨Coherent.start, nofun, fun _ => Nat.zero_le _, nofun⟩
  small := Nat.lt_of_lt_of_le Nat.one_pos (Nat.le_max_right _ _)
  ghost := h

/-- What an operation leaves. -/
structure Stepped (c : S3FifoCache K V) (op : Op K V) (c' : S3FifoCache K V) : Prop where
  sound : Sound c'
  capacity_eq : c'.capacity = c.capacity
  shows : ∀ k, c'.peek k = none ∨ c'.peek k = op.write k (c.peek k)
  short : Store.Short c.capacity c.store → Store.Short c'.capacity c'.store

theorem Sound.getMut (h : Sound c) (key : K) (f : V → V) :
    Stepped c (.getMut key f) (c.getMut key f).2 where
  sound := ⟨h.fits.touch key f, h.small, h.ghost⟩
  capacity_eq := rfl
  shows k := Or.inr (Store.visible_touch key k f)
  short := id

/-- `insert` goes through, and the key shows its value at once. -/
theorem Sound.insert (h : Sound c) (key : K) (value : V) :
    ∃ c', c.insert key value = some c' ∧ Stepped c (.insert key value) c' ∧
      c'.peek key = some value ∧
      ∀ S ∈ Store.mainCallsInsert c.capacity key c.store, Store.MakesRoom c.capacity S := by
  obtain ⟨Q', hinsert, hinserted, hcalls⟩ := h.fits.insert h.small h.ghost key value
  refine ⟨{ c with store := Q' }, ?_,
    ⟨⟨hinserted.fits, h.small, h.ghost⟩, rfl, ?_, hinserted.short⟩, hinserted.self, hcalls⟩
  · rw [S3FifoCache.insert, hinsert]
    rfl
  · intro k
    change _ ∨ _ = if key = k then some value else c.peek k
    by_cases hk : key = k
    · rw [if_pos hk, ← hk]
      exact Or.inr hinserted.self
    · rw [if_neg hk]
      exact hinserted.others k (Ne.symm hk)

theorem Sound.remove (h : Sound c) (key : K) :
    ∃ r, c.remove key = some r ∧ Stepped c (.remove key) r.2 := by
  unfold S3FifoCache.remove
  cases hn : c.store.node key with
  | none =>
    refine ⟨_, rfl, h, rfl, ?_, id⟩
    intro k
    change _ ∨ _ = if key = k then none else c.peek k
    by_cases hk : key = k
    · exact Or.inl (by rw [peek, ← hk, hn]; rfl)
    · exact Or.inr (by rw [if_neg hk])
  | some n =>
    obtain ⟨Q', hunlink, hcoherent, hlive⟩ := h.fits.toCoherent.unlink hn (by simp)
    have hnode := node_of_unlink hunlink
    dsimp only
    rw [hunlink]
    refine ⟨_, rfl, ⟨⟨hcoherent, ?_, ?_, nofun⟩, h.small, h.ghost⟩, rfl, ?_, ?_⟩
    · intro k m hm
      change Q'.node k = some m at hm
      rw [hnode] at hm
      split at hm
      · cases hm
      · exact h.fits.freq k m hm
    · intro a
      have hwithin := h.fits.within a
      change Q'.live a ≤ c.capacity a
      rw [unlink_eq_some hunlink]
      dsimp only
      rw [Function.update_apply]
      split
      · next ha =>
        rw [ha] at hwithin
        rw [ha]
        omega
      · exact hwithin
    · intro k
      change (Q'.node k).bind Node.value? = none ∨
        (Q'.node k).bind Node.value? = if key = k then none else c.peek k
      rw [hnode]
      by_cases hk : key = k
      · rw [if_pos hk]
        exact Or.inl rfl
      · rw [if_neg hk, if_neg hk]
        exact Or.inr rfl
    · rw [unlink_eq_some hunlink]
      exact id

theorem Sound.clear (h : Sound c) : Stepped c .clear c.clear where
  sound := ⟨⟨⟨fun _ => nodup_nil, nofun, nofun, nodup_nil, nofun, fun _ => rfl⟩, nofun,
    fun _ => Nat.zero_le _, nofun⟩, h.small, h.ghost⟩
  capacity_eq := rfl
  shows _ := Or.inl rfl
  short _ _ := Nat.zero_le _

theorem Sound.step (h : Sound c) (op : Op K V) : ∃ c', c.step op = some c' ∧ Stepped c op c' := by
  cases op with
  | get key =>
    have hget := h.getMut key id
    refine ⟨_, rfl, hget.sound, hget.capacity_eq, fun k => ?_, id⟩
    have hshows := hget.shows k
    simp only [Op.write, Option.map_id, id_eq, ite_self] at hshows
    exact hshows
  | getMut key f => exact ⟨_, rfl, h.getMut key f⟩
  | peek key => exact ⟨c, rfl, h, rfl, fun _ => Or.inr rfl, id⟩
  | containsKey key => exact ⟨c, rfl, h, rfl, fun _ => Or.inr rfl, id⟩
  | insert key value =>
    obtain ⟨c', hinsert, hstepped, -, -⟩ := h.insert key value
    exact ⟨c', hinsert, hstepped⟩
  | remove key =>
    obtain ⟨r, hremove, hstepped⟩ := h.remove key
    exact ⟨r.2, by rw [S3FifoCache.step, hremove]; rfl, hstepped⟩
  | clear => exact ⟨_, rfl, h.clear⟩

theorem Sound.steps (h : Sound c) (front : List (Op K V))
    (hshows : ∀ k, c.peek k = none ∨ c.peek k = lastWritten k front) (ops : List (Op K V)) :
    ∃ c', ops.foldlM S3FifoCache.step c = some c' ∧ Sound c' ∧ c'.capacity = c.capacity ∧
      ∀ k, c'.peek k = none ∨ c'.peek k = lastWritten k (front ++ ops) := by
  induction ops generalizing c front with
  | nil => exact ⟨c, rfl, h, rfl, by rw [append_nil]; exact hshows⟩
  | cons op ops ih =>
    obtain ⟨c₁, hstep, hstepped⟩ := h.step op
    have hnext : ∀ k, c₁.peek k = none ∨ c₁.peek k = lastWritten k (front ++ [op]) := by
      intro k
      have hwrite : lastWritten k (front ++ [op]) = op.write k (lastWritten k front) := by
        rw [lastWritten, foldl_append]
        rfl
      rw [hwrite]
      rcases hstepped.shows k with hnone | heq
      · exact Or.inl hnone
      · rw [heq]
        rcases hshows k with hnone | hlast
        · rw [hnone]
          exact Op.write_none k op _
        · rw [hlast]
          exact Or.inr rfl
    obtain ⟨c', hrun, hsound, hcapacity, hlast⟩ := ih hstepped.sound _ hnext
    refine ⟨c', ?_, hsound, hcapacity.trans hstepped.capacity_eq, ?_⟩
    · rw [foldlM_cons, hstep]
      exact hrun
    · rw [append_assoc, singleton_append] at hlast
      exact hlast

theorem run_sound {total : Nat} (h : 1 ≤ total) (ops : List (Op K V)) :
    ∃ c, run total ops = some c ∧ Sound c ∧ c.capacity = shares total ∧
      ∀ k, c.peek k = none ∨ c.peek k = lastWritten k ops := by
  obtain ⟨c, hrun, hsound, hcapacity, hlast⟩ := (sound_new (K := K) (V := V) h).steps []
    (fun _ => Or.inl rfl) ops
  refine ⟨c, ?_, hsound, hcapacity, hlast⟩
  have hpos : total > 0 := h
  rw [run, new, if_pos hpos]
  exact hrun

/-! ### The representation -/

/-- The counters count the nodes of the index, every node has one entry with its key and sequence
number, in the queue of its kind, and all is within the shares. -/
structure Represented (c : S3FifoCache K V) : Prop where
  keys : (c.store.index.map (·.1)).Nodup
  live : ∀ a, c.store.live a = c.store.index.countP fun e => decide (e.2.kind = a)
  entry : ∀ k n, (k, n) ∈ c.store.index → ∀ a,
    (c.store.queue a).count (k, n.seq) = if a = n.kind then 1 else 0
  within : ∀ a, c.store.live a ≤ c.capacity a
  len : c.len ≤ c.totalCapacity

theorem Sound.represented (h : Sound c) : Represented c where
  keys := h.fits.keys
  live a := by
    rw [h.fits.counted, population]
    simp
  entry _ _ hmem a := h.fits.toCoherent.count_entry (h.fits.toCoherent.mem_index.mpr hmem) a
  within := h.fits.within
  len := Nat.add_le_add (h.fits.within .small) (h.fits.within .main)

/-- Every run from an empty cache goes through, without a counter below zero, and ends in a
represented cache of the capacity asked for. -/
theorem run_represented {total : Nat} (h : 1 ≤ total) (ops : List (Op K V)) :
    ∃ c, run total ops = some c ∧ Represented c ∧ c.totalCapacity = total := by
  obtain ⟨c, hrun, hsound, hcapacity, _⟩ := run_sound h ops
  refine ⟨c, hrun, hsound.represented, ?_⟩
  rw [totalCapacity, hcapacity]
  change max (total / 10) 1 + (total - max (total / 10) 1) = total
  omega

theorem run_represented_one :
    ∃ c, run 1 [Op.insert 0 true, .insert 1 true, .get 1, .insert 0 false, .remove 1] = some c ∧
      Represented c ∧ c.totalCapacity = 1 :=
  run_represented (Nat.le_refl 1) _

/-! ### Dead entries -/

theorem Sound.steps_short (h : Sound c) (hshort : Store.Short c.capacity c.store) (ops : List (Op K V)) :
    ∃ c', ops.foldlM S3FifoCache.step c = some c' ∧ Sound c' ∧ c'.capacity = c.capacity ∧
      Store.Short c'.capacity c'.store := by
  induction ops generalizing c with
  | nil => exact ⟨c, rfl, h, rfl, hshort⟩
  | cons op ops ih =>
    obtain ⟨c₁, hstep, hstepped⟩ := h.step op
    obtain ⟨c', hrun, hsound, hcapacity, hshort'⟩ := ih hstepped.sound (hstepped.short hshort)
    refine ⟨c', ?_, hsound, hcapacity.trans hstepped.capacity_eq, hshort'⟩
    rw [foldlM_cons, hstep]
    exact hrun

/-- After every run the queues, dead entries included, are at most four times their shares long, and
wherever the next insertion evicts from the main queue it makes room before its budget is used up. -/
theorem run_short {total : Nat} (h : 1 ≤ total) (ops : List (Op K V)) :
    ∃ c, run total ops = some c ∧
      (∀ a, (c.store.queue a).length ≤ max (4 * shares total a) 4 + 1) ∧
      ∀ key, V → ∀ S ∈ Store.mainCallsInsert (shares total) key c.store,
        ∃ Q', S.evictMainIfFull (shares total) = some Q' ∧ Q'.live .main < shares total .main := by
  obtain ⟨c, hrun, hsound, hcapacity, hshort⟩ := (sound_new (K := K) (V := V) h).steps_short
    (fun _ => Nat.zero_le _) ops
  replace hcapacity : c.capacity = shares total := hcapacity
  refine ⟨c, ?_, ?_, ?_⟩
  · have hpos : total > 0 := h
    rw [run, new, if_pos hpos]
    exact hrun
  · intro a
    have hlength := hshort a
    rw [hcapacity, Store.bound, Nat.mul_comm] at hlength
    exact hlength
  · intro key value S hS
    rw [← hcapacity] at hS ⊢
    obtain ⟨Q', hinsert, -, hcalls⟩ := hsound.fits.insert hsound.small hsound.ghost key value
    exact hcalls S hS

theorem run_short_two :
    ∃ c, run 2 [Op.insert 0 true, .get 0, .insert 1 true, .get 1] = some c ∧
      (∀ a, (c.store.queue a).length ≤ max (4 * shares 2 a) 4 + 1) ∧
      ∀ key, Bool → ∀ S ∈ Store.mainCallsInsert (shares 2) key c.store,
        ∃ Q', S.evictMainIfFull (shares 2) = some Q' ∧ Q'.live .main < shares 2 .main :=
  run_short (Nat.le_refl 1 |>.trans (by decide)) _

example : ((run 2 [Op.insert 0 true, .get 0, .insert 1 true, .get 1]).map fun c =>
    (Store.mainCallsInsert (shares 2) 2 c.store).map fun S => (S.live .main, shares 2 .main)) =
      some [(1, 1)] := by
  decide

/-! ### The map -/

theorem containsKey_eq (c : S3FifoCache K V) (k : K) : c.containsKey k = (c.peek k).isSome := by
  unfold containsKey peek
  cases c.store.node k with
  | none => rfl
  | some n => cases n <;> rfl

/-- After every run a key shows nothing or the value last written under it, and a key that is
inserted then shows its value. -/
theorem run_shows_lastWritten {total : Nat} (h : 1 ≤ total) (ops : List (Op K V)) (k : K) :
    ∃ c, run total ops = some c ∧ ((c.get k).1 = none ∨ (c.get k).1 = lastWritten k ops) ∧
      c.peek k = (c.get k).1 ∧ c.containsKey k = (c.get k).1.isSome ∧
      ∀ v, ∃ c', c.insert k v = some c' ∧
        (c'.get k).1 = some v ∧ c'.peek k = some v ∧ c'.containsKey k = true := by
  obtain ⟨c, hrun, hsound, _, hlast⟩ := run_sound h ops
  refine ⟨c, hrun, hlast k, rfl, containsKey_eq c k, ?_⟩
  intro v
  obtain ⟨c', hinsert, _, hpeek, _⟩ := hsound.insert k v
  refine ⟨c', hinsert, hpeek, hpeek, ?_⟩
  rw [containsKey_eq, hpeek]
  rfl

theorem run_shows_lastWritten_one :
    ∃ c, run 1 [Op.insert 0 true, .insert 1 true, .get 1, .insert 0 false] = some c ∧
      ((c.get 1).1 = none ∨ (c.get 1).1 = some true) ∧
      c.peek 1 = (c.get 1).1 ∧ c.containsKey 1 = (c.get 1).1.isSome ∧
      ∀ v, ∃ c', c.insert 1 v = some c' ∧
        (c'.get 1).1 = some v ∧ c'.peek 1 = some v ∧ c'.containsKey 1 = true :=
  run_shows_lastWritten (Nat.le_refl 1) _ 1

end S3FifoCache

end AgentMail.Cache
