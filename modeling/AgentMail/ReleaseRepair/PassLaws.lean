import AgentMail.ReleaseRepair.RepairPass

/-!
# What a pass of release repair keeps

An attempt changes nothing of the retry queue but its own id. The loops keep what the queue owes,
attempt nothing twice and stay within the budget of publications; a lane moves only past ids that
are retained or attempted.
-/

namespace AgentMail.ReleaseRepair

open Base Lib List

variable {w w' : Walk} {id id' : Int} {turn : Turn} {queue : RetryQueue}
  {lane : Lane}

/-! ### One attempt -/

def Attempt.Defers (a : Attempt) : Prop := a.recorded = some (.error ⟨true⟩)

/-- The attempt succeeded or met a conflict. -/
def Attempt.Settles (a : Attempt) : Prop :=
  ∃ result, a.recorded = some result ∧ result ≠ .error ⟨true⟩

/-- An attempt of the id was completed. -/
def Walk.Completes (w : Walk) (id : Int) : Prop :=
  ∃ a ∈ w.attempts, a.id = id ∧ a.recorded.isSome = true

/-- Scanning is not touched. -/
structure SameScan (w w' : Walk) : Prop where
  position : ∀ lane, w'.cursor.position lane = w.cursor.position lane
  passed : w'.passed = w.passed
  stops : w'.stops = w.stops
  ceilings : w'.ceilings = w.ceilings

theorem SameScan.trans {w₁ w₂ w₃ : Walk} (h : SameScan w₁ w₂) (h' : SameScan w₂ w₃) :
    SameScan w₁ w₃ where
  position := fun lane => (h'.position lane).trans (h.position lane)
  passed := h'.passed.trans h.passed
  stops := h'.stops.trans h.stops
  ceilings := h'.ceilings.trans h.ceilings

/-- What an attempt does. -/
structure Attempted (turn : Turn) (id : Int) (w : Walk) (out : Bool × Walk) : Prop where
  scan : SameScan w out.2
  seen : out.2.seen = w.seen
  consumed : out.1 = !turn.stoppedAfter
  attempts : out.2.attempts = w.attempts ++
    [⟨id, turn.started, if turn.stoppedAfter then none else some turn.result⟩]
  published : out.2.report.attempted = w.report.attempted + turn.started.toNat
  sound : out.2.cursor.retries.Sound
  others : ∀ id' ≠ id, (id' ∈ out.2.cursor.retries.ids ↔ id' ∈ w.cursor.retries.ids)
  kept : turn.stoppedAfter = true ∨ turn.result = .error ⟨true⟩ →
    id ∈ w.cursor.retries.ids ∨ turn.stoppedAfter = false → id ∈ out.2.cursor.retries.ids

/-- What recording a result does to the queue. -/
theorem recordResult_spec (result : Except ReleaseFailure Bool) (report : ReservationReconcileReport)
    (now : Nat) (h : queue.Sound) (hroom : id ∈ queue.ids ∨ queue.isFull = false) :
    (recordResult id result queue report now).1 = true ∧
      (recordResult id result queue report now).2.1.Sound ∧
      (recordResult id result queue report now).2.2.attempted = report.attempted ∧
      ∀ id', id' ∈ (recordResult id result queue report now).2.1.ids ↔
        if id' = id then result = .error ⟨true⟩ else id' ∈ queue.ids := by
  have hforgot (id' : Int) (hresult : result ≠ .error ⟨true⟩) : id' ∈ (queue.forget id).ids ↔
      if id' = id then result = .error ⟨true⟩ else id' ∈ queue.ids := by
    rw [RetryQueue.mem_ids_forget]
    by_cases heq : id' = id <;> simp [heq, hresult]
  cases result with
  | ok repaired =>
    refine ⟨rfl, h.forget id, ?_, fun id' => hforgot id' nofun⟩
    cases repaired <;> rfl
  | error failure =>
    obtain ⟨transient⟩ := failure
    cases transient with
    | true =>
      have hkept := (RetryQueue.defer_of_room hroom now).1
      unfold recordResult
      simp only [hkept, if_true]
      refine ⟨trivial, h.defer hroom, trivial, fun id' => ?_⟩
      rw [RetryQueue.mem_ids_defer h hroom]
      by_cases heq : id' = id <;> simp [heq]
    | false => exact ⟨rfl, h.forget id, rfl, fun id' => hforgot id' (by simp)⟩

theorem attempted_attempt (h : w.cursor.retries.Sound)
    (hroom : id ∈ w.cursor.retries.ids ∨ w.cursor.retries.isFull = false) :
    Attempted turn id w (attempt turn id w) := by
  unfold attempt
  cases hstop : turn.stoppedAfter with
  | true =>
    rw [if_pos rfl]
    refine ⟨⟨fun lane => rfl, rfl, rfl, rfl⟩, rfl, by rw [hstop]; rfl, ?_, rfl, h,
      fun id' _ => Iff.rfl, ?_⟩
    · rw [hstop]
      rfl
    · intro _ hkept
      exact hkept.resolve_right (by rw [hstop]; exact Bool.noConfusion)
  | false =>
    rw [if_neg Bool.false_ne_true]
    obtain ⟨hconsumed, hsound, hpublished, hids⟩ := recordResult_spec turn.result
      { w.report with attempted := w.report.attempted + turn.started.toNat } turn.now h hroom
    refine ⟨⟨fun lane => ?_, rfl, rfl, rfl⟩, rfl, ?_, ?_, hpublished, hsound, ?_, ?_⟩
    · cases lane <;> rfl
    · rw [hstop]
      exact hconsumed
    · rw [hstop]
      rfl
    · intro id' hne
      rw [hids id', if_neg hne]
    · intro htransient _
      rw [hids id, if_pos rfl]
      exact htransient.resolve_left (by rw [hstop]; exact Bool.noConfusion)

/-! ### What the loops keep -/

/-- What holds of a walk whose pass began with a queue. -/
structure Kept (queue : RetryQueue) (w : Walk) : Prop where
  sound : w.cursor.retries.Sound
  kept : ∀ id, (id ∈ queue.ids ∨ ∃ a ∈ w.attempts, a.id = id ∧ a.Defers) →
    (¬ ∃ a ∈ w.attempts, a.id = id ∧ a.Settles) → id ∈ w.cursor.retries.ids
  once : (w.attempts.map (·.id)).Nodup
  publications : (w.attempts.filter (·.started)).length = w.report.attempted
  bounded : w.report.attempted ≤ maxRepairsPerBatch
  passed : ∀ p ∈ w.passed, p.id ∈ p.retained ∨ w.Completes p.id

/-- What was seen in a pass is what it attempted and completed. -/
structure Walk.Remembers (w : Walk) : Prop where
  seen : ∀ a ∈ w.attempts, a.id ∈ w.seen
  completes : ∀ id ∈ w.seen, w.Completes id

theorem Kept.attempted (h : Kept queue w) (hnew : ∀ a ∈ w.attempts, a.id ≠ id)
    (hbudget : w.report.attempted < maxRepairsPerBatch) {out : Bool × Walk}
    (hout : Attempted turn id w out) : Kept queue out.2 where
  sound := hout.sound
  kept := by
    intro id' howes hsettles
    rw [hout.attempts] at howes hsettles
    have hsettles' : ¬ ∃ a ∈ w.attempts, a.id = id' ∧ a.Settles := fun ⟨a, ha, hid, hset⟩ =>
      hsettles ⟨a, mem_append_left _ ha, hid, hset⟩
    by_cases heq : id' = id
    · subst heq
      have hlast : turn.stoppedAfter = true ∨ turn.result = .error ⟨true⟩ := by
        by_contra hother
        rw [not_or, Bool.not_eq_true] at hother
        refine hsettles ⟨_, mem_append_right _ mem_cons_self, rfl, turn.result, ?_, hother.2⟩
        rw [hother.1]
        rfl
      apply hout.kept hlast
      by_cases hstop : turn.stoppedAfter = true
      · left
        apply h.kept id' _ hsettles'
        refine howes.imp_right fun ⟨a, ha, hid, hdefers⟩ => ?_
        rcases mem_append.mp ha with ha | ha
        · exact ⟨a, ha, hid, hdefers⟩
        · rw [mem_singleton] at ha
          rw [ha, Attempt.Defers, hstop, if_pos rfl] at hdefers
          cases hdefers
      · exact .inr (Bool.eq_false_of_not_eq_true hstop)
    · rw [hout.others id' heq]
      apply h.kept id' _ hsettles'
      refine howes.imp_right fun ⟨a, ha, hid, hdefers⟩ => ?_
      rcases mem_append.mp ha with ha | ha
      · exact ⟨a, ha, hid, hdefers⟩
      · rw [mem_singleton] at ha
        rw [ha] at hid
        exact absurd hid.symm heq
  once := by
    rw [hout.attempts]
    apply nodup_map_concat h.once
    intro hmem
    obtain ⟨a, ha, hid⟩ := mem_map.mp hmem
    exact hnew a ha hid
  publications := by
    rw [hout.attempts, hout.published, filter_append, length_append, h.publications]
    cases turn.started <;> simp
  bounded := by
    rw [hout.published]
    have := Bool.toNat_le turn.started
    omega
  passed := by
    rw [hout.scan.passed]
    intro p hp
    refine (h.passed p hp).imp_right fun ⟨a, ha, hid, hsome⟩ => ⟨a, ?_, hid, hsome⟩
    rw [hout.attempts]
    exact mem_append_left _ ha

theorem completes_of_attempted {out : Bool × Walk} (hout : Attempted turn id w out)
    (hconsumed : out.1 = true) : out.2.Completes id := by
  rw [hout.consumed, Bool.not_eq_true'] at hconsumed
  refine ⟨⟨id, turn.started, some turn.result⟩, ?_, rfl, rfl⟩
  rw [hout.attempts, hconsumed]
  exact mem_append_right _ mem_cons_self

theorem Walk.Remembers.see {out : Bool × Walk} (h : w.Remembers) (hout : Attempted turn id w out)
    (hconsumed : out.1 = true) : (out.2.see id).Remembers where
  seen := by
    intro a ha
    change a ∈ out.2.attempts at ha
    change a.id ∈ out.2.seen ++ [id]
    rw [hout.attempts] at ha
    rw [hout.seen]
    rcases mem_append.mp ha with ha | ha
    · exact mem_append_left _ (h.seen a ha)
    · rw [mem_singleton.mp ha]
      exact mem_append_right _ mem_cons_self
  completes := by
    intro id' hid'
    change id' ∈ out.2.seen ++ [id] at hid'
    rw [hout.seen] at hid'
    rcases mem_append.mp hid' with hin | hin
    · obtain ⟨a, ha, hid, hsome⟩ := h.completes id' hin
      refine ⟨a, ?_, hid, hsome⟩
      change a ∈ out.2.attempts
      rw [hout.attempts]
      exact mem_append_left _ ha
    · rw [mem_singleton.mp hin]
      exact completes_of_attempted hout hconsumed

/-! ### The retry lane -/

/-- The retries that are due change nothing of the scan. -/
theorem retryLoop_spec (turns : Nat → Turn) {ids : List Int} (h : Kept queue w) (hseen : w.Remembers) (hids : ids.Nodup)
    (hdue : ∀ id ∈ ids, id ∈ w.cursor.retries.ids ∧ ∀ a ∈ w.attempts, a.id ≠ id) :
    Kept queue (retryLoop turns ids w).2 ∧ SameScan w (retryLoop turns ids w).2 ∧
      ((retryLoop turns ids w).1 = .done → (retryLoop turns ids w).2.Remembers) := by
  induction ids generalizing w with
  | nil => exact ⟨h, ⟨fun _ => rfl, rfl, rfl, rfl⟩, fun _ => hseen⟩
  | cons id ids ih =>
    rw [nodup_cons] at hids
    rw [forall_mem_cons] at hdue
    have hnext : Kept queue w.next := ⟨h.1, h.2, h.3, h.4, h.5, h.6⟩
    have hnextSeen : w.next.Remembers := ⟨hseen.1, hseen.2⟩
    have hsame : SameScan w w.next := ⟨fun _ => rfl, rfl, rfl, rfl⟩
    unfold retryLoop
    simp only
    split
    · exact ⟨⟨h.1, h.2, h.3, h.4, h.5, h.6⟩, ⟨fun _ => rfl, rfl, rfl, rfl⟩, fun _ => ⟨hseen.1, hseen.2⟩⟩
    · split
      · exact ⟨⟨h.1, h.2, h.3, h.4, h.5, h.6⟩, ⟨fun _ => rfl, rfl, rfl, rfl⟩, fun _ => ⟨hseen.1, hseen.2⟩⟩
      · rename_i hbudget
        split
        · exact ⟨hnext, hsame, fun _ => hnextSeen⟩
        · have hlow : w.next.report.attempted < maxRepairsPerBatch := by
            have : retryRepairsPerBatch ≤ maxRepairsPerBatch := by decide
            omega
          have hattempt : Attempted (turns w.turn) id w.next (attempt (turns w.turn) id w.next) :=
            attempted_attempt hnext.sound (.inl hdue.1.1)
          have hkept := hnext.attempted hdue.1.2 hlow hattempt
          generalize attempt (turns w.turn) id w.next = out at hattempt hkept
          obtain ⟨consumed, after⟩ := out
          cases consumed with
          | false => exact ⟨hkept, hsame.trans hattempt.scan, nofun⟩
          | true =>
            have hkept' : Kept queue (after.see id) := ⟨hkept.1, hkept.2, hkept.3, hkept.4, hkept.5, hkept.6⟩
            have hscan : SameScan w (after.see id) :=
              (hsame.trans hattempt.scan).trans ⟨fun _ => rfl, rfl, rfl, rfl⟩
            obtain ⟨hdone, hscan', hseen'⟩ := ih hkept' (hnextSeen.see hattempt rfl)
              hids.2 (by
                intro id' hid'
                have hne : id' ≠ id := fun heq => hids.1 (heq ▸ hid')
                obtain ⟨hin, hnew⟩ := hdue.2 id' hid'
                refine ⟨(hattempt.others id' hne).mpr hin, ?_⟩
                intro a ha
                change a ∈ after.attempts at ha
                rw [show after.attempts = _ from hattempt.attempts] at ha
                rcases mem_append.mp ha with ha | ha
                · exact hnew a ha
                · rw [mem_singleton.mp ha]
                  exact hne.symm)
            exact ⟨hdone, hscan.trans hscan', hseen'⟩

/-! ### A scan lane -/

/-- What a lane has done with the ids that it selected: those of a first part are passed, and it
may stop before the next one. -/
structure Scanned (lane : Lane) (ids : List Int) (w w' : Walk) (front back : List Int) : Prop where
  parts : ids = front ++ back
  position : w'.cursor.position lane = front.foldl .advance (w.cursor.position lane)
  others : ∀ other ≠ lane, w'.cursor.position other = w.cursor.position other
  earlier : ∀ p ∈ w.passed, p ∈ w'.passed
  passed : ∀ id ∈ front, ∃ p ∈ w'.passed, p.lane = lane ∧ p.id = id
  stops : w'.stops = w.stops ∨ ∃ id rest, back = id :: rest ∧ w'.stops = w.stops ++ [(lane, id)]
  ceilings : w'.ceilings = w.ceilings

theorem Scanned.none {ids : List Int} (h : SameScan w w') : Scanned lane ids w w' [] ids where
  parts := rfl
  position := h.position lane
  others := fun other _ => h.position other
  earlier := fun p hp => h.passed ▸ hp
  passed := by
    intro id hid
    cases hid
  stops := .inl h.stops
  ceilings := h.ceilings

theorem Scanned.stopped {ids : List Int} {w₁ : Walk} (h : SameScan w w₁) {w₂ : Walk}
    (h' : SameScan (w₁.stop lane id) w₂) : Scanned lane (id :: ids) w w₂ [] (id :: ids) where
  parts := rfl
  position := (h'.position lane).trans (h.position lane)
  others := fun other _ => (h'.position other).trans (h.position other)
  earlier := by
    intro p hp
    rw [h'.passed]
    exact (show (w₁.stop lane id).passed = w.passed from h.passed) ▸ hp
  passed := by
    intro id hid
    cases hid
  stops := by
    refine .inr ⟨id, ids, rfl, ?_⟩
    rw [h'.stops]
    exact congrArg (· ++ [(lane, id)]) h.stops
  ceilings := h'.ceilings.trans h.ceilings

theorem position_setPosition (cursor : ReservationReconcileCursor) (lane other : Lane)
    (position : ScanPosition) : (cursor.setPosition lane position).position other =
      if other = lane then position else cursor.position other := by
  cases lane <;> cases other <;> rfl

theorem retries_setPosition (cursor : ReservationReconcileCursor) (lane : Lane)
    (position : ScanPosition) : (cursor.setPosition lane position).retries = cursor.retries := by
  cases lane <;> rfl

/-- The first id is passed, and the lane goes on. -/
theorem Scanned.cons {ids front back : List Int} {w₁ w₂ : Walk} (h : SameScan w w₁)
    (h' : Scanned lane ids (w₁.pass lane id) w₂ front back) :
    Scanned lane (id :: ids) w w₂ (id :: front) back where
  parts := congrArg (id :: ·) h'.parts
  position := by
    rw [h'.position, foldl_cons]
    congr 1
    change (w₁.cursor.setPosition lane _).position lane = _
    rw [position_setPosition, if_pos rfl, h.position]
  others := by
    intro other hne
    rw [h'.others other hne]
    change (w₁.cursor.setPosition lane _).position other = _
    rw [position_setPosition, if_neg hne, h.position]
  earlier := by
    intro p hp
    exact h'.earlier p (mem_append_left _ (h.passed ▸ hp))
  passed := by
    intro id' hid'
    cases mem_cons.mp hid' with
    | inl heq =>
      rw [heq]
      exact ⟨_, h'.earlier _ (mem_append_right _ mem_cons_self), rfl, rfl⟩
    | inr hin => exact h'.passed id' hin
  stops := by
    refine h'.stops.imp (fun hsame => hsame.trans h.stops) ?_
    intro ⟨id', rest, hback, hstops⟩
    refine ⟨id', rest, hback, hstops.trans ?_⟩
    exact congrArg (· ++ [(lane, id')]) h.stops
  ceilings := h'.ceilings.trans h.ceilings

/-- The record of a passed id keeps what holds of the walk. -/
theorem Kept.pass (h : Kept queue w) (hid : id ∈ w.cursor.retries.ids ∨ w.Completes id)
    (lane : Lane) : Kept queue (w.pass lane id) where
  sound := by
    change (w.cursor.setPosition lane _).retries.Sound
    rw [retries_setPosition]
    exact h.sound
  kept := by
    intro id' howes hsettles
    change id' ∈ (w.cursor.setPosition lane _).retries.ids
    rw [retries_setPosition]
    exact h.kept id' howes hsettles
  once := h.once
  publications := h.publications
  bounded := h.bounded
  passed := by
    intro p hp
    rcases mem_append.mp hp with hp | hp
    · exact h.passed p hp
    · rw [mem_singleton.mp hp]
      exact hid

theorem scanLoop_spec (turns : Nat → Turn) (lane : Lane) {repairLimit : Nat}
    (hlimit : repairLimit ≤ maxRepairsPerBatch) (ids : List Int) (h : Kept queue w) (hseen : w.Remembers) :
    Kept queue (scanLoop turns lane repairLimit ids w).2 ∧
      ((scanLoop turns lane repairLimit ids w).1 = .done →
        (scanLoop turns lane repairLimit ids w).2.Remembers) ∧
      ∃ front back, Scanned lane ids w (scanLoop turns lane repairLimit ids w).2 front back := by
  induction ids generalizing w with
  | nil => exact ⟨h, fun _ => hseen, [], [], .none ⟨fun _ => rfl, rfl, rfl, rfl⟩⟩
  | cons id ids ih =>
    have hnext : Kept queue w.next := ⟨h.1, h.2, h.3, h.4, h.5, h.6⟩
    have hnextSeen : w.next.Remembers := ⟨hseen.1, hseen.2⟩
    have hsame : SameScan w w.next := ⟨fun _ => rfl, rfl, rfl, rfl⟩
    have hstop (w₂ : Walk) (h' : SameScan (w.next.stop lane id) w₂) :
        ∃ front back, Scanned lane (id :: ids) w w₂ front back :=
      ⟨[], id :: ids, .stopped hsame h'⟩
    unfold scanLoop
    simp only
    split
    · exact ⟨⟨h.1, h.2, h.3, h.4, h.5, h.6⟩, nofun, hstop _ ⟨fun _ => rfl, rfl, rfl, rfl⟩⟩
    split
    · rename_i hskip
      have hid : id ∈ w.next.cursor.retries.ids ∨ w.next.Completes id := by
        rw [Bool.or_eq_true] at hskip
        rcases hskip with hin | hin
        · exact .inr (hseen.completes id (contains_iff_mem.mp hin))
        · exact .inl (RetryQueue.contains_iff.mp hin)
      obtain ⟨hkept, hend, front, back, hscanned⟩ := ih (hnext.pass hid lane) ⟨hseen.1, hseen.2⟩
      exact ⟨hkept, hend, id :: front, back, .cons hsame hscanned⟩
    rename_i hskip
    split
    · exact ⟨⟨h.1, h.2, h.3, h.4, h.5, h.6⟩, fun _ => ⟨hseen.1, hseen.2⟩,
        hstop _ ⟨fun _ => rfl, rfl, rfl, rfl⟩⟩
    rename_i hbudget
    rw [Bool.or_eq_true, not_or, decide_eq_true_eq, Bool.not_eq_true] at hbudget
    split
    · exact ⟨⟨h.1, h.2, h.3, h.4, h.5, h.6⟩, nofun, hstop _ ⟨fun _ => rfl, rfl, rfl, rfl⟩⟩
    have hnew : ∀ a ∈ w.next.attempts, a.id ≠ id := by
      intro a ha heq
      apply hskip
      rw [Bool.or_eq_true]
      exact .inl (contains_iff_mem.mpr (heq ▸ hseen.seen a ha))
    have hattempt : Attempted (turns w.turn) id w.next (attempt (turns w.turn) id w.next) :=
      attempted_attempt hnext.sound (.inr hbudget.2)
    have hkept := hnext.attempted hnew (by omega) hattempt
    have hdone := completes_of_attempted hattempt
    generalize attempt (turns w.turn) id w.next = out at hattempt hkept hdone
    obtain ⟨consumed, after⟩ := out
    cases consumed with
    | false =>
      refine ⟨⟨hkept.1, hkept.2, hkept.3, hkept.4, hkept.5, hkept.6⟩, nofun, [], id :: ids, ?_⟩
      exact .stopped (hsame.trans hattempt.scan) ⟨fun _ => rfl, rfl, rfl, rfl⟩
    | true =>
      have hkept' : Kept queue (after.see id) :=
        ⟨hkept.1, hkept.2, hkept.3, hkept.4, hkept.5, hkept.6⟩
      have hseen' : (after.see id).Remembers := hnextSeen.see hattempt rfl
      obtain ⟨hkept'', hend, front, back, hscanned⟩ :=
        ih (hkept'.pass (.inr (hdone rfl)) lane) ⟨hseen'.1, hseen'.2⟩
      refine ⟨hkept'', hend, id :: front, back, .cons ?_ hscanned⟩
      exact (hsame.trans hattempt.scan).trans ⟨fun _ => rfl, rfl, rfl, rfl⟩

end AgentMail.ReleaseRepair
