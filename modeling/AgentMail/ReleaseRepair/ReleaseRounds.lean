import AgentMail.ReleaseRepair.LaneMoves

/-!
# Rounds of release repair

From the choice of a ceiling until it is given up, a lane comes past every row that stays, in a pass
that retains or attempts it.
-/

namespace AgentMail.ReleaseRepair

open Base Lib List

variable {queue : RetryQueue} {w w' : Walk} {lane : Lane} {pass : Pass}
  {cursor cursor' : ReservationReconcileCursor} {c r : Int}

/-! ### One lane -/

/-- The lane has not come to the row, or its next round begins below it. -/
def Before (position : ScanPosition) (c r : Int) : Prop :=
  position.ceiling = none ∧ 0 < r ∨ Ahead position c r

def Walk.Passes (w : Walk) (lane : Lane) (r : Int) : Prop :=
  ∃ p ∈ w.passed, p.lane = lane ∧ p.id = r

/-- What one round of the loop over the lanes does to the scan. -/
structure LaneMoved (selection : Selection) (lane : Lane) (w w' : Walk) : Prop where
  others : ∀ other ≠ lane, w'.cursor.position other = w.cursor.position other
  earlier : ∀ p ∈ w.passed, p ∈ w'.passed
  stops : ∀ s ∈ w'.stops, s ∈ w.stops ∨ s.1 = lane ∧ (w'.cursor.position lane).after < s.2
  ceilings : w'.ceilings = w.ceilings ++
    ((selection.ceiling? (w.cursor.position lane)).map (lane, ·)).toList
  unread : selection.ceiling? (w.cursor.position lane) = none →
    w'.cursor.position lane = w.cursor.position lane
  read : ∀ c, selection.ceiling? (w.cursor.position lane) = some c → ∀ r, selection.Stays lane r →
    Before (w.cursor.position lane) c r → r ≤ c →
      w'.Passes lane r ∨ Ahead (w'.cursor.position lane) c r

variable {position : ScanPosition}

/-- Ids below a row leave the lane below it. -/
theorem ahead_foldl {front : List Int} (h : Ahead position c r) (hr : r ≤ c)
    (hfront : ∀ id ∈ front, id < r) : Ahead (front.foldl .advance position) c r := by
  induction front generalizing position with
  | nil => exact h
  | cons id front ih =>
    rw [forall_mem_cons] at hfront
    apply ih _ hfront.2
    refine ⟨?_, hfront.1⟩
    have hne : position.ceiling ≠ some id := by
      rw [h.1]
      intro heq
      have := Option.some.inj heq
      omega
    rw [ScanPosition.advance, if_neg hne]
    exact h.1

variable {selection : Selection}

theorem selected_selectIds {limit : Int} {begun : ScanPosition} (hlimit : 0 < limit)
    (hsmall : lane = .priority → limit ≤ priorityRowsPerPage)
    (h : selection.begin position = .ok begun) (hceiling : begun.ceiling = some c) :
    Selected selection lane begun c limit (selectIds selection position limit lane) := by
  cases lane with
  | priority => exact selected_priority ⟨hlimit, hsmall rfl⟩ h hceiling
  | history => exact selected_history hlimit h hceiling

theorem selectIds_of_error {limit : Int} {reason : Text} (hlimit : 0 < limit)
    (hsmall : lane = .priority → limit ≤ priorityRowsPerPage)
    (h : selection.begin position = .error reason) :
    selectIds selection position limit lane = (.error reason, position) := by
  cases lane with
  | priority =>
    unfold selectIds selectPriorityIds
    simp only [if_neg (not_not.mpr (And.intro hlimit (hsmall rfl))), h]
  | history =>
    unfold selectIds selectAnyIds
    simp only [h]

/-- A lane that selects, with what came of its selection. -/
theorem laneMoved_of_selected {begun : ScanPosition} {limit : Int}
    {out : Except Text (List Int) × ScanPosition} {ids front back : List Int} {w₁ : Walk}
    (hbegun : selection.begin (w.cursor.position lane) = .ok begun) (hceiling : begun.ceiling = some c)
    (hselected : Selected selection lane begun c limit out) (hout : out.1 = .ok ids ∨ ids = [])
    (hposition : w₁.cursor.position lane = out.2)
    (hothers : ∀ other ≠ lane, w₁.cursor.position other = w.cursor.position other)
    (hpassed : w₁.passed = w.passed) (hstops : w₁.stops = w.stops)
    (hceilings : w₁.ceilings = w.ceilings ++
      ((selection.ceiling? (w.cursor.position lane)).map (lane, ·)).toList)
    (hscanned : Scanned lane ids w₁ w' front back) : LaneMoved selection lane w w' := by
  have hknown : selection.ceiling? (w.cursor.position lane) = some c := by
    rw [ceiling?_of_begin hbegun, hceiling]
  have hascending : ids.Pairwise (· < ·) := by
    rcases hout with hok | rfl
    · exact hselected.ascending ids hok
    · exact .nil
  have hsorted := hascending
  rw [hscanned.parts, pairwise_append] at hsorted
  refine ⟨?_, ?_, ?_, ?_, ?_, ?_⟩
  · intro other hne
    rw [hscanned.others other hne, hothers other hne]
  · intro p hp
    exact hscanned.earlier p (hpassed ▸ hp)
  · intro s hs
    rcases hscanned.stops with hsame | ⟨id, rest, rfl, hstop⟩
    · rw [hsame, hstops] at hs
      exact .inl hs
    · rw [hstop, hstops] at hs
      refine (mem_append.mp hs).imp_right fun hlast => ?_
      rw [mem_singleton] at hlast
      rw [hlast]
      have hid : id ∈ ids := by
        rw [hscanned.parts]
        exact mem_append_right _ mem_cons_self
      rcases hout with hok | rfl
      · obtain ⟨hc, hafter, hle⟩ := hselected.above ids hok id hid
        have hbelow (known : Int) (hknown : known ∈ front) : known < id :=
          hsorted.2.2 known hknown id mem_cons_self
        rw [hscanned.position, hposition]
        exact ⟨rfl, (ahead_foldl ⟨hc, hafter⟩ hle hbelow).2⟩
      · cases hid
  · rw [hscanned.ceilings, hceilings]
  · intro hnone
    rw [hknown] at hnone
    cases hnone
  · intro c' hc' r hstays hbefore hle
    rw [hknown] at hc'
    cases hc'
    have hstart : begun.after < r := by
      rcases begin_eq_ok hbegun with ⟨heq, _⟩ | ⟨hnone, hzero, _⟩
      · rcases hbefore with ⟨hnone, _⟩ | hahead
        · rw [heq, hceiling] at hnone
          cases hnone
        · rw [← heq]
          exact hahead.2
      · rcases hbefore with ⟨_, hpos⟩ | hahead
        · rw [hzero]
          exact hpos
        · have hsome := hahead.1
          rw [hnone] at hsome
          cases hsome
    obtain ⟨hahead, hplace⟩ := hselected.complete r hstays hstart hle
    rw [hscanned.position, hposition]
    by_cases hfront : r ∈ front
    · exact .inl (hscanned.passed r hfront)
    · refine .inr (ahead_foldl hahead hle fun id hid => ?_)
      have hmem : id ∈ ids := by
        rw [hscanned.parts]
        exact mem_append_left _ hid
      rcases hout with hok | rfl
      · rcases hplace ids hok with hin | hall
        · rw [hscanned.parts] at hin
          exact hsorted.2.2 id hid r ((mem_append.mp hin).resolve_left hfront)
        · exact hall id hmem
      · cases hmem

theorem Kept.setPosition (h : Kept queue w) (lane : Lane) (position : ScanPosition)
    (ceilings : List (Lane × Int)) (selectedCount : Int) :
    Kept queue { w with
      cursor := w.cursor.setPosition lane position
      ceilings := ceilings
      selectedCount := selectedCount } where
  sound := by
    rw [retries_setPosition]
    exact h.sound
  kept := by
    intro id howes hsettles
    rw [retries_setPosition]
    exact h.kept id howes hsettles
  once := h.once
  publications := h.publications
  bounded := h.bounded
  passed := h.passed

theorem selectedCount_attempt (turn : Turn) (id : Int) (w : Walk) :
    (attempt turn id w).2.selectedCount = w.selectedCount := by
  unfold attempt
  split <;> rfl

theorem selectedCount_retryLoop (turns : Nat → Turn) (ids : List Int) (w : Walk) :
    (retryLoop turns ids w).2.selectedCount = w.selectedCount := by
  induction ids generalizing w with
  | nil => rfl
  | cons id ids ih =>
    have hattempt := selectedCount_attempt (turns w.turn) id w.next
    unfold retryLoop
    simp only
    split
    · rfl
    split
    · rfl
    split
    · rfl
    generalize attempt (turns w.turn) id w.next = out at hattempt
    obtain ⟨consumed, after⟩ := out
    cases consumed with
    | false => exact hattempt
    | true => exact (ih _).trans hattempt

theorem selectedCount_scanLoop (turns : Nat → Turn) (lane : Lane) (repairLimit : Nat)
    (ids : List Int) (w : Walk) :
    (scanLoop turns lane repairLimit ids w).2.selectedCount = w.selectedCount := by
  induction ids generalizing w with
  | nil => rfl
  | cons id ids ih =>
    have hattempt := selectedCount_attempt (turns w.turn) id w.next
    unfold scanLoop
    simp only
    split
    · rfl
    split
    · exact ih _
    split
    · rfl
    split
    · rfl
    generalize attempt (turns w.turn) id w.next = out at hattempt
    obtain ⟨consumed, after⟩ := out
    cases consumed with
    | false => exact hattempt
    | true => exact (ih _).trans hattempt

/-- One round of the loop over the lanes, while there is room for ids. -/
theorem laneLoop_spec (pass : Pass) (lane : Lane) {priorityLimit : Nat}
    (hlimit : priorityLimit ≤ maxRepairsPerBatch)
    (h : Kept queue w) (hseen : w.Remembers) (hroom : w.selectedCount < idsPerBatch) :
    Kept queue (laneLoop pass priorityLimit lane w).2 ∧
      ((laneLoop pass priorityLimit lane w).1 = .done →
        (laneLoop pass priorityLimit lane w).2.Remembers ∧
        (lane = .priority → (laneLoop pass priorityLimit lane w).2.selectedCount ≤
          w.selectedCount + priorityIdsPerBatch)) ∧
      LaneMoved (pass.selection lane) lane w (laneLoop pass priorityLimit lane w).2 := by
  unfold laneLoop
  simp only
  generalize hids : (if lane = .priority then min priorityIdsPerBatch (idsPerBatch - w.selectedCount)
    else idsPerBatch - w.selectedCount) = idLimit
  have hpos : 0 < idLimit := by
    rw [← hids]
    have : (0 : Int) < priorityIdsPerBatch := by decide
    split <;> omega
  have hsmall : lane = .priority → idLimit ≤ priorityIdsPerBatch := by
    intro hlane
    rw [← hids, if_pos hlane]
    exact min_le_left _ _
  have hrows : lane = .priority → idLimit ≤ priorityRowsPerPage := by
    intro hlane
    have := hsmall hlane
    have : priorityIdsPerBatch ≤ (priorityRowsPerPage : Int) := by decide
    omega
  rw [if_neg (show ¬ idLimit = 0 by omega)]
  have hrepairs : (if lane = .priority then priorityLimit else maxRepairsPerBatch) ≤
      maxRepairsPerBatch := by
    split
    · exact hlimit
    · exact le_rfl
  generalize hposition : w.cursor.position lane = position
  cases hbegin : (pass.selection lane).begin position with
  | error reason =>
    rw [selectIds_of_error hpos hrows hbegin, ceiling?_of_error hbegin]
    have hsame : w.cursor.setPosition lane position = w.cursor := by
      rw [← hposition]
      cases lane <;> rfl
    have hnone : (pass.selection lane).ceiling? (w.cursor.position lane) = none := by
      rw [hposition]
      exact ceiling?_of_error hbegin
    simp only [hsame, Option.map_none, Option.toList_none, append_nil]
    refine ⟨h, nofun, fun _ _ => rfl, fun _ hp => hp, fun s hs => .inl hs, ?_, fun _ => rfl, ?_⟩
    · rw [hnone]
      exact (append_nil _).symm
    · intro c hc
      rw [hnone] at hc
      cases hc
  | ok begun =>
    obtain ⟨c, hceiling⟩ : ∃ c, begun.ceiling = some c :=
      (begin_eq_ok hbegin).elim (·.2) (·.2.2)
    have hselected := selected_selectIds hpos hrows hbegin hceiling
    generalize selectIds (pass.selection lane) position idLimit lane = out at hselected
    obtain ⟨ids, after⟩ := out
    have hbegin' : (pass.selection lane).begin (w.cursor.position lane) = .ok begun := by
      rw [hposition]
      exact hbegin
    cases ids with
    | error reason =>
      dsimp only
      refine ⟨h.setPosition lane after _ _, nofun, ?_⟩
      generalize hw : ({ w with
        cursor := w.cursor.setPosition lane after
        ceilings := w.ceilings ++
          (((pass.selection lane).ceiling? position).map (lane, ·)).toList } : Walk) = w₁
      have hscanned : Scanned lane [] w₁ w₁ [] [] := .none ⟨fun _ => rfl, rfl, rfl, rfl⟩
      refine laneMoved_of_selected hbegin' hceiling hselected (.inr rfl) ?_ ?_ ?_ ?_ ?_ hscanned
      · rw [← hw]
        exact (position_setPosition _ _ _ _).trans (if_pos rfl)
      · rw [← hw]
        exact fun other hne => (position_setPosition _ _ _ _).trans (if_neg hne)
      · rw [← hw]
      · rw [← hw]
      · rw [← hw, hposition]
    | ok ids =>
      have hkept := h.setPosition lane after (w.ceilings ++
        (((pass.selection lane).ceiling? position).map (lane, ·)).toList)
        (w.selectedCount + ids.length)
      generalize hw : ({ w with
        cursor := w.cursor.setPosition lane after
        ceilings := w.ceilings ++ (((pass.selection lane).ceiling? position).map (lane, ·)).toList
        selectedCount := w.selectedCount + ids.length } : Walk) = w₁ at hkept
      have hseen' : w₁.Remembers := by
        rw [← hw]
        exact ⟨hseen.1, hseen.2⟩
      obtain ⟨hkept', hend, front, back, hscanned⟩ := scanLoop_spec pass.turns lane hrepairs
        ids hkept hseen'
      have hcount := selectedCount_scanLoop pass.turns lane
        (if lane = .priority then priorityLimit else maxRepairsPerBatch) ids w₁
      dsimp only
      rw [hw]
      refine ⟨hkept', fun hdone => ⟨hend hdone, fun hlane => ?_⟩, ?_⟩
      · have hfew := hselected.few ids rfl
        have := hsmall hlane
        rw [hcount, ← hw]
        change w.selectedCount + (ids.length : Int) ≤ _
        omega
      · refine laneMoved_of_selected hbegin' hceiling hselected (.inl rfl) ?_ ?_ ?_ ?_ ?_ hscanned
        · rw [← hw]
          exact (position_setPosition _ _ _ _).trans (if_pos rfl)
        · rw [← hw]
          exact fun other hne => (position_setPosition _ _ _ _).trans (if_neg hne)
        · rw [← hw]
        · rw [← hw]
        · rw [← hw, hposition]

/-! ### One pass -/

/-- What the pass leaves of a row that stays: it is passed, or the lane has not come to it. -/
def Covers (pass : Pass) (before : ScanPosition) (lane : Lane) (w : Walk) : Prop :=
  ∀ c r, (pass.selection lane).Stays lane r → r ≤ c →
    Ahead before c r ∨ before.ceiling = none ∧ 0 < r ∧ (lane, c) ∈ w.ceilings →
      w.Passes lane r ∨ Ahead (w.cursor.position lane) c r

theorem ceiling?_of_open {c' : Int} (h : position.ceiling = some c)
    (h' : selection.ceiling? position = some c') : c' = c := by
  cases hbegin : selection.begin position with
  | error reason =>
    rw [ceiling?_of_error hbegin] at h'
    cases h'
  | ok begun =>
    rw [ceiling?_of_begin hbegin] at h'
    rcases begin_eq_ok hbegin with ⟨rfl, _⟩ | ⟨hnone, _⟩
    · exact Option.some.inj (h'.symm.trans h)
    · rw [h] at hnone
      cases hnone

theorem LaneMoved.covers (h : LaneMoved (pass.selection lane) lane w w')
    (hfirst : ∀ c, (lane, c) ∉ w.ceilings) : Covers pass (w.cursor.position lane) lane w' := by
  intro c r hstays hle hbefore
  cases hceiling : (pass.selection lane).ceiling? (w.cursor.position lane) with
  | none =>
    rcases hbefore with hahead | ⟨_, _, hmem⟩
    · rw [h.unread hceiling]
      exact .inr hahead
    · rw [h.ceilings, hceiling] at hmem
      exact absurd ((append_nil w.ceilings) ▸ hmem) (hfirst c)
  | some c' =>
    rcases hbefore with hahead | ⟨hnone, hpos, hmem⟩
    · have heq := ceiling?_of_open hahead.1 hceiling
      rw [heq] at hceiling
      exact h.read c hceiling r hstays (.inr hahead) hle
    · rw [h.ceilings, hceiling] at hmem
      have hlast := (mem_append.mp hmem).resolve_left (hfirst c)
      have heq : c = c' := congrArg Prod.snd (mem_singleton.mp hlast)
      rw [← heq] at hceiling
      exact h.read c hceiling r hstays (.inl ⟨hnone, hpos⟩) hle

theorem Covers.after {other : Lane} {before : ScanPosition} (h : Covers pass before lane w)
    (hmoved : LaneMoved (pass.selection other) other w w') (hne : lane ≠ other) :
    Covers pass before lane w' := by
  intro c r hstays hle hbefore
  have hceilings : (lane, c) ∈ w'.ceilings → (lane, c) ∈ w.ceilings := by
    intro hmem
    rw [hmoved.ceilings] at hmem
    refine (mem_append.mp hmem).resolve_right fun hlast => ?_
    rw [Option.mem_toList, Option.map_eq_some_iff] at hlast
    obtain ⟨_, _, heq⟩ := hlast
    exact hne (congrArg Prod.fst heq).symm
  rw [hmoved.others lane hne]
  refine (h c r hstays hle (hbefore.imp_right fun ⟨hnone, hpos, hmem⟩ =>
    ⟨hnone, hpos, hceilings hmem⟩)).imp_left ?_
  intro ⟨p, hp, hlane, hid⟩
  exact ⟨p, hmoved.earlier p hp, hlane, hid⟩

theorem kept_start {queue : RetryQueue} (h : cursor.retries = queue) (hsound : queue.Sound)
    (selectedCount : Int) :
    Kept queue { Walk.start cursor with selectedCount := selectedCount } where
  sound := h ▸ hsound
  kept := by
    intro id howes _
    rcases howes with hin | ⟨a, ha, _⟩
    · exact h ▸ hin
    · cases ha
  once := nodup_nil
  publications := rfl
  bounded := Nat.zero_le _
  passed := by
    intro p hp
    cases hp

/-- What a pass keeps of the queue, where it stops and what its lanes leave. -/
structure Walked (pass : Pass) (cursor : ReservationReconcileCursor) (w : Walk) : Prop where
  kept : Kept cursor.retries w
  stops : ∀ s ∈ w.stops, (w.cursor.position s.1).after < s.2
  covers : ∀ lane, Covers pass (cursor.position lane) lane w

theorem walked (pass : Pass) (h : cursor.retries.Sound) : Walked pass cursor (walk pass cursor).2 := by
  unfold walk
  simp only
  generalize hstart : ({ Walk.start cursor with
    selectedCount := ((cursor.retries.due pass.now).length : Int) } : Walk) = start
  have hkept : Kept cursor.retries start := hstart ▸ kept_start rfl h _
  have hcursor : start.cursor = cursor := by rw [← hstart]; rfl
  have hattempts : start.attempts = [] := by rw [← hstart]; rfl
  have hstops : start.stops = [] := by rw [← hstart]; rfl
  have hceilings : start.ceilings = [] := by rw [← hstart]; rfl
  have hcount : start.selectedCount = ((cursor.retries.due pass.now).length : Int) := by
    rw [← hstart]
  have hseen : start.Remembers := by
    rw [← hstart]
    exact ⟨nofun, nofun⟩
  obtain ⟨hkept₁, hscan, hseen₁⟩ := retryLoop_spec pass.turns hkept hseen
    (h.distinct.sublist (RetryQueue.due_sublist cursor.retries pass.now)) (fun id hid => by
      rw [hcursor, hattempts]
      exact ⟨(RetryQueue.due_sublist cursor.retries pass.now).subset hid, nofun⟩)
  have hcount₁ := selectedCount_retryLoop pass.turns (cursor.retries.due pass.now) start
  -- After the retries the lanes are where they were.
  have hretried : Walked pass cursor (retryLoop pass.turns (cursor.retries.due pass.now) start).2 := by
    refine ⟨hkept₁, ?_, fun lane c r _ _ hbefore => ?_⟩
    · rw [hscan.stops, hstops]
      exact forall_mem_nil _
    · rw [hscan.position, hcursor]
      rcases hbefore with hahead | ⟨_, _, hmem⟩
      · exact .inr hahead
      · rw [hscan.ceilings, hceilings] at hmem
        cases hmem
  generalize retryLoop pass.turns (cursor.retries.due pass.now) start = retried at *
  obtain ⟨exit, w₁⟩ := retried
  cases exit with
  | done =>
    simp only
    generalize hlimit : min (w₁.report.attempted + priorityRepairsPerBatch)
      (maxRepairsPerBatch - 1) = priorityLimit
    have hlow : priorityLimit ≤ maxRepairsPerBatch := by
      rw [← hlimit]
      omega
    have hdue := RetryQueue.length_due cursor.retries pass.now
    have hbatch : retryIdsPerBatch = 8 := rfl
    have hids : idsPerBatch = 32 := rfl
    have hpriority : priorityIdsPerBatch = 16 := rfl
    obtain ⟨hkept₂, hdone₂, hmoved₂⟩ := laneLoop_spec pass .priority hlow hkept₁
      (hseen₁ rfl) (show w₁.selectedCount < idsPerBatch by simp only at hcount₁; omega)
    have hcovers₂ : Covers pass (cursor.position .priority) .priority
        (laneLoop pass priorityLimit .priority w₁).2 := by
      have hfirst : ∀ c, (Lane.priority, c) ∉ w₁.ceilings := by
        intro c
        rw [hscan.ceilings, hceilings]
        exact not_mem_nil
      have hcovers := hmoved₂.covers hfirst
      rw [hscan.position, hcursor] at hcovers
      exact hcovers
    have hstops₂ : ∀ s ∈ (laneLoop pass priorityLimit .priority w₁).2.stops, s.1 = .priority ∧
        ((laneLoop pass priorityLimit .priority w₁).2.cursor.position .priority).after < s.2 := by
      intro s hs
      refine (hmoved₂.stops s hs).resolve_left ?_
      rw [hscan.stops, hstops]
      exact not_mem_nil
    -- A pass that ends in the priority lane has left the history alone.
    have hended : Walked pass cursor (laneLoop pass priorityLimit .priority w₁).2 := by
      refine ⟨hkept₂, fun s hs => ?_, fun lane => ?_⟩
      · rw [(hstops₂ s hs).1]
        exact (hstops₂ s hs).2
      · cases lane with
        | priority => exact hcovers₂
        | history => exact (hretried.covers .history).after hmoved₂ (by decide)
    unfold lanesLoop
    generalize laneLoop pass priorityLimit .priority w₁ = second at *
    obtain ⟨exit, w₂⟩ := second
    cases exit with
    | done =>
      simp only
      obtain ⟨hseen₂, hcount₂⟩ := hdone₂ rfl
      have hcount₂' := hcount₂ rfl
      have hroom : w₂.selectedCount < idsPerBatch := by
        simp only at hcount₁ hcount₂'
        omega
      obtain ⟨hkept₃, -, hmoved₃⟩ := laneLoop_spec pass .history hlow hkept₂
        hseen₂ hroom
      have hlast : Walked pass cursor (laneLoop pass priorityLimit .history w₂).2 := by
        refine ⟨hkept₃, fun s hs => ?_, fun lane => ?_⟩
        · rcases hmoved₃.stops s hs with hearlier | ⟨hlane, hafter⟩
          · rw [hmoved₃.others s.1 (by rw [(hstops₂ s hearlier).1]; decide)]
            exact hended.stops s hearlier
          · rw [hlane]
            exact hafter
        · cases lane with
          | priority => exact hcovers₂.after hmoved₃ (by decide)
          | history =>
            have hfirst : ∀ c, (Lane.history, c) ∉ w₂.ceilings := by
              intro c hmem
              rw [hmoved₂.ceilings, hscan.ceilings, hceilings, nil_append, Option.mem_toList,
                Option.map_eq_some_iff] at hmem
              obtain ⟨_, _, heq⟩ := hmem
              cases congrArg Prod.fst heq
            have hcovers := hmoved₃.covers hfirst
            rw [hmoved₂.others .history (by decide), hscan.position, hcursor] at hcovers
            exact hcovers
      unfold lanesLoop
      generalize laneLoop pass priorityLimit .history w₂ = third at *
      obtain ⟨exit, w₃⟩ := third
      cases exit with
      | done => exact hlast
      | leave => exact hlast
      | finished => exact hlast
      | failed reason => exact hlast
    | leave => exact hended
    | finished => exact hended
    | failed reason => exact hended
  | leave => exact hretried
  | finished => exact hretried
  | failed reason => exact hretried

theorem runAdmitted_eq (pass : Pass) (cursor : ReservationReconcileCursor) : ∃ result,
    runAdmitted pass cursor =
      ((walk pass cursor).2.response result, (walk pass cursor).2.cursor) := by
  unfold runAdmitted
  generalize walk pass cursor = out
  obtain ⟨exit, w⟩ := out
  cases exit with
  | finished => exact ⟨_, rfl⟩
  | failed reason => exact ⟨_, rfl⟩
  | done =>
    simp only
    split
    · exact ⟨.ok w.exhaust.finish, rfl⟩
    · exact ⟨.ok w.finish, rfl⟩
  | leave =>
    simp only
    split
    · exact ⟨.ok w.exhaust.finish, rfl⟩
    · exact ⟨.ok w.finish, rfl⟩

/-! ### Runs -/

/-- A pass as a step. -/
def releaseStep (cursor : ReservationReconcileCursor) (pass : Pass) :
    Option (Response × ReservationReconcileCursor) := some (runAdmitted pass cursor)

abbrev PassEntry : Type := Entry ReservationReconcileCursor Pass Response

/-- An attempt of the id in the pass succeeded or met a conflict. -/
def Settles (x : PassEntry) (id : Int) : Prop := ∃ a ∈ x.response.attempts, a.id = id ∧ a.Settles

/-- An attempt of the id in the pass was deferred as transient. -/
def Defers (x : PassEntry) (id : Int) : Prop := ∃ a ∈ x.response.attempts, a.id = id ∧ a.Defers

/-- An attempt of the id was completed in the pass. -/
def Attempts (x : PassEntry) (id : Int) : Prop :=
  ∃ a ∈ x.response.attempts, a.id = id ∧ a.recorded.isSome = true

/-- The lane passes the id in the pass, when the queue retains it or the pass attempts it. -/
def PassesHeld (x : PassEntry) (lane : Lane) (id : Int) : Prop :=
  ∃ p ∈ x.response.passed, p.lane = lane ∧ p.id = id ∧ (id ∈ p.retained ∨ Attempts x id)

/-- What every pass keeps. -/
structure PassKept (x : PassEntry) : Prop where
  kept : ∀ id, id ∈ x.before.retries.ids ∨ Defers x id → ¬ Settles x id → id ∈ x.after.retries.ids
  distinct : x.after.retries.ids.Nodup
  bounded : x.after.retries.ids.length ≤ maxRetryIds
  once : (x.response.attempts.map (·.id)).Nodup
  publications : (x.response.attempts.filter (·.started)).length ≤ maxRepairsPerBatch
  stopped : ∀ s ∈ x.response.stops, (x.after.position s.1).after < s.2

/-- The row belongs to what the lane selects in the pass. -/
def Stays (x : PassEntry) (lane : Lane) (id : Int) : Prop := (x.event.selection lane).Stays lane id

/-- A round of a lane: from the pass that chooses the ceiling to the first one that leaves none. -/
structure Round (lane : Lane) (c : Int) (round : List PassEntry) : Prop where
  starts : ∃ first rest, round = first :: rest ∧ (first.before.position lane).ceiling = none ∧
    (lane, c) ∈ first.response.ceilings
  ends : ∃ front last, round = front ++ [last] ∧ (last.after.position lane).ceiling = none ∧
    ∀ x ∈ front, (x.after.position lane).ceiling ≠ none

/-- What a pass leaves of a row that stays. -/
def PassCovers (x : PassEntry) : Prop :=
  ∀ lane c r, Stays x lane r → r ≤ c → Ahead (x.before.position lane) c r ∨
      (x.before.position lane).ceiling = none ∧ 0 < r ∧ (lane, c) ∈ x.response.ceilings →
    PassesHeld x lane r ∨ Ahead (x.after.position lane) c r

theorem passKept_step {response : Response} (h : cursor.retries.Sound)
    (hstep : releaseStep cursor pass = some (response, cursor')) :
    PassKept ⟨cursor, pass, response, cursor'⟩ ∧ PassCovers ⟨cursor, pass, response, cursor'⟩ ∧
      cursor'.retries.Sound := by
  obtain ⟨result, heq⟩ := runAdmitted_eq pass cursor
  rw [releaseStep, heq] at hstep
  cases Option.some.inj hstep
  have hwalked := walked pass h
  have hkept := hwalked.kept
  refine ⟨⟨hkept.kept, hkept.sound.distinct, hkept.sound.bounded, hkept.once, ?_, hwalked.stops⟩, ?_,
    hkept.sound⟩
  · exact hkept.publications ▸ hkept.bounded
  · intro lane c r hstays hle hbefore
    refine (hwalked.covers lane c r hstays hle hbefore).imp_left ?_
    intro ⟨p, hp, hlane, hid⟩
    refine ⟨p, hp, hlane, hid, ?_⟩
    rw [← hid]
    exact hkept.passed p hp

theorem passes_kept (h : cursor.retries.Sound) (passes : List Pass) :
    ∀ x ∈ trace releaseStep cursor passes, PassKept x ∧ PassCovers x := by
  intro x hx
  have hsound : ∀ s e r s', s.retries.Sound → releaseStep s e = some (r, s') → s'.retries.Sound :=
    fun s e r s' hs hstep => (passKept_step hs hstep).2.2
  obtain ⟨hbefore, hstep, -⟩ := forall_mem_trace hsound h passes x hx
  have hkept := passKept_step hbefore hstep
  exact ⟨hkept.1, hkept.2.1⟩

/-- A lane that has not come to a row passes it before the round ends. -/
theorem passes_before_end {round : List PassEntry}
    (hchain : round.IsChain fun x y => y.before = x.after) (hcovers : ∀ x ∈ round, PassCovers x)
    (hstays : ∀ x ∈ round, Stays x lane r) (hle : r ≤ c)
    (hfirst : ∀ x ∈ round.head?, Ahead (x.before.position lane) c r ∨
      (x.before.position lane).ceiling = none ∧ 0 < r ∧ (lane, c) ∈ x.response.ceilings)
    (hlast : ∃ last ∈ round.getLast?, (last.after.position lane).ceiling = none) :
    ∃ x ∈ round, PassesHeld x lane r := by
  induction round with
  | nil =>
    obtain ⟨last, hlast, -⟩ := hlast
    cases hlast
  | cons x round ih =>
    rw [forall_mem_cons] at hcovers hstays
    rcases hcovers.1 lane c r hstays.1 hle (hfirst x rfl) with hpassed | hahead
    · exact ⟨x, mem_cons_self, hpassed⟩
    · cases round with
      | nil =>
        obtain ⟨last, hmem, hnone⟩ := hlast
        rw [← show x = last from Option.some.inj hmem, hahead.1] at hnone
        cases hnone
      | cons y round =>
        rw [isChain_cons_cons] at hchain
        rw [List.getLast?_cons_cons] at hlast
        obtain ⟨z, hz, hpassed⟩ := ih hchain.2 hcovers.2 hstays.2
          (fun first hfirst => by
            cases Option.some.inj hfirst
            rw [hchain.1]
            exact .inl hahead) hlast
        exact ⟨z, mem_cons_of_mem _ hz, hpassed⟩

/-- What release repair keeps over a run of passes. -/
structure ReleaseLaws (passes : List PassEntry) : Prop where
  pass : ∀ x ∈ passes, PassKept x
  /-- An id on the retry queue stays there until an attempt succeeds or conflicts. -/
  retained : ∀ x rest, x :: rest <:+: passes → ∀ id, id ∈ x.after.retries.ids →
    (∀ y ∈ rest, ¬ Settles y id) → ∀ y ∈ rest, id ∈ y.after.retries.ids
  /-- In a round, each row up to the ceiling that stays is passed when it is retained or attempted. -/
  round : ∀ lane c round, round <:+: passes → Round lane c round → ∀ r, 0 < r → r ≤ c →
    (∀ x ∈ round, Stays x lane r) → ∃ x ∈ round, PassesHeld x lane r

/-- Rounds of release repair skip no release, over every run. -/
theorem releaseLaws (cursor : ReservationReconcileCursor) (passes : List Pass)
    (h : cursor.retries.Sound) : ReleaseLaws (trace releaseStep cursor passes) where
  pass := fun x hx => (passes_kept h passes x hx).1
  retained := by
    intro x rest hpart id hid hsettles
    apply lasts_over (fun cursor => id ∈ cursor.retries.ids) (chained_part hpart) _ hid
    intro y hy hbefore
    have hkept := (passes_kept h passes y (hpart.mem (mem_cons_of_mem _ hy))).1
    exact hkept.kept id (.inl hbefore) (hsettles y hy)
  round := by
    intro lane c round hpart hround r hpos hle hstays
    obtain ⟨⟨first, rest, rfl, hnone, hchosen⟩, front, last, hends, hended, -⟩ := hround
    have hcovers : ∀ x ∈ first :: rest, PassCovers x := fun x hx =>
      (passes_kept h passes x (hpart.mem hx)).2
    apply passes_before_end (chained_part hpart) hcovers hstays hle
    · intro x hx
      cases Option.some.inj hx
      exact .inr ⟨hnone, hpos, hchosen⟩
    · rw [hends, List.getLast?_concat]
      exact ⟨last, rfl, hended⟩

/-- A released reservation that has not expired. -/
def releasedLease : Reservation := ⟨1, 100, some 5, false, Int.one_pos⟩

def leaseSelection : Selection where
  connection := .ok ()
  queryOnly := false
  aggregate := .ok ⟨[releasedLease], pairwise_singleton _ _⟩
  page := .ok ⟨[releasedLease], pairwise_singleton _ _⟩
  nowUs := 10
  cancelled := false

/-- A pass whose publications meet a busy archive. -/
def busyPass : Pass where
  now := 0
  turns := fun _ => ⟨false, false, true, .error ⟨true⟩, false, 0⟩
  priority := leaseSelection
  history := leaseSelection

theorem releaseLaws_twoPasses : ReleaseLaws (trace releaseStep .default [busyPass, busyPass]) :=
  releaseLaws .default [busyPass, busyPass] ⟨nodup_nil, Nat.zero_le _⟩

/-- The priority lane attempts the release and ends its round; the history finds it retained. -/
example : (runAdmitted busyPass .default).1.passed.map (fun p => (p.lane, p.id, p.retained)) =
    [(.priority, 1, [1]), (.history, 1, [1])] := by decide

end AgentMail.ReleaseRepair
