import AgentMail.Lib.Cursor
import AgentMail.ReleaseRepair.PassLaws

/-!
# How far a lane moves

Both selections show the rows above the position in ascending order and leave out only rows above
whatever they show. So a lane never comes past a row that it has not passed, as long as the row
belongs to what the lane selects.
-/

namespace AgentMail.ReleaseRepair

open Base Lib List

variable {selection : Selection} {position begun : ScanPosition} {lane : Lane} {c r : Int}
  {queue : RetryQueue} {w w' : Walk}

/-- The round with the ceiling is open, and the lane has not come to the row. -/
def Ahead (position : ScanPosition) (c r : Int) : Prop := position.ceiling = some c ∧ position.after < r

/-- The row belongs to what the lane selects, whenever the lane gets to read its page. -/
def Selection.Stays (selection : Selection) (lane : Lane) (r : Int) : Prop :=
  ∀ reservations, selection.page = .ok reservations →
    ∃ row ∈ reservations.rows, row.id = r ∧ (lane = .priority → row.eligible selection.nowUs = true)

/-! ### Pages -/

theorem Reservations.ids_between (reservations : Reservations) (after ceiling : Int) :
    ((reservations.between after ceiling).map (·.id)).Pairwise (· < ·) :=
  pairwise_map.mpr (reservations.sorted.sublist filter_sublist)

theorem Reservations.mem_between {reservations : Reservations} {after ceiling : Int}
    {row : Reservation} : row ∈ reservations.between after ceiling ↔
      row ∈ reservations.rows ∧ after < row.id ∧ row.id ≤ ceiling := by
  rw [between, mem_filter, Bool.and_eq_true, decide_eq_true_eq, decide_eq_true_eq]

theorem scanPage_eq {ceiling last : Int} {limit : Nat} {ids : List Int} {rows : List (Int × Bool)}
    (hrows : (rows.map (·.1)).Pairwise (· < ·)) (hlast : ∀ row ∈ rows, last < row.1)
    (hceiling : ∀ row ∈ rows, row.1 ≤ ceiling) (hids : ids.length ≤ limit) :
    scanPage ceiling limit last ids rows =
      some (ids ++ ((rows.filter (·.2)).map (·.1)).take (limit - ids.length),
        Cursor.next last (rows.map (·.1))) := by
  induction rows generalizing last ids with
  | nil => simp [scanPage, Cursor.next]
  | cons row rows ih =>
    obtain ⟨id, eligible⟩ := row
    rw [map_cons, pairwise_cons] at hrows
    rw [forall_mem_cons] at hlast hceiling
    have hfollow : ∀ row ∈ rows, id < row.1 := fun row hrow =>
      hrows.1 row.1 (mem_map_of_mem hrow)
    have hvalid : ¬ (id ≤ last ∨ id > ceiling) := by
      have := hlast.1
      have := hceiling.1
      omega
    have hnext : Cursor.next id (rows.map (·.1)) =
        Cursor.next last (((id, eligible) :: rows).map (·.1)) := by
      unfold Cursor.next
      cases rows with
      | nil => rfl
      | cons row rows => simp [List.getLast?_cons]
    rw [scanPage, if_neg hvalid]
    by_cases htake : (eligible && decide (ids.length < limit)) = true
    · rw [if_pos htake]
      rw [Bool.and_eq_true, decide_eq_true_eq] at htake
      obtain ⟨rfl, hroom⟩ := htake
      have hlength : (ids ++ [id]).length = ids.length + 1 := length_append
      obtain ⟨k, hk⟩ : ∃ k, limit - ids.length = k + 1 := ⟨limit - ids.length - 1, by omega⟩
      have hselected : (((id, true) :: rows).filter (·.2)).map (·.1) =
          id :: (rows.filter (·.2)).map (·.1) := rfl
      rw [ih hrows.2 hfollow hceiling.2 (by omega), hnext, hselected, hk, take_succ_cons,
        hlength, show limit - (ids.length + 1) = k by omega, append_assoc]
      rfl
    · rw [if_neg htake, ih hrows.2 hfollow hceiling.2 hids, hnext]
      cases eligible with
      | false => rw [filter_cons_of_neg Bool.false_ne_true]
      | true =>
        rw [Bool.true_and, decide_eq_true_eq] at htake
        rw [show limit - ids.length = 0 by omega, take_zero, take_zero]

/-! ### Selections -/

theorem ceiling?_of_begin (h : selection.begin position = .ok begun) :
    selection.ceiling? position = begun.ceiling := by
  rw [Selection.ceiling?, h]
  rfl

theorem ceiling?_of_error {reason : Text} (h : selection.begin position = .error reason) :
    selection.ceiling? position = none := by
  rw [Selection.ceiling?, h]
  rfl

/-- A round goes on, or it begins below all rows. -/
theorem begin_eq_ok (h : selection.begin position = .ok begun) :
    position = begun ∧ (∃ c, begun.ceiling = some c) ∨
      position.ceiling = none ∧ begun.after = 0 ∧ ∃ c, begun.ceiling = some c := by
  unfold Selection.begin at h
  split at h
  · cases h
  split at h
  · cases h
  split at h
  · rename_i ceiling hceiling
    have heq := Except.ok.inj h
    exact .inl ⟨heq, ceiling, heq ▸ hceiling⟩
  · rename_i hnone
    split at h
    · cases h
    · rename_i reservations hrows
      have heq := Except.ok.inj h
      rw [← heq]
      exact .inr ⟨hnone, rfl, _, rfl⟩

/-- What a lane selects when it reads its page with a ceiling. -/
structure Selected (selection : Selection) (lane : Lane) (begun : ScanPosition) (c limit : Int)
    (out : Except Text (List Int) × ScanPosition) : Prop where
  ascending : ∀ ids, out.1 = .ok ids → ids.Pairwise (· < ·)
  few : ∀ ids, out.1 = .ok ids → ids.length ≤ limit.toNat
  above : ∀ ids, out.1 = .ok ids → ∀ id ∈ ids, out.2.ceiling = some c ∧ out.2.after < id ∧ id ≤ c
  complete : ∀ r, selection.Stays lane r → begun.after < r → r ≤ c → Ahead out.2 c r ∧
    ∀ ids, out.1 = .ok ids → r ∈ ids ∨ ∀ id ∈ ids, id < r

theorem Selected.error {limit : Int} {reason : Text} (hceiling : begun.ceiling = some c) :
    Selected selection lane begun c limit (.error reason, begun) where
  ascending := by
    intro ids hids
    cases hids
  few := by
    intro ids hids
    cases hids
  above := by
    intro ids hids
    cases hids
  complete := by
    intro r _ hafter _
    refine ⟨⟨hceiling, hafter⟩, ?_⟩
    intro ids hids
    cases hids

theorem selected_history {limit : Int} (hlimit : 0 < limit) (h : selection.begin position = .ok begun)
    (hceiling : begun.ceiling = some c) :
    Selected selection .history begun c limit (selectAnyIds selection position limit false) := by
  unfold selectAnyIds
  simp only [h]
  split
  · exact .error hceiling
  · rename_i reservations hpage
    have hall : ((reservations.between begun.after (begun.ceiling.getD 0)).filter fun row =>
        !false || row.eligible selection.nowUs) = reservations.between begun.after c := by
      rw [hceiling, Option.getD_some]
      exact filter_eq_self.mpr fun _ _ => rfl
    have hsorted := reservations.ids_between begun.after c
    rw [hall]
    generalize hrows : (reservations.between begun.after c).take limit.toNat = rows
    have hids : rows.map (·.id) = ((reservations.between begun.after c).map (·.id)).take limit.toNat := by
      rw [← hrows, map_take]
    refine ⟨?_, ?_, ?_, ?_⟩
    · intro ids hok
      rw [← Except.ok.inj hok, hids]
      exact hsorted.sublist (take_sublist _ _)
    · intro ids hok
      rw [← Except.ok.inj hok, hids]
      exact length_take_le _ _
    · intro ids hok id hid
      rw [← Except.ok.inj hok] at hid
      obtain ⟨row, hrow, rfl⟩ := mem_map.mp hid
      have hne : rows.isEmpty = false := isEmpty_eq_false_iff.mpr (ne_nil_of_mem hrow)
      rw [← hrows] at hrow
      rw [hne]
      exact ⟨hceiling, (Reservations.mem_between.mp (mem_of_mem_take hrow)).2⟩
    · intro r hstays hafter hle
      obtain ⟨row, hrow, rfl, _⟩ := hstays reservations hpage
      have hmem : row.id ∈ (reservations.between begun.after c).map (·.id) :=
        mem_map_of_mem (Reservations.mem_between.mpr ⟨hrow, hafter, hle⟩)
      have hne : rows.isEmpty = false := by
        rw [isEmpty_eq_false_iff, ← hrows]
        intro hnil
        rw [take_eq_nil_iff] at hnil
        rcases hnil with hzero | hnil
        · omega
        · rw [hnil] at hmem
          cases hmem
      rw [hne]
      refine ⟨⟨hceiling, hafter⟩, fun ids hok => ?_⟩
      rw [← Except.ok.inj hok, hids]
      exact Cursor.mem_take_or_above hsorted hmem _

theorem selected_priority {limit : Int} (hlimit : 0 < limit ∧ limit ≤ priorityRowsPerPage)
    (h : selection.begin position = .ok begun) (hceiling : begun.ceiling = some c) :
    Selected selection .priority begun c limit (selectPriorityIds selection position limit) := by
  unfold selectPriorityIds
  rw [if_neg (not_not.mpr hlimit)]
  simp only [h]
  split
  · exact .error hceiling
  rename_i reservations hpage
  rw [hceiling, Option.getD_some]
  have hsorted := reservations.ids_between begun.after c
  generalize hrows : (reservations.between begun.after c).take priorityRowsPerPage = rows
  have hids : rows.map (·.id) =
      ((reservations.between begun.after c).map (·.id)).take priorityRowsPerPage := by
    rw [← hrows, map_take]
  have hin (row : Reservation) (hrow : row ∈ rows) : begun.after < row.id ∧ row.id ≤ c := by
    rw [← hrows] at hrow
    exact (Reservations.mem_between.mp (mem_of_mem_take hrow)).2
  -- A row that stays is on the page or above all of it.
  have hplace (r : Int) (hstays : selection.Stays .priority r) (hafter : begun.after < r)
      (hle : r ≤ c) : (∃ row ∈ rows, row.id = r ∧ row.eligible selection.nowUs = true) ∨
        rows ≠ [] ∧ ∀ row ∈ rows, row.id < r := by
    obtain ⟨row, hrow, rfl, heligible⟩ := hstays reservations hpage
    have hmem := Reservations.mem_between.mpr ⟨hrow, hafter, hle⟩
    rw [← take_append_drop priorityRowsPerPage (reservations.between begun.after c),
      mem_append, hrows] at hmem
    refine hmem.imp (fun hfirst => ⟨row, hfirst, rfl, heligible rfl⟩) fun hlater => ⟨?_, ?_⟩
    · intro hnil
      rw [hnil, take_eq_nil_iff] at hrows
      rcases hrows with hzero | hnone
      · cases hzero
      · rw [hnone] at hlater
        cases hlater
    · rw [← take_append_drop priorityRowsPerPage (reservations.between begun.after c), hrows,
        map_append, pairwise_append] at hsorted
      exact fun first hfirst =>
        hsorted.2.2 _ (mem_map_of_mem hfirst) _ (mem_map_of_mem hlater)
  split
  · rename_i hempty
    rw [List.isEmpty_iff] at hempty
    refine ⟨?_, ?_, ?_, ?_⟩
    · intro ids hok
      rw [← Except.ok.inj hok]
      exact .nil
    · intro ids hok
      rw [← Except.ok.inj hok]
      exact Nat.zero_le _
    · intro ids hok id hid
      rw [← Except.ok.inj hok] at hid
      cases hid
    · intro r hstays hafter hle
      rcases hplace r hstays hafter hle with ⟨row, hrow, _⟩ | ⟨hne, _⟩
      · rw [hempty] at hrow
        cases hrow
      · exact absurd hempty hne
  · have hflags : (rows.map fun row => (row.id, row.eligible selection.nowUs)).map (·.1) =
        rows.map (·.id) := by
      rw [map_map]
      rfl
    have hpageIds : (rows.map (·.id)).Pairwise (· < ·) := by
      rw [hids]
      exact hsorted.sublist (take_sublist _ _)
    have hselected : ((rows.map fun row => (row.id, row.eligible selection.nowUs)).filter
        (·.2)).map (·.1) = (rows.filter fun row => row.eligible selection.nowUs).map (·.id) := by
      rw [filter_map, map_map]
      rfl
    rw [scanPage_eq (by rwa [hflags])
      (fun row hrow => by
        obtain ⟨known, hknown, rfl⟩ := mem_map.mp hrow
        exact (hin known hknown).1)
      (fun row hrow => by
        obtain ⟨known, hknown, rfl⟩ := mem_map.mp hrow
        exact (hin known hknown).2) (Nat.zero_le _), hflags, hselected, nil_append,
      length_nil, Nat.sub_zero]
    have hascending : ((rows.filter fun row => row.eligible selection.nowUs).map
        (·.id)).Pairwise (· < ·) :=
      hpageIds.sublist (filter_sublist.map _)
    generalize hfound : (rows.filter fun row => row.eligible selection.nowUs).map (·.id) = found
      at hascending
    have hfoundIn (id : Int) (hid : id ∈ found) : begun.after < id ∧ id ≤ c := by
      rw [← hfound] at hid
      obtain ⟨row, hrow, rfl⟩ := mem_map.mp hid
      exact hin row (mem_of_mem_filter hrow)
    have hempty : (found.take limit.toNat).isEmpty = found.isEmpty := by
      cases found with
      | nil => rw [take_nil]
      | cons id found =>
        obtain ⟨k, hk⟩ : ∃ k, limit.toNat = k + 1 := ⟨limit.toNat - 1, by omega⟩
        rw [hk]
        rfl
    refine ⟨?_, ?_, ?_, ?_⟩
    · intro ids hok
      rw [← Except.ok.inj hok]
      exact hascending.sublist (take_sublist _ _)
    · intro ids hok
      rw [← Except.ok.inj hok]
      exact length_take_le _ _
    · intro ids hok id hid
      rw [← Except.ok.inj hok] at hid
      have hne : (found.take limit.toNat).isEmpty = false :=
        isEmpty_eq_false_iff.mpr (ne_nil_of_mem hid)
      simp only [hne, Bool.false_and, Bool.false_eq_true, if_false]
      exact ⟨hceiling, hfoundIn id (mem_of_mem_take hid)⟩
    · intro r hstays hafter hle
      have hrow := hplace r hstays hafter hle
      constructor
      · simp only
        split
        · -- The page has no row to select, so that the row lies above its end.
          rename_i hnothing
          rw [hempty, Bool.and_eq_true, List.isEmpty_iff] at hnothing
          rcases hrow with ⟨row, hrow, rfl, heligible⟩ | ⟨hne, hlow⟩
          · have hmem : row.id ∈ found := by
              rw [← hfound]
              exact mem_map_of_mem (mem_filter.mpr ⟨hrow, heligible⟩)
            rw [hnothing.1] at hmem
            cases hmem
          · obtain ⟨front, last, hlast⟩ := (eq_nil_or_concat rows).resolve_left hne
            rw [concat_eq_append] at hlast
            have hbelow : last.id < r := by
              apply hlow
              rw [hlast]
              exact mem_append_right _ mem_cons_self
            have hend : Cursor.next begun.after (rows.map (·.id)) = last.id := by
              rw [hlast, Cursor.next, map_append, map_singleton, List.getLast?_concat,
                Option.getD_some]
            rw [hend]
            refine ⟨?_, hbelow⟩
            have hne' : begun.ceiling ≠ some last.id := by
              rw [hceiling]
              intro heq
              have := Option.some.inj heq
              omega
            rw [ScanPosition.advance, if_neg hne']
            exact hceiling
        · exact ⟨hceiling, hafter⟩
      · intro ids hok
        rw [← Except.ok.inj hok]
        rcases hrow with ⟨row, hrow, rfl, heligible⟩ | ⟨_, hlow⟩
        · apply Cursor.mem_take_or_above hascending
          rw [← hfound]
          exact mem_map_of_mem (mem_filter.mpr ⟨hrow, heligible⟩)
        · right
          intro id hid
          have hmem := mem_of_mem_take hid
          rw [← hfound] at hmem
          obtain ⟨row, hrow, rfl⟩ := mem_map.mp hmem
          exact hlow row (mem_of_mem_filter hrow)

end AgentMail.ReleaseRepair
