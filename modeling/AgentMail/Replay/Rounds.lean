import AgentMail.Replay.RoundCursor
import Mathlib.Data.List.Dedup
import Mathlib.Data.List.Perm.Subperm

/-!
# Replay rounds starve no intent

A round goes from one choice of the ceiling to the next. Its attempts ascend, and the next choice
is made only when nothing that was pending throughout is left between the cursor and the ceiling.
-/

namespace AgentMail.Replay

open List

variable {κ : Type} [LinearOrder κ]

namespace RoundCursor

variable {c : RoundCursor κ} {keys : List κ} {k : κ} {count : Nat}

/-! ### Planning -/

/-- Without a ceiling there is no position. -/
def Idle (c : RoundCursor κ) : Prop := c.ceiling = none → c.after = none

theorem not_admits_default : (default : RoundCursor κ).admits k = false := rfl

theorem plan_cases (keys : List κ) (h : c.Idle) :
    keys = [] ∧ c.chooses keys = false ∧ c.plan keys = default ∨
      keys ≠ [] ∧ c.chooses keys = true ∧ c.plan keys = ⟨none, keys.max?⟩ ∨
      keys ≠ [] ∧ c.chooses keys = false ∧ c.plan keys = c ∧ ∃ k ∈ keys, c.admits k = true := by
  cases keys with
  | nil => exact Or.inl ⟨rfl, rfl, rfl⟩
  | cons key keys =>
    right
    obtain ⟨after, ceiling⟩ := c
    cases ceiling with
    | none =>
      left
      have hafter : after = none := h rfl
      subst hafter
      refine ⟨cons_ne_nil _ _, rfl, ?_⟩
      simp [plan]
    | some m =>
      by_cases hnone : (remaining ⟨after, some m⟩ (key :: keys)).isEmpty = true
      · left
        refine ⟨cons_ne_nil _ _, ?_, ?_⟩
        · simp [chooses, hnone]
        · simp [plan, hnone]
      · right
        refine ⟨cons_ne_nil _ _, ?_, ?_, ?_⟩
        · simp [chooses, hnone]
        · simp [plan, hnone]
        · by_contra hall
          rw [remaining_eq_nil] at hnone
          apply hnone
          intro k hk
          rw [← Bool.not_eq_true]
          exact fun hadmits => hall ⟨k, hk, hadmits⟩

theorem idle_plan (h : c.Idle) : (c.plan keys).Idle := by
  rcases plan_cases keys h with ⟨_, _, hplan⟩ | ⟨_, _, hplan⟩ | ⟨_, _, hplan, _⟩
  · rw [hplan]
    exact fun _ => rfl
  · rw [hplan]
    exact fun _ => rfl
  · rwa [hplan]

theorem admits_of_chooses (h : c.Idle) (hchooses : c.chooses keys = true) (hk : k ∈ keys) :
    (c.plan keys).admits k = true := by
  rcases plan_cases keys h with ⟨_, hnot, _⟩ | ⟨_, _, hplan⟩ | ⟨_, hnot, _⟩
  · rw [hchooses] at hnot
    cases hnot
  · rw [hplan, admits_iff]
    refine ⟨fun a ha => (nomatch ha), ?_⟩
    cases hmax : keys.max? with
    | none =>
      rw [List.max?_eq_none_iff.mp hmax] at hk
      cases hk
    | some m => exact ⟨m, rfl, (List.max?_eq_some_iff.mp hmax).2 k hk⟩
  · rw [hchooses] at hnot
    cases hnot

/-- Every key that is admitted when the ceiling is chosen is below a pending one. -/
theorem exists_le_of_admits (h : c.Idle) (hchooses : c.chooses keys = true)
    (hk : (c.plan keys).admits k = true) : ∃ m ∈ keys, k ≤ m := by
  rcases plan_cases keys h with ⟨_, hnot, _⟩ | ⟨_, _, hplan⟩ | ⟨_, hnot, _⟩
  · rw [hchooses] at hnot
    cases hnot
  · rw [hplan, admits_iff] at hk
    obtain ⟨_, m, hm, hle⟩ := hk
    exact ⟨m, (List.max?_eq_some_iff.mp hm).1, hle⟩
  · rw [hchooses] at hnot
    cases hnot

/-- Otherwise what the plan admits was admitted before. -/
theorem admits_of_plan (h : c.Idle) (hquiet : c.chooses keys = false)
    (hk : (c.plan keys).admits k = true) : c.admits k = true := by
  rcases plan_cases keys h with ⟨_, _, hplan⟩ | ⟨_, hchooses, _⟩ | ⟨_, _, hplan, _⟩
  · rw [hplan, not_admits_default] at hk
    cases hk
  · rw [hquiet] at hchooses
    cases hchooses
  · rwa [hplan] at hk

theorem plan_eq_self (h : c.Idle) (hquiet : c.chooses keys = false) (hk : k ∈ keys) :
    c.plan keys = c := by
  rcases plan_cases keys h with ⟨hnil, _, _⟩ | ⟨_, hchooses, _⟩ | ⟨_, _, hplan, _⟩
  · rw [hnil] at hk
    cases hk
  · rw [hquiet] at hchooses
    cases hchooses
  · exact hplan

/-- While the cursor admits a pending key, the ceiling is kept. -/
theorem not_chooses (hk : k ∈ keys) (hadmits : c.admits k = true) : c.chooses keys = false := by
  obtain ⟨_, m, hm, _⟩ := admits_iff.mp hadmits
  have hsome : c.ceiling.isNone = false := by
    rw [Option.mem_def.mp hm]
    rfl
  have hleft : (c.remaining keys).isEmpty = false := by
    rw [← Bool.not_eq_true, remaining_eq_nil]
    intro hnone
    rw [hnone k hk] at hadmits
    cases hadmits
  rw [chooses, hsome, hleft, Bool.or_false, Bool.and_false]

/-! ### One pass -/

theorem idle_replayBatch (h : c.Idle) : (c.replayBatch keys count).1.Idle := by
  intro hceiling
  rw [cursor_eq] at hceiling ⊢
  have hnone : c.order keys = [] := by
    rw [eq_nil_iff_forall_not_mem]
    intro k hk
    obtain ⟨_, m, hm, _⟩ := admits_iff.mp (mem_order.mp hk).2
    rw [Option.mem_def, hceiling] at hm
    cases hm
  rw [hnone, take_nil]
  exact idle_plan h hceiling

/-- What is attempted is pending and admitted. -/
theorem mem_of_attempted (hk : k ∈ (c.replayBatch keys count).2) :
    k ∈ keys ∧ (c.plan keys).admits k = true := by
  rw [attempted_eq] at hk
  exact mem_order.mp (mem_of_mem_take hk)

/-- Of what was admitted, nothing is lost: it is attempted or still admitted. -/
theorem attempted_or_admits (h : keys.Nodup) (hk : k ∈ keys) (hadmits : (c.plan keys).admits k = true) :
    k ∈ (c.replayBatch keys count).2 ∨ (c.replayBatch keys count).1.admits k = true := by
  rw [attempted_eq, cursor_eq]
  have hsorted : (c.order keys).Pairwise (· < ·) := order_sorted h
  have hmem : k ∈ c.order keys := mem_order.mpr ⟨hk, hadmits⟩
  rw [← take_append_drop (min count maxAttempts) (c.order keys)] at hsorted hmem
  rcases mem_append.mp hmem with htake | hdrop
  · exact Or.inl htake
  · right
    obtain ⟨hafter, hceiling⟩ := admits_iff.mp hadmits
    refine admits_iff.mpr ⟨fun a ha => ?_, hceiling⟩
    rcases Option.or_eq_some_iff.mp ha with hlast | ⟨_, hold⟩
    · exact (pairwise_append.mp hsorted).2.2 a (mem_of_getLast? hlast) k hdrop
    · exact hafter a hold

/-- What is admitted afterwards was admitted by the plan and is above all attempts. -/
theorem lt_of_admits (h : keys.Nodup) (hk : (c.replayBatch keys count).1.admits k = true) :
    (c.plan keys).admits k = true ∧ ∀ k' ∈ (c.replayBatch keys count).2, k' < k := by
  rw [attempted_eq]
  rw [cursor_eq, admits_iff] at hk
  obtain ⟨hafter, hceiling⟩ := hk
  have hsorted : ((c.order keys).take (min count maxAttempts)).Pairwise (· < ·) :=
    (order_sorted h).sublist (take_sublist _ _)
  have hadmitted : ∀ k' ∈ (c.order keys).take (min count maxAttempts),
      (c.plan keys).admits k' = true := fun k' hk' => (mem_order.mp (mem_of_mem_take hk')).2
  generalize (c.order keys).take (min count maxAttempts) = taken at hafter hsorted hadmitted
  rcases eq_nil_or_concat taken with rfl | ⟨front, last, rfl⟩
  · exact ⟨admits_iff.mpr ⟨hafter, hceiling⟩, forall_mem_nil _⟩
  · rw [concat_eq_append] at hafter hsorted hadmitted ⊢
    rw [List.getLast?_concat] at hafter
    have hlast : last < k := hafter last rfl
    have hold := (admits_iff.mp (hadmitted last (by simp))).1
    refine ⟨admits_iff.mpr ⟨fun a ha => (hold a ha).trans hlast, hceiling⟩, ?_⟩
    intro k' hk'
    rcases mem_append.mp hk' with hfront | hback
    · exact ((pairwise_append.mp hsorted).2.2 k' hfront last
        (mem_singleton_self _)).trans hlast
    · rwa [mem_singleton.mp hback]

/-- With keys pending, something is attempted. -/
theorem attempted_ne_nil (h : c.Idle) (hkeys : keys ≠ []) (hcount : 0 < count) :
    (c.replayBatch keys count).2 ≠ [] := by
  obtain ⟨k, hk, hadmits⟩ : ∃ k ∈ keys, (c.plan keys).admits k = true := by
    rcases plan_cases keys h with ⟨hnil, _, _⟩ | ⟨_, hchooses, _⟩ | ⟨_, _, hplan, hsome⟩
    · exact absurd hnil hkeys
    · obtain ⟨k, hk⟩ := exists_mem_of_ne_nil keys hkeys
      exact ⟨k, hk, admits_of_chooses h hchooses hk⟩
    · rwa [hplan]
  rw [attempted_eq, Ne, take_eq_nil_iff, not_or]
  refine ⟨?_, ne_nil_of_mem (mem_order.mpr ⟨hk, hadmits⟩)⟩
  rw [maxAttempts]
  omega

end RoundCursor

open RoundCursor

/-! ### The passes of a round -/

/-- The cursor after some passes. -/
def finish (c : RoundCursor κ) (ps : List (Pass κ)) : RoundCursor κ :=
  ps.foldl (fun c p => (c.replayBatch p.keys p.count).1) c

variable {c : RoundCursor κ} {ps : List (Pass κ)} {k : κ}

theorem idle_finish (h : c.Idle) : (finish c ps).Idle := by
  induction ps generalizing c with
  | nil => exact h
  | cons p ps ih => exact ih (idle_replayBatch h)

theorem run_eq_append {front back : List (Event κ)} (h : run c ps = front ++ back) :
    ∃ before rest, run c before = front ∧ run (finish c before) rest = back := by
  induction front generalizing c ps with
  | nil => exact ⟨[], ps, rfl, h⟩
  | cons e front ih =>
    cases ps with
    | nil => cases h
    | cons p ps =>
      rw [run, cons_append, List.cons.injEq] at h
      obtain ⟨before, rest, hbefore, hrest⟩ := ih h.2
      exact ⟨p :: before, rest, by rw [run, hbefore, h.1], hrest⟩

/-- Passes that keep the ceiling attempt admitted keys in ascending order. -/
theorem quiet_sorted (h : c.Idle) (hquiet : ∀ e ∈ run c ps, e.chose = false) :
    ((run c ps).flatMap Event.attempted).Pairwise (· < ·) ∧
      ∀ k ∈ (run c ps).flatMap Event.attempted, c.admits k = true := by
  induction ps generalizing c with
  | nil => exact ⟨.nil, forall_mem_nil _⟩
  | cons p ps ih =>
    rw [run, forall_mem_cons] at hquiet
    obtain ⟨hsorted, hadmits⟩ := ih (idle_replayBatch h) hquiet.2
    rw [run, flatMap_cons]
    constructor
    · rw [pairwise_append]
      refine ⟨?_, hsorted, fun k hk k' hk' => (lt_of_admits p.nodup (hadmits k' hk')).2 k hk⟩
      rw [attempted_eq]
      exact (order_sorted p.nodup).sublist (take_sublist _ _)
    · rw [forall_mem_append]
      exact ⟨fun k hk => admits_of_plan h hquiet.1 (mem_of_attempted hk).2,
        fun k hk => admits_of_plan h hquiet.1 (lt_of_admits p.nodup (hadmits k hk)).1⟩

/-- An admitted key that stays pending is attempted or still admitted. -/
theorem quiet_keeps (h : c.Idle) (hquiet : ∀ e ∈ run c ps, e.chose = false)
    (hk : ∀ e ∈ run c ps, k ∈ e.keys) (hadmits : c.admits k = true) :
    k ∈ (run c ps).flatMap Event.attempted ∨ (finish c ps).admits k = true := by
  induction ps generalizing c with
  | nil => exact Or.inr hadmits
  | cons p ps ih =>
    rw [run, forall_mem_cons] at hquiet hk
    rw [run, flatMap_cons, mem_append, or_assoc]
    have hplan : (c.plan p.keys).admits k = true := by rwa [plan_eq_self h hquiet.1 hk.1]
    exact (attempted_or_admits p.nodup hk.1 hplan).imp_right
      (ih (idle_replayBatch h) hquiet.2 hk.2)

theorem attempted_of_pending (h : c.Idle) : ∀ e ∈ run c ps, e.keys ≠ [] → e.attempted ≠ [] := by
  induction ps generalizing c with
  | nil => exact forall_mem_nil _
  | cons p ps ih =>
    rw [run, forall_mem_cons]
    exact ⟨fun hkeys => attempted_ne_nil h hkeys p.pos, ih (idle_replayBatch h)⟩

theorem mem_keys_of_attempted : ∀ e ∈ run c ps, ∀ k ∈ e.attempted, k ∈ e.keys := by
  induction ps generalizing c with
  | nil => exact forall_mem_nil _
  | cons p ps ih =>
    rw [run, forall_mem_cons]
    exact ⟨fun k hk => (mem_of_attempted hk).1, ih⟩

/-- The keys below the ceiling that came after the round had begun. -/
def addedBelow (first : Event κ) (rest : List (Event κ)) : List κ :=
  (rest.flatMap Event.keys).dedup.filter fun k =>
    !first.keys.contains k && first.keys.any fun m => decide (k < m)

/-- In a round no key is attempted twice, every key that stays pending from its beginning to that of
the next is attempted, there are no more attempts than keys at the beginning and keys added below the
ceiling, and every pass with keys pending makes one. -/
theorem round_fair (passes : List (Pass κ)) (before rest after : List (Event κ)) (first : Event κ)
    (hrun : run RoundCursor.default passes = before ++ (first :: rest ++ after))
    (hfirst : first.chose = true) (hrest : ∀ e ∈ rest, e.chose = false) :
    ((first :: rest).flatMap Event.attempted).Nodup ∧ (∀ next ∈ after.head?, next.chose = true →
        ∀ k, (∀ e ∈ first :: rest, k ∈ e.keys) → k ∈ next.keys →
          k ∈ (first :: rest).flatMap Event.attempted) ∧
      ((first :: rest).flatMap Event.attempted).length ≤
        first.keys.length + (addedBelow first rest).length ∧
      ∀ e ∈ first :: rest, e.keys ≠ [] → e.attempted ≠ [] := by
  obtain ⟨earlier, passes', _, hround⟩ := run_eq_append hrun
  have hidle : (finish RoundCursor.default earlier : RoundCursor κ).Idle := idle_finish fun _ => rfl
  generalize finish RoundCursor.default earlier = c at hround hidle
  obtain ⟨inside, later, hinside, hlater⟩ := run_eq_append hround
  cases inside with
  | nil => cases hinside
  | cons p inside =>
    have hattempts : ∀ e ∈ run c (p :: inside), e.keys ≠ [] → e.attempted ≠ [] :=
      attempted_of_pending hidle
    rw [hinside] at hattempts
    rw [run, List.cons.injEq] at hinside
    obtain ⟨rfl, rfl⟩ := hinside
    have hidle' : (c.replayBatch p.keys p.count).1.Idle := idle_replayBatch hidle
    obtain ⟨hsorted, hadmits⟩ := quiet_sorted hidle' hrest
    have hnodup : ((⟨p.keys, c.chooses p.keys, (c.replayBatch p.keys p.count).2⟩ ::
        run (c.replayBatch p.keys p.count).1 inside).flatMap Event.attempted).Nodup := by
      rw [flatMap_cons]
      apply List.Pairwise.imp (fun hlt => ne_of_lt hlt)
      rw [pairwise_append]
      refine ⟨?_, hsorted, fun k hk k' hk' => (lt_of_admits p.nodup (hadmits k' hk')).2 k hk⟩
      rw [attempted_eq]
      exact (order_sorted p.nodup).sublist (take_sublist _ _)
    refine ⟨hnodup, ?_, ?_, hattempts⟩
    · intro next hnext hchose k hk hlast
      rw [forall_mem_cons] at hk
      rw [flatMap_cons, mem_append]
      rcases attempted_or_admits p.nodup hk.1 (admits_of_chooses hidle hfirst hk.1) with hnow | hstill
      · exact Or.inl hnow
      · right
        rcases quiet_keeps hidle' hrest hk.2 hstill with hattempted | hleft
        · exact hattempted
        · cases later with
          | nil =>
            rw [← hlater] at hnext
            cases hnext
          | cons p' later =>
            rw [← hlater, run, List.head?_cons, Option.mem_def, Option.some_inj] at hnext
            rw [← hnext] at hchose hlast
            have hquiet : (finish c (p :: inside)).chooses p'.keys = false := not_chooses hlast hleft
            rw [hquiet] at hchose
            cases hchose
    · rw [← length_append]
      refine (subperm_of_subset hnodup fun k hk => ?_).length_le
      rw [mem_append]
      by_cases hold : k ∈ p.keys
      · exact Or.inl hold
      · right
        rw [flatMap_cons, mem_append] at hk
        rcases hk with hnow | hk
        · exact absurd (mem_of_attempted hnow).1 hold
        · obtain ⟨m, hm, hle⟩ := exists_le_of_admits hidle hfirst
            (lt_of_admits p.nodup (hadmits k hk)).1
          have hlt : k < m := lt_of_le_of_ne hle fun heq => hold (heq ▸ hm)
          obtain ⟨e, he, hke⟩ := mem_flatMap.mp hk
          have hkeys : k ∈ (run (c.replayBatch p.keys p.count).1 inside).flatMap Event.keys :=
            mem_flatMap.mpr ⟨e, he, mem_keys_of_attempted e he k hke⟩
          simp only [addedBelow, mem_filter, List.mem_dedup, Bool.and_eq_true,
            Bool.not_eq_true', any_eq_true, decide_eq_true_eq]
          exact ⟨hkeys, by simpa using hold, m, hm, hlt⟩

/-! ### A round with an arrival -/

def samplePasses : List (Pass Nat) :=
  [⟨[5, 3], by decide, 1, by decide⟩, ⟨[5, 3, 4, 9], by decide, 16, by decide⟩,
    ⟨[5, 3, 9], by decide, 16, by decide⟩]

theorem round_fair_sample :
    (([⟨[5, 3], true, [3]⟩, ⟨[5, 3, 4, 9], false, [4, 5]⟩] : List (Event Nat)).flatMap
        Event.attempted).Nodup ∧
      (∀ next ∈ ([⟨[5, 3, 9], true, [3, 5, 9]⟩] : List (Event Nat)).head?, next.chose = true →
        ∀ k, (∀ e ∈ ([⟨[5, 3], true, [3]⟩, ⟨[5, 3, 4, 9], false, [4, 5]⟩] : List (Event Nat)),
          k ∈ e.keys) → k ∈ next.keys →
            k ∈ ([⟨[5, 3], true, [3]⟩, ⟨[5, 3, 4, 9], false, [4, 5]⟩] : List (Event Nat)).flatMap
              Event.attempted) ∧
      (([⟨[5, 3], true, [3]⟩, ⟨[5, 3, 4, 9], false, [4, 5]⟩] : List (Event Nat)).flatMap
        Event.attempted).length ≤ 2 + (addedBelow (⟨[5, 3], true, [3]⟩ : Event Nat)
          [⟨[5, 3, 4, 9], false, [4, 5]⟩]).length ∧
      ∀ e ∈ ([⟨[5, 3], true, [3]⟩, ⟨[5, 3, 4, 9], false, [4, 5]⟩] : List (Event Nat)),
        e.keys ≠ [] → e.attempted ≠ [] :=
  round_fair samplePasses [] [⟨[5, 3, 4, 9], false, [4, 5]⟩] [⟨[5, 3, 9], true, [3, 5, 9]⟩]
    ⟨[5, 3], true, [3]⟩ (by decide) rfl (by decide)

end AgentMail.Replay
