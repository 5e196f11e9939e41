import Mathlib.Data.List.Perm.Basic

/-!
# Breaking the ties of a partial order

Elements that a strict partial order leaves tied are compared by a second relation. The result
need not be transitive: two elements in order may both be tied with a third one that the second
relation puts between them the wrong way round. Nothing else goes wrong at this level.
-/

namespace AgentMail.Lib.TieBreak

universe u

variable {α : Type u} (far tie : α → α → Prop)

def Tied (x y : α) : Prop := ¬ far x y ∧ ¬ far y x

def Before (x y : α) : Prop := far x y ∨ (Tied far x y ∧ tie x y)

/-- `x` is ahead of `y`, but by way of `z`, tied with both, it comes after. -/
def Straddled (x y z : α) : Prop := far x y ∧ Tied far y z ∧ Tied far z x ∧ tie y z ∧ tie z x

instance [DecidableRel far] (x y : α) : Decidable (Tied far x y) :=
  inferInstanceAs (Decidable (¬ far x y ∧ ¬ far y x))

instance [DecidableRel far] [DecidableRel tie] (x y : α) : Decidable (Before far tie x y) :=
  inferInstanceAs (Decidable (far x y ∨ (Tied far x y ∧ tie x y)))

instance [DecidableRel far] [DecidableRel tie] (x y z : α) : Decidable (Straddled far tie x y z) :=
  inferInstanceAs
    (Decidable (far x y ∧ Tied far y z ∧ Tied far z x ∧ tie y z ∧ tie z x))

variable {far tie}

theorem Tied.symm {x y : α} (h : Tied far x y) : Tied far y x := ⟨h.2, h.1⟩

theorem before_of_tied {x y : α} (h : Tied far x y) : Before far tie x y ↔ tie x y := by
  constructor
  · rintro (hfar | htie)
    · exact absurd hfar h.1
    · exact htie.2
  · exact fun htie => .inr ⟨h, htie⟩

/-- A straddled pair closes a cycle. -/
theorem Straddled.cycle {x y z : α} (h : Straddled far tie x y z) :
    Before far tie x y ∧ Before far tie y z ∧ Before far tie z x :=
  ⟨.inl h.1, .inr ⟨h.2.1, h.2.2.2.1⟩, .inr ⟨h.2.2.1, h.2.2.2.2⟩⟩

/-- A cycle has a straddled pair or is one among tied elements. -/
theorem cycle_cases [IsStrictOrder α far] {x y z : α} (hxy : Before far tie x y)
    (hyz : Before far tie y z) (hzx : Before far tie z x) :
    Straddled far tie x y z ∨ Straddled far tie y z x ∨ Straddled far tie z x y ∨
      (Tied far x y ∧ Tied far y z ∧ Tied far z x ∧ tie x y ∧ tie y z ∧ tie z x) := by
  rcases hxy with hxy | ⟨txy, hxy⟩
  · rcases hyz with hyz | ⟨tyz, hyz⟩
    · have hxz : far x z := trans_of far hxy hyz
      rcases hzx with hzx | ⟨tzx, -⟩
      · exact absurd (trans_of far hxz hzx) (irrefl x)
      · exact absurd hxz tzx.2
    · rcases hzx with hzx | ⟨tzx, hzx⟩
      · exact absurd (trans_of far hzx hxy) tyz.2
      · exact .inl ⟨hxy, tyz, tzx, hyz, hzx⟩
  · rcases hyz with hyz | ⟨tyz, hyz⟩
    · rcases hzx with hzx | ⟨tzx, hzx⟩
      · exact absurd (trans_of far hyz hzx) txy.2
      · exact .inr (.inl ⟨hyz, tzx, txy, hzx, hxy⟩)
    · rcases hzx with hzx | ⟨tzx, hzx⟩
      · exact .inr (.inr (.inl ⟨hzx, txy, tyz, hxy, hyz⟩))
      · exact .inr (.inr (.inr ⟨txy, tyz, tzx, hxy, hyz, hzx⟩))

/-- Where any two elements are compared one way, an order is what has no cycle of three. -/
theorem trans_iff {before : α → α → Prop} {l : List α}
    (hasymm : ∀ x ∈ l, ∀ y ∈ l, before x y → ¬ before y x)
    (htotal : ∀ x ∈ l, ∀ y ∈ l, x ≠ y → before x y ∨ before y x) :
    (∀ x ∈ l, ∀ y ∈ l, ∀ z ∈ l, before x y → before y z → before x z) ↔
      ¬ ∃ x ∈ l, ∃ y ∈ l, ∃ z ∈ l, before x y ∧ before y z ∧ before z x := by
  constructor
  · rintro htrans ⟨x, hx, y, hy, z, hz, hxy, hyz, hzx⟩
    exact hasymm x hx z hz (htrans x hx y hy z hz hxy hyz) hzx
  · intro hcycle x hx y hy z hz hxy hyz
    have hne : x ≠ z := by
      rintro rfl
      exact hasymm x hx y hy hxy hyz
    rcases htotal x hx z hz hne with hxz | hzx
    · exact hxz
    · exact absurd ⟨x, hx, y, hy, z, hz, hxy, hyz, hzx⟩ hcycle

/-! ### Comparisons -/

/-- A comparison says which of two exclusive relations holds, if any. -/
structure Decides (cmp : Ordering) (ahead behind : Prop) : Prop where
  lt : cmp = .lt ↔ ahead
  gt : cmp = .gt ↔ behind
  eq : cmp = .eq ↔ ¬ ahead ∧ ¬ behind

/-- A comparison that falls back on another one for ties. -/
theorem Decides.orElse {cmp cmp' : Ordering} {x y : α}
    (h : Decides cmp (far x y) (far y x)) (h' : Decides cmp' (tie x y) (tie y x)) :
    Decides (cmp.then cmp') (Before far tie x y) (Before far tie y x) := by
  cases cmp with
  | lt =>
    have hfar := h.lt.mp rfl
    have hnot : ¬ far y x := fun hback => nomatch h.gt.mpr hback
    exact {
      lt := iff_of_true rfl (.inl hfar)
      gt := iff_of_false nofun fun hbefore =>
        hbefore.elim hnot fun htie => htie.1.2 hfar
      eq := iff_of_false nofun fun htied => htied.1 (.inl hfar) }
  | gt =>
    have hfar := h.gt.mp rfl
    have hnot : ¬ far x y := fun hback => nomatch h.lt.mpr hback
    exact {
      lt := iff_of_false nofun fun hbefore =>
        hbefore.elim hnot fun htie => htie.1.2 hfar
      gt := iff_of_true rfl (.inl hfar)
      eq := iff_of_false nofun fun htied => htied.2 (.inl hfar) }
  | eq =>
    have htied : Tied far x y := h.eq.mp rfl
    have hfront : Before far tie x y ↔ tie x y := before_of_tied htied
    have hback : Before far tie y x ↔ tie y x := before_of_tied htied.symm
    exact {
      lt := h'.lt.trans hfront.symm
      gt := h'.gt.trans hback.symm
      eq := by rw [hfront, hback]; exact h'.eq }

/-- What is ahead one way is not ahead the other way, as the comparison has one answer. -/
theorem Decides.not_behind {cmp : Ordering} {ahead behind : Prop} (h : Decides cmp ahead behind)
    (hahead : ahead) : ¬ behind := by
  intro hbehind
  have hlt := h.lt.mpr hahead
  rw [h.gt.mpr hbehind] at hlt
  cases hlt

theorem Decides.swap {cmp cmp' : Ordering} {ahead behind : Prop} (h : Decides cmp ahead behind)
    (h' : Decides cmp' behind ahead) : cmp' = cmp.swap := by
  cases cmp with
  | lt => exact h'.gt.mpr (h.lt.mp rfl)
  | gt => exact h'.lt.mpr (h.gt.mp rfl)
  | eq => exact h'.eq.mpr (h.eq.mp rfl).symm

end AgentMail.Lib.TieBreak
