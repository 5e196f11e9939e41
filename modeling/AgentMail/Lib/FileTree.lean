import AgentMail.Lib.Table

/-!
# Trees of files

Files under paths of names. A directory is what lies above a file, so that a tree is the map of its
files, of which no path leads through another.
-/

namespace AgentMail.Lib

universe u v

/-- A tree of files. -/
structure FileTree (ν : Type u) (β : Type v) where
  files : List (List ν × β)
  distinct : (files.map (·.1)).Nodup
  named : ∀ f ∈ files, f.1 ≠ []
  apart : ∀ f ∈ files, ∀ g ∈ files, f.1 <+: g.1 → f.1 = g.1

variable {ν : Type u} {β : Type v} [DecidableEq ν]

namespace FileTree

def get? (t : FileTree ν β) (p : List ν) : Option β := Assoc.get? p t.files

/-- Whether a path is that of a directory. -/
def isDir (t : FileTree ν β) (p : List ν) : Bool :=
  p.isEmpty || t.files.any fun f => p.isPrefixOf f.1 && p != f.1

/-- A file can be written where no directory is, and not below a file. -/
def CanPut (t : FileTree ν β) (p : List ν) : Prop :=
  p ≠ [] ∧ ∀ f ∈ t.files, (f.1 <+: p ∨ p <+: f.1) → f.1 = p

instance (t : FileTree ν β) (p : List ν) : Decidable (t.CanPut p) :=
  inferInstanceAs (Decidable (_ ∧ _))

/-- Write a file that can be written. -/
def put (t : FileTree ν β) (p : List ν) (b : β) (h : t.CanPut p) : FileTree ν β where
  files := Assoc.insert p b t.files
  distinct := Assoc.nodup_keys_insert t.distinct
  named := by
    intro f hf
    rcases Assoc.mem_insert.mp hf with ⟨hf, _⟩ | rfl
    · exact t.named f hf
    · exact h.1
  apart := by
    intro f hf g hg hpre
    rcases Assoc.mem_insert.mp hf with ⟨hf, _⟩ | rfl
    · rcases Assoc.mem_insert.mp hg with ⟨hg, _⟩ | rfl
      · exact t.apart f hf g hg hpre
      · exact h.2 f hf (.inl hpre)
    · rcases Assoc.mem_insert.mp hg with ⟨hg, _⟩ | rfl
      · exact (h.2 g hg (.inr hpre)).symm
      · rfl

/-- Write a file, unless a directory or a file is in the way. -/
def put? (t : FileTree ν β) (p : List ν) (b : β) : Option (FileTree ν β) :=
  if h : t.CanPut p then some (t.put p b h) else none

variable {t : FileTree ν β} {p : List ν}

theorem get?_eq_some {b : β} :
    t.get? p = some b ↔ (p, b) ∈ t.files := Assoc.get?_eq_some t.distinct

theorem get?_put {b : β} (h : t.CanPut p) (q : List ν) :
    (t.put p b h).get? q = if p = q then some b else t.get? q := Assoc.get?_insert

theorem get?_put? {t' : FileTree ν β} {b : β} (h : t.put? p b = some t') (q : List ν) :
    t'.get? q = if p = q then some b else t.get? q := by
  unfold put? at h
  split at h
  · next hput =>
    cases h
    exact get?_put hput q
  · cases h

theorem get?_nil (t : FileTree ν β) : t.get? [] = none := by
  cases hget : t.get? [] with
  | none => rfl
  | some b => exact absurd rfl (t.named _ (get?_eq_some.mp hget))

theorem isDir_iff : t.isDir p = true ↔ p = [] ∨ ∃ q b, t.get? q = some b ∧ p <+: q ∧ p ≠ q := by
  rw [isDir, Bool.or_eq_true, List.isEmpty_iff, List.any_eq_true]
  refine or_congr Iff.rfl ?_
  constructor
  · rintro ⟨⟨q, b⟩, hf, h⟩
    rw [Bool.and_eq_true, List.isPrefixOf_iff_prefix, bne_iff_ne] at h
    exact ⟨q, b, get?_eq_some.mpr hf, h⟩
  · rintro ⟨q, b, hget, h⟩
    refine ⟨(q, b), get?_eq_some.mp hget, ?_⟩
    rw [Bool.and_eq_true, List.isPrefixOf_iff_prefix, bne_iff_ne]
    exact h

/-- A path is not both a file's and a directory's. -/
theorem isDir_of_get? {b : β} (h : t.get? p = some b) : t.isDir p = false := by
  rw [← Bool.not_eq_true, isDir_iff]
  rintro (rfl | ⟨q, c, hq, hpre, hne⟩)
  · rw [get?_nil] at h
    cases h
  · exact hne (t.apart _ (get?_eq_some.mp h) _ (get?_eq_some.mp hq) hpre)

/-- What lies above a file is a directory. -/
theorem isDir_of_prefix {q : List ν} (h : p <+: q) (hne : p ≠ q)
    (hq : (t.get? q).isSome ∨ t.isDir q = true) : t.isDir p = true := by
  rw [isDir_iff]
  rcases hq with hq | hq
  · obtain ⟨b, hb⟩ := Option.isSome_iff_exists.mp hq
    exact .inr ⟨q, b, hb, h, hne⟩
  · rcases isDir_iff.mp hq with rfl | ⟨r, b, hr, hpre, hne'⟩
    · exact .inl (List.prefix_nil.mp h)
    · refine .inr ⟨r, b, hr, h.trans hpre, ?_⟩
      rintro rfl
      exact hne' (hpre.eq_of_length_le h.length_le)

theorem isDir_put {b : β} (h : t.CanPut p) (q : List ν) :
    (t.put p b h).isDir q = true ↔ t.isDir q = true ∨ (q <+: p ∧ q ≠ p) := by
  rw [isDir_iff, isDir_iff, or_assoc]
  refine or_congr Iff.rfl ?_
  constructor
  · rintro ⟨r, c, hr, hpre, hne⟩
    rw [get?_put] at hr
    split at hr
    · next heq => exact .inr ⟨heq ▸ hpre, heq ▸ hne⟩
    · exact .inl ⟨r, c, hr, hpre, hne⟩
  · rintro (⟨r, c, hr, hpre, hne⟩ | ⟨hpre, hne⟩)
    · by_cases heq : p = r
      · exact ⟨p, b, by rw [get?_put, if_pos rfl], heq ▸ hpre, heq ▸ hne⟩
      · exact ⟨r, c, by rw [get?_put, if_neg heq, hr], hpre, hne⟩
    · exact ⟨p, b, by rw [get?_put, if_pos rfl], hpre, hne⟩

end FileTree

end AgentMail.Lib
