import Mathlib.Data.List.Sort
import Mathlib.Tactic.Linarith
import AgentMail.Lib.TieBreak

/-!
# Reciprocal rank fusion

Hybrid search scores a document by its ranks in two lists and sorts by that score
(`crates/mcp-agent-mail-db/src/search_fusion.rs:121–128, 242–296, 410–441`). Scores within a
tolerance of each other count as tied; the lexical scores, under the same tolerance, and then the
ids break the tie. Scores are rational numbers here, and a lexical score that is absent lies below
all others.
-/

namespace AgentMail.Search

open Lib Lib.TieBreak List

/-! ### Candidates and hits -/

inductive CandidateSource where
  | lexical
  | semantic

structure PreparedCandidate where
  docId : Int
  lexicalRank : Option Nat
  semanticRank : Option Nat
  lexicalScore : Option ℚ
  semanticScore : Option ℚ
  firstSource : CandidateSource

structure RrfConfig where
  k : ℚ
  epsilon : ℚ
  k_pos : 0 < k
  epsilon_nonneg : 0 ≤ epsilon

structure SourceContribution where
  source : CandidateSource
  contribution : ℚ
  rank : Option Nat

structure FusionExplain where
  lexicalRank : Option Nat
  lexicalScore : Option ℚ
  semanticRank : Option Nat
  semanticScore : Option ℚ
  rrfScore : ℚ
  sourceContributions : List SourceContribution

structure FusedHit where
  docId : Int
  rrfScore : ℚ
  firstSource : CandidateSource
  explain : FusionExplain

structure FusionResult where
  config : RrfConfig
  inputCount : Nat
  totalFused : Nat
  hits : List FusedHit
  offsetApplied : Nat
  limitApplied : Nat

/-- `1 / (k + rank)`, or 0 for a document that the source does not have. -/
def rrfContribution (k : ℚ) : Option Nat → ℚ
  | some r => 1 / (k + r)
  | none => 0

/-- The hit of a candidate. -/
def fusedHit (config : RrfConfig) (c : PreparedCandidate) : FusedHit :=
  let lexicalContrib := rrfContribution config.k c.lexicalRank
  let semanticContrib := rrfContribution config.k c.semanticRank
  let rrfScore := lexicalContrib + semanticContrib
  { docId := c.docId
    rrfScore := rrfScore
    firstSource := c.firstSource
    explain := {
      lexicalRank := c.lexicalRank
      lexicalScore := c.lexicalScore
      semanticRank := c.semanticRank
      semanticScore := c.semanticScore
      rrfScore := rrfScore
      sourceContributions := [
        { source := .lexical, contribution := lexicalContrib, rank := c.lexicalRank },
        { source := .semantic, contribution := semanticContrib, rank := c.semanticRank }] } }

/-! ### The comparison -/

/-- A difference `b - a` under a tolerance, larger values first. -/
def diffCmp (epsilon diff : ℚ) : Ordering :=
  if |diff| > epsilon then (if diff > 0 then .gt else .lt) else .eq

/-- The difference of lexical scores; an absent one is `f64::NEG_INFINITY`, and two of them have
no difference that exceeds a tolerance. -/
def lexicalCmp (epsilon : ℚ) : Option ℚ → Option ℚ → Ordering
  | some a, some b => diffCmp epsilon (b - a)
  | none, some _ => .gt
  | some _, none => .lt
  | none, none => .eq

def fusedHitCmp (a b : FusedHit) (epsilon : ℚ) : Ordering :=
  match diffCmp epsilon (b.rrfScore - a.rrfScore) with
  | .eq =>
    match lexicalCmp epsilon a.explain.lexicalScore b.explain.lexicalScore with
    | .eq => compare a.docId b.docId
    | ordering => ordering
  | ordering => ordering

/-! ### The sorted list -/

/-- A comparison that is a total order on the elements of a list. -/
structure TotalOn {α : Type} (cmp : α → α → Ordering) (l : List α) : Prop where
  swap : ∀ a ∈ l, ∀ b ∈ l, cmp b a = (cmp a b).swap
  trans : ∀ a ∈ l, ∀ b ∈ l, ∀ c ∈ l, cmp a b ≠ .gt → cmp b c ≠ .gt → cmp a c ≠ .gt

/-- `slice::sort_by`. The order it leaves is specified for a total order only; for other
comparisons it may panic. -/
structure SortBy (α : Type) where
  sortBy : (α → α → Ordering) → List α → Option (List α)
  perm : ∀ cmp l l', sortBy cmp l = some l' → l'.Perm l
  sorted : ∀ cmp l, TotalOn cmp l →
    ∃ l', sortBy cmp l = some l' ∧ l'.Pairwise fun a b => cmp a b ≠ .gt

def fuseRrfLegacy (S : SortBy FusedHit) (candidates : List PreparedCandidate) (config : RrfConfig)
    (offset limit : Nat) : Option FusionResult := do
  let fused ← S.sortBy (fun a b => fusedHitCmp a b config.epsilon) (candidates.map (fusedHit config))
  return {
    config := config
    inputCount := candidates.length
    totalFused := fused.length
    hits := (fused.drop offset).take (max limit 1)
    offsetApplied := offset
    limitApplied := limit }

/-! ### Near ties -/

variable (epsilon : ℚ)

/-- The fused score is ahead by more than the tolerance. -/
def RrfAhead (a b : FusedHit) : Prop := epsilon < a.rrfScore - b.rrfScore

def ScoreAhead : Option ℚ → Option ℚ → Prop
  | some x, some y => epsilon < x - y
  | some _, none => True
  | none, _ => False

/-- The lexical score is ahead by more than the tolerance. -/
def LexicalAhead (a b : FusedHit) : Prop :=
  ScoreAhead epsilon a.explain.lexicalScore b.explain.lexicalScore

def IdAhead (a b : FusedHit) : Prop := a.docId < b.docId

/-- How hits of near-tied fused scores are ordered. -/
def TieAhead (a b : FusedHit) : Prop := Before (LexicalAhead epsilon) IdAhead a b

/-- Three hits of which the tolerance makes a cycle: the first is ahead of the second in the fused
score and by near ties behind it, or the same in the lexical score among near-tied fused scores. -/
def Circular (x y z : FusedHit) : Prop :=
  Straddled (RrfAhead epsilon) (TieAhead epsilon) x y z ∨
    (Tied (RrfAhead epsilon) x y ∧ Tied (RrfAhead epsilon) y z ∧ Tied (RrfAhead epsilon) z x ∧
      Straddled (LexicalAhead epsilon) IdAhead x y z)

instance : DecidableRel (RrfAhead epsilon) := fun a b =>
  inferInstanceAs (Decidable (epsilon < a.rrfScore - b.rrfScore))

instance : DecidableRel (ScoreAhead epsilon)
  | some x, some y => inferInstanceAs (Decidable (epsilon < x - y))
  | some _, none => instDecidableTrue
  | none, _ => instDecidableFalse

instance : DecidableRel (LexicalAhead epsilon) := fun a b =>
  inferInstanceAs (Decidable (ScoreAhead epsilon a.explain.lexicalScore b.explain.lexicalScore))

instance : DecidableRel IdAhead := fun a b => inferInstanceAs (Decidable (a.docId < b.docId))

instance : DecidableRel (TieAhead epsilon) := fun a b =>
  inferInstanceAs (Decidable (Before (LexicalAhead epsilon) IdAhead a b))

instance (x y z : FusedHit) : Decidable (Circular epsilon x y z) :=
  inferInstanceAs (Decidable (Straddled (RrfAhead epsilon) (TieAhead epsilon) x y z ∨
    (Tied (RrfAhead epsilon) x y ∧ Tied (RrfAhead epsilon) y z ∧ Tied (RrfAhead epsilon) z x ∧
      Straddled (LexicalAhead epsilon) IdAhead x y z)))

variable {epsilon}

theorem isStrictOrder_rrfAhead (h : 0 ≤ epsilon) : IsStrictOrder FusedHit (RrfAhead epsilon) where
  irrefl a := by
    rw [RrfAhead, sub_self]
    exact not_lt_of_ge h
  trans a b c hab hbc := by
    rw [RrfAhead] at hab hbc ⊢
    linarith

theorem isStrictOrder_lexicalAhead (h : 0 ≤ epsilon) :
    IsStrictOrder FusedHit (LexicalAhead epsilon) where
  irrefl a := by
    rw [LexicalAhead]
    cases a.explain.lexicalScore with
    | none => exact not_false
    | some x =>
      rw [ScoreAhead, sub_self]
      exact not_lt_of_ge h
  trans a b c := by
    rw [LexicalAhead, LexicalAhead, LexicalAhead]
    cases a.explain.lexicalScore with
    | none => exact fun hab _ => hab
    | some x =>
      cases b.explain.lexicalScore with
      | none => exact fun _ hbc => absurd hbc not_false
      | some y =>
        cases c.explain.lexicalScore with
        | none => exact fun _ _ => trivial
        | some z =>
          intro hab hbc
          rw [ScoreAhead] at hab hbc ⊢
          linarith

theorem decides_diffCmp (h : 0 ≤ epsilon) (x y : ℚ) :
    Decides (diffCmp epsilon (y - x)) (epsilon < x - y) (epsilon < y - x) := by
  have habs : |y - x| > epsilon ↔ epsilon < y - x ∨ epsilon < x - y := by
    rw [gt_iff_lt, lt_abs, neg_sub]
  unfold diffCmp
  by_cases hgt : epsilon < y - x
  · have hpos : y - x > 0 := lt_of_le_of_lt h hgt
    have hlt : ¬ epsilon < x - y := by linarith
    rw [if_pos (habs.mpr (.inl hgt)), if_pos hpos]
    exact ⟨iff_of_false nofun hlt, iff_of_true rfl hgt, iff_of_false nofun fun hno => hno.2 hgt⟩
  · by_cases hlt : epsilon < x - y
    · have hneg : ¬ y - x > 0 := by linarith
      rw [if_pos (habs.mpr (.inr hlt)), if_neg hneg]
      exact ⟨iff_of_true rfl hlt, iff_of_false nofun hgt, iff_of_false nofun fun hno => hno.1 hlt⟩
    · rw [if_neg fun hfar => (habs.mp hfar).elim hgt hlt]
      exact ⟨iff_of_false nofun hlt, iff_of_false nofun hgt, iff_of_true rfl ⟨hlt, hgt⟩⟩

theorem decides_lexicalCmp (h : 0 ≤ epsilon) (a b : FusedHit) :
    Decides (lexicalCmp epsilon a.explain.lexicalScore b.explain.lexicalScore)
      (LexicalAhead epsilon a b) (LexicalAhead epsilon b a) := by
  rw [LexicalAhead, LexicalAhead]
  cases a.explain.lexicalScore with
  | none =>
    cases b.explain.lexicalScore with
    | none =>
      exact ⟨iff_of_false nofun not_false, iff_of_false nofun not_false,
        iff_of_true rfl ⟨not_false, not_false⟩⟩
    | some y =>
      exact ⟨iff_of_false nofun not_false, iff_of_true rfl trivial,
        iff_of_false nofun fun hno => hno.2 trivial⟩
  | some x =>
    cases b.explain.lexicalScore with
    | none =>
      exact ⟨iff_of_true rfl trivial, iff_of_false nofun not_false,
        iff_of_false nofun fun hno => hno.1 trivial⟩
    | some y => exact decides_diffCmp h x y

theorem decides_idCmp (a b : FusedHit) :
    Decides (compare a.docId b.docId) (IdAhead a b) (IdAhead b a) where
  lt := compare_lt_iff_lt
  gt := compare_gt_iff_gt
  eq := by
    rw [compare_eq_iff_eq, IdAhead, IdAhead]
    omega

/-- The comparison is the fused order with its ties broken twice. -/
theorem decides_fusedHitCmp (h : 0 ≤ epsilon) (a b : FusedHit) :
    Decides (fusedHitCmp a b epsilon) (Before (RrfAhead epsilon) (TieAhead epsilon) a b)
      (Before (RrfAhead epsilon) (TieAhead epsilon) b a) := by
  have hrrf : Decides (diffCmp epsilon (b.rrfScore - a.rrfScore)) (RrfAhead epsilon a b)
      (RrfAhead epsilon b a) := decides_diffCmp h a.rrfScore b.rrfScore
  have hchain := hrrf.orElse ((decides_lexicalCmp h a b).orElse (decides_idCmp a b))
  have hcmp : fusedHitCmp a b epsilon = (diffCmp epsilon (b.rrfScore - a.rrfScore)).then
      ((lexicalCmp epsilon a.explain.lexicalScore b.explain.lexicalScore).then
        (compare a.docId b.docId)) := rfl
  rw [hcmp]
  exact hchain

/-- Only hits of one document compare as equal. -/
theorem docId_of_fusedHitCmp_eq (h : 0 ≤ epsilon) {a b : FusedHit}
    (heq : fusedHitCmp a b epsilon = .eq) : a.docId = b.docId := by
  obtain ⟨hab, hba⟩ := (decides_fusedHitCmp h a b).eq.mp heq
  have hrrf : Tied (RrfAhead epsilon) a b := ⟨fun hfar => hab (.inl hfar), fun hfar => hba (.inl hfar)⟩
  rw [before_of_tied hrrf] at hab
  rw [before_of_tied hrrf.symm] at hba
  have hlex : Tied (LexicalAhead epsilon) a b :=
    ⟨fun hfar => hab (.inl hfar), fun hfar => hba (.inl hfar)⟩
  rw [TieAhead, before_of_tied hlex, IdAhead] at hab
  rw [TieAhead, before_of_tied hlex.symm, IdAhead] at hba
  omega

/-! ### Cycles -/

theorem Circular.cycle {x y z : FusedHit} (h : Circular epsilon x y z) :
    Before (RrfAhead epsilon) (TieAhead epsilon) x y ∧
      Before (RrfAhead epsilon) (TieAhead epsilon) y z ∧
      Before (RrfAhead epsilon) (TieAhead epsilon) z x := by
  rcases h with hrrf | ⟨hxy, hyz, hzx, hlex⟩
  · exact hrrf.cycle
  · obtain ⟨h₁, h₂, h₃⟩ := hlex.cycle
    exact ⟨.inr ⟨hxy, h₁⟩, .inr ⟨hyz, h₂⟩, .inr ⟨hzx, h₃⟩⟩

/-- A cycle of the comparison is one of the fused or of the lexical score; the ids have none. -/
theorem circular_of_cycle (h : 0 ≤ epsilon) {x y z : FusedHit}
    (hxy : Before (RrfAhead epsilon) (TieAhead epsilon) x y)
    (hyz : Before (RrfAhead epsilon) (TieAhead epsilon) y z)
    (hzx : Before (RrfAhead epsilon) (TieAhead epsilon) z x) :
    Circular epsilon x y z ∨ Circular epsilon y z x ∨ Circular epsilon z x y := by
  have := isStrictOrder_rrfAhead h
  have := isStrictOrder_lexicalAhead h
  rcases cycle_cases hxy hyz hzx with h₁ | h₂ | h₃ | ⟨txy, tyz, tzx, hxy, hyz, hzx⟩
  · exact .inl (.inl h₁)
  · exact .inr (.inl (.inl h₂))
  · exact .inr (.inr (.inl h₃))
  · rcases cycle_cases hxy hyz hzx with h₁ | h₂ | h₃ | ⟨-, -, -, hxy, hyz, hzx⟩
    · exact .inl (.inr ⟨txy, tyz, tzx, h₁⟩)
    · exact .inr (.inl (.inr ⟨tyz, tzx, txy, h₂⟩))
    · exact .inr (.inr (.inr ⟨tzx, txy, tyz, h₃⟩))
    · rw [IdAhead] at hxy hyz hzx
      omega

/-! ### The order of the hits -/

/-- The comparison is an order on the hits, the list does not depend on the order of the
candidates, its pages follow one another, and no hit stands behind one that it is ahead of by more
than the tolerance. -/
structure FusionIsOrder (S : SortBy FusedHit) (candidates : List PreparedCandidate)
    (config : RrfConfig) : Prop where
  swap : ∀ a ∈ candidates.map (fusedHit config), ∀ b ∈ candidates.map (fusedHit config),
    fusedHitCmp b a config.epsilon = (fusedHitCmp a b config.epsilon).swap
  distinct : ∀ a ∈ candidates.map (fusedHit config), ∀ b ∈ candidates.map (fusedHit config),
    fusedHitCmp a b config.epsilon = .eq ↔ a.docId = b.docId
  trans : ∀ a ∈ candidates.map (fusedHit config), ∀ b ∈ candidates.map (fusedHit config),
    ∀ c ∈ candidates.map (fusedHit config), fusedHitCmp a b config.epsilon = .lt →
      fusedHitCmp b c config.epsilon = .lt → fusedHitCmp a c config.epsilon = .lt
  listed : ∃ full : List FusedHit, full.Perm (candidates.map (fusedHit config)) ∧
    (full.Pairwise fun a b => ¬ RrfAhead config.epsilon b a) ∧
    (∀ candidates' : List PreparedCandidate, candidates'.Perm candidates → ∀ offset limit,
      1 ≤ limit → ∃ r, fuseRrfLegacy S candidates' config offset limit = some r ∧
        r.hits = (full.drop offset).take limit ∧ r.totalFused = full.length) ∧
    ∀ limit n, ((range n).flatMap fun i => (full.drop (i * limit)).take limit) =
      full.take (n * limit)

theorem flatMap_pages {α : Type} (l : List α) (limit n : Nat) :
    ((range n).flatMap fun i => (l.drop (i * limit)).take limit) = l.take (n * limit) := by
  induction n with
  | zero => rw [Nat.zero_mul, take_zero]; rfl
  | succ n ih =>
    rw [range_succ, flatMap_append, ih, flatMap_singleton, Nat.succ_mul, ← take_add]

section

variable {candidates : List PreparedCandidate} {config : RrfConfig}

theorem eq_of_docId (hids : (candidates.map (·.docId)).Nodup) {a b : FusedHit}
    (ha : a ∈ candidates.map (fusedHit config)) (hb : b ∈ candidates.map (fusedHit config))
    (h : a.docId = b.docId) : a = b := by
  obtain ⟨c, hc, rfl⟩ := mem_map.mp ha
  obtain ⟨d, hd, rfl⟩ := mem_map.mp hb
  rw [inj_on_of_nodup_map hids hc hd h]

/-- Without circular hits the comparison is an order. -/
theorem before_trans_iff (hids : (candidates.map (·.docId)).Nodup) :
    (∀ a ∈ candidates.map (fusedHit config), ∀ b ∈ candidates.map (fusedHit config),
      ∀ c ∈ candidates.map (fusedHit config), fusedHitCmp a b config.epsilon = .lt →
        fusedHitCmp b c config.epsilon = .lt → fusedHitCmp a c config.epsilon = .lt) ↔
      ¬ ∃ x ∈ candidates.map (fusedHit config), ∃ y ∈ candidates.map (fusedHit config),
        ∃ z ∈ candidates.map (fusedHit config), Circular config.epsilon x y z := by
  have hdecides := decides_fusedHitCmp config.epsilon_nonneg
  have hasymm : ∀ x ∈ candidates.map (fusedHit config), ∀ y ∈ candidates.map (fusedHit config),
      fusedHitCmp x y config.epsilon = .lt → ¬ fusedHitCmp y x config.epsilon = .lt := by
    intro x _ y _ hxy hyx
    exact (hdecides x y).not_behind ((hdecides x y).lt.mp hxy) ((hdecides y x).lt.mp hyx)
  have htotal : ∀ x ∈ candidates.map (fusedHit config), ∀ y ∈ candidates.map (fusedHit config),
      x ≠ y → fusedHitCmp x y config.epsilon = .lt ∨ fusedHitCmp y x config.epsilon = .lt := by
    intro x hx y hy hne
    cases hcmp : fusedHitCmp x y config.epsilon with
    | lt => exact .inl rfl
    | eq =>
      exact absurd (eq_of_docId hids hx hy (docId_of_fusedHitCmp_eq config.epsilon_nonneg hcmp)) hne
    | gt => exact .inr ((hdecides y x).lt.mpr ((hdecides x y).gt.mp hcmp))
  rw [trans_iff hasymm htotal]
  apply not_congr
  constructor
  · rintro ⟨x, hx, y, hy, z, hz, hxy, hyz, hzx⟩
    rcases circular_of_cycle config.epsilon_nonneg ((hdecides x y).lt.mp hxy)
      ((hdecides y z).lt.mp hyz) ((hdecides z x).lt.mp hzx) with h₁ | h₂ | h₃
    · exact ⟨x, hx, y, hy, z, hz, h₁⟩
    · exact ⟨y, hy, z, hz, x, hx, h₂⟩
    · exact ⟨z, hz, x, hx, y, hy, h₃⟩
  · rintro ⟨x, hx, y, hy, z, hz, hcircular⟩
    obtain ⟨hxy, hyz, hzx⟩ := hcircular.cycle
    exact ⟨x, hx, y, hy, z, hz, (hdecides x y).lt.mpr hxy, (hdecides y z).lt.mpr hyz,
      (hdecides z x).lt.mpr hzx⟩

theorem fusedHitCmp_self (h : 0 ≤ config.epsilon) (a : FusedHit) :
    fusedHitCmp a a config.epsilon = .eq := by
  have hdecides := decides_fusedHitCmp h a a
  apply hdecides.eq.mpr
  exact ⟨fun hahead => hdecides.not_behind hahead hahead,
    fun hahead => hdecides.not_behind hahead hahead⟩

theorem totalOn_of_trans (hids : (candidates.map (·.docId)).Nodup)
    (htrans : ∀ a ∈ candidates.map (fusedHit config), ∀ b ∈ candidates.map (fusedHit config),
      ∀ c ∈ candidates.map (fusedHit config), fusedHitCmp a b config.epsilon = .lt →
        fusedHitCmp b c config.epsilon = .lt → fusedHitCmp a c config.epsilon = .lt) :
    TotalOn (fun a b => fusedHitCmp a b config.epsilon) (candidates.map (fusedHit config)) where
  swap a _ b _ := (decides_fusedHitCmp config.epsilon_nonneg a b).swap
    (decides_fusedHitCmp config.epsilon_nonneg b a)
  trans a ha b hb c hc hab hbc := by
    cases hcmp : fusedHitCmp a b config.epsilon with
    | gt => exact absurd hcmp hab
    | eq =>
      rw [eq_of_docId hids ha hb (docId_of_fusedHitCmp_eq config.epsilon_nonneg hcmp)]
      exact hbc
    | lt =>
      cases hcmp' : fusedHitCmp b c config.epsilon with
      | gt => exact absurd hcmp' hbc
      | eq =>
        rw [← eq_of_docId hids hb hc (docId_of_fusedHitCmp_eq config.epsilon_nonneg hcmp'), hcmp]
        nofun
      | lt =>
        rw [htrans a ha b hb c hc hcmp hcmp']
        nofun

/-- The fusion is in order exactly where no three hits are circular. -/
theorem fusionIsOrder_iff (S : SortBy FusedHit) (candidates : List PreparedCandidate)
    (hids : (candidates.map (·.docId)).Nodup) (config : RrfConfig) :
    FusionIsOrder S candidates config ↔
      ¬ ∃ x ∈ candidates.map (fusedHit config), ∃ y ∈ candidates.map (fusedHit config),
        ∃ z ∈ candidates.map (fusedHit config), Circular config.epsilon x y z := by
  rw [← before_trans_iff hids]
  refine ⟨fun h => h.trans, fun htrans => ?_⟩
  have htotal := totalOn_of_trans hids htrans
  obtain ⟨full, hfull, hsorted⟩ := S.sorted _ _ htotal
  have hperm := S.perm _ _ _ hfull
  refine ⟨htotal.swap, fun a ha b hb => ⟨docId_of_fusedHitCmp_eq config.epsilon_nonneg, fun hid => ?_⟩,
    htrans, full, hperm, ?_, ?_, flatMap_pages full⟩
  · rw [eq_of_docId hids ha hb hid]
    exact fusedHitCmp_self config.epsilon_nonneg b
  · apply hsorted.imp
    intro a b hab hahead
    exact hab ((decides_fusedHitCmp config.epsilon_nonneg a b).gt.mpr (.inl hahead))
  · intro candidates' hcandidates offset limit hlimit
    have hhits : (candidates'.map (fusedHit config)).Perm (candidates.map (fusedHit config)) :=
      hcandidates.map _
    have htotal' : TotalOn (fun a b => fusedHitCmp a b config.epsilon)
        (candidates'.map (fusedHit config)) := {
      swap := fun a ha b hb => htotal.swap a (hhits.mem_iff.mp ha) b (hhits.mem_iff.mp hb)
      trans := fun a ha b hb c hc => htotal.trans a (hhits.mem_iff.mp ha) b (hhits.mem_iff.mp hb) c
        (hhits.mem_iff.mp hc) }
    obtain ⟨full', hfull', hsorted'⟩ := S.sorted _ _ htotal'
    have hperm' := (S.perm _ _ _ hfull').trans hhits
    have hsame : full' = full := by
      apply List.Perm.eq_of_pairwise _ hsorted' hsorted (hperm'.trans hperm.symm)
      intro a b ha hb hab hba
      have ha' := hperm'.mem_iff.mp ha
      have hb' := hperm.mem_iff.mp hb
      rw [htotal.swap a ha' b hb'] at hba
      apply eq_of_docId hids ha' hb'
      apply docId_of_fusedHitCmp_eq config.epsilon_nonneg
      cases hcmp : fusedHitCmp a b config.epsilon with
      | eq => rfl
      | gt => exact absurd hcmp hab
      | lt =>
        rw [hcmp] at hba
        exact absurd rfl hba
    refine ⟨_, by rw [fuseRrfLegacy, hfull', hsame]; rfl, ?_, rfl⟩
    rw [Nat.max_eq_left hlimit]

end

/-! ### Small lists -/

/-- A sort that answers for every comparison. -/
def mergeSortBy (α : Type) : SortBy α where
  sortBy cmp l := some ((l.attach.mergeSort fun a b => decide (cmp a.1 b.1 ≠ .gt)).map (·.1))
  perm cmp l l' h := by
    cases h
    exact ((mergeSort_perm _ _).map _).trans (.of_eq (attach_map_subtype_val l))
  sorted cmp l h := by
    refine ⟨_, rfl, pairwise_map.mpr ?_⟩
    refine (pairwise_mergeSort ?_ ?_ l.attach).imp fun hle => of_decide_eq_true hle
    · intro a b c hab hbc
      exact decide_eq_true (h.trans a.1 a.2 b.1 b.2 c.1 c.2 (of_decide_eq_true hab)
        (of_decide_eq_true hbc))
    · intro a b
      rw [Bool.or_eq_true, decide_eq_true_eq, decide_eq_true_eq, h.swap a.1 a.2 b.1 b.2]
      cases cmp a.1 b.1 <;> simp

/-- The default configuration. -/
def defaultConfig : RrfConfig where
  k := 60
  epsilon := 1 / 1000000000
  k_pos := by norm_num
  epsilon_nonneg := by norm_num

def rankedCandidate (docId : Int) (lexicalRank semanticRank : Nat) (lexicalScore : ℚ) :
    PreparedCandidate where
  docId := docId
  lexicalRank := some lexicalRank
  semanticRank := some semanticRank
  lexicalScore := some lexicalScore
  semanticScore := none
  firstSource := .lexical

theorem fusionIsOrder_three :
    FusionIsOrder (mergeSortBy FusedHit)
      [rankedCandidate 1 1 2 3, rankedCandidate 2 2 1 2, rankedCandidate 3 3 3 1] defaultConfig :=
  (fusionIsOrder_iff (mergeSortBy FusedHit)
    [rankedCandidate 1 1 2 3, rankedCandidate 2 2 1 2, rankedCandidate 3 3 3 1] (by decide)
    defaultConfig).mpr (by decide +kernel)

/-- Three documents whose fused scores lie within two tolerances, the lexical scores the other way
round. -/
def circularCandidates : List PreparedCandidate :=
  [rankedCandidate 1 168 169 1, rankedCandidate 2 142 203 2, rankedCandidate 3 133 220 3]

theorem not_fusionIsOrder_circular : ¬ ∃ S, FusionIsOrder S circularCandidates defaultConfig := by
  rintro ⟨S, h⟩
  have hlt := h.trans
    (fusedHit defaultConfig (rankedCandidate 1 168 169 1))
    (mem_map_of_mem (by simp [circularCandidates]))
    (fusedHit defaultConfig (rankedCandidate 3 133 220 3))
    (mem_map_of_mem (by simp [circularCandidates]))
    (fusedHit defaultConfig (rankedCandidate 2 142 203 2))
    (mem_map_of_mem (by simp [circularCandidates])) (by decide +kernel) (by decide +kernel)
  have hgt : fusedHitCmp (fusedHit defaultConfig (rankedCandidate 1 168 169 1))
      (fusedHit defaultConfig (rankedCandidate 2 142 203 2)) defaultConfig.epsilon = .gt := by
    decide +kernel
  rw [hgt] at hlt
  cases hlt

end AgentMail.Search
