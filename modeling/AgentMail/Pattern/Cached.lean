import AgentMail.Lib.Table
import AgentMail.Pattern.Compiled
import Mathlib.Algebra.Order.BigOperators.Group.List
import Mathlib.Algebra.Order.Group.Nat

/-!
# Normalised and cached patterns

When `normalize_pattern` leaves its own result alone, and the cache of compiled patterns
(`crates/mcp-agent-mail-core/src/pattern_overlap.rs:14–69`).
-/

namespace AgentMail.Pattern

open Base Lib List

/-! ### Surviving components -/

/-- How many components before these the `..` among them still remove. -/
def owed : List Text → Nat
  | [] => 0
  | c :: rest =>
    if c = [] ∨ c = ['.'] then owed rest
    else if c = ['.', '.'] then owed rest + 1
    else owed rest - 1

/-- A component is a name, and no `..` after it removes it. -/
def Stays (c : Text) (rest : List Text) : Prop :=
  ¬ (c = [] ∨ c = ['.']) ∧ c ≠ ['.', '.'] ∧ owed rest = 0

instance (c : Text) (rest : List Text) : Decidable (Stays c rest) :=
  inferInstanceAs (Decidable (_ ∧ _ ∧ _))

def firstStaying : List Text → Option Text
  | [] => none
  | c :: rest => if Stays c rest then some c else firstStaying rest

def lastStaying : List Text → Option Text
  | [] => none
  | c :: rest => (lastStaying rest).or (if Stays c rest then some c else none)

/-- The loop takes off what is owed and appends what it makes of the pieces alone. -/
theorem foldl_pushComponent (pieces parts : List Text) :
    pieces.foldl pushComponent parts =
      parts.take (parts.length - owed pieces) ++ pieces.foldl pushComponent [] := by
  induction pieces generalizing parts with
  | nil => simp [owed]
  | cons c pieces ih =>
    rw [foldl_cons, foldl_cons, ih (pushComponent parts c), ih (pushComponent [] c), owed,
      pushComponent, pushComponent]
    by_cases hskip : c = [] ∨ c = ['.']
    · simp only [if_pos hskip, take_nil, nil_append]
    · rw [if_neg hskip, if_neg hskip, if_neg hskip]
      by_cases hup : c = ['.', '.']
      · have hmin : min (parts.length - 1 - owed pieces) (parts.length - 1) =
            parts.length - (owed pieces + 1) := by
          omega
        rw [if_pos hup, if_pos hup, if_pos hup, dropLast_eq_take, take_take, length_take,
          dropLast_nil, take_nil, nil_append, min_eq_left (Nat.sub_le _ 1), hmin]
      · rw [if_neg hup, if_neg hup, if_neg hup, take_append, nil_append, length_append,
          length_singleton, append_assoc]
        rcases Nat.eq_zero_or_pos (owed pieces) with h | h
        · simp [h]
        · have hnone : parts.length + 1 - owed pieces - parts.length = 0 := by omega
          have hempty : 1 - owed pieces = 0 := by omega
          have hlen : parts.length + 1 - owed pieces = parts.length - (owed pieces - 1) := by omega
          rw [hnone, hempty, hlen, take_zero]

theorem foldl_pushComponent_cons (c : Text) (rest : List Text) :
    (c :: rest).foldl pushComponent [] =
      if Stays c rest then c :: rest.foldl pushComponent [] else rest.foldl pushComponent [] := by
  rw [foldl_cons, foldl_pushComponent]
  unfold pushComponent Stays
  by_cases hskip : c = [] ∨ c = ['.']
  · simp [hskip]
  · by_cases hup : c = ['.', '.']
    · simp [hup]
    · by_cases howed : owed rest = 0
      · simp [hskip, hup, howed]
      · have hzero : 1 - owed rest = 0 := by omega
        simp [hskip, hup, howed, hzero]

theorem head?_foldl_pushComponent (pieces : List Text) :
    (pieces.foldl pushComponent []).head? = firstStaying pieces := by
  induction pieces with
  | nil => rfl
  | cons c rest ih =>
    rw [foldl_pushComponent_cons, firstStaying]
    split
    · rfl
    · exact ih

theorem getLast?_foldl_pushComponent (pieces : List Text) :
    (pieces.foldl pushComponent []).getLast? = lastStaying pieces := by
  induction pieces with
  | nil => rfl
  | cons c rest ih =>
    rw [foldl_pushComponent_cons, lastStaying, ← ih]
    split
    · rw [getLast?_cons]
      cases (rest.foldl pushComponent []).getLast? <;> rfl
    · rw [Option.or_none]

/-! ### Normalising twice -/

/-- No blank stands at either end. -/
def unpadded (t : Text) : Bool := !t.head?.any isWhitespace && !t.getLast?.any isWhitespace

theorem trim_eq_self_iff (t : Text) : trim t = t ↔ unpadded t = true := by
  have hhead : t.dropWhile isWhitespace = t ↔ t.head?.any isWhitespace = false := by
    cases t with
    | nil => simp
    | cons c t => simp [dropWhile_eq_self_iff]
  have hlast : t.rdropWhile isWhitespace = t ↔ t.getLast?.any isWhitespace = false := by
    rcases t.eq_nil_or_concat with rfl | ⟨init, c, rfl⟩
    · simp
    · simp [rdropWhile_eq_self_iff]
  rw [unpadded, Bool.and_eq_true, Bool.not_eq_true', Bool.not_eq_true', ← hhead, ← hlast]
  constructor
  · intro h
    have hsuffix := dropWhile_suffix (l := t) isWhitespace
    have hlen : t.length ≤ (t.dropWhile isWhitespace).length := by
      conv_lhs => rw [← h]
      exact (List.rdropWhile_prefix isWhitespace _).length_le
    have hdrop := hsuffix.eq_of_length (Nat.le_antisymm hsuffix.length_le hlen)
    rw [trim, hdrop] at h
    exact ⟨hdrop, h⟩
  · rintro ⟨hdrop, hrdrop⟩
    rw [trim, hdrop, hrdrop]

theorem splitOnP_congr {p q : Char → Bool} {t : Text} (h : ∀ c ∈ t, p c = q c) :
    t.splitOnP p = t.splitOnP q := by
  induction t with
  | nil => rfl
  | cons c t ih =>
    rw [forall_mem_cons] at h
    rw [splitOnP_cons_eq_if_modifyHead, splitOnP_cons_eq_if_modifyHead, h.1, ih h.2]

/-- Proper components survive a second pass. -/
theorem resolveText_joinSlash {parts : List Text} (h : ∀ s ∈ parts, IsComponent s) :
    resolveText (joinSlash parts) = joinSlash parts := by
  rcases eq_or_ne parts [] with rfl | hne
  · rfl
  have hsplit : (joinSlash parts).splitOnP (fun c => c == '/' || c == '\\') = parts := by
    refine Eq.trans ?_ (splitSlash_joinSlash (fun s hs => (h s hs).noSlash) hne)
    rw [splitSlash, splitOn_eq_splitOnP]
    apply splitOnP_congr
    intro c hc
    by_cases hslash : c = '/'
    · simp [hslash]
    · obtain ⟨s, hs, hcs⟩ := mem_joinSlash hc hslash
      have hback : c ≠ '\\' := fun he => (h s hs).noBackslash (he ▸ hcs)
      simp [hslash, hback]
  have hpush (acc : List Text) : parts.foldl pushComponent acc = acc ++ parts := by
    clear hsplit hne
    induction parts generalizing acc with
    | nil => rw [foldl_nil, append_nil]
    | cons c rest ih =>
      obtain ⟨hc, hrest⟩ := forall_mem_cons.mp h
      rw [foldl_cons, ih hrest, pushComponent, if_neg (not_or.mpr ⟨hc.ne_nil, hc.ne_dot⟩),
        if_neg hc.ne_dotDot, append_assoc, singleton_append]
  rw [resolveText, resolveComponents, hsplit, hpush, nil_append]

/-- The names at the two ends of the pattern, once its `..` are resolved, have no blank there. -/
def Unpadded (pattern : Text) : Prop :=
  let components := (trim pattern).splitOnP fun c => c == '/' || c == '\\'
  (∀ c ∈ firstStaying components, c.head?.any isWhitespace = false) ∧
    ∀ c ∈ lastStaying components, c.getLast?.any isWhitespace = false

theorem unpadded_joinSlash {parts : List Text} (h : ∀ s ∈ parts, s ≠ []) :
    unpadded (joinSlash parts) = true ↔ (∀ c ∈ parts.head?, c.head?.any isWhitespace = false) ∧
      ∀ c ∈ parts.getLast?, c.getLast?.any isWhitespace = false := by
  rcases eq_or_ne parts [] with rfl | hne
  · simp [unpadded, joinSlash]
  have hhead : (joinSlash parts).head? = (parts.head hne).head? := by
    cases parts with
    | nil => exact absurd rfl hne
    | cons s rest =>
      cases rest with
      | nil => rw [joinSlash_singleton, head_cons]
      | cons s' rest =>
        rw [joinSlash, intercalate_cons_cons, append_assoc, head_cons]
        exact head?_append_of_ne_nil _ (h s mem_cons_self)
  have hlast : (joinSlash parts).getLast? = (parts.getLast hne).getLast? := by
    have hne' : parts.getLast hne ≠ [] := h _ (getLast_mem hne)
    conv_lhs => rw [← dropLast_append_getLast hne]
    rcases eq_or_ne parts.dropLast [] with hinit | hinit
    · rw [hinit, nil_append, joinSlash_singleton]
    · rw [joinSlash_append hinit (cons_ne_nil _ _), joinSlash_singleton,
        getLast?_append_of_ne_nil _ (cons_ne_nil _ _), getLast?_cons,
        getLast?_eq_some_getLast hne', Option.getD_some]
  rw [unpadded, hhead, hlast, Bool.and_eq_true, Bool.not_eq_true', Bool.not_eq_true',
    head?_eq_some_head hne, getLast?_eq_some_getLast hne]
  simp

/-- The bytes of the pieces with their separators. -/
def weight (pieces : List Text) : Nat := (pieces.map (·.length + 1)).sum

theorem weight_splitOnP (cut : Char → Bool) (t : Text) : weight (t.splitOnP cut) = t.length + 1 := by
  induction t with
  | nil => rfl
  | cons c t ih =>
    rw [splitOnP_cons_eq_if_modifyHead]
    split
    · rw [weight, map_cons, sum_cons, ← weight, ih, length_cons, length_nil, Nat.zero_add, Nat.add_comm]
    · obtain ⟨u, us, hu⟩ := exists_cons_of_ne_nil (splitOnP_ne_nil cut t)
      rw [hu, weight, map_cons, sum_cons] at ih
      rw [hu, modifyHead_cons, weight, map_cons, sum_cons, length_cons, length_cons]
      omega

theorem weight_joinSlash {parts : List Text} (hne : parts ≠ []) :
    (joinSlash parts).length + 1 = weight parts := by
  induction parts with
  | nil => exact absurd rfl hne
  | cons s rest ih =>
    cases rest with
    | nil => simp [weight]
    | cons s' rest =>
      rw [joinSlash, intercalate_cons_cons, ← joinSlash, weight, map_cons, sum_cons, ← weight,
        ← ih (cons_ne_nil _ _), length_append, length_append, length_singleton]
      omega

theorem sublist_foldl_pushComponent (pieces : List Text) :
    pieces.foldl pushComponent [] <+ pieces := by
  induction pieces with
  | nil => exact .slnil
  | cons c rest ih =>
    rw [foldl_pushComponent_cons]
    split
    · exact ih.cons_cons c
    · exact ih.cons c

theorem length_resolveText_le (t : Text) : (resolveText t).length ≤ t.length := by
  rcases eq_or_ne (resolveComponents t) [] with h | h
  · rw [resolveText_eq_nil.mpr h]
    exact Nat.zero_le _
  · have hle := ((sublist_foldl_pushComponent
      (t.splitOnP fun c => c == '/' || c == '\\')).map (·.length + 1)).sum_le_sum (by simp)
    have hjoin := weight_joinSlash h
    have hsplit := weight_splitOnP (fun c => c == '/' || c == '\\') t
    unfold weight resolveComponents at hjoin
    unfold weight at hsplit
    unfold resolveText resolveComponents
    omega

/-- The `..` and blanks of a pattern are dealt with in one pass, and what is stored is compiled to the
same pattern again, exactly when the names at the two ends are unpadded. -/
theorem normalizePattern_idempotent_iff (s : Text) :
    (normalizePattern (normalizePattern s) = normalizePattern s ↔ Unpadded s) ∧
      ∀ P, CompiledPattern.new P (normalizePattern s) = CompiledPattern.new P s ↔ Unpadded s := by
  have hcomponents (p : Text) (hp : p ∈ resolveComponents (trim s)) : IsComponent p :=
    isComponent_of_mem hp
  have hends : unpadded (normalizePattern s) = true ↔ Unpadded s := by
    rw [normalizePattern, resolveText, unpadded_joinSlash fun p hp => (hcomponents p hp).ne_nil,
      resolveComponents, head?_foldl_pushComponent, getLast?_foldl_pushComponent]
    rfl
  have hagain : normalizePattern (normalizePattern s) = normalizePattern s ↔ Unpadded s := by
    rw [← hends, ← trim_eq_self_iff]
    constructor
    · intro h
      have hsub : trim (normalizePattern s) <+ normalizePattern s :=
        (List.rdropWhile_prefix isWhitespace _).sublist.trans (dropWhile_suffix isWhitespace).sublist
      refine hsub.eq_of_length (Nat.le_antisymm hsub.length_le ?_)
      conv_lhs => rw [← h]
      exact length_resolveText_le _
    · intro h
      conv_lhs => rw [normalizePattern, h]
      exact resolveText_joinSlash hcomponents
  refine ⟨hagain, fun P => ?_⟩
  rw [← hagain]
  exact ⟨congrArg CompiledPattern.norm, congrArg (CompiledPattern.ofNorm P)⟩

/-- Blanks that a `./` kept from the first pass are cut off by the second. -/
theorem normalizePattern_not_idempotent :
    normalizePattern (normalizePattern "./ a".toList) ≠ normalizePattern "./ a".toList := by
  decide

/-! ### The cache -/

/-- `PatternCache`; the map is a list of entries with distinct keys. -/
structure PatternCache where
  capacity : Nat
  entries : List (Text × CompiledPattern)
  order : List Text

namespace PatternCache

def new (capacity : Nat) : PatternCache := ⟨capacity, [], []⟩

def getOrInsert (P : Platform) (c : PatternCache) (raw : Text) : CompiledPattern × PatternCache :=
  match Assoc.get? raw c.entries with
  | some compiled =>
    -- Moved to the back of the order.
    let order := if c.order.contains raw then c.order.erase raw ++ [raw] else c.order
    (compiled, { c with order := order })
  | none =>
    let compiled := CompiledPattern.new P raw
    let evicted : PatternCache :=
      if c.capacity ≤ c.entries.length then
        match c.order with
        | oldest :: rest => { c with entries := Assoc.erase oldest c.entries, order := rest }
        | [] => c
      else c
    (compiled, { evicted with
      entries := Assoc.insert raw compiled evicted.entries, order := evicted.order ++ [raw] })

/-- The patterns that a run of calls returns, and the cache after it. -/
def run (P : Platform) (c : PatternCache) (raws : List Text) : List CompiledPattern × PatternCache :=
  raws.foldl (fun acc raw =>
    (acc.1 ++ [(getOrInsert P acc.2 raw).1], (getOrInsert P acc.2 raw).2)) ([], c)

/-- The map and the order hold the same keys once each, within the capacity, and every value is what
its key compiles to. -/
structure Sound (P : Platform) (c : PatternCache) : Prop where
  keys : (c.entries.map (·.1)).Perm c.order
  nodup : c.order.Nodup
  bounded : c.entries.length ≤ c.capacity
  values : ∀ e ∈ c.entries, e.2 = CompiledPattern.new P e.1

variable {P : Platform} {c : PatternCache}

theorem sound_new (capacity : Nat) : Sound P (new capacity) :=
  ⟨.nil, nodup_nil, Nat.zero_le _, forall_mem_nil _⟩

theorem Sound.insert (h : Sound P c) {raw : Text} (hroom : c.entries.length < c.capacity)
    (hnew : raw ∉ c.entries.map (·.1)) : Sound P { c with
      entries := Assoc.insert raw (CompiledPattern.new P raw) c.entries, order := c.order ++ [raw] } := by
  have hinsert := Assoc.insert_of_new (v := CompiledPattern.new P raw) hnew
  constructor
  · rw [hinsert, map_append, map_singleton]
    exact h.keys.append_right _
  · have hnotin : raw ∉ c.order := fun hmem => hnew (h.keys.mem_iff.mpr hmem)
    exact nodup_append.mpr ⟨h.nodup, nodup_singleton _, fun x hx y hy he =>
      hnotin (mem_singleton.mp hy ▸ he ▸ hx)⟩
  · rw [hinsert, length_append, length_singleton]
    exact hroom
  · rw [hinsert]
    intro e he
    rcases mem_append.mp he with he | he
    · exact h.values e he
    · rw [mem_singleton.mp he]

theorem Sound.evict (h : Sound P c) {oldest : Text} {rest : List Text} (horder : c.order = oldest :: rest) :
    Sound P { c with entries := Assoc.erase oldest c.entries, order := rest } ∧
      (Assoc.erase oldest c.entries).length < c.capacity := by
  have hnodup := h.nodup
  rw [horder, nodup_cons] at hnodup
  have hkeys : ((Assoc.erase oldest c.entries).map (·.1)).Perm rest := by
    have hmap : (Assoc.erase oldest c.entries).map (·.1) =
        (c.entries.map (·.1)).filter (· ≠ oldest) := by
      rw [filter_map, Assoc.erase]
      congr 1
      apply filter_congr
      intro e _
      by_cases he : e.1 = oldest
      · simp [he]
      · simp [he]
    rw [hmap]
    refine (h.keys.filter _).trans (.of_eq ?_)
    rw [horder, filter_cons_of_neg (by simp), filter_eq_self]
    intro x hx
    exact decide_eq_true fun he => hnodup.1 (he ▸ hx)
  have hlen : (Assoc.erase oldest c.entries).length + 1 = c.entries.length := by
    have hbefore := h.keys.length_eq
    have hafter := hkeys.length_eq
    rw [length_map, horder, length_cons] at hbefore
    rw [length_map] at hafter
    omega
  have hbounded := h.bounded
  refine ⟨⟨hkeys, hnodup.2, ?_, fun e he => h.values e (mem_of_mem_filter he)⟩, ?_⟩
  · show (Assoc.erase oldest c.entries).length ≤ c.capacity
    omega
  · omega

/-- One call returns the compiled pattern and keeps the cache sound. -/
theorem Sound.getOrInsert (h : Sound P c) (hcapacity : 1 ≤ c.capacity) (raw : Text) :
    (PatternCache.getOrInsert P c raw).1 = CompiledPattern.new P raw ∧
      Sound P (PatternCache.getOrInsert P c raw).2 ∧
      (PatternCache.getOrInsert P c raw).2.capacity = c.capacity := by
  unfold PatternCache.getOrInsert
  cases hget : Assoc.get? raw c.entries with
  | some compiled =>
    have hmem := Assoc.mem_of_get? hget
    have hin : raw ∈ c.order := h.keys.mem_iff.mp (mem_map_of_mem (f := (·.1)) hmem)
    have hmoved : (c.order.erase raw ++ [raw]).Perm c.order :=
      (perm_append_singleton raw _).trans (perm_cons_erase hin).symm
    refine ⟨h.values _ hmem, ⟨?_, ?_, h.bounded, h.values⟩, rfl⟩
    · rw [if_pos (contains_iff_mem.mpr hin)]
      exact h.keys.trans hmoved.symm
    · rw [if_pos (contains_iff_mem.mpr hin)]
      exact hmoved.nodup_iff.mpr h.nodup
  | none =>
    have hnew := Assoc.get?_eq_none.mp hget
    refine ⟨rfl, ?_⟩
    by_cases hfull : c.capacity ≤ c.entries.length
    · cases horder : c.order with
      | nil =>
        have hlen := h.keys.length_eq
        rw [horder, length_map, length_nil] at hlen
        omega
      | cons oldest rest =>
        obtain ⟨hevicted, hroom⟩ := h.evict horder
        simp only [if_pos hfull]
        exact ⟨hevicted.insert hroom fun hmem => hnew
          ((filter_sublist.map _).subset hmem), trivial⟩
    · simp only [if_neg hfull]
      exact ⟨h.insert (Nat.lt_of_not_le hfull) hnew, trivial⟩

/-- Whatever is asked, every answer is the compiled pattern, the map and the order have the same keys
once each, and there are never more entries than the capacity. -/
theorem run_transparent (P : Platform) {capacity : Nat} (hcapacity : 1 ≤ capacity) (raws : List Text) :
    (run P (new capacity) raws).1 = raws.map (CompiledPattern.new P) ∧
      Sound P (run P (new capacity) raws).2 ∧ (run P (new capacity) raws).2.capacity = capacity := by
  induction raws using reverseRecOn with
  | nil => exact ⟨rfl, sound_new capacity, rfl⟩
  | append_singleton raws raw ih =>
    obtain ⟨hanswers, hsound, hsame⟩ := ih
    obtain ⟨hanswer, hsound', hsame'⟩ := hsound.getOrInsert (hcapacity.trans_eq hsame.symm) raw
    rw [run, foldl_append, foldl_cons, foldl_nil, ← run, map_append, map_singleton, hanswers, hanswer]
    exact ⟨rfl, hsound', hsame'.trans hsame⟩

theorem run_transparent_one :
    let done := run exactPlatform (new 1) ["a/".toList, "b".toList, "a/".toList]
    done.1.map (·.norm) = ["a".toList, "b".toList, "a".toList] ∧ Sound exactPlatform done.2 ∧
      done.2.order = ["a/".toList] := by
  obtain ⟨hanswers, hsound, -⟩ := run_transparent exactPlatform (Nat.le_refl 1)
    ["a/".toList, "b".toList, "a/".toList]
  refine ⟨?_, hsound, by decide⟩
  rw [hanswers]
  decide

end PatternCache

end AgentMail.Pattern
