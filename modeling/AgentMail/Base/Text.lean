import Mathlib.Algebra.Order.Ring.Nat
import Mathlib.Data.List.Lex
import Mathlib.Data.List.Infix
import Mathlib.Data.List.DropRight
import Mathlib.Data.Char

/-!
# Text, ASCII case folding and slash-separated components

Rust `str` values are modelled by their scalar values. The program compares text either
exactly or, on macOS and Windows builds, ignoring ASCII case; both comparisons are one
comparison of folded text. The byte-level prefix tests of the source are stated on scalar
values: UTF-8 is prefix free, so a byte prefix that is itself valid text is a scalar prefix.
-/

namespace AgentMail.Base

open List

-- A condition on the members of a list is checked along the list, also where the type is finite.
attribute [instance (high)] List.decidableBAll List.decidableBEx

/-- A Rust `str`, as the list of its scalar values. -/
abbrev Text := List Char

instance : LawfulBEq Text := inferInstance

/-- `char::to_ascii_lowercase` where the build ignores case, the identity elsewhere. -/
def foldChar (caseInsensitive : Bool) (c : Char) : Char :=
  if caseInsensitive then c.toLower else c

/-- Character-wise folding of a text. -/
def fold (caseInsensitive : Bool) (t : Text) : Text := t.map (foldChar caseInsensitive)

/-- `str::len`: the bytes of the UTF-8 encoding. -/
def byteLen (t : Text) : Nat := (t.map Char.utf8Size).sum

/-- `str::eq_ignore_ascii_case`. -/
def eqIgnoreAsciiCase (a b : Text) : Bool := a.map Char.toLower == b.map Char.toLower

/-- The equality that the source selects with `cfg!(any(target_os = "macos", target_os =
"windows"))`: ASCII case-insensitive there, exact on every other target. -/
def textEq (caseInsensitive : Bool) (a b : Text) : Bool :=
  if caseInsensitive then eqIgnoreAsciiCase a b else a == b

/-- The components between slashes; never empty, since the empty text has one empty component. -/
def splitSlash (t : Text) : List Text := t.splitOn '/'

/-- `parts.join("/")`. -/
def joinSlash (parts : List Text) : Text := ['/'].intercalate parts

/-- `char::is_whitespace`: the Unicode `White_Space` property. -/
def isWhitespace (c : Char) : Bool :=
  let n := c.toNat
  (0x09 ≤ n && n ≤ 0x0D) || n == 0x20 || n == 0x85 || n == 0xA0 || n == 0x1680 ||
    (0x2000 ≤ n && n ≤ 0x200A) || n == 0x2028 || n == 0x2029 || n == 0x202F || n == 0x205F ||
    n == 0x3000

/-- `str::trim`. -/
def trim (t : Text) : Text := (t.dropWhile isWhitespace).rdropWhile isWhitespace

/-- The first place at or after `start` where a pattern stands. -/
def findFrom (pattern content : Text) (start : Nat) : Option Nat :=
  (List.range' start (content.length + 1 - start)).find? fun i =>
    pattern.isPrefixOf (content.drop i)

/-- `str::strip_prefix`. -/
def stripHead (head t : Text) : Option Text :=
  if head.isPrefixOf t then some (t.drop head.length) else none

/-- `str::strip_suffix`. -/
def stripTail (tail t : Text) : Option Text :=
  if tail.isSuffixOf t then some (t.take (t.length - tail.length)) else none

/-- `str::split_once`. -/
def splitOnce (pattern t : Text) : Option (Text × Text) :=
  (findFrom pattern t 0).map fun i => (t.take i, t.drop (i + pattern.length))

/-- The order of `str`: UTF-8 keeps the order of scalar values. -/
def textLe : Text → Text → Bool
  | [], _ => true
  | _ :: _, [] => false
  | c :: s, d :: t => if c = d then textLe s t else c < d

/-- The order of paths, component by component. -/
def pathLe : List Text → List Text → Bool
  | [], _ => true
  | _ :: _, [] => false
  | c :: s, d :: t => if c = d then pathLe s t else textLe c d

/-! ### Stripping -/

theorem stripHead_append (head rest : Text) : stripHead head (head ++ rest) = some rest := by
  rw [stripHead, if_pos (List.isPrefixOf_iff_prefix.mpr (prefix_append _ _)), drop_left]

theorem stripHead_eq_some {head t rest : Text} :
    stripHead head t = some rest ↔ t = head ++ rest := by
  constructor
  · intro h
    rw [stripHead] at h
    split at h
    · rename_i hhead
      obtain ⟨tail, rfl⟩ := List.isPrefixOf_iff_prefix.mp hhead
      rw [drop_left] at h
      rw [Option.some.inj h]
    · cases h
  · rintro rfl
    exact stripHead_append head rest

/-! ### Folding -/

variable {c : Char}

theorem toLower_of_upper (h : 'A'.val ≤ c.val ∧ c.val ≤ 'Z'.val) :
    c.toLower.val = c.val + 32 := by
  unfold Char.toLower
  rw [dif_pos h]
  rfl

theorem toLower_of_not_upper (h : ¬ ('A'.val ≤ c.val ∧ c.val ≤ 'Z'.val)) :
    c.toLower = c := by
  unfold Char.toLower
  exact dif_neg h

theorem upper_toNat (h : 'A'.val ≤ c.val ∧ c.val ≤ 'Z'.val) :
    65 ≤ c.val.toNat ∧ c.val.toNat ≤ 90 :=
  ⟨UInt32.le_iff_toNat_le.mp h.1, UInt32.le_iff_toNat_le.mp h.2⟩

theorem toLower_upper_toNat (h : 'A'.val ≤ c.val ∧ c.val ≤ 'Z'.val) :
    c.toLower.val.toNat = c.val.toNat + 32 := by
  have hn := upper_toNat h
  rw [toLower_of_upper h, UInt32.toNat_add]
  change (c.val.toNat + 32) % 2 ^ 32 = _
  omega

/-- Folding keeps every character that is not a letter, and maps no other character to it. -/
theorem foldChar_eq_iff {x : Char} (hl : x.val.toNat < 65 ∨ 122 < x.val.toNat ∨
    (90 < x.val.toNat ∧ x.val.toNat < 97)) (ci : Bool) (c : Char) : foldChar ci c = x ↔ c = x := by
  cases ci with
  | false => rfl
  | true =>
    change c.toLower = x ↔ c = x
    by_cases h : 'A'.val ≤ c.val ∧ c.val ≤ 'Z'.val
    · have hn := upper_toNat h
      constructor
      · intro he
        have := toLower_upper_toNat h
        rw [he] at this
        omega
      · intro he
        rw [he] at hn
        omega
    · rw [toLower_of_not_upper h]

@[simp] theorem foldChar_idem (ci : Bool) (c : Char) : foldChar ci (foldChar ci c) = foldChar ci c := by
  cases ci with
  | false => rfl
  | true =>
    change c.toLower.toLower = c.toLower
    by_cases h : 'A'.val ≤ c.val ∧ c.val ≤ 'Z'.val
    · apply toLower_of_not_upper
      intro hu
      have := (upper_toNat hu).2
      have := (upper_toNat h).1
      have := toLower_upper_toNat h
      omega
    · rw [toLower_of_not_upper h, toLower_of_not_upper h]

@[simp] theorem fold_nil (ci : Bool) : fold ci [] = [] := rfl

@[simp] theorem fold_append (ci : Bool) (a b : Text) : fold ci (a ++ b) = fold ci a ++ fold ci b :=
  map_append

@[simp] theorem fold_cons (ci : Bool) (c : Char) (t : Text) :
    fold ci (c :: t) = foldChar ci c :: fold ci t := rfl

@[simp] theorem length_fold (ci : Bool) (t : Text) : (fold ci t).length = t.length :=
  length_map _

@[simp] theorem fold_eq_nil (ci : Bool) (t : Text) : fold ci t = [] ↔ t = [] :=
  map_eq_nil_iff

@[simp] theorem fold_idem (ci : Bool) (t : Text) : fold ci (fold ci t) = fold ci t := by
  simp [fold, Function.comp_def]

@[simp] theorem fold_false (t : Text) : fold false t = t := map_id t

theorem foldChar_slash (ci : Bool) (c : Char) : foldChar ci c = '/' ↔ c = '/' :=
  foldChar_eq_iff (.inl (by decide)) ci c

@[simp] theorem foldChar_slash_self (ci : Bool) : foldChar ci '/' = '/' :=
  (foldChar_slash ci '/').mpr rfl

/-- The selected equality is equality of folded text. -/
theorem textEq_iff (ci : Bool) (a b : Text) : textEq ci a b = true ↔ fold ci a = fold ci b := by
  cases ci with
  | false => simp [textEq]
  | true => simp only [textEq, eqIgnoreAsciiCase, if_true, beq_iff_eq]; rfl

theorem textEq_self (ci : Bool) (a : Text) : textEq ci a a = true := (textEq_iff ci a a).mpr rfl

theorem textEq_comm (ci : Bool) (a b : Text) : textEq ci a b = textEq ci b a := by
  apply Bool.eq_iff_iff.mpr
  rw [textEq_iff, textEq_iff, eq_comm]

/-! ### Components -/

@[simp] theorem splitSlash_nil : splitSlash [] = [[]] := rfl

theorem splitSlash_ne_nil (t : Text) : splitSlash t ≠ [] := splitOn_ne_nil _ _

/-- Joining the components gives the text back. -/
@[simp] theorem joinSlash_splitSlash (t : Text) : joinSlash (splitSlash t) = t :=
  intercalate_splitOn '/'

theorem splitSlash_injective {a b : Text} (h : splitSlash a = splitSlash b) : a = b := by
  rw [← joinSlash_splitSlash a, h, joinSlash_splitSlash]

/-- A slash between two texts separates their components. -/
theorem splitSlash_append_slash (a b : Text) :
    splitSlash (a ++ '/' :: b) = splitSlash a ++ splitSlash b :=
  splitOn_append_cons_self a b

/-- The pieces of a cut consist of characters of the text that are not cut points. -/
theorem chars_of_mem_splitOnP {cut : Char → Bool} {t s : Text} (h : s ∈ t.splitOnP cut) :
    ∀ c ∈ s, cut c = false ∧ c ∈ t := by
  induction t generalizing s with
  | nil =>
    rw [splitOnP_nil, mem_singleton] at h
    simp [h]
  | cons d t ih =>
    have ih {u : Text} (hu : u ∈ t.splitOnP cut) : ∀ c ∈ u, cut c = false ∧ c ∈ d :: t :=
      fun c hc => ⟨(ih hu c hc).1, mem_cons_of_mem _ (ih hu c hc).2⟩
    rw [splitOnP_cons_eq_if_modifyHead] at h
    split at h
    · rcases mem_cons.mp h with h | h
      · simp [h]
      · exact ih h
    · next hd =>
      obtain ⟨u, us, he⟩ := exists_cons_of_ne_nil (splitOnP_ne_nil cut t)
      rw [he, modifyHead_cons] at h
      rw [he] at ih
      rcases mem_cons.mp h with h | h
      · subst h
        intro c hc
        rcases mem_cons.mp hc with rfl | hc
        · exact ⟨Bool.not_eq_true _ ▸ hd, mem_cons_self ..⟩
        · exact ih (mem_cons_self ..) c hc
      · exact ih (mem_cons_of_mem _ h)

/-- Components never contain the separator. -/
theorem slash_notMem_of_mem_splitSlash {t s : Text} (h : s ∈ splitSlash t) : '/' ∉ s :=
  fun hm => beq_eq_false_iff_ne.mp (chars_of_mem_splitOnP h _ hm).1 rfl

/-- Components only contain characters of the text. -/
theorem mem_of_mem_splitSlash {t s : Text} (h : s ∈ splitSlash t) (hc : c ∈ s) :
    c ∈ t := (chars_of_mem_splitOnP h c hc).2

/-- Folding commutes with cutting at slashes. -/
theorem splitSlash_fold (ci : Bool) (t : Text) :
    splitSlash (fold ci t) = (splitSlash t).map (fold ci) := by
  induction t with
  | nil => rfl
  | cons c t ih =>
    unfold splitSlash at ih ⊢
    rw [fold_cons, splitOn_cons_eq_if_modifyHead, splitOn_cons_eq_if_modifyHead, ih]
    by_cases hc : c = '/'
    · subst hc
      simp
    · have hf : (foldChar ci c == '/') = false :=
        beq_eq_false_iff_ne.mpr (fun h => hc ((foldChar_slash ci c).mp h))
      rw [hf, beq_eq_false_iff_ne.mpr hc]
      obtain ⟨u, us, he⟩ := exists_cons_of_ne_nil (splitOn_ne_nil '/' t)
      simp [he]

@[simp] theorem joinSlash_singleton (s : Text) : joinSlash [s] = s := intercalate_singleton ..

/-- Joining two nonempty lists of components puts one slash between their texts. -/
theorem joinSlash_append {a b : List Text} (ha : a ≠ []) (hb : b ≠ []) :
    joinSlash (a ++ b) = joinSlash a ++ '/' :: joinSlash b := by
  induction a with
  | nil => exact absurd rfl ha
  | cons x a ih =>
    cases a with
    | nil =>
      obtain ⟨y, ys, rfl⟩ := exists_cons_of_ne_nil hb
      simp [joinSlash]
    | cons y a =>
      have := ih (cons_ne_nil y a)
      simp only [joinSlash, cons_append, intercalate_cons_cons] at this ⊢
      rw [this]
      simp

/-- The first component is the text before the first slash. -/
theorem splitSlash_eq_cons (t : Text) :
    ∃ rest, splitSlash t = t.take ((t.findIdx? (· == '/')).getD t.length) :: rest := by
  cases h : t.findIdx? (· == '/') with
  | none =>
    have hn : '/' ∉ t := by
      intro hm
      have := List.findIdx?_eq_none_iff.mp h _ hm
      simp at this
    exact ⟨[], by rw [Option.getD_none, take_length]; exact splitOn_eq_singleton hn⟩
  | some i =>
    obtain ⟨hi, hs, hmin⟩ := List.findIdx?_eq_some_iff_getElem.mp h
    have hsplit : t = t.take i ++ '/' :: t.drop (i + 1) := by
      rw [← beq_iff_eq.mp hs, getElem_cons_drop, take_append_drop]
    have hfree : '/' ∉ t.take i := by
      intro hm
      obtain ⟨j, hj, he⟩ := getElem_of_mem hm
      rw [length_take] at hj
      rw [getElem_take] at he
      exact hmin j (by omega) (beq_iff_eq.mpr he)
    refine ⟨splitSlash (t.drop (i + 1)), ?_⟩
    rw [Option.getD_some]
    conv_lhs => rw [hsplit]
    rw [splitSlash_append_slash]
    unfold splitSlash
    rw [splitOn_eq_singleton hfree, singleton_append]

/-- Cutting is inverse to joining components that contain no slash. -/
theorem splitSlash_joinSlash {parts : List Text} (h : ∀ s ∈ parts, '/' ∉ s) (hn : parts ≠ []) :
    splitSlash (joinSlash parts) = parts :=
  splitOn_intercalate '/' h hn

theorem mem_joinSlash {parts : List Text} (h : c ∈ joinSlash parts) (hc : c ≠ '/') :
    ∃ s ∈ parts, c ∈ s := by
  induction parts with
  | nil => cases h
  | cons x parts ih =>
    cases parts with
    | nil =>
      rw [joinSlash_singleton] at h
      exact ⟨x, mem_cons_self .., h⟩
    | cons y parts =>
      rw [joinSlash, intercalate_cons_cons, mem_append, mem_append, mem_singleton] at h
      rcases h with (h | h) | h
      · exact ⟨x, mem_cons_self .., h⟩
      · exact absurd h hc
      · obtain ⟨s, hs, hm⟩ := ih h
        exact ⟨s, mem_cons_of_mem _ hs, hm⟩

/-! ### Trimming -/

theorem dropWhile_rdropWhile (p : Char → Bool) (t : Text) :
    (t.rdropWhile p).dropWhile p = (t.dropWhile p).rdropWhile p := by
  induction t using reverseRecOn with
  | nil => rfl
  | append_singleton s c ih =>
    by_cases hc : p c = true
    · rw [rdropWhile_concat_pos p s c hc, ih, dropWhile_append]
      split
      · next hnil => simp [isEmpty_iff.mp hnil, hc]
      · rw [rdropWhile_concat_pos p _ c hc]
    · rw [rdropWhile_concat_neg p s c hc, dropWhile_append]
      split
      · simp [hc, rdropWhile_singleton]
      · rw [rdropWhile_concat_neg p _ c hc]

theorem trim_trim (t : Text) : trim (trim t) = trim t := by
  simp only [trim, dropWhile_rdropWhile, dropWhile_idempotent, rdropWhile_idempotent]

/-! ### The order of texts -/

theorem textLe_total (s t : Text) : textLe s t = true ∨ textLe t s = true := by
  induction s generalizing t with
  | nil => exact .inl rfl
  | cons c s ih =>
    cases t with
    | nil => exact .inr rfl
    | cons d t =>
      rw [textLe, textLe]
      by_cases hcd : c = d
      · rw [if_pos hcd, if_pos hcd.symm]
        exact ih t
      · rw [if_neg hcd, if_neg (Ne.symm hcd), decide_eq_true_eq, decide_eq_true_eq]
        exact lt_or_gt_of_ne hcd

theorem textLe_antisymm {s t : Text} (h : textLe s t = true) (h' : textLe t s = true) : s = t := by
  induction s generalizing t with
  | nil =>
    cases t with
    | nil => rfl
    | cons d t => cases h'
  | cons c s ih =>
    cases t with
    | nil => cases h
    | cons d t =>
      rw [textLe] at h h'
      by_cases hcd : c = d
      · rw [if_pos hcd] at h
        rw [if_pos hcd.symm] at h'
        rw [hcd, ih h h']
      · rw [if_neg hcd, decide_eq_true_eq] at h
        rw [if_neg (Ne.symm hcd), decide_eq_true_eq] at h'
        exact absurd h' (lt_asymm h)

theorem textLe_trans {s t u : Text} (h : textLe s t = true) (h' : textLe t u = true) :
    textLe s u = true := by
  induction s generalizing t u with
  | nil => rfl
  | cons c s ih =>
    cases t with
    | nil => cases h
    | cons d t =>
      cases u with
      | nil => cases h'
      | cons e u =>
        rw [textLe] at h h' ⊢
        by_cases hcd : c = d
        · rw [if_pos hcd] at h
          rw [hcd]
          by_cases hde : d = e
          · rw [if_pos hde] at h' ⊢
            exact ih h h'
          · rw [if_neg hde] at h' ⊢
            exact h'
        · rw [if_neg hcd, decide_eq_true_eq] at h
          by_cases hde : d = e
          · rw [← hde, if_neg hcd, decide_eq_true_eq]
            exact h
          · rw [if_neg hde, decide_eq_true_eq] at h'
            have hce := lt_trans h h'
            rw [if_neg (ne_of_lt hce), decide_eq_true_eq]
            exact hce

instance : Std.Total (fun a b : Text => textLe a b = true) := ⟨textLe_total⟩

instance : IsTrans Text (fun a b => textLe a b = true) := ⟨fun _ _ _ => textLe_trans⟩

/-- The members of a literal, without its UTF-8 encoding. -/
theorem toList_lit {s : String} {l : Text} (h : s = String.ofList l) : s.toList = l :=
  h ▸ String.toList_ofList

end AgentMail.Base
