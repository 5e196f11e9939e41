import AgentMail.Share.CleanAttachments
import AgentMail.Share.ReopenedUrl

/-!
# Project paths in exported attachments

Where no slug can spell a path, no text value that is written back has a project path. Keys are
another matter.
-/

namespace AgentMail.Share

open Base Lib Lib.Regex List

/-! ### A text as a pattern -/

theorem accepts_exactly (t : Text) (c : Char) : (exactly t).accepts c = true ↔ c ∈ t := by
  induction t with
  | nil => simp [exactly, chain, accepts]
  | cons d t ih =>
    rw [exactly] at ih ⊢
    simp only [map_cons, chain, accepts, Bool.or_eq_true, ih, beq_iff_eq, mem_cons]

theorem within_exactly (t cs : Text) : (exactly t).within cs = true ↔ ∀ c ∈ t, c ∈ cs := by
  induction t with
  | nil => simp [exactly, chain, within]
  | cons d t ih =>
    rw [exactly] at ih ⊢
    simp only [map_cons, chain, within, Bool.and_eq_true, ih, any_eq_true, beq_iff_eq,
      exists_eq_right, forall_mem_cons]

theorem edgeFree_exactly (t : Text) : (exactly t).edgeFree = true := by
  induction t with
  | nil => rfl
  | cons d t ih =>
    rw [exactly] at ih ⊢
    rw [map_cons, chain, edgeFree, ih]
    rfl

theorem matches_exactly (t : Text) (prev next : Option Char) : Matches (exactly t) prev t next := by
  induction t generalizing prev with
  | nil => exact .empty
  | cons d t ih => exact .seq (w := [d]) (.one (beq_self_eq_true d)) (ih _)

theorem occurs_exactly {t s : Text} (ht : t ≠ []) (h : t <:+: s) :
    (exactly t).Occurs ⟨none, s⟩ := by
  obtain ⟨u, v, rfl⟩ := h
  exact ⟨u, t, v, rfl, ht, matches_exactly t _ _⟩

/-! ### Replacing the paths -/

/-- Characters that a path is known by. -/
def pathChars : Text := ['/', '\\', '~']

/-- The redaction of a project whose slug cannot spell a path and whose path has no bracket. -/
structure Plain (r : ProjectPathRedaction) : Prop where
  source : ∃ slug humanKey, projectPathRedactionFor slug humanKey = some r ∧
    ∀ c ∈ slug, c ∉ pathChars
  opening : '[' ∉ r.original
  closing : ']' ∉ r.original

theorem mem_of_mem_trim {t : Text} {c : Char} (h : c ∈ trim t) : c ∈ t :=
  (dropWhile_suffix _).subset ((List.rdropWhile_prefix _ _).subset h)

variable {r : ProjectPathRedaction}

theorem of_projectPathRedactionFor {slug humanKey : Text}
    (h : projectPathRedactionFor slug humanKey = some r) :
    r.replacement = redactedProjectHumanKey slug ∧ ∃ c ∈ r.original, c ∈ pathChars := by
  simp only [projectPathRedactionFor] at h
  split at h
  · cases h
  · next hguard =>
    split at h
    · cases h
    · cases h
      refine ⟨rfl, ?_⟩
      rw [Bool.not_eq_true, Bool.or_eq_false_iff, Bool.not_eq_false', Bool.or_eq_true,
        Bool.or_eq_true, contains_iff_mem, contains_iff_mem, List.isPrefixOf_iff_prefix] at hguard
      rcases hguard.2 with (hslash | hback) | htilde
      · exact ⟨'/', hslash, by decide⟩
      · exact ⟨'\\', hback, by decide⟩
      · exact ⟨'~', htilde.subset mem_cons_self, by decide⟩

theorem not_mem_redactedLabel {slug : Text} (h : ∀ c ∈ slug, c ∉ pathChars) :
    ∀ c ∈ redactedLabel slug, c ∉ pathChars := by
  have hfixed : ∀ c ∈ "project path redacted: ".toList, c ∉ pathChars := by
    rw [toList_lit rfl]
    decide
  rw [redactedLabel]
  split
  · decide
  · rw [forall_mem_append]
    exact ⟨hfixed, fun c hc => h c (mem_of_mem_trim hc)⟩

/-- The mark that a redaction leaves. -/
def pathMark (slug : Text) : BracketMark Char := ⟨'[', redactedLabel slug, ']'⟩

/-- The path of one redaction cannot reach into the mark of another. -/
theorem Plain.avoids (hr : Plain r) {slug : Text} (hslug : ∀ c ∈ slug, c ∉ pathChars) :
    AvoidsMark (pathMark slug) (exactly r.original) := by
  obtain ⟨_, _, hmade, _⟩ := hr.source
  obtain ⟨_, c, hc, hpath⟩ := of_projectPathRedactionFor hmade
  constructor
  · rw [← Bool.not_eq_true, accepts_exactly]
    exact hr.opening
  · rw [← Bool.not_eq_true, accepts_exactly]
    exact hr.closing
  · rw [← Bool.not_eq_true, within_exactly]
    exact fun hall => not_mem_redactedLabel hslug c (hall c hc) hpath

theorem Plain.original_ne_nil (hr : Plain r) : r.original ≠ [] := by
  obtain ⟨_, _, hmade, _⟩ := hr.source
  obtain ⟨_, c, hc, _⟩ := of_projectPathRedactionFor hmade
  exact ne_nil_of_mem hc

theorem Plain.scanned (hr : Plain r) (t : Text) :
    ∃ slug n, (∀ c ∈ slug, c ∉ pathChars) ∧ (exactly r.original).Scanned (pathMark slug).text
      ⟨none, t⟩ ((exactly r.original).replaceAll r.replacement t) n := by
  obtain ⟨slug, _, hmade, hslug⟩ := hr.source
  rw [(of_projectPathRedactionFor hmade).1]
  exact ⟨slug, _, hslug, scanned_scan (hr.avoids hslug).within_nil _ (Nat.le_refl _)⟩

/-- A path that is gone does not come back. -/
theorem Plain.stays (hr : Plain r) {redactions : List ProjectPathRedaction}
    (hplain : ∀ r ∈ redactions, Plain r) {t : Text} (h : ¬ (exactly r.original).Occurs ⟨none, t⟩) :
    ¬ (exactly r.original).Occurs ⟨none, redactProjectPathsInText t redactions⟩ := by
  induction redactions generalizing t with
  | nil => exact h
  | cons first rest ih =>
    rw [forall_mem_cons] at hplain
    obtain ⟨slug, n, hslug, hscan⟩ := hplain.1.scanned t
    apply ih hplain.2
    intro hoccurs
    exact h ((hr.avoids hslug).occurs_before (edgeFree_exactly _) hscan hoccurs)

theorem not_occurs_redactProjectPathsInText {redactions : List ProjectPathRedaction}
    (hplain : ∀ r ∈ redactions, Plain r) (hr : r ∈ redactions) (t : Text) :
    ¬ (exactly r.original).Occurs ⟨none, redactProjectPathsInText t redactions⟩ := by
  induction redactions generalizing t with
  | nil => cases hr
  | cons first rest ih =>
    rw [forall_mem_cons] at hplain
    rcases mem_cons.mp hr with rfl | hrest
    · obtain ⟨slug, n, hslug, hscan⟩ := hplain.1.scanned t
      apply hplain.1.stays hplain.2
      exact (hplain.1.avoids hslug).not_occurs_after (edgeFree_exactly _) hscan
    · exact ih hplain.2 hrest _

theorem not_infix_redactProjectPathsInText {redactions : List ProjectPathRedaction}
    (hplain : ∀ r ∈ redactions, Plain r) (hr : r ∈ redactions) (t : Text) :
    ¬ r.original <:+: redactProjectPathsInText t redactions := by
  intro hinfix
  have hoccurs := occurs_exactly (hplain r hr).original_ne_nil hinfix
  exact not_occurs_redactProjectPathsInText hplain hr t hoccurs

/-! ### Exported attachments -/

def asciiLowercase : CharLowercase where
  toLowercase c := [c.toLower]
  ascii _ _ := rfl

/-- A reader for one text. -/
def readerOf (t : Text) (v : Json) (h : nesting v ≤ 128) : JsonReader where
  fromStr s := if s = t then some v else none
  nesting_le s w hread := by
    split at hread
    · cases hread
      exact h
    · cases hread

theorem readerOf_fromStr (t : Text) (v : Json) (h : nesting v ≤ 128) :
    (readerOf t v h).fromStr t = some v := if_pos rfl

def keyedText : Text :=
  "[\x7b\"/srv/app\":\"in /srv/app\",\"sk-abcdef0123456789012345\":1\x7d]".toList

def keyedFields : List (Text × Json) :=
  [("/srv/app".toList, .str "in /srv/app".toList), ("sk-abcdef0123456789012345".toList, .int 1)]

def keyedReader : JsonReader :=
  readerOf keyedText (.arr [.obj keyedFields]) (Nat.le_of_ble_eq_true rfl)

def appRedaction : ProjectPathRedaction :=
  ⟨"/srv/app".toList, "[project path redacted: app]".toList⟩

theorem parse_keyedText : parseAttachmentsJson keyedReader keyedText = some [.obj keyedFields] := by
  have hread : keyedReader.fromStr keyedText = some (.arr [.obj keyedFields]) :=
    readerOf_fromStr _ _ _
  have hsome : (trim keyedText).isEmpty = false := by
    unfold keyedText
    rw [toList_lit rfl]
    decide +kernel
  rw [parseAttachmentsJson, hsome, hread]
  rfl

theorem made_appRedaction :
    projectPathRedactionFor "app".toList "/srv/app".toList = some appRedaction := by
  unfold appRedaction
  simp (disch := rfl) only [toList_lit]
  decide +kernel

theorem plain_appRedaction : Plain appRedaction where
  source := ⟨"app".toList, "/srv/app".toList, made_appRedaction, by decide⟩
  opening := by decide
  closing := by decide

def tildeText : Text := "[\"~b\"]".toList

def tildeReader : JsonReader :=
  readerOf tildeText (.arr [.str "~b".toList]) (Nat.le_of_ble_eq_true rfl)

def tildeRedaction : ProjectPathRedaction :=
  ⟨"~b".toList, "[project path redacted: a~b]".toList⟩

theorem parse_tildeText : parseAttachmentsJson tildeReader tildeText = some [.str "~b".toList] := by
  have hread : tildeReader.fromStr tildeText = some (.arr [.str "~b".toList]) :=
    readerOf_fromStr _ _ _
  have hsome : (trim tildeText).isEmpty = false := by
    unfold tildeText
    rw [toList_lit rfl]
    decide +kernel
  rw [parseAttachmentsJson, hsome, hread]
  rfl

end AgentMail.Share
