import AgentMail.Canonical.IdCache
import AgentMail.Rebuild.Frontmatter

/-!
# A message file and its readers

The writer of message files and the parsers of `read_message_file`, of the rebuild and of the
recovery of committed messages (`crates/mcp-agent-mail-storage/src/lib.rs:9365–9368`,
`13064–13129`, `crates/mcp-agent-mail-storage/src/recovery/message_reconcile/database.rs:901–954`,
`crates/mcp-agent-mail-db/src/reconstruct.rs:6890–6941`). How a file or a blob is opened, its size
and its encoding are not part of the parsers.
-/

namespace AgentMail.Archive

open Base Canonical Rebuild List

/-- `serde_json`, which skips white space after a value. -/
structure SerdeJson where
  toStringPretty : Json → Text
  fromStr : Text → Option Json
  fromStr_newline : ∀ t, fromStr (t ++ ['\n']) = fromStr t

/-- `render_message_bundle_content`. -/
def renderMessageBundleContent (S : SerdeJson) (message : Json) (bodyMd : Text) : Text :=
  "---json\n".toList ++ S.toStringPretty message ++ "\n---\n\n".toList ++ bodyMd

/-- `read_message_file_inner` once the content is read. -/
def readMessageFileInner (fromStr : Text → Option Json) (path : Path) (content : Text)
    (requireCompleteFrontmatter : Bool) : Except StorageError (Json × Text) :=
  match stripHead "---json\n".toList content with
  | none => .ok (.null, content)
  | some rest =>
    match findFrom "\n---\n".toList rest 0 with
    | none =>
      if requireCompleteFrontmatter then
        .error (.invalidPath "unterminated canonical message frontmatter: " path)
      else .ok (.null, content)
    | some endIdx =>
      let after := rest.drop (endIdx + 5)
      let body := ((stripHead "\r\n".toList after).or (stripHead "\n".toList after)).getD after
      match fromStr (rest.take endIdx) with
      | none => .error .serde
      | some frontmatter => .ok (frontmatter, body)

/-- `CommittedMessages::read` once the blob is read. -/
def committedRead (fromStr : Text → Option Json) (text : Text) : Except String (Json × Text) :=
  match (stripHead "---json\n".toList text).bind (splitOnce "\n---\n\n".toList) with
  | none => .error "committed message has invalid canonical frontmatter"
  | some (frontmatter, body) =>
    match fromStr frontmatter with
    | none => .error "committed message has invalid JSON"
    | some message => .ok (message, body)

/-- What the rebuild takes for the envelope and the body. -/
def reconstructRead (fromStr : Text → Option Json) (content : Text) : Option (Json × Text) := do
  let frontmatter ← extractJsonFrontmatter content
  let message ← fromStr frontmatter
  return (message, (extractBodyAfterFrontmatter content).getD [])

/-! ### Where a pattern stands first -/

theorem findFrom_eq_some {pattern content : Text} {start i : Nat} :
    findFrom pattern content start = some i ↔ start ≤ i ∧ i ≤ content.length ∧
      pattern <+: content.drop i ∧ ∀ j, start ≤ j → j < i → ¬ pattern <+: content.drop j := by
  rw [findFrom, List.find?_range'_eq_some, mem_range'_1, List.isPrefixOf_iff_prefix]
  constructor
  · rintro ⟨hstands, ⟨hge, hlt⟩, hearlier⟩
    refine ⟨hge, by omega, hstands, fun j hj hji hprefix => ?_⟩
    have hnot := hearlier j hj hji
    rw [Bool.not_eq_true', List.isPrefixOf_iff_prefix.mpr hprefix] at hnot
    cases hnot
  · rintro ⟨hge, hle, hstands, hearlier⟩
    refine ⟨hstands, ⟨hge, by omega⟩, fun j hj hji => ?_⟩
    rw [Bool.not_eq_true', ← Bool.not_eq_true, List.isPrefixOf_iff_prefix]
    exact hearlier j hj hji

/-- Where a pattern stands, something at or before it is found. -/
theorem exists_findFrom {pattern content : Text} {start m : Nat} (hstart : start ≤ m)
    (hm : m ≤ content.length) (h : pattern <+: content.drop m) :
    ∃ i, findFrom pattern content start = some i ∧ i ≤ m := by
  cases hfind : findFrom pattern content start with
  | none =>
    rw [findFrom, List.find?_eq_none] at hfind
    have hnot := hfind m (mem_range'_1.mpr ⟨hstart, by omega⟩)
    exact absurd (List.isPrefixOf_iff_prefix.mpr h) hnot
  | some i =>
    refine ⟨i, rfl, Nat.le_of_not_lt fun hlt => ?_⟩
    exact (findFrom_eq_some.mp hfind).2.2.2 m hstart hlt h

theorem getElem?_of_prefix_drop {pattern content : Text} {i k : Nat} {c : Char}
    (h : pattern <+: content.drop i) (hk : pattern[k]? = some c) : content[i + k]? = some c := by
  obtain ⟨rest, hrest⟩ := h
  have hlt : k < pattern.length := (List.getElem?_eq_some_iff.mp hk).1
  rw [← List.getElem?_drop, ← hrest, List.getElem?_append_left hlt, hk]

/-!
## Message files read back

Two of the three readers return what was written; the rebuild's reader takes leading line breaks off
the body, and returns what was written when there are none.
-/

/-- No line starts with `-`. -/
def NoDashedLine (t : Text) : Prop := ∀ i, t[i]? = some '-' → 0 < i ∧ t[i - 1]? ≠ some '\n'

/-- What printing promises for a value: it is read back, and no line of it starts with `-`. -/
structure PrintsWell (S : SerdeJson) (message : Json) : Prop where
  readBack : S.fromStr (S.toStringPretty message) = some message
  noDashedLine : NoDashedLine (S.toStringPretty message)

variable {front tail : Text}

/-! ### The end of the frontmatter -/

/-- The closing marker is the first line after the opening one that starts with dashes. -/
theorem findFrom_closing (hfront : NoDashedLine front) {pattern : Text}
    (hbreak : pattern[0]? = some '\n') (hdash : pattern[1]? = some '-') :
    findFrom pattern (front ++ (pattern ++ tail)) 0 = some front.length := by
  rw [findFrom_eq_some]
  refine ⟨Nat.zero_le _, by simp, ?_, ?_⟩
  · rw [drop_left]
    exact prefix_append _ _
  · intro j _ hj hprefix
    have hat : (front ++ (pattern ++ tail))[j + 0]? = some '\n' := getElem?_of_prefix_drop hprefix hbreak
    have hnext : (front ++ (pattern ++ tail))[j + 1]? = some '-' := getElem?_of_prefix_drop hprefix hdash
    rw [Nat.add_zero, List.getElem?_append_left hj] at hat
    by_cases hin : j + 1 < front.length
    · rw [List.getElem?_append_left hin] at hnext
      exact (hfront _ hnext).2 hat
    · -- at the end of the front stands the line break of the marker
      have heq : j + 1 = front.length + 0 := by omega
      have hlt : 0 < pattern.length := (List.getElem?_eq_some_iff.mp hbreak).1
      rw [heq, List.getElem?_append_right (Nat.le_add_right _ _), Nat.add_sub_cancel_left,
        List.getElem?_append_left hlt, hbreak] at hnext
      cases hnext

variable {S : SerdeJson} {message : Json}

theorem render_shape (S : SerdeJson) (message : Json) (bodyMd : Text) :
    renderMessageBundleContent S message bodyMd =
      "---json\n".toList ++ (S.toStringPretty message ++ ("\n---\n\n".toList ++ bodyMd)) := by
  unfold renderMessageBundleContent
  generalize "---json\n".toList = opening
  generalize "\n---\n\n".toList = closing
  rw [append_assoc, append_assoc]

theorem render_eq (S : SerdeJson) (message : Json) (bodyMd : Text) :
    renderMessageBundleContent S message bodyMd =
      "---json\n".toList ++ (S.toStringPretty message ++ ("\n---\n".toList ++ '\n' :: bodyMd)) := by
  rw [render_shape]
  rfl

/-- `read_message_file` returns what was written. -/
theorem readMessageFileInner_render (h : PrintsWell S message) (path : Path) (bodyMd : Text)
    (complete : Bool) :
    readMessageFileInner S.fromStr path (renderMessageBundleContent S message bodyMd) complete =
      .ok (message, bodyMd) := by
  have hfind : findFrom "\n---\n".toList
      (S.toStringPretty message ++ ("\n---\n".toList ++ '\n' :: bodyMd)) 0 =
        some (S.toStringPretty message).length := findFrom_closing h.noDashedLine rfl rfl
  have hafter : (S.toStringPretty message ++ ("\n---\n".toList ++ '\n' :: bodyMd)).drop
      ((S.toStringPretty message).length + 5) = '\n' :: bodyMd := by
    rw [← drop_drop, drop_left]
    rfl
  rw [readMessageFileInner, render_eq, stripHead_append]
  dsimp only
  rw [hfind]
  dsimp only
  rw [hafter, take_left, h.readBack]
  rfl

/-- So does the recovery of committed messages. -/
theorem committedRead_render (h : PrintsWell S message) (bodyMd : Text) :
    committedRead S.fromStr (renderMessageBundleContent S message bodyMd) =
      .ok (message, bodyMd) := by
  have hfind : findFrom "\n---\n\n".toList
      (S.toStringPretty message ++ ("\n---\n\n".toList ++ bodyMd)) 0 =
        some (S.toStringPretty message).length := findFrom_closing h.noDashedLine rfl rfl
  have hsplit : splitOnce "\n---\n\n".toList
      (S.toStringPretty message ++ ("\n---\n\n".toList ++ bodyMd)) =
        some (S.toStringPretty message, bodyMd) := by
    rw [splitOnce, hfind, Option.map_some, take_left, ← drop_drop, drop_left, drop_left]
  rw [committedRead, render_shape, stripHead_append, Option.bind_some, hsplit]
  dsimp only
  rw [h.readBack]

/-! ### The rebuild's reader -/

theorem getElem?_length_add (l r : Text) (k : Nat) : (l ++ r)[l.length + k]? = r[k]? := by
  rw [List.getElem?_append_right (Nat.le_add_right _ _), Nat.add_sub_cancel_left]

/-- From anywhere in the frontmatter the loop gets to its closing marker. -/
theorem closingMarker_render (opening tail : Text) (hfront : NoDashedLine front) {fuel s : Nat}
    (hs : opening.length ≤ s) (hle : s ≤ opening.length + (front.length + 1))
    (hfuel : opening.length + (front.length + 1) < s + fuel) :
    closingMarker (opening ++ (front ++ ("\n---\n".toList ++ tail))) fuel s =
      some (opening.length + (front.length + 1), opening.length + (front.length + 1) + 4) := by
  have hmarker (k : Nat) : (opening ++ (front ++ ("\n---\n".toList ++ tail)))[
      opening.length + (front.length + k)]? = ("\n---\n".toList ++ tail)[k]? := by
    rw [getElem?_length_add, getElem?_length_add]
  have hdrop : (opening ++ (front ++ ("\n---\n".toList ++ tail))).drop
      (opening.length + (front.length + 1)) = "---\n".toList ++ tail := by
    rw [← drop_drop, drop_left, ← drop_drop, drop_left]
    rfl
  induction fuel generalizing s with
  | zero => omega
  | succ fuel ih =>
    have hstands : "---".toList <+: (opening ++ (front ++ ("\n---\n".toList ++ tail))).drop
        (opening.length + (front.length + 1)) := by
      rw [hdrop]
      exact ⟨'\n' :: tail, rfl⟩
    obtain ⟨i, hfind, hi⟩ := exists_findFrom hle (by simp) hstands
    obtain ⟨hsi, _, hprefix, _⟩ := findFrom_eq_some.mp hfind
    rw [closingMarker, hfind]
    dsimp only
    by_cases heq : i = opening.length + (front.length + 1)
    · have hbefore : (opening ++ (front ++ ("\n---\n".toList ++ tail)))[i - 1]? = some '\n' := by
        rw [heq]
        exact hmarker 0
      have hafter : (opening ++ (front ++ ("\n---\n".toList ++ tail))).drop (i + 3) =
          '\n' :: tail := by
        rw [heq, ← drop_drop, hdrop]
        rfl
      have hlength : i + 3 ≠ (opening ++ (front ++ ("\n---\n".toList ++ tail))).length := by
        intro hlen
        have hnil := drop_of_length_le (Nat.le_of_eq hlen.symm)
        rw [hafter] at hnil
        cases hnil
      rw [hbefore, hafter, if_neg hlength]
      simp [List.isPrefixOf, heq]
    · -- another run of dashes stands inside a line
      have hdash (k : Nat) (hk : k < 3) :
          (opening ++ (front ++ ("\n---\n".toList ++ tail)))[i + k]? = some '-' := by
        apply getElem?_of_prefix_drop hprefix
        match k with
        | 0 => rfl
        | 1 => rfl
        | 2 => rfl
      have hbreak : i + 3 ≤ opening.length + front.length := by
        have hat : (opening ++ (front ++ ("\n---\n".toList ++ tail)))[
          opening.length + (front.length + 0)]? = some '\n' := hmarker 0
        rcases Nat.lt_or_ge (opening.length + front.length) (i + 3) with hlt | hge
        · have hk := hdash (opening.length + front.length - i) (by omega)
          rw [show i + (opening.length + front.length - i) =
            opening.length + (front.length + 0) by omega, hat] at hk
          cases hk
        · exact hge
      obtain ⟨k, rfl⟩ : ∃ k, i = opening.length + k := ⟨i - opening.length, by omega⟩
      have hk : front[k]? = some '-' := by
        have hzero := hdash 0 (by omega)
        rwa [Nat.add_zero, getElem?_length_add, List.getElem?_append_left (by omega)] at hzero
      obtain ⟨hpos, hprev⟩ := hfront k hk
      have hbefore : (opening ++ (front ++ ("\n---\n".toList ++ tail)))[opening.length + k - 1]? ≠
          some '\n' := by
        rwa [show opening.length + k - 1 = opening.length + (k - 1) by omega, getElem?_length_add,
          List.getElem?_append_left (by omega)]
      have hskip : (opening.length + k = 0 ||
          (opening ++ (front ++ ("\n---\n".toList ++ tail)))[opening.length + k - 1]? !=
            some '\n') = true := by
        rw [Bool.or_eq_true, bne_iff_ne]
        exact Or.inr hbefore
      rw [if_pos hskip]
      exact ih (by omega) (by omega) (by omega)

/-- The rebuild reads the envelope that was written, and the body without its leading line breaks. -/
theorem reconstructRead_render (h : PrintsWell S message) (bodyMd : Text) :
    reconstructRead S.fromStr (renderMessageBundleContent S message bodyMd) =
      some (message, bodyMd.dropWhile fun c => c == '\n' || c == '\r') := by
  have hopening : findFrom "---json".toList (renderMessageBundleContent S message bodyMd) 0 =
      some 0 := by
    rw [findFrom_eq_some, render_eq]
    refine ⟨Nat.le_refl _, Nat.zero_le _, ?_, fun j _ hj => absurd hj (Nat.not_lt_zero j)⟩
    exact ⟨'\n' :: (S.toStringPretty message ++ ("\n---\n".toList ++ '\n' :: bodyMd)), rfl⟩
  have hbreak : "---json\r\n".toList.isPrefixOf (renderMessageBundleContent S message bodyMd) =
      false := by
    rw [render_eq]
    rfl
  have hplain : "---json\n".toList.isPrefixOf (renderMessageBundleContent S message bodyMd) =
      true := by
    rw [render_eq, List.isPrefixOf_iff_prefix]
    exact prefix_append _ _
  have hfuel : "---json\n".toList.length + ((S.toStringPretty message).length + 1) <
      "---json\n".toList.length + ((renderMessageBundleContent S message bodyMd).length + 1) := by
    rw [render_eq]
    simp only [length_append, length_cons]
    omega
  have hclosing := closingMarker_render "---json\n".toList ('\n' :: bodyMd) h.noDashedLine
    (Nat.le_refl _) (Nat.le_add_right _ _) hfuel
  rw [← render_eq] at hclosing
  have hbounds : frontmatterBounds (renderMessageBundleContent S message bodyMd) =
      some (8, 8 + ((S.toStringPretty message).length + 1),
        8 + ((S.toStringPretty message).length + 1) + 4) := by
    rw [frontmatterBounds, hopening]
    simp only [Option.bind_eq_bind, Option.bind_some, drop_zero, hbreak, hplain, if_true,
      Bool.false_eq_true, if_false, Nat.zero_add]
    rw [show (8 : Nat) = "---json\n".toList.length from rfl, hclosing]
    rfl
  have hjson : extractJsonFrontmatter (renderMessageBundleContent S message bodyMd) =
      some (S.toStringPretty message ++ ['\n']) := by
    rw [extractJsonFrontmatter, hbounds, Option.map_some, render_eq]
    dsimp only
    rw [show (8 : Nat) = "---json\n".toList.length from rfl, take_length_add_append,
      drop_left, take_length_add_append]
    rfl
  have hbody : extractBodyAfterFrontmatter (renderMessageBundleContent S message bodyMd) =
      some (bodyMd.dropWhile fun c => c == '\n' || c == '\r') := by
    rw [extractBodyAfterFrontmatter, hbounds, Option.map_some, render_eq]
    dsimp only
    rw [Nat.add_assoc, show (8 : Nat) = "---json\n".toList.length from rfl,
      drop_length_add_append, Nat.add_assoc, drop_length_add_append]
    rfl
  rw [reconstructRead, hjson, hbody]
  simp only [Option.bind_eq_bind, Option.bind_some, S.fromStr_newline, h.readBack]
  rfl

/-- All three readers return the envelope; two of them return the body, and the rebuild's reader does
so just where the body does not start with a line break. -/
theorem readers_agree_iff (S : SerdeJson) (message : Json) (h : PrintsWell S message) (path : Path)
    (bodyMd : Text) :
    readMessageFileInner S.fromStr path (renderMessageBundleContent S message bodyMd) false =
        .ok (message, bodyMd) ∧
      committedRead S.fromStr (renderMessageBundleContent S message bodyMd) = .ok (message, bodyMd) ∧
      (∃ body, reconstructRead S.fromStr (renderMessageBundleContent S message bodyMd) =
        some (message, body)) ∧
      (reconstructRead S.fromStr (renderMessageBundleContent S message bodyMd) =
        some (message, bodyMd) ↔ bodyMd.head? ≠ some '\n' ∧ bodyMd.head? ≠ some '\r') := by
  refine ⟨readMessageFileInner_render h path bodyMd false, committedRead_render h bodyMd,
    ⟨_, reconstructRead_render h bodyMd⟩, ?_⟩
  rw [reconstructRead_render h, Option.some_inj, Prod.mk.injEq, dropWhile_eq_self_iff]
  cases bodyMd with
  | nil => simp
  | cons c bodyMd => simp

/-! ### A body with a line break in front -/

def samplePretty : Text := "\x7b\n  \"id\": 7\n\x7d".toList

def sampleMessage : Json := .obj [("id".toList, .int 7)]

def sampleSerde : SerdeJson where
  toStringPretty _ := samplePretty
  fromStr t := if t.rdropWhile (· == '\n') = samplePretty then some sampleMessage else none
  fromStr_newline t := by rw [rdropWhile_concat_pos]; rfl

theorem printsWell_sample : PrintsWell sampleSerde sampleMessage where
  readBack := by
    have hread : sampleSerde.fromStr samplePretty = if samplePretty.rdropWhile (· == '\n') =
      samplePretty then some sampleMessage else none := rfl
    exact hread.trans (if_pos (by decide))
  noDashedLine := by
    intro i hi
    have hmem : '-' ∈ samplePretty := mem_of_getElem? hi
    exact absurd hmem (by decide)

theorem readers_agree_sample :
    readMessageFileInner sampleSerde.fromStr [] (renderMessageBundleContent sampleSerde
        sampleMessage "\n---\n\nHi".toList) false = .ok (sampleMessage, "\n---\n\nHi".toList) ∧
      committedRead sampleSerde.fromStr (renderMessageBundleContent sampleSerde sampleMessage
        "\n---\n\nHi".toList) = .ok (sampleMessage, "\n---\n\nHi".toList) ∧
      (∃ body, reconstructRead sampleSerde.fromStr (renderMessageBundleContent sampleSerde
        sampleMessage "\n---\n\nHi".toList) = some (sampleMessage, body)) ∧
      (reconstructRead sampleSerde.fromStr (renderMessageBundleContent sampleSerde sampleMessage
        "\n---\n\nHi".toList) = some (sampleMessage, "\n---\n\nHi".toList) ↔
          "\n---\n\nHi".toList.head? ≠ some '\n' ∧ "\n---\n\nHi".toList.head? ≠ some '\r') :=
  readers_agree_iff sampleSerde sampleMessage printsWell_sample [] "\n---\n\nHi".toList

/-- The rebuild stores a body that is not the one in the file. -/
theorem leading_break_lost : PrintsWell sampleSerde sampleMessage ∧
    committedRead sampleSerde.fromStr (renderMessageBundleContent sampleSerde sampleMessage
      "\nHi".toList) = .ok (sampleMessage, "\nHi".toList) ∧
    reconstructRead sampleSerde.fromStr (renderMessageBundleContent sampleSerde sampleMessage
      "\nHi".toList) = some (sampleMessage, "Hi".toList) :=
  ⟨printsWell_sample, committedRead_render printsWell_sample _,
    reconstructRead_render printsWell_sample _⟩

end AgentMail.Archive
