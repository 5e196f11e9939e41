import AgentMail.Share.ScrubText

/-!
# What is left of attachment metadata

The array that is written back is the array that was read with some fields taken out and its text
values rewritten; no value of it has a project path and no object a key that must go.
-/

namespace AgentMail.Share

open Base Lib Lib.Regex List

/-! ### Rewriting a value -/

mutual

/-- A value with its texts rewritten and some fields taken out. -/
def rewritten (f : Text → Text) (dropped : Text → Bool) : Json → Json
  | .str s => .str (f s)
  | .arr items => .arr (rewrittenItems f dropped items)
  | .obj fields => .obj (rewrittenFields f dropped fields)
  | .null => .null
  | .bool b => .bool b
  | .int n => .int n
  | .float s => .float s

def rewrittenItems (f : Text → Text) (dropped : Text → Bool) : List Json → List Json
  | [] => []
  | item :: rest => rewritten f dropped item :: rewrittenItems f dropped rest

def rewrittenFields (f : Text → Text) (dropped : Text → Bool) :
    List (Text × Json) → List (Text × Json)
  | [] => []
  | (key, value) :: rest =>
    if dropped key then rewrittenFields f dropped rest
    else (key, rewritten f dropped value) :: rewrittenFields f dropped rest

end

/-- Induction on the values of arrays and fields. -/
theorem json_induction {motive : Json → Prop} (null : motive .null) (bool : ∀ b, motive (.bool b))
    (int : ∀ n, motive (.int n)) (float : ∀ s, motive (.float s)) (str : ∀ s, motive (.str s))
    (arr : ∀ items, (∀ v ∈ items, motive v) → motive (.arr items))
    (obj : ∀ fields : List (Text × Json), (∀ e ∈ fields, motive e.2) → motive (.obj fields))
    (v : Json) : motive v := by
  apply @Json.rec motive (fun items => ∀ v ∈ items, motive v) (fun fields => ∀ e ∈ fields, motive e.2)
    (fun e => motive e.2) null bool int float str arr obj
  · exact forall_mem_nil _
  · exact fun _ _ hv hvs => forall_mem_cons.mpr ⟨hv, hvs⟩
  · exact forall_mem_nil _
  · exact fun _ _ he hes => forall_mem_cons.mpr ⟨he, hes⟩
  · exact fun _ _ hv => hv

variable {f g : Text → Text} {dropped dropped' : Text → Bool}

theorem rewrittenItems_eq (items : List Json) :
    rewrittenItems f dropped items = items.map (rewritten f dropped) := by
  induction items with
  | nil => rfl
  | cons item rest ih => rw [rewrittenItems, ih, map_cons]

theorem rewrittenFields_eq (fields : List (Text × Json)) : rewrittenFields f dropped fields =
    (fields.filter fun e => !dropped e.1).map fun e => (e.1, rewritten f dropped e.2) := by
  induction fields with
  | nil => rfl
  | cons e rest ih =>
    rw [rewrittenFields, filter_cons, ih]
    cases dropped e.1 <;> rfl

theorem rewritten_rewritten (v : Json) :
    rewritten g (fun _ => false) (rewritten f dropped v) = rewritten (g ∘ f) dropped v := by
  induction v using json_induction with
  | null => rfl
  | bool b => rfl
  | int n => rfl
  | float s => rfl
  | str s => rfl
  | arr items ih =>
    simp only [rewritten, rewrittenItems_eq, map_map]
    congr 1
    exact map_congr_left ih
  | obj fields ih =>
    have hall (l : List (Text × Json)) : l.filter (fun _ => true) = l := filter_true l
    simp only [rewritten, rewrittenFields_eq, Bool.not_false, hall, map_map]
    congr 1
    apply map_congr_left
    intro e he
    exact congrArg (e.1, ·) (ih e (mem_filter.mp he).1)

/-! ### No value is too deep -/

variable {items : List Json}

theorem nesting_le_items {v : Json} (h : v ∈ items) : nesting v ≤ nestingOfItems items := by
  induction items with
  | nil => cases h
  | cons item rest ih =>
    rw [nestingOfItems]
    rcases mem_cons.mp h with rfl | hrest
    · exact Nat.le_max_left _ _
    · exact (ih hrest).trans (Nat.le_max_right _ _)

variable {fields : List (Text × Json)}

theorem nesting_le_fields {e : Text × Json} (h : e ∈ fields) :
    nesting e.2 ≤ nestingOfFields fields := by
  induction fields with
  | nil => cases h
  | cons field rest ih =>
    rw [nestingOfFields]
    rcases mem_cons.mp h with rfl | hrest
    · exact Nat.le_max_left _ _
    · exact (ih hrest).trans (Nat.le_max_right _ _)

variable {W : WordChars} {L : CharLowercase}

variable {depth : Nat}

theorem fst_scrubItems (h : ∀ v ∈ items, (scrubStructure W L v depth).1 = rewritten f dropped v) :
    (scrubItems W L items depth).1 = rewrittenItems f dropped items := by
  induction items with
  | nil => rfl
  | cons item rest ih =>
    rw [forall_mem_cons] at h
    rw [scrubItems, rewrittenItems, ← ih h.2, ← h.1]

theorem fst_scrubFields
    (h : ∀ e ∈ fields, (scrubStructure W L e.2 depth).1 = rewritten f (isRedactKey L) e.2) :
    (scrubFields W L fields depth).1 = rewrittenFields f (isRedactKey L) fields := by
  induction fields with
  | nil => rfl
  | cons e rest ih =>
    rw [forall_mem_cons] at h
    rw [scrubFields, rewrittenFields, ← ih h.2, ← h.1]
    cases isRedactKey L e.1 <;> rfl

/-- Above the cutoff every text is scrubbed and every key that must go is gone. -/
theorem fst_scrubStructure {v : Json} (h : depth + nesting v ≤ 256) :
    (scrubStructure W L v depth).1 = rewritten (fun s => (scrubText W s).1) (isRedactKey L) v := by
  induction v using json_induction generalizing depth with
  | null => rfl
  | bool b => rfl
  | int n => rfl
  | float s => rfl
  | str s =>
    rw [scrubStructure, if_neg (by omega), rewritten]
  | arr items ih =>
    rw [nesting] at h
    rw [scrubStructure, if_neg (by omega), rewritten]
    refine congrArg Json.arr (fst_scrubItems fun v hv => ih v hv ?_)
    have hle := nesting_le_items hv
    omega
  | obj fields ih =>
    rw [nesting] at h
    rw [scrubStructure, if_neg (by omega), rewritten]
    refine congrArg Json.obj (fst_scrubFields fun e he => ih e he ?_)
    have hle := nesting_le_fields he
    omega

variable {redactions : List ProjectPathRedaction}

theorem redactProjectPathsInItems_eq
    (h : ∀ v ∈ items, redactProjectPathsInValue redactions v depth = rewritten f dropped v) :
    redactProjectPathsInItems redactions items depth = rewrittenItems f dropped items := by
  induction items with
  | nil => rfl
  | cons item rest ih =>
    rw [forall_mem_cons] at h
    rw [redactProjectPathsInItems, rewrittenItems, ih h.2, h.1]

theorem redactProjectPathsInFields_eq
    (h : ∀ e ∈ fields, redactProjectPathsInValue redactions e.2 depth =
      rewritten f (fun _ => false) e.2) :
    redactProjectPathsInFields redactions fields depth =
      rewrittenFields f (fun _ => false) fields := by
  induction fields with
  | nil => rfl
  | cons e rest ih =>
    rw [forall_mem_cons] at h
    rw [redactProjectPathsInFields, rewrittenFields, ih h.2, h.1]
    rfl

theorem redactProjectPathsInValue_eq {v : Json} (h : depth + nesting v ≤ 256) :
    redactProjectPathsInValue redactions v depth =
      rewritten (fun s => redactProjectPathsInText s redactions) (fun _ => false) v := by
  induction v using json_induction generalizing depth with
  | null => rfl
  | bool b => rfl
  | int n => rfl
  | float s => rfl
  | str s => rw [redactProjectPathsInValue, if_neg (by omega), rewritten]
  | arr items ih =>
    rw [nesting] at h
    rw [redactProjectPathsInValue, if_neg (by omega), rewritten]
    refine congrArg Json.arr (redactProjectPathsInItems_eq fun v hv => ih v hv ?_)
    have hle := nesting_le_items hv
    omega
  | obj fields ih =>
    rw [nesting] at h
    rw [redactProjectPathsInValue, if_neg (by omega), rewritten]
    refine congrArg Json.obj (redactProjectPathsInFields_eq fun e he => ih e he ?_)
    have hle := nesting_le_fields he
    omega

/-! ### The array that is written back -/

theorem nesting_le_of_items {n : Nat} (h : ∀ v ∈ items, nesting v ≤ n) :
    nestingOfItems items ≤ n := by
  induction items with
  | nil => exact Nat.zero_le n
  | cons item rest ih =>
    rw [forall_mem_cons] at h
    exact Nat.max_le.mpr ⟨h.1, ih h.2⟩

theorem nesting_le_of_fields {n : Nat} (h : ∀ e ∈ fields, nesting e.2 ≤ n) :
    nestingOfFields fields ≤ n := by
  induction fields with
  | nil => exact Nat.zero_le n
  | cons field rest ih =>
    rw [forall_mem_cons] at h
    exact Nat.max_le.mpr ⟨h.1, ih h.2⟩

theorem nesting_rewritten_le (v : Json) : nesting (rewritten f dropped v) ≤ nesting v := by
  induction v using json_induction with
  | null => exact Nat.le_refl _
  | bool b => exact Nat.le_refl _
  | int n => exact Nat.le_refl _
  | float s => exact Nat.le_refl _
  | str s => exact Nat.le_refl _
  | arr items ih =>
    rw [rewritten, rewrittenItems_eq, nesting, nesting]
    apply Nat.succ_le_succ
    apply nesting_le_of_items
    intro v hv
    obtain ⟨u, hu, rfl⟩ := mem_map.mp hv
    exact (ih u hu).trans (nesting_le_items hu)
  | obj fields ih =>
    rw [rewritten, rewrittenFields_eq, nesting, nesting]
    apply Nat.succ_le_succ
    apply nesting_le_of_fields
    intro e he
    obtain ⟨u, hu, rfl⟩ := mem_map.mp he
    have hmem := (mem_filter.mp hu).1
    exact (ih u hmem).trans (nesting_le_fields hmem)

variable {data : List Json}

theorem nesting_parseAttachmentsJson {R : JsonReader} {value : Text}
    (h : parseAttachmentsJson R value = some data) : nesting (.arr data) ≤ 128 := by
  rw [parseAttachmentsJson] at h
  split at h
  · cases h
    exact Nat.le_of_ble_eq_true rfl
  · split at h
    · next arr harr =>
      cases h
      exact R.nesting_le _ _ harr
    · next inner _ =>
      split at h
      · next arr harr =>
        cases h
        exact R.nesting_le _ _ harr
      · cases h
    · cases h

/-- What becomes of a text value. -/
def cleaned (W : WordChars) (redactions : List ProjectPathRedaction) (s : Text) : Text :=
  redactProjectPathsInText (scrubText W s).1 redactions

theorem itemsOr_scrubStructure (h : nesting (.arr data) ≤ 128) :
    itemsOr data (scrubStructure W L (.arr data) 0).1 =
      data.map (rewritten (fun s => (scrubText W s).1) (isRedactKey L)) := by
  rw [fst_scrubStructure (by omega), rewritten, rewrittenItems_eq]
  rfl

theorem itemsOr_redactProjectPathsInValue (h : nesting (.arr data) ≤ 128) :
    itemsOr data (redactProjectPathsInValue redactions (.arr data) 0) =
      data.map (rewritten (fun s => redactProjectPathsInText s redactions) (fun _ => false)) := by
  rw [redactProjectPathsInValue_eq (by omega), rewritten, rewrittenItems_eq]
  rfl

/-- What is written back is what was read, rewritten throughout. -/
theorem scrubAttachments_eq (W : WordChars) (L : CharLowercase)
    (redactions : List ProjectPathRedaction) {R : JsonReader} {value : Text}
    (h : parseAttachmentsJson R value = some data) :
    ∃ n, scrubAttachments R W L redactions value =
      some (data.map (rewritten (cleaned W redactions) (isRedactKey L)), n) := by
  have hnesting := nesting_parseAttachmentsJson h
  rw [scrubAttachments, h]
  cases data with
  | nil =>
    refine ⟨0, ?_⟩
    simp
  | cons first rest =>
    have hscrub := itemsOr_scrubStructure (W := W) (L := L) hnesting
    refine ⟨(scrubStructure W L (.arr (first :: rest)) 0).2.1, ?_⟩
    simp only [isEmpty_cons, Bool.false_eq_true, if_false, hscrub]
    split
    · next hnone =>
      have hempty : redactions = [] := by simpa using hnone
      rw [hempty]
      rfl
    · have hle : nesting (.arr ((first :: rest).map
          (rewritten (fun s => (scrubText W s).1) (isRedactKey L)))) ≤ 128 := by
        have hrewritten : nesting (rewritten (fun s => (scrubText W s).1) (isRedactKey L)
            (.arr (first :: rest))) ≤ nesting (.arr (first :: rest)) := nesting_rewritten_le _
        rw [rewritten, rewrittenItems_eq] at hrewritten
        exact hrewritten.trans hnesting
      rw [itemsOr_redactProjectPathsInValue hle, map_map]
      have hboth : rewritten (fun s => redactProjectPathsInText s redactions) (fun _ => false) ∘
          rewritten (fun s => (scrubText W s).1) (isRedactKey L) =
            rewritten (cleaned W redactions) (isRedactKey L) := by
        funext v
        exact rewritten_rewritten v
      rw [hboth]

/-! ### The values inside a value -/

/-- A value at any depth of another. -/
inductive Within : Json → Json → Prop where
  | self {v} : Within v v
  | item {w v items} : v ∈ items → Within w v → Within w (.arr items)
  | field {w} {e : Text × Json} {fields} : e ∈ fields → Within w e.2 → Within w (.obj fields)

/-- What a rewritten value has at some depth is the rewriting of what was there. -/
theorem within_rewritten {v w : Json} (h : Within w (rewritten f dropped v)) :
    ∃ u, Within u v ∧ w = rewritten f dropped u := by
  induction v using json_induction with
  | null =>
    cases h
    exact ⟨.null, .self, rfl⟩
  | bool b =>
    cases h
    exact ⟨.bool b, .self, rfl⟩
  | int n =>
    cases h
    exact ⟨.int n, .self, rfl⟩
  | float s =>
    cases h
    exact ⟨.float s, .self, rfl⟩
  | str s =>
    cases h
    exact ⟨.str s, .self, rfl⟩
  | arr items ih =>
    rw [rewritten, rewrittenItems_eq] at h
    cases h with
    | self => exact ⟨.arr items, .self, by rw [rewritten, rewrittenItems_eq]⟩
    | item hmem hin =>
      obtain ⟨v, hv, rfl⟩ := mem_map.mp hmem
      obtain ⟨u, hu, hw⟩ := ih v hv hin
      exact ⟨u, .item hv hu, hw⟩
  | obj fields ih =>
    rw [rewritten, rewrittenFields_eq] at h
    cases h with
    | self => exact ⟨.obj fields, .self, by rw [rewritten, rewrittenFields_eq]⟩
    | field hmem hin =>
      obtain ⟨e, he, rfl⟩ := mem_map.mp hmem
      have hfield := (mem_filter.mp he).1
      obtain ⟨u, hu, hw⟩ := ih e hfield hin
      exact ⟨u, .field hfield hu, hw⟩

theorem within_rewritten_str {v : Json} {s : Text} (h : Within (.str s) (rewritten f dropped v)) :
    ∃ s', s = f s' := by
  obtain ⟨u, _, hu⟩ := within_rewritten h
  cases u with
  | str s' =>
    rw [rewritten, Json.str.injEq] at hu
    exact ⟨s', hu⟩
  | null => cases hu
  | bool b => cases hu
  | int n => cases hu
  | float t => cases hu
  | arr items => cases hu
  | obj fields => cases hu

theorem within_rewritten_obj {v : Json} (h : Within (.obj fields) (rewritten f dropped v)) :
    ∀ e ∈ fields, dropped e.1 = false := by
  obtain ⟨u, _, hu⟩ := within_rewritten h
  cases u with
  | obj fields' =>
    rw [rewritten, rewrittenFields_eq, Json.obj.injEq] at hu
    intro e he
    rw [hu] at he
    obtain ⟨e', he', rfl⟩ := mem_map.mp he
    simpa using (mem_filter.mp he').2
  | null => cases hu
  | bool b => cases hu
  | int n => cases hu
  | float t => cases hu
  | str t => cases hu
  | arr items => cases hu

/-! ### Keys -/

theorem normalizeRedactKey_of_plain {key : Text}
    (h : ∀ c ∈ key, isWhitespace c = false ∧ c ≠ '\x00' ∧ c.toNat < 128 ∧ c.toLower = c) :
    normalizeRedactKey L key = key := by
  induction key with
  | nil => rfl
  | cons c key ih =>
    rw [forall_mem_cons] at h
    obtain ⟨⟨hspace, hzero, hascii, hlower⟩, hrest⟩ := h
    have hkeep : (!isWhitespace c && c != '\x00') = true := by simp [hspace, hzero]
    have hkey := ih hrest
    rw [normalizeRedactKey] at hkey ⊢
    rw [filter_cons_of_pos (p := fun ch => !isWhitespace ch && ch != '\x00') hkeep,
      flatMap_cons, hkey, L.ascii c hascii, hlower]
    rfl

/-- The keys that must go are their own normal forms. -/
theorem isRedactKey_iff {key : Text} :
    isRedactKey L key = true ↔ normalizeRedactKey L key ∈ attachmentRedactKeys := by
  have hplain : ∀ k ∈ attachmentRedactKeys, ∀ c ∈ k,
      isWhitespace c = false ∧ c ≠ '\x00' ∧ c.toNat < 128 ∧ c.toLower = c := by decide
  have hsame : attachmentRedactKeys.map (normalizeRedactKey L) = attachmentRedactKeys.map id :=
    map_congr_left fun k hk => normalizeRedactKey_of_plain (hplain k hk)
  rw [isRedactKey, hsame, map_id, contains_iff_mem]

end AgentMail.Share
