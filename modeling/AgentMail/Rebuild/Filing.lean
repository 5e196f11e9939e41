import AgentMail.Rebuild.Messages

/-!
# The rebuild files the messages

The two passes over the archived messages are the two passes of a filing (`Lib/Renumber`): the
number of a file is its source id, and files with equal project, `created_ts` and subject have
equal keys. Which files get a row, and under which id, is then known from the list of files.
-/

namespace AgentMail.Rebuild

open Base Lib

/-! ### The collision handling -/

variable {messages : Ledger MessageRow} {f : Located}

theorem settleId_unnumbered {pass : Pass} (h : f.number = none) :
    settleId pass messages f = .generated := by
  simp only [settleId, h]

theorem settleId_free {cid : Int} (h : f.number = some cid) (hfree : cid ∉ messages.numbers) :
    settleId .canonical messages f = .own cid := by
  simp only [settleId, h, Ledger.get?_eq_none.mpr hfree]

variable {row : MessageRow}

theorem settleId_held {cid : Int} (h : f.number = some cid) (hrow : (cid, row) ∈ messages.rows) :
    settleId .canonical messages f = if row.identity = f.identity then .skip else .wait := by
  simp only [settleId, h, Ledger.get?_eq_some.mpr hrow]

theorem settleId_deferred (h : f.number ≠ none) :
    settleId .deferred messages f = open Classical in
      if ∃ row ∈ messages.items, row.identity = f.identity then .skip else .generated := by
  obtain ⟨n, hn⟩ := Option.ne_none_iff_exists'.mp h
  simp [settleId, hn]

/-- The row shows what the file says. -/
structure Shows (N : Names) (row : MessageRow) (f : Located) : Prop where
  columns : row = { messageRow f row.senderId with replyTo := row.replyTo }
  sender : N.IsAgent row.senderId f.projectId f.message.senderName

namespace Shows

theorem identity_eq {N : Names} (h : Shows N row f) : row.identity = f.identity := by
  rw [h.columns]
  rfl

theorem mono {N N' : Names} (hext : N.Extends N') (h : Shows N row f) : Shows N' row f :=
  ⟨h.columns, h.sender.mono hext⟩

end Shows

/-- A stored row and the file behind it, each with its id. -/
def RowOf (N : Names) (r : Int × MessageRow) (b : Int × Located) : Prop :=
  r.1 = b.1 ∧ Shows N r.2 b.2

/-- The message tables are those of a filing. -/
structure Tracks (S : Names × Mail) (I : Intake Located) : Prop where
  built : S.2.built = I.ledger.rows
  top : S.2.messages.top = I.ledger.top
  rows : List.Forall₂ (RowOf S.1) S.2.messages.rows S.2.built

theorem tracks_empty : Tracks (Names.empty, Mail.empty) Intake.empty where
  built := rfl
  top := rfl
  rows := List.Forall₂.nil

namespace Tracks

variable {S : Names × Mail} {I : Intake Located}

section

variable (h : Tracks S I)
include h

theorem numbers_eq : S.2.messages.numbers = I.ledger.numbers := by
  have hrows := h.rows
  rw [h.built] at hrows
  rw [Ledger.numbers, Ledger.numbers, ← List.forall₂_eq_eq_eq, List.forall₂_map_left_iff,
    List.forall₂_map_right_iff]
  exact hrows.imp fun _ _ hrow => hrow.1

theorem exists_file {n : Int} (hrow : (n, row) ∈ S.2.messages.rows) :
    ∃ f, (n, f) ∈ I.ledger.rows ∧ Shows S.1 row f := by
  obtain ⟨⟨m, f⟩, hf, rfl, hshows⟩ := exists_of_forall₂_left h.rows hrow
  exact ⟨f, h.built ▸ hf, hshows⟩

theorem exists_row {n : Int} (hf : (n, f) ∈ I.ledger.rows) :
    ∃ row, (n, row) ∈ S.2.messages.rows ∧ Shows S.1 row f := by
  rw [← h.built] at hf
  obtain ⟨⟨m, row⟩, hrow, rfl, hshows⟩ := exists_of_forall₂_right h.rows hf
  exact ⟨row, hrow, hshows⟩

theorem any_identity_iff (k : Identity) :
    (∃ row ∈ S.2.messages.items, row.identity = k) ↔ ∃ f ∈ I.ledger.items, f.identity = k := by
  constructor
  · rintro ⟨row, hrow, rfl⟩
    obtain ⟨n, hn⟩ := Ledger.mem_items.mp hrow
    obtain ⟨f, hf, hshows⟩ := h.exists_file hn
    exact ⟨f, Ledger.mem_items.mpr ⟨n, hf⟩, hshows.identity_eq.symm⟩
  · rintro ⟨f, hf, rfl⟩
    obtain ⟨n, hn⟩ := Ledger.mem_items.mp hf
    obtain ⟨row, hrow, hshows⟩ := h.exists_row hn
    exact ⟨row, Ledger.mem_items.mpr ⟨n, hrow⟩, hshows.identity_eq⟩

/-- The tables stay those of the filing while agents and recipients are added. -/
theorem frame {N : Names} {M : Mail} (hext : S.1.Extends N)
    (hsame : S.2.SameMessages M) : Tracks (N, M) I where
  built := hsame.built.trans h.built
  top := (congrArg Ledger.top hsame.messages).trans h.top
  rows := by
    rw [hsame.messages, hsame.built]
    exact h.rows.imp fun _ _ hrow => ⟨hrow.1, hrow.2.mono hext⟩

theorem store {n senderId : Int} {ledger : Ledger Located}
    (hsender : S.1.IsAgent senderId f.projectId f.message.senderName)
    (hmessages : messages.rows = S.2.messages.rows ++ [(n, messageRow f senderId)])
    (hledger : ledger.rows = I.ledger.rows ++ [(n, f)]) (htop : messages.top = ledger.top) :
    Tracks (S.1, recordMessage S.2 f n messages) { I with ledger } where
  built := by
    rw [hledger, ← h.built]
    rfl
  top := htop
  rows := by
    show List.Forall₂ (RowOf S.1) messages.rows (S.2.built ++ [(n, f)])
    rw [hmessages]
    exact List.rel_append h.rows (List.Forall₂.cons ⟨rfl, rfl, hsender⟩ List.Forall₂.nil)

/-- The recipients are added after a row was stored. -/
theorem addRecipients (Q : RowOrder) (slug : Text) (f : Located) (n : Int) :
    Tracks (Rebuild.addRecipients Q slug f n S) I :=
  h.frame (addRecipients_extends Q slug f n S) (addRecipients_sameMessages Q slug f n S)

theorem offer (hwait : S.2.deferred = I.waiting) (Q : RowOrder) (slug : Text)
    (f : Located) :
    Tracks (parseAndInsertMessage Q .canonical slug S f)
        (I.offer Located.number Located.identity f) ∧
      (parseAndInsertMessage Q .canonical slug S f).2.deferred =
        (I.offer Located.number Located.identity f).waiting := by
  rcases S with ⟨N, M⟩
  have hext := ensureAgentExists_extends Q N f.projectId f.message.senderName
  have hagent := ensureAgentExists_isAgent Q N f.projectId f.message.senderName
  rcases hsender : ensureAgentExists Q N f.projectId f.message.senderName with ⟨senderId, N'⟩
  rw [hsender] at hext hagent
  rw [parseAndInsertMessage_eq Q .canonical slug N M f hsender]
  have h' : Tracks (N', M) I := h.frame hext ⟨rfl, rfl, rfl, rfl, rfl⟩
  obtain ⟨hnum, hoffer⟩ | ⟨cid, hnum, hfree, hoffer⟩ | ⟨cid, g, hnum, hg, hkey, hoffer⟩ |
    ⟨cid, g, hnum, hg, hkey, hoffer⟩ := Intake.offer_cases Located.number Located.identity I f
  · rw [hoffer, settleId_unnumbered hnum]
    refine ⟨addRecipients (h'.store hagent rfl ?_ ?_) Q slug f _,
      (addRecipients_sameMessages Q slug f _ (N', _)).deferred.trans hwait⟩
    · rw [Ledger.rows_issue, ← h.top]
    · rw [Ledger.top_issue, Ledger.top_issue, h.top]
  · have hfree' : cid ∉ M.messages.numbers := h.numbers_eq ▸ hfree
    rw [hoffer, settleId_free hnum hfree']
    refine ⟨addRecipients (h'.store hagent (Ledger.rows_insertAt hfree' _)
      (Ledger.rows_insertAt hfree _) ?_) Q slug f _,
      (addRecipients_sameMessages Q slug f _ (N', _)).deferred.trans hwait⟩
    rw [Ledger.top_insertAt hfree', Ledger.top_insertAt hfree, h.top]
  · obtain ⟨row, hrow, hshows⟩ := h.exists_row hg
    rw [hoffer, settleId_held hnum hrow, if_pos (hshows.identity_eq.trans hkey)]
    exact ⟨⟨h'.built, h'.top, h'.rows⟩, hwait⟩
  · obtain ⟨row, hrow, hshows⟩ := h.exists_row hg
    rw [hoffer, settleId_held hnum hrow, if_neg (hshows.identity_eq.symm ▸ hkey)]
    exact ⟨⟨h'.built, h'.top, h'.rows⟩, congrArg (· ++ [f]) hwait⟩

theorem place (Q : RowOrder) (slug : Text) (f : Located) (hnum : f.number ≠ none) :
    Tracks (parseAndInsertMessage Q .deferred slug S f) (I.place Located.identity f) := by
  rcases S with ⟨N, M⟩
  have hext := ensureAgentExists_extends Q N f.projectId f.message.senderName
  have hagent := ensureAgentExists_isAgent Q N f.projectId f.message.senderName
  rcases hsender : ensureAgentExists Q N f.projectId f.message.senderName with ⟨senderId, N'⟩
  rw [hsender] at hext hagent
  rw [parseAndInsertMessage_eq Q .deferred slug N M f hsender]
  have h' : Tracks (N', M) I := h.frame hext ⟨rfl, rfl, rfl, rfl, rfl⟩
  obtain ⟨hkey, hplace⟩ | ⟨hkey, hplace⟩ := Intake.place_cases Located.identity I f
  · rw [hplace, settleId_deferred hnum, if_pos ((h.any_identity_iff _).mpr hkey)]
    exact ⟨h'.built, h'.top, h'.rows⟩
  · have hnone : ¬ ∃ row ∈ M.messages.items, row.identity = f.identity := by
      rw [h.any_identity_iff]
      rintro ⟨g, hg, hid⟩
      exact hkey g hg hid
    rw [hplace, settleId_deferred hnum, if_neg hnone]
    apply addRecipients
    apply h'.store hagent rfl
    · rw [Ledger.rows_issue, ← h.top]
    · rw [Ledger.top_issue, Ledger.top_issue, h.top]

theorem insertMessages (hwait : S.2.deferred = I.waiting) (Q : RowOrder)
    (files : List Located) :
    Tracks (Rebuild.insertMessages Q S files)
        (files.foldl (Intake.offer Located.number Located.identity) I) ∧
      (Rebuild.insertMessages Q S files).2.deferred =
        (files.foldl (Intake.offer Located.number Located.identity) I).waiting := by
  induction files generalizing S I with
  | nil => exact ⟨h, hwait⟩
  | cons f files ih =>
    obtain ⟨hstep, hdeferred⟩ := h.offer hwait Q f.projectSlug f
    exact ih hstep hdeferred

theorem foldl_place (Q : RowOrder) (slug : Text) (files : List Located)
    (hnum : ∀ f ∈ files, f.number ≠ none) :
    Tracks (files.foldl (fun S f => parseAndInsertMessage Q .deferred slug S f) S)
      (files.foldl (Intake.place Located.identity) I) := by
  induction files generalizing S I with
  | nil => exact h
  | cons f files ih =>
    have hstep := h.place Q slug f (hnum f List.mem_cons_self)
    exact ih hstep fun g hg => hnum g (List.mem_cons_of_mem _ hg)

end

end Tracks

end AgentMail.Rebuild
