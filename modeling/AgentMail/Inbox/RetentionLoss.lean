import AgentMail.Inbox.Delivery

/-!
# Retention loss and the delivery cursor

Retention removes the oldest events of the ledger. A cursor behind them has to be refused, since a
page would hide the loss; a cursor that a page handed out has to stay within the tail. Both are
read off the oldest and the newest event that a recipient has left, and both fail once it has none.
-/

namespace AgentMail.Inbox

open Base Lib List

/-! ### Histories -/

/-- The ledger, with what retention has removed of it. -/
structure DeliveryHistory where
  lost : List EventRow
  ledger : Ledger
  positive : ∀ r ∈ lost, 1 ≤ r.seq
  older : ∀ r ∈ lost, ∀ e ∈ ledger.rows, r.seq < e.seq

/-- Remove the rows up to `k`. -/
def Ledger.retain (ledger : Ledger) (k : Int) : Ledger where
  rows := ledger.rows.filter fun e => decide (k < e.seq)
  sorted := ledger.sorted.sublist filter_sublist
  positive := fun r hr => ledger.positive r (mem_of_mem_filter hr)

namespace DeliveryHistory

def retain (h : DeliveryHistory) (k : Int) : DeliveryHistory where
  lost := h.lost ++ h.ledger.rows.filter fun e => decide (e.seq ≤ k)
  ledger := h.ledger.retain k
  positive := by
    intro r hr
    rcases mem_append.mp hr with hlost | hrow
    · exact h.positive r hlost
    · exact h.ledger.positive r (mem_of_mem_filter hrow)
  older := by
    intro r hr e he
    obtain ⟨hrow, hkept⟩ := mem_filter.mp he
    rcases mem_append.mp hr with hlost | hremoved
    · exact h.older r hlost e hrow
    · have hle := of_decide_eq_true (mem_filter.mp hremoved).2
      have hlt := of_decide_eq_true hkept
      omega

end DeliveryHistory

/-- Events are delivered, or retention removes the rows up to some number. -/
inductive HistoryStep : DeliveryHistory → DeliveryHistory → Prop
  | deliver {h : DeliveryHistory} (h' : DeliveryHistory) (rows : List EventRow)
      (grown : h'.ledger.rows = h.ledger.rows ++ rows) (same : h'.lost = h.lost) :
      HistoryStep h h'
  | retain {h : DeliveryHistory} (k : Int) : HistoryStep h (h.retain k)

variable {projectId agentId : Int} {h h' : DeliveryHistory}

/-- No event is forgotten: it is in the ledger or lost. -/
theorem HistoryStep.keeps (hstep : HistoryStep h h') :
    (∀ e ∈ h.ledger.rows, e ∈ h'.ledger.rows ∨ e ∈ h'.lost) ∧ ∀ e ∈ h.lost, e ∈ h'.lost := by
  cases hstep with
  | deliver h' rows grown same =>
    rw [grown, same]
    exact ⟨fun e he => .inl (mem_append_left rows he), fun e he => he⟩
  | retain k =>
    refine ⟨fun e he => ?_, fun e he => mem_append_left _ he⟩
    by_cases hk : k < e.seq
    · exact .inl (mem_filter.mpr ⟨he, decide_eq_true hk⟩)
    · apply Or.inr
      apply mem_append_right
      exact mem_filter.mpr ⟨he, decide_eq_true (Int.not_lt.mp hk)⟩

theorem history_keeps (hrun : Relation.ReflTransGen HistoryStep h h') :
    (∀ e ∈ h.ledger.rows, e ∈ h'.ledger.rows ∨ e ∈ h'.lost) ∧ ∀ e ∈ h.lost, e ∈ h'.lost := by
  induction hrun with
  | refl => exact ⟨fun e he => .inl he, fun e he => he⟩
  | tail _ hstep ih =>
    refine ⟨fun e he => ?_, fun e he => hstep.keeps.2 e (ih.2 e he)⟩
    rcases ih.1 e he with hrow | hlost
    · exact hstep.keeps.1 e hrow
    · exact .inr (hstep.keeps.2 e hlost)

/-! ### What a cursor is owed -/

variable (projectId agentId)

/-- An event of the agent, or a project event of its project, is lost behind the cursor. -/
def LossAbove (h : DeliveryHistory) (cursor : Int) : Prop :=
  ∃ r ∈ h.lost, inScope projectId agentId r = true ∧ cursor < r.seq

/-- An earlier call returned the cursor. -/
def Issued (h : DeliveryHistory) (cursor : Int) : Prop :=
  ∃ h₀ M after limit page, Relation.ReflTransGen HistoryStep h₀ h ∧
    inboxDeliveryEvents M projectId agentId h₀.ledger after limit = .ok page ∧
    page.nextCursor = cursor

/-- A call shows every loss, and does not refuse an issued cursor as ahead of the tail. -/
def ShowsLoss (M : Mailbox) (h : DeliveryHistory) (cursor : Int) (limit : Nat) : Prop :=
  (LossAbove projectId agentId h cursor →
      ∃ e, inboxDeliveryEvents M projectId agentId h.ledger (some cursor) limit = .error e) ∧
    (Issued projectId agentId h cursor → ∀ tail,
      inboxDeliveryEvents M projectId agentId h.ledger (some cursor) limit ≠
        .error (.cursorAhead cursor tail))

/-- An event of the recipient is left in the ledger. -/
def HasEvents (ledger : Ledger) : Prop :=
  ∃ e ∈ ledger.rows, inScope projectId agentId e = true

variable {projectId agentId} {M : Mailbox}

/-! ### A recipient with events -/

theorem retentionHasPruned_of_lost {r e : EventRow} (hr : r ∈ h.lost) (he : e ∈ h.ledger.rows) :
    retentionHasPruned h.ledger = true := by
  rw [retentionHasPruned]
  cases hmin : (h.ledger.rows.map (·.seq)).min? with
  | none =>
    rw [List.min?_eq_none_iff, map_eq_nil_iff] at hmin
    rw [hmin] at he
    exact absurd he not_mem_nil
  | some oldest =>
    obtain ⟨first, hfirst, rfl⟩ := mem_map.mp (List.min?_eq_some_iff.mp hmin).1
    have hpositive := h.positive r hr
    have holder := h.older r hr first hfirst
    rw [Option.any_some, decide_eq_true_eq]
    omega

variable {ledger : Ledger}

theorem exists_oldestCursor (hevents : HasEvents projectId agentId ledger) :
    ∃ e ∈ ledger.rows, oldestCursor projectId agentId ledger = some e.seq := by
  obtain ⟨e, he, hscope⟩ := hevents
  cases hmin : oldestCursor projectId agentId ledger with
  | none =>
    rw [oldestCursor, List.min?_eq_none_iff, map_eq_nil_iff] at hmin
    have hmem := mem_filter.mpr ⟨he, hscope⟩
    rw [hmin] at hmem
    exact absurd hmem not_mem_nil
  | some oldest =>
    rw [oldestCursor] at hmin
    obtain ⟨first, hfirst, rfl⟩ := mem_map.mp (List.min?_eq_some_iff.mp hmin).1
    exact ⟨first, mem_of_mem_filter hfirst, rfl⟩

variable {cursor : Int}

/-- A loss is told apart from other recipients' events as long as an own event is left. -/
theorem checkCursor_of_lossAbove (hloss : LossAbove projectId agentId h cursor)
    (hevents : HasEvents projectId agentId h.ledger) :
    ∃ oldest, checkCursor projectId agentId h.ledger cursor =
      .error (.cursorExpired cursor oldest) := by
  obtain ⟨r, hr, _, hlt⟩ := hloss
  obtain ⟨e, he, holdest⟩ := exists_oldestCursor hevents
  have hbefore := h.older r hr e he
  have hexpired : cursor < e.seq - 1 := by omega
  refine ⟨e.seq, ?_⟩
  rw [checkCursor, holdest]
  dsimp only
  rw [retentionHasPruned_of_lost hr he, decide_eq_true hexpired]
  rfl

theorem nextCursor_le_tailCursor {after : Option Int} {limit : Nat} {page : DeliveryPage}
    (answer : inboxDeliveryEvents M projectId agentId ledger after limit = .ok page) :
    page.nextCursor ≤ tailCursor projectId agentId ledger := by
  have haccepted := (inboxDeliveryEvents_eq_ok.mp answer).2.1
  obtain ⟨hevents, hnext, -, -⟩ := page_spec answer
  rw [hnext, hevents]
  rcases @Cursor.next_mem Int _ (due M projectId agentId ledger) (after.getD 0) limit
    with hsame | hmem
  · rw [hsame]
    exact le_tailCursor_of_accepted haccepted
  · obtain ⟨e, he, hscope, hseq⟩ := exists_of_mem_due hmem
    rw [← hseq]
    exact le_tailCursor he hscope

/-- The tail does not fall as long as an own event is left. -/
theorem tailCursor_le_of_run (hrun : Relation.ReflTransGen HistoryStep h h')
    (hevents : HasEvents projectId agentId h'.ledger) :
    tailCursor projectId agentId h.ledger ≤ tailCursor projectId agentId h'.ledger := by
  rcases @tailCursor_cases projectId agentId h.ledger with hzero | ⟨last, hlast, hscope, htail⟩
  · rw [hzero]
    exact tailCursor_nonneg
  · rw [← htail]
    rcases (history_keeps hrun).1 last hlast with hrow | hlost
    · exact le_tailCursor hrow hscope
    · obtain ⟨e, he, hscope'⟩ := hevents
      have hbefore := h'.older last hlost e he
      have hle := le_tailCursor he hscope'
      omega

theorem checkCursor_of_le (hle : cursor ≤ tailCursor projectId agentId ledger) (tail : Int) :
    checkCursor projectId agentId ledger cursor ≠ .error (.cursorAhead cursor tail) := by
  rcases checkCursor_of_le_tail hle with ⟨hok, _⟩ | ⟨oldest, hexpired, _⟩
  · rw [hok]
    nofun
  · rw [hexpired]
    nofun

/-! ### A recipient without events -/

theorem checkCursor_of_empty (hempty : ¬ HasEvents projectId agentId ledger) (cursor : Int) :
    checkCursor projectId agentId ledger cursor =
      if 0 < cursor then .error (.cursorAhead cursor 0) else .ok () := by
  have hnone : ledger.rows.filter (inScope projectId agentId) = [] := by
    rw [filter_eq_nil_iff]
    exact fun e he hscope => hempty ⟨e, he, hscope⟩
  rw [checkCursor, oldestCursor, tailCursor, hnone]
  rfl

/-! ### Calls -/

/-- A limit with room for the probe. -/
def LimitFits (limit : Nat) : Prop := 1 ≤ limit ∧ (limit : Int) < i64Max

instance (limit : Nat) : Decidable (LimitFits limit) :=
  inferInstanceAs (Decidable (1 ≤ limit ∧ (limit : Int) < i64Max))

theorem inboxDeliveryEvents_of_refused {limit : Nat} (hlimit : LimitFits limit)
    {e : DeliveryError} (hcheck : checkCursor projectId agentId ledger cursor = .error e) :
    inboxDeliveryEvents M projectId agentId ledger (some cursor) limit = .error e := by
  obtain ⟨hpos, hmax⟩ := hlimit
  unfold inboxDeliveryEvents
  rw [if_neg (by omega), if_neg (by unfold usizeMax; unfold i64Max at hmax; omega),
    if_neg (by omega), Option.elim_some, hcheck]

theorem inboxDeliveryEvents_of_accepted {limit : Nat} (hlimit : LimitFits limit)
    (hcheck : checkCursor projectId agentId ledger cursor = .ok ()) :
    ∃ page, inboxDeliveryEvents M projectId agentId ledger (some cursor) limit = .ok page :=
  ⟨_, inboxDeliveryEvents_eq_ok.mpr ⟨hlimit, hcheck, rfl⟩⟩

theorem inboxDeliveryEvents_of_limit {limit : Nat} (hlimit : ¬ LimitFits limit) :
    ∃ e, inboxDeliveryEvents M projectId agentId ledger (some cursor) limit =
      .error (.database e) := by
  rw [LimitFits] at hlimit
  unfold inboxDeliveryEvents
  by_cases hzero : limit = 0
  · exact ⟨_, if_pos hzero⟩
  · rw [if_neg hzero]
    by_cases husize : usizeMax < limit + 1
    · exact ⟨_, if_pos husize⟩
    · rw [if_neg husize]
      exact ⟨_, if_pos (by omega)⟩

/-- The answer of a call is the check's, where the check refuses. -/
theorem answer_ne_cursorAhead (limit : Nat)
    (hcheck : ∀ tail, checkCursor projectId agentId h.ledger cursor ≠
      .error (.cursorAhead cursor tail)) (tail : Int) :
    inboxDeliveryEvents M projectId agentId h.ledger (some cursor) limit ≠
      .error (.cursorAhead cursor tail) := by
  by_cases hlimit : LimitFits limit
  · cases hc : checkCursor projectId agentId h.ledger cursor with
    | error e =>
      rw [inboxDeliveryEvents_of_refused hlimit hc]
      intro heq
      cases heq
      exact hcheck tail hc
    | ok =>
      obtain ⟨page, hpage⟩ := inboxDeliveryEvents_of_accepted (M := M) hlimit hc
      rw [hpage]
      nofun
  · obtain ⟨e, he⟩ : ∃ e, inboxDeliveryEvents M projectId agentId h.ledger (some cursor) limit =
        .error (.database e) := inboxDeliveryEvents_of_limit hlimit
    rw [he]
    nofun

theorem showsLoss_of_hasEvents (hevents : HasEvents projectId agentId h.ledger) (cursor : Int)
    (limit : Nat) : ShowsLoss projectId agentId M h cursor limit := by
  constructor
  · intro hloss
    by_cases hlimit : LimitFits limit
    · obtain ⟨oldest, hcheck⟩ := checkCursor_of_lossAbove hloss hevents
      exact ⟨_, inboxDeliveryEvents_of_refused hlimit hcheck⟩
    · obtain ⟨e, he⟩ := inboxDeliveryEvents_of_limit hlimit
      exact ⟨_, he⟩
  · rintro ⟨h₀, M₀, after, limit₀, page, hrun, answer, rfl⟩
    apply answer_ne_cursorAhead
    apply checkCursor_of_le
    exact Int.le_trans (nextCursor_le_tailCursor answer) (tailCursor_le_of_run hrun hevents)

/-- Every call meets the two demands as long as the recipient has an event left. Without one, a
cursor up to zero gets a page in spite of a loss, and an issued cursor above zero is refused as
ahead of the tail. -/
theorem showsLoss_iff (M : Mailbox) (projectId agentId : Int) (h : DeliveryHistory) (cursor : Int)
    (limit : Nat) :
    ShowsLoss projectId agentId M h cursor limit ↔
      ¬ LimitFits limit ∨ HasEvents projectId agentId h.ledger ∨
        (cursor ≤ 0 ∧ ¬ LossAbove projectId agentId h cursor) ∨
        (0 < cursor ∧ ¬ Issued projectId agentId h cursor) := by
  by_cases hlimit : LimitFits limit
  · by_cases hevents : HasEvents projectId agentId h.ledger
    · exact iff_of_true (showsLoss_of_hasEvents hevents cursor limit) (.inr (.inl hevents))
    · have hcheck := checkCursor_of_empty hevents cursor
      by_cases hpos : 0 < cursor
      · rw [if_pos hpos] at hcheck
        have hrefused := inboxDeliveryEvents_of_refused (M := M) hlimit hcheck
        constructor
        · intro hshows
          exact .inr (.inr (.inr ⟨hpos, fun hissued => hshows.2 hissued 0 hrefused⟩))
        · rintro (hunfit | hsome | ⟨hle, -⟩ | ⟨-, hfresh⟩)
          · exact absurd hlimit hunfit
          · exact absurd hsome hevents
          · omega
          · exact ⟨fun _ => ⟨_, hrefused⟩, fun hissued => absurd hissued hfresh⟩
      · rw [if_neg hpos] at hcheck
        obtain ⟨page, hpage⟩ := inboxDeliveryEvents_of_accepted (M := M) hlimit hcheck
        constructor
        · intro hshows
          refine .inr (.inr (.inl ⟨Int.not_lt.mp hpos, fun hloss => ?_⟩))
          obtain ⟨e, he⟩ := hshows.1 hloss
          rw [hpage] at he
          cases he
        · rintro (hunfit | hsome | ⟨-, hkept⟩ | ⟨hlt, -⟩)
          · exact absurd hlimit hunfit
          · exact absurd hsome hevents
          · refine ⟨fun hloss => absurd hloss hkept, fun _ tail => ?_⟩
            rw [hpage]
            nofun
          · exact absurd hlt hpos
  · refine iff_of_true ⟨fun _ => ?_, fun _ tail => ?_⟩ (.inl hlimit)
    · obtain ⟨e, he⟩ := inboxDeliveryEvents_of_limit hlimit
      exact ⟨_, he⟩
    · obtain ⟨e, he⟩ : ∃ e, inboxDeliveryEvents M projectId agentId h.ledger (some cursor) limit =
          .error (.database e) := inboxDeliveryEvents_of_limit hlimit
      rw [he]
      nofun

/-! ### An emptied recipient -/

def sampleHistory : DeliveryHistory where
  lost := []
  ledger := sampleLedger
  positive := nofun
  older := nofun

/-- After all is removed, a cursor of 0 gets an empty page, and the cursor of an earlier page is
refused as ahead of the tail. -/
theorem retention_hides_loss :
    Relation.ReflTransGen HistoryStep sampleHistory (sampleHistory.retain 2) ∧
      LossAbove 1 2 (sampleHistory.retain 2) 0 ∧
      ¬ ShowsLoss 1 2 sampleMailbox (sampleHistory.retain 2) 0 10 ∧
      Issued 1 2 (sampleHistory.retain 2) 1 ∧
      ¬ ShowsLoss 1 2 sampleMailbox (sampleHistory.retain 2) 1 10 := by
  have hrun : Relation.ReflTransGen HistoryStep sampleHistory (sampleHistory.retain 2) :=
    .single (.retain 2)
  have hloss : LossAbove 1 2 (sampleHistory.retain 2) 0 :=
    ⟨sampleLedger.rows.head (by decide), by decide, by decide, by decide⟩
  have hissued : Issued 1 2 (sampleHistory.retain 2) 1 :=
    ⟨sampleHistory, sampleMailbox, none, 1, _, hrun,
      inboxDeliveryEvents_eq_ok.mpr ⟨by decide, rfl, rfl⟩, by decide +kernel⟩
  have hfits : LimitFits 10 := by decide
  refine ⟨hrun, hloss, fun hshows => ?_, hissued, fun hshows => ?_⟩
  · obtain ⟨e, he⟩ := hshows.1 hloss
    obtain ⟨page, hpage⟩ : ∃ page, inboxDeliveryEvents sampleMailbox 1 2
        (sampleHistory.retain 2).ledger (some 0) 10 = .ok page :=
      inboxDeliveryEvents_of_accepted hfits (by decide)
    rw [hpage] at he
    cases he
  · exact hshows.2 hissued 0 (inboxDeliveryEvents_of_refused hfits (by decide))

end AgentMail.Inbox
