import AgentMail.Inbox.Mailbox
import AgentMail.Lib.Cursor
import AgentMail.Lib.Table
import AgentMail.Lib.Window

/-!
# The delivery cursor

`inbox_delivery_events` is an append-only ledger with one global sequence. A monitor reads it
page by page with `inbox_delivery_events_from_conn`
(`crates/mcp-agent-mail-db/src/sync.rs:607–810`): each page merges the agent's direct events with
the project events that it may see (`project_mailbox.rs:588–601`).
-/

namespace AgentMail.Inbox

open Base Lib List

/-- A row of `inbox_delivery_events`. -/
structure EventRow where
  seq : Int
  projectId : Int
  agentId : Option Int
  messageId : Int
  kind : String
  deliveredTs : Int
  deriving DecidableEq

/-- The ledger in the order of its `AUTOINCREMENT` key, which starts at 1. -/
structure Ledger where
  rows : List EventRow
  sorted : rows.Pairwise fun a b => a.seq < b.seq
  positive : ∀ r ∈ rows, 1 ≤ r.seq

/-- `InboxDeliveryEvent`. -/
structure DeliveryEvent where
  seq : Int
  messageId : Int
  kind : String
  deliveredTs : Int
  subject : String
  senderName : String
  importance : String
  ackRequired : Bool
  deriving DecidableEq

/-- `InboxDeliveryEventPage`. -/
structure DeliveryPage where
  events : List DeliveryEvent
  nextCursor : Int
  hasMore : Bool
  oldestAvailableCursor : Option Int
  tailCursor : Int
  deriving DecidableEq

/-- `InboxDeliveryEventError`. -/
inductive DeliveryError where
  | cursorExpired (after oldestAvailable : Int)
  | cursorAhead (after tail : Int)
  | database (error : DbError)
  deriving DecidableEq

section

variable (M : Mailbox) (projectId agentId : Int)

/-- The columns of an event joined to its message; an event without one is dropped. -/
def joinEvent (e : EventRow) : Option DeliveryEvent :=
  (M.message? e.messageId).map fun m : Message =>
    { seq := e.seq, messageId := e.messageId, kind := e.kind, deliveredTs := e.deliveredTs,
      subject := m.subject, senderName := M.senderName m.senderId, importance := m.importance,
      ackRequired := decide (m.ackRequired ≠ 0) }

/-- `project_id = ? AND agent_id = ?`. -/
def isDirect (e : EventRow) : Bool := e.projectId == projectId && e.agentId == some agentId

/-- `project_id = ? AND agent_id IS NULL AND kind = 'project'`. -/
def isProjectEvent (e : EventRow) : Bool :=
  e.projectId == projectId && e.agentId.isNone && e.kind == projectMailboxKind

/-- The project event's delivery exists and the viewer may see it. -/
def isVisible (e : EventRow) : Bool :=
  match M.delivery? e.messageId, M.message? e.messageId, M.agent? agentId with
  | some d, some m, some viewer => M.visibleToViewer viewer d m
  | _, _, _ => false

/-- The events that share the recipient's cursor space. -/
def inScope (e : EventRow) : Bool := isDirect projectId agentId e || isProjectEvent projectId e

/-- The direct query of a page. -/
def directEvents (ledger : Ledger) (cursor : Int) : List DeliveryEvent :=
  (ledger.rows.filter fun e => isDirect projectId agentId e && cursor < e.seq).filterMap (joinEvent M)

/-- `visible_events_sql`. -/
def visibleEvents (ledger : Ledger) (cursor : Int) : List DeliveryEvent :=
  (ledger.rows.filter fun e =>
    isProjectEvent projectId e && cursor < e.seq && isVisible M agentId e).filterMap (joinEvent M)

/-- `MIN(seq)` over the scope. -/
def oldestCursor (ledger : Ledger) : Option Int :=
  ((ledger.rows.filter (inScope projectId agentId)).map (·.seq)).min?

/-- `MAX(seq)` over the scope, 0 for none. -/
def tailCursor (ledger : Ledger) : Int :=
  ((ledger.rows.filter (inScope projectId agentId)).map (·.seq)).max?.getD 0

/-- The lowest sequence number of the whole ledger is above 1. -/
def retentionHasPruned (ledger : Ledger) : Bool :=
  (ledger.rows.map (·.seq)).min?.any fun globalOldest => decide (globalOldest > 1)

/-- The checks on a cursor. -/
def checkCursor (ledger : Ledger) (after : Int) : Except DeliveryError Unit :=
  match oldestCursor projectId agentId ledger with
  | some oldest =>
    if retentionHasPruned ledger && after < oldest - 1 then .error (.cursorExpired after oldest)
    else if after > tailCursor projectId agentId ledger then
      .error (.cursorAhead after (tailCursor projectId agentId ledger))
    else .ok ()
  | none =>
    if after > tailCursor projectId agentId ledger then
      .error (.cursorAhead after (tailCursor projectId agentId ledger))
    else .ok ()

/-- `inbox_delivery_events_in_snapshot`. -/
def inboxDeliveryEvents (ledger : Ledger) (after : Option Int) (limit : Nat) :
    Except DeliveryError DeliveryPage :=
  if limit = 0 then
    .error (.database (.invalidArgument "limit" "inbox event limit must be at least 1"))
  else if usizeMax < limit + 1 then
    .error (.database (.invalidArgument "limit" "inbox event limit is too large"))
  else if i64Max < (limit + 1 : Nat) then
    .error (.database (.invalidArgument "limit" "inbox event limit exceeds i64::MAX"))
  else
    match after.elim (.ok ()) (checkCursor projectId agentId ledger) with
    | .error e => .error e
    | .ok () =>
      let cursor := after.getD 0
      let rows := (directEvents M projectId agentId ledger cursor).take (limit + 1) ++
        (visibleEvents M projectId agentId ledger cursor).take (limit + 1)
      let events := (rows.mergeSort fun a b => decide (a.seq ≤ b.seq)).take (limit + 1)
      let hasMore := decide (events.length > limit)
      let events := if hasMore then events.dropLast else events
      .ok {
        events := events
        nextCursor := events.getLast?.elim cursor (·.seq)
        hasMore := hasMore
        oldestAvailableCursor := oldestCursor projectId agentId ledger
        tailCursor := tailCursor projectId agentId ledger }

/-- What the viewer is to receive of the ledger, in the order of the sequence. -/
def deliverable (ledger : Ledger) : List DeliveryEvent :=
  (ledger.rows.filter fun e => isDirect projectId agentId e ||
    (isProjectEvent projectId e && isVisible M agentId e)).filterMap (joinEvent M)

end

/-! ### One page -/

variable {page : DeliveryPage} {after : Option Int}

section

variable {M : Mailbox} {projectId agentId : Int} {ledger : Ledger}

theorem seq_joinEvent {e : EventRow} {d : DeliveryEvent} (h : joinEvent M e = some d) :
    d.seq = e.seq := by
  rw [joinEvent, Option.map_eq_some_iff] at h
  obtain ⟨m, _, rfl⟩ := h
  rfl

/-- Oldest first is newest first for the reversed order of the sequence. -/
def seqKey (d : DeliveryEvent) : Intᵒᵈ := OrderDual.toDual d.seq

theorem sort_seqKey (l : List DeliveryEvent) :
    Window.sort seqKey l = l.mergeSort fun a b => decide (a.seq ≤ b.seq) := rfl

/-- Events selected from the ledger keep its order. -/
theorem descending_select (keep : EventRow → Bool) :
    Window.Descending seqKey ((ledger.rows.filter keep).filterMap (joinEvent M)) := by
  apply List.Pairwise.filterMap (R := fun a b : EventRow => a.seq < b.seq)
  · intro a b hab d hd d' hd'
    rw [← seq_joinEvent hd, ← seq_joinEvent hd'] at hab
    exact hab
  · exact ledger.sorted.sublist filter_sublist

theorem filter_select (keep : EventRow → Bool) (bound : Int) :
    ((ledger.rows.filter keep).filterMap (joinEvent M)).filter (fun d => decide (bound < d.seq)) =
      (ledger.rows.filter fun e => keep e && decide (bound < e.seq)).filterMap (joinEvent M) := by
  rw [filter_filterMap, filterMap_filter, filterMap_filter]
  apply filterMap_congr
  intro e _
  cases keep e with
  | false => rfl
  | true =>
    rw [if_pos rfl, Bool.true_and]
    cases hd : joinEvent M e with
    | none => simp
    | some d => simp [Option.filter, seq_joinEvent hd]

/-- The two queries of a page split the deliverable events above the cursor. -/
theorem direct_append_visible_perm (cursor : Int) :
    (directEvents M projectId agentId ledger cursor ++
      visibleEvents M projectId agentId ledger cursor).Perm
      ((deliverable M projectId agentId ledger).filter fun d => decide (cursor < d.seq)) := by
  have hdisjoint : ∀ e ∈ ledger.rows, (isDirect projectId agentId e && decide (cursor < e.seq)) = true →
      (isProjectEvent projectId e && decide (cursor < e.seq) && isVisible M agentId e) = true →
      False := by
    intro e _ hdirect hproject
    simp only [isDirect, isProjectEvent, Bool.and_eq_true, beq_iff_eq, Option.isNone_iff_eq_none]
      at hdirect hproject
    rw [hproject.1.1.1.2] at hdirect
    cases hdirect.1.2
  rw [deliverable, filter_select, directEvents, visibleEvents, ← filterMap_append]
  refine ((filter_append_filter_perm hdisjoint).filterMap _).trans (List.Perm.of_eq ?_)
  congr 1
  apply filter_congr
  intro e _
  cases isDirect projectId agentId e <;> cases isProjectEvent projectId e <;>
    cases isVisible M agentId e <;> cases decide (cursor < e.seq) <;> rfl

/-- The events of a page before the probe is removed: the first deliverable ones above the
cursor. An event that one query cut off lies behind enough events of that query. -/
theorem merged_page (cursor : Int) (n : Nat) :
    (((directEvents M projectId agentId ledger cursor).take n ++
      (visibleEvents M projectId agentId ledger cursor).take n).mergeSort
        fun a b => decide (a.seq ≤ b.seq)).take n =
      ((deliverable M projectId agentId ledger).filter fun d => decide (cursor < d.seq)).take n := by
  have hperm := @direct_append_visible_perm M projectId agentId ledger cursor
  have hdesc : Window.Descending seqKey
      ((deliverable M projectId agentId ledger).filter fun d => decide (cursor < d.seq)) :=
    List.Pairwise.filter _ (descending_select _)
  have hnodup := (hperm.map seqKey).nodup_iff.mpr hdesc.nodup
  have hdirect : Window.Descending seqKey (directEvents M projectId agentId ledger cursor) :=
    descending_select _
  have hvisible : Window.Descending seqKey (visibleEvents M projectId agentId ledger cursor) :=
    descending_select _
  calc _ = Window.top seqKey n (Window.top seqKey n (directEvents M projectId agentId ledger cursor) ++
          Window.top seqKey n (visibleEvents M projectId agentId ledger cursor)) := by
        rw [Window.top_of_descending n hdirect, Window.top_of_descending n hvisible]
        rfl
    _ = Window.top seqKey n ((deliverable M projectId agentId ledger).filter
          fun d => decide (cursor < d.seq)) := by
        rw [Window.top_append_top n hnodup, Window.top_congr n hperm hnodup]
    _ = _ := Window.top_of_descending n hdesc

/-- The cursor is accepted: it is absent, or neither expired nor ahead of the tail. -/
def Accepted (projectId agentId : Int) (ledger : Ledger) (after : Option Int) : Prop :=
  after.elim (.ok ()) (checkCursor projectId agentId ledger) = .ok ()

/-- A page holds the first deliverable events above the cursor. -/
theorem inboxDeliveryEvents_eq_ok {limit : Nat} :
    inboxDeliveryEvents M projectId agentId ledger after limit = .ok page ↔
      (1 ≤ limit ∧ (limit : Int) < i64Max) ∧ Accepted projectId agentId ledger after ∧ page = {
        events := ((deliverable M projectId agentId ledger).filter
          fun d => decide (after.getD 0 < d.seq)).take limit
        nextCursor := (((deliverable M projectId agentId ledger).filter
          fun d => decide (after.getD 0 < d.seq)).take limit).getLast?.elim (after.getD 0) (·.seq)
        hasMore := decide (limit < ((deliverable M projectId agentId ledger).filter
          fun d => decide (after.getD 0 < d.seq)).length)
        oldestAvailableCursor := oldestCursor projectId agentId ledger
        tailCursor := tailCursor projectId agentId ledger } := by
  have hlimit : (1 ≤ limit ∧ (limit : Int) < i64Max) ↔
      ¬ limit = 0 ∧ ¬ usizeMax < limit + 1 ∧ ¬ i64Max < (limit + 1 : Nat) := by
    unfold usizeMax i64Max
    omega
  unfold inboxDeliveryEvents Accepted
  rw [hlimit]
  by_cases hzero : limit = 0
  · rw [if_pos hzero]
    exact iff_of_false nofun (fun h => h.1.1 hzero)
  rw [if_neg hzero]
  by_cases husize : usizeMax < limit + 1
  · rw [if_pos husize]
    exact iff_of_false nofun (fun h => h.1.2.1 husize)
  rw [if_neg husize]
  by_cases hi64 : i64Max < (limit + 1 : Nat)
  · rw [if_pos hi64]
    exact iff_of_false nofun (fun h => h.1.2.2 hi64)
  rw [if_neg hi64]
  simp only [hzero, husize, hi64, not_false_eq_true, true_and]
  cases hcheck : after.elim (.ok ()) (checkCursor projectId agentId ledger) with
  | error e => simp
  | ok =>
    dsimp only
    rw [merged_page]
    generalize (deliverable M projectId agentId ledger).filter
      (fun d => decide (after.getD 0 < d.seq)) = events
    have hmore : decide ((events.take (limit + 1)).length > limit) = decide (limit < events.length) := by
      rw [length_take]
      congr 1
      apply propext
      omega
    have hevents : (if decide (limit < events.length) = true then (events.take (limit + 1)).dropLast
        else events.take (limit + 1)) = events.take limit := by
      split
      · next h =>
        rw [decide_eq_true_eq] at h
        have hlength : (events.take (limit + 1)).length = limit + 1 := by
          rw [length_take]
          omega
        rw [dropLast_eq_take, hlength, take_take, Nat.add_sub_cancel,
          Nat.min_eq_left (Nat.le_succ limit)]
      · next h =>
        rw [decide_eq_true_eq, Nat.not_lt] at h
        rw [take_of_length_le h, take_of_length_le (Nat.le_succ_of_le h)]
    rw [hmore, hevents, Except.ok.injEq, eq_comm]
    simp

end

/-! ### What a viewer is due -/

section

variable (M : Mailbox) (projectId agentId : Int)

/-- A direct event or a visible project event, with a message. -/
def isDeliverable (e : EventRow) : Bool :=
  (isDirect projectId agentId e || (isProjectEvent projectId e && isVisible M agentId e)) &&
    (M.message? e.messageId).isSome

/-- The sequence numbers of the events that the viewer is to receive. -/
def due (ledger : Ledger) : List Int :=
  (ledger.rows.filter (isDeliverable M projectId agentId)).map (·.seq)

variable {M projectId agentId} {ledger : Ledger}

theorem map_seq_deliverable :
    (deliverable M projectId agentId ledger).map (·.seq) = due M projectId agentId ledger := by
  unfold deliverable due
  induction ledger.rows with
  | nil => rfl
  | cons e rows ih =>
    have hsome : (M.message? e.messageId).isSome = (joinEvent M e).isSome := by
      rw [joinEvent, Option.isSome_map]
    rw [filter_cons, filter_cons, isDeliverable, hsome]
    split
    · next hkeep =>
      rw [hkeep, Bool.true_and, filterMap_cons]
      cases hjoin : joinEvent M e with
      | none =>
        dsimp only
        rw [ih, Option.isSome_none, if_neg Bool.false_ne_true]
      | some d =>
        dsimp only
        rw [map_cons, ih, seq_joinEvent hjoin, Option.isSome_some, if_pos rfl, map_cons]
    · next hskip =>
      rw [Bool.not_eq_true] at hskip
      rw [hskip, Bool.false_and, if_neg Bool.false_ne_true, ih]

theorem due_pairwise : (due M projectId agentId ledger).Pairwise (· < ·) := by
  rw [due, pairwise_map]
  exact ledger.sorted.sublist filter_sublist

theorem exists_of_mem_due {q : Int} (h : q ∈ due M projectId agentId ledger) :
    ∃ e ∈ ledger.rows, inScope projectId agentId e = true ∧ e.seq = q := by
  rw [due, mem_map] at h
  obtain ⟨e, he, hq⟩ := h
  rw [mem_filter, isDeliverable, Bool.and_eq_true, Bool.or_eq_true, Bool.and_eq_true] at he
  refine ⟨e, he.1, ?_, hq⟩
  rw [inScope, Bool.or_eq_true]
  exact he.2.1.imp_right And.left

theorem page_spec {limit : Nat}
    (h : inboxDeliveryEvents M projectId agentId ledger after limit = .ok page) :
    page.events.map (·.seq) =
        (Cursor.above (after.getD 0) (due M projectId agentId ledger)).take limit ∧
      page.nextCursor = Cursor.next (after.getD 0) (page.events.map (·.seq)) ∧ page.hasMore =
        decide (limit < (Cursor.above (after.getD 0) (due M projectId agentId ledger)).length) ∧
      page.tailCursor = tailCursor projectId agentId ledger := by
  rw [inboxDeliveryEvents_eq_ok] at h
  obtain ⟨-, -, rfl⟩ := h
  have habove : Cursor.above (after.getD 0) (due M projectId agentId ledger) =
      ((deliverable M projectId agentId ledger).filter
        fun d => decide (after.getD 0 < d.seq)).map (·.seq) := by
    rw [← map_seq_deliverable, Cursor.above, filter_map]
    rfl
  rw [habove, length_map, ← map_take]
  refine ⟨rfl, ?_, rfl, rfl⟩
  dsimp only
  rw [Cursor.next, List.getLast?_map]
  cases List.getLast? _ with
  | none => rfl
  | some last => rfl

end

/-! ### The checks on a cursor -/

section

variable {projectId agentId : Int} {ledger : Ledger}

/-- Retention has removed rows, and the cursor lies before what is left of its scope. -/
def Expired (projectId agentId : Int) (ledger : Ledger) (cursor : Option Int) : Prop :=
  ∃ after oldest, cursor = some after ∧ oldestCursor projectId agentId ledger = some oldest ∧
    retentionHasPruned ledger = true ∧ after < oldest - 1

theorem le_tailCursor {e : EventRow} (he : e ∈ ledger.rows)
    (hscope : inScope projectId agentId e = true) : e.seq ≤ tailCursor projectId agentId ledger := by
  have hmem : e.seq ∈ (ledger.rows.filter (inScope projectId agentId)).map (·.seq) :=
    mem_map_of_mem (mem_filter.mpr ⟨he, hscope⟩)
  unfold tailCursor
  cases hmax : ((ledger.rows.filter (inScope projectId agentId)).map (·.seq)).max? with
  | none =>
    rw [List.max?_eq_none_iff] at hmax
    rw [hmax] at hmem
    exact absurd hmem not_mem_nil
  | some tail => exact (List.max?_eq_some_iff.mp hmax).2 _ hmem

theorem tailCursor_cases : tailCursor projectId agentId ledger = 0 ∨
    ∃ e ∈ ledger.rows, inScope projectId agentId e = true ∧
      e.seq = tailCursor projectId agentId ledger := by
  unfold tailCursor
  cases hmax : ((ledger.rows.filter (inScope projectId agentId)).map (·.seq)).max? with
  | none => exact .inl rfl
  | some tail =>
    have hmem := (List.max?_eq_some_iff.mp hmax).1
    rw [mem_map] at hmem
    obtain ⟨e, he, hseq⟩ := hmem
    rw [mem_filter] at he
    exact .inr ⟨e, he.1, he.2, hseq⟩

theorem tailCursor_nonneg : 0 ≤ tailCursor projectId agentId ledger := by
  rcases @tailCursor_cases projectId agentId ledger with hzero | ⟨e, he, -, htail⟩
  · omega
  · have := ledger.positive e he
    omega

theorem oldestCursor_le {e : EventRow} {oldest : Int} (he : e ∈ ledger.rows)
    (hscope : inScope projectId agentId e = true)
    (holdest : oldestCursor projectId agentId ledger = some oldest) : oldest ≤ e.seq := by
  apply (List.min?_eq_some_iff.mp holdest).2
  exact mem_map_of_mem (mem_filter.mpr ⟨he, hscope⟩)

/-- A cursor up to the tail is refused only when it has expired. -/
theorem checkCursor_of_le_tail {after : Int} (h : after ≤ tailCursor projectId agentId ledger) :
    (checkCursor projectId agentId ledger after = .ok () ∧
        ¬ Expired projectId agentId ledger (some after)) ∨
      (∃ oldest, checkCursor projectId agentId ledger after = .error (.cursorExpired after oldest) ∧
        Expired projectId agentId ledger (some after)) := by
  have htail : ¬ after > tailCursor projectId agentId ledger := not_lt_of_ge h
  unfold checkCursor Expired
  cases holdest : oldestCursor projectId agentId ledger with
  | none =>
    left
    dsimp only
    rw [if_neg htail]
    refine ⟨rfl, ?_⟩
    rintro ⟨_, _, -, hnone, -⟩
    cases hnone
  | some oldest =>
    dsimp only
    by_cases hpruned : retentionHasPruned ledger = true ∧ after < oldest - 1
    · right
      rw [hpruned.1, decide_eq_true hpruned.2]
      exact ⟨oldest, rfl, after, oldest, rfl, rfl, rfl, hpruned.2⟩
    · left
      rw [if_neg (by rwa [Bool.and_eq_true, decide_eq_true_eq]), if_neg htail]
      refine ⟨rfl, ?_⟩
      rintro ⟨_, _, hafter, hoj, hp, hlt⟩
      cases hafter
      cases hoj
      exact hpruned ⟨hp, hlt⟩

theorem le_tailCursor_of_accepted (h : Accepted projectId agentId ledger after) :
    after.getD 0 ≤ tailCursor projectId agentId ledger := by
  cases after with
  | none => exact tailCursor_nonneg
  | some after =>
    by_contra htail
    rw [Option.getD_some, not_le] at htail
    unfold Accepted checkCursor at h
    rw [Option.elim_some] at h
    split at h
    · split at h
      · cases h
      · cases h
    · rw [if_pos htail] at h
      cases h

end

/-! ### A monitor -/

section

/-- A monitor and the database it reads: the cursor it holds and what it has received. -/
structure Monitor where
  mailbox : Mailbox
  ledger : Ledger
  cursor : Option Int
  received : List DeliveryEvent

variable (projectId agentId : Int)

/-- The viewer sees the events of the ledger in the later tables exactly as in the earlier ones. -/
def FixedVisibility (ledger : Ledger) (M M' : Mailbox) : Prop :=
  ∀ e ∈ ledger.rows, isDeliverable M' projectId agentId e = isDeliverable M projectId agentId e

/-- Other transactions append events, or the monitor asks for the page after its cursor. -/
inductive MonitorStep : Monitor → Monitor → Prop
  | append {c : Monitor} (M : Mailbox) (ledger : Ledger) (rows : List EventRow)
      (grown : ledger.rows = c.ledger.rows ++ rows)
      (fixed : FixedVisibility projectId agentId c.ledger c.mailbox M) :
      MonitorStep c { c with mailbox := M, ledger := ledger }
  | poll {c : Monitor} (limit : Nat) (page : DeliveryPage)
      (answer : inboxDeliveryEvents c.mailbox projectId agentId c.ledger c.cursor limit = .ok page) :
      MonitorStep c { c with cursor := some page.nextCursor, received := c.received ++ page.events }

/-- What a monitor started at `start` knows at every moment. -/
structure Monitor.Consistent (start : Option Int) (c : Monitor) : Prop where
  forward : start.getD 0 ≤ c.cursor.getD 0
  behind : c.cursor.getD 0 ≤ tailCursor projectId agentId c.ledger
  read : c.received.map (·.seq) = Cursor.range (start.getD 0) (c.cursor.getD 0)
    (due c.mailbox projectId agentId c.ledger)

variable {projectId agentId} {start : Option Int} {c c' : Monitor}

theorem consistent_initial {M : Mailbox} {ledger : Ledger}
    (h : Accepted projectId agentId ledger start) :
    Monitor.Consistent projectId agentId start ⟨M, ledger, start, []⟩ where
  forward := le_refl _
  behind := le_tailCursor_of_accepted h
  read := Cursor.range_self.symm

/-- Appended events lie above every cursor that a monitor can hold. -/
theorem consistent_append (h : Monitor.Consistent projectId agentId start c) {M : Mailbox}
    {ledger : Ledger} {rows : List EventRow} (grown : ledger.rows = c.ledger.rows ++ rows)
    (fixed : FixedVisibility projectId agentId c.ledger c.mailbox M) :
    Monitor.Consistent projectId agentId start { c with mailbox := M, ledger := ledger } := by
  have hsorted := ledger.sorted
  rw [grown, pairwise_append] at hsorted
  have hnew (e : EventRow) (he : e ∈ rows) : c.cursor.getD 0 < e.seq := by
    have hpositive := ledger.positive e (by rw [grown]; exact mem_append_right _ he)
    have hbehind := h.behind
    rcases @tailCursor_cases projectId agentId c.ledger with hzero | ⟨old, hold, -, htail⟩
    · omega
    · have := hsorted.2.2 old hold e he
      omega
  have hdue : due M projectId agentId ledger = due c.mailbox projectId agentId c.ledger ++
      (rows.filter (isDeliverable M projectId agentId)).map (·.seq) := by
    rw [due, grown, filter_append, map_append, filter_congr fixed, ← due]
  constructor
  · exact h.forward
  · apply le_trans h.behind
    show tailCursor projectId agentId c.ledger ≤ tailCursor projectId agentId ledger
    rcases @tailCursor_cases projectId agentId c.ledger with hzero | ⟨old, hold, hscope, htail⟩
    · rw [hzero]
      exact tailCursor_nonneg
    · rw [← htail]
      exact le_tailCursor (by rw [grown]; exact mem_append_left _ hold) hscope
  · show c.received.map (·.seq) = Cursor.range _ _ (due M projectId agentId ledger)
    rw [hdue, Cursor.range_append_of_above, h.read]
    intro q hq
    obtain ⟨e, he, rfl⟩ := mem_map.mp hq
    exact hnew e (mem_filter.mp he).1

theorem consistent_poll (h : Monitor.Consistent projectId agentId start c) {limit : Nat}
    (answer : inboxDeliveryEvents c.mailbox projectId agentId c.ledger c.cursor limit = .ok page) :
    Monitor.Consistent projectId agentId start
      { c with cursor := some page.nextCursor, received := c.received ++ page.events } := by
  have hlimit : 1 ≤ limit := (inboxDeliveryEvents_eq_ok.mp answer).1.1
  obtain ⟨hevents, hnext, -, -⟩ := page_spec answer
  rw [hevents] at hnext
  have hforward : c.cursor.getD 0 ≤ page.nextCursor := by
    rw [hnext]
    exact Cursor.le_next
  constructor
  · exact le_trans h.forward hforward
  · show page.nextCursor ≤ _
    rw [hnext]
    rcases @Cursor.next_mem Int _ (due c.mailbox projectId agentId c.ledger) (c.cursor.getD 0) limit
      with hsame | hmem
    · rw [hsame]
      exact h.behind
    · obtain ⟨e, he, hscope, hseq⟩ := exists_of_mem_due hmem
      rw [← hseq]
      exact le_tailCursor he hscope
  · show (c.received ++ page.events).map (·.seq) = Cursor.range _ page.nextCursor _
    rw [map_append, h.read, hevents, (Cursor.take_above hlimit due_pairwise).1, ← hnext]
    exact Cursor.range_append_range due_pairwise h.forward hforward

theorem consistent_step (hstep : MonitorStep projectId agentId c c')
    (h : Monitor.Consistent projectId agentId start c) :
    Monitor.Consistent projectId agentId start c' := by
  cases hstep with
  | append M ledger rows grown fixed => exact consistent_append h grown fixed
  | poll limit page answer => exact consistent_poll h answer

theorem consistent_run (hrun : Relation.ReflTransGen (MonitorStep projectId agentId) c c')
    (h : Monitor.Consistent projectId agentId start c) :
    Monitor.Consistent projectId agentId start c' := by
  induction hrun with
  | refl => exact h
  | tail _ hstep ih => exact consistent_step hstep ih

/-- A monitor that has received something has not expired. -/
theorem received_of_expired (h : Monitor.Consistent projectId agentId start c)
    (hexpired : Expired projectId agentId c.ledger c.cursor) : c.received = [] := by
  obtain ⟨after, oldest, hcursor, holdest, -, hbefore⟩ := hexpired
  have hread := h.read
  rw [hcursor, Option.getD_some] at hread
  rw [← map_eq_nil_iff (f := (·.seq)), hread, eq_nil_iff_forall_not_mem]
  intro q hq
  rw [Cursor.mem_range] at hq
  obtain ⟨e, he, hscope, hseq⟩ := exists_of_mem_due hq.1
  have := oldestCursor_le he hscope holdest
  omega

/-- The next call of a consistent monitor is refused only for expiry. -/
theorem consistent_check (h : Monitor.Consistent projectId agentId start c) :
    (Accepted projectId agentId c.ledger c.cursor ∧ ¬ Expired projectId agentId c.ledger c.cursor) ∨
      (∃ oldest, c.cursor.elim (.ok ()) (checkCursor projectId agentId c.ledger) =
          .error (.cursorExpired (c.cursor.getD 0) oldest) ∧
        Expired projectId agentId c.ledger c.cursor) := by
  have hbehind := h.behind
  unfold Accepted
  cases hcursor : c.cursor with
  | none =>
    refine .inl ⟨rfl, ?_⟩
    rintro ⟨_, _, hnone, -⟩
    cases hnone
  | some after =>
    rw [hcursor] at hbehind
    exact checkCursor_of_le_tail hbehind

/-- More events are announced exactly when some are left, and then the page is full. -/
theorem hasMore_iff {M : Mailbox} {ledger : Ledger} {limit : Nat}
    (answer : inboxDeliveryEvents M projectId agentId ledger after limit = .ok page) :
    (page.hasMore = true ↔ ∃ q ∈ due M projectId agentId ledger, page.nextCursor < q) ∧
      (page.hasMore = true → page.events.length = limit) := by
  have hlimit : 1 ≤ limit := (inboxDeliveryEvents_eq_ok.mp answer).1.1
  obtain ⟨hevents, hnext, hmore, -⟩ := page_spec answer
  rw [hevents] at hnext
  have hleft := (@Cursor.take_above Int _ _ (after.getD 0) limit hlimit
    (@due_pairwise M projectId agentId ledger)).2
  rw [← hnext] at hleft
  rw [hmore, decide_eq_true_eq]
  constructor
  · calc limit < (Cursor.above (after.getD 0) (due M projectId agentId ledger)).length
        ↔ 0 < (Cursor.above page.nextCursor (due M projectId agentId ledger)).length := by
          rw [← hleft, length_drop]
          omega
      _ ↔ ∃ q, q ∈ Cursor.above page.nextCursor (due M projectId agentId ledger) :=
          length_pos_iff_exists_mem
      _ ↔ ∃ q ∈ due M projectId agentId ledger, page.nextCursor < q := by
          simp only [Cursor.mem_above]
  · intro hfull
    rw [← length_map (f := (·.seq)), hevents, length_take]
    omega

/-- In every run, a monitor has received the events between its start and its cursor, each once
and in order. A further call continues this, and reports more events exactly when some remain,
unless the monitor has received nothing and retention has overtaken its start. -/
theorem monitor_receives {M₀ : Mailbox} {ledger₀ : Ledger}
    (hstart : Accepted projectId agentId ledger₀ start)
    (hrun : Relation.ReflTransGen (MonitorStep projectId agentId) ⟨M₀, ledger₀, start, []⟩ c) :
    (c.received.map (·.seq)).Pairwise (· < ·) ∧
    c.received.map (·.seq) = Cursor.range (start.getD 0) (c.cursor.getD 0)
      (due c.mailbox projectId agentId c.ledger) ∧
    ∀ limit : Nat, 1 ≤ limit → (limit : Int) < i64Max →
      (Expired projectId agentId c.ledger c.cursor ∧ c.received = [] ∧
        ∃ oldest, inboxDeliveryEvents c.mailbox projectId agentId c.ledger c.cursor limit =
          .error (.cursorExpired (c.cursor.getD 0) oldest)) ∨
      (¬ Expired projectId agentId c.ledger c.cursor ∧
        ∃ page, inboxDeliveryEvents c.mailbox projectId agentId c.ledger c.cursor limit = .ok page ∧
          (c.received ++ page.events).map (·.seq) = Cursor.range (start.getD 0) page.nextCursor
            (due c.mailbox projectId agentId c.ledger) ∧ (page.hasMore = true ↔
            ∃ q ∈ due c.mailbox projectId agentId c.ledger, page.nextCursor < q) ∧
          (page.hasMore = true → page.events.length = limit) ∧
          page.nextCursor ≤ page.tailCursor) := by
  have h := consistent_run hrun (consistent_initial hstart)
  refine ⟨?_, h.read, ?_⟩
  · rw [h.read]
    exact due_pairwise.sublist filter_sublist
  intro limit hpos hmax
  rcases consistent_check h with ⟨haccepted, hlive⟩ | ⟨oldest, hcheck, hexpired⟩
  · right
    obtain ⟨page, answer⟩ : ∃ page,
        inboxDeliveryEvents c.mailbox projectId agentId c.ledger c.cursor limit = .ok page :=
      ⟨_, inboxDeliveryEvents_eq_ok.mpr ⟨⟨hpos, hmax⟩, haccepted, rfl⟩⟩
    have hpoll := consistent_poll h answer
    obtain ⟨hmore, hfull⟩ := hasMore_iff answer
    refine ⟨hlive, page, answer, hpoll.read, hmore, hfull, ?_⟩
    rw [(page_spec answer).2.2.2]
    exact hpoll.behind
  · left
    refine ⟨hexpired, received_of_expired h hexpired, oldest, ?_⟩
    unfold inboxDeliveryEvents
    rw [if_neg (by omega), if_neg (by unfold usizeMax; unfold i64Max at hmax; omega),
      if_neg (by omega), hcheck]

end

/-! ### Runs on a small ledger -/

section

def sampleLedger : Ledger where
  rows := [
    { seq := 1, projectId := 1, agentId := none, messageId := 1, kind := "project", deliveredTs := 10 },
    { seq := 2, projectId := 1, agentId := some 2, messageId := 2, kind := "to", deliveredTs := 11 }]
  sorted := by decide
  positive := by decide

def sampleEvent : DeliveryEvent :=
  { seq := 1, messageId := 1, kind := "project", deliveredTs := 10, subject := "all",
    senderName := "RedStone", importance := "normal", ackRequired := false }

theorem sample_page :
    inboxDeliveryEvents sampleMailbox 1 2 sampleLedger none 1 =
      .ok { events := [sampleEvent], nextCursor := 1, hasMore := true,
            oldestAvailableCursor := some 1, tailCursor := 2 } :=
  inboxDeliveryEvents_eq_ok.mpr ⟨by decide, rfl, by decide +kernel⟩

theorem monitor_receives_project_event :
    Accepted 1 2 sampleLedger none ∧
    [sampleEvent].map (·.seq) = Cursor.range 0 1 (due sampleMailbox 1 2 sampleLedger) := by
  have hstart : Accepted 1 2 sampleLedger none := rfl
  have hpoll := MonitorStep.poll (c := ⟨sampleMailbox, sampleLedger, none, []⟩) 1 _ sample_page
  have hrun := Relation.ReflTransGen.single hpoll
  exact ⟨hstart, (monitor_receives hstart hrun).2.1⟩

/-- Retention has left a ledger whose first event is another agent's. -/
def prunedLedger : Ledger where
  rows := [
    { seq := 5, projectId := 1, agentId := some 9, messageId := 1, kind := "to", deliveredTs := 10 }]
  sorted := by decide
  positive := by decide

/-- `prunedLedger` after agent 2 is sent its first message. -/
def prunedLedgerGrown : Ledger where
  rows := prunedLedger.rows ++ [
    { seq := 6, projectId := 1, agentId := some 2, messageId := 2, kind := "to", deliveredTs := 11 }]
  sorted := by decide
  positive := by decide

/-- A direct event whose message is gone. -/
def orphanLedger : Ledger where
  rows := [
    { seq := 1, projectId := 1, agentId := some 2, messageId := 7, kind := "to", deliveredTs := 10 }]
  sorted := by decide
  positive := by decide

theorem pruned_page :
    inboxDeliveryEvents sampleMailbox 1 2 prunedLedger (some 0) 1 =
      .ok { events := [], nextCursor := 0, hasMore := false, oldestAvailableCursor := none,
            tailCursor := 0 } :=
  inboxDeliveryEvents_eq_ok.mpr ⟨by decide, rfl, by decide +kernel⟩

/-- A cursor accepted on an empty inbox is refused once the first direct event arrives, when
retention has removed rows; a direct event without a message is never delivered; and a limit of
`i64::MAX` leaves no room for the probe. -/
theorem monitor_misses_events :
    (Relation.ReflTransGen (MonitorStep 1 2) ⟨sampleMailbox, prunedLedger, some 0, []⟩
        ⟨sampleMailbox, prunedLedgerGrown, some 0, []⟩ ∧ Accepted 1 2 prunedLedger (some 0) ∧
      6 ∈ due sampleMailbox 1 2 prunedLedgerGrown ∧
      inboxDeliveryEvents sampleMailbox 1 2 prunedLedgerGrown (some 0) 1 =
        .error (.cursorExpired 0 6)) ∧ (orphanLedger.rows.any (isDirect 1 2) = true ∧
      inboxDeliveryEvents sampleMailbox 1 2 orphanLedger none 1 =
        .ok { events := [], nextCursor := 0, hasMore := false, oldestAvailableCursor := some 1,
              tailCursor := 1 }) ∧
    inboxDeliveryEvents sampleMailbox 1 2 sampleLedger none (2 ^ 63 - 1) =
      .error (.database (.invalidArgument "limit" "inbox event limit exceeds i64::MAX")) := by
  have hpoll := MonitorStep.poll (c := ⟨sampleMailbox, prunedLedger, some 0, []⟩) 1 _ pruned_page
  have happend : MonitorStep 1 2 ⟨sampleMailbox, prunedLedger, some 0, []⟩
      ⟨sampleMailbox, prunedLedgerGrown, some 0, []⟩ :=
    .append sampleMailbox prunedLedgerGrown _ rfl (fun _ _ => rfl)
  refine ⟨⟨?_, rfl, by decide +kernel, rfl⟩, ⟨by decide +kernel, ?_⟩, rfl⟩
  · exact (Relation.ReflTransGen.single hpoll).tail happend
  · exact inboxDeliveryEvents_eq_ok.mpr ⟨by decide, rfl, by decide +kernel⟩

end

end AgentMail.Inbox
