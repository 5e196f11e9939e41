import AgentMail.Search.SearchPlanner

/-!
# What a search asks of a row

The meaning of a query, row by row and field by field, without statements and placeholders. The rows
that a plan admits are the rows that fulfil what the query asks, within its scope.
-/

namespace AgentMail.Search

open Base Lib Lib.Placeholders List

/-! ### The meaning of a query -/

/-- The text contains the needle, up to ASCII letter case. -/
def containsText (needle t : Text) : Bool := decide (fold true needle <:+: fold true t)

/-- The texts of a message that a condition may look into. -/
def TextColumns.texts (m : Message) : TextColumns → List Text
  | subject => [m.subject]
  | body => [m.bodyMd]
  | subjectAndBody => [m.subject, m.bodyMd]

/-- One text condition. -/
def LikeCondition.asks (c : LikeCondition) (m : Message) : Bool :=
  ((c.columns.texts m).any (containsText c.needle)).xor c.negated

/-- The free text. -/
def asksText (q : SearchQuery) (m : Message) : Bool :=
  q.text.isEmpty || (likeConditions q.text q.textFields.columns 5).all (·.asks m)

/-- The project, or the product of the joined link. -/
def asksProject (q : SearchQuery) (r : MessageRow) : Bool :=
  match q.projectId, q.productId with
  | some pid, _ => decide (r.message.projectId = pid)
  | none, some prodId => r.link.any fun l => decide (l.productId = prodId)
  | none, none => true

def asksThread (q : SearchQuery) (m : Message) : Bool :=
  q.threadId.all fun thread => decide (m.threadId = some thread) ||
    decide (((parseI64 thread).bind toI64) = some m.id)

def asksAck (q : SearchQuery) (m : Message) : Bool :=
  q.ackRequired.all fun ack => decide (m.ackRequired.1 = if ack then 1 else 0)

def asksTime (q : SearchQuery) (m : Message) : Bool :=
  (q.timeRange.minTs.all fun low => decide (low.1 ≤ m.createdTs.1)) &&
    q.timeRange.maxTs.all fun high => decide (m.createdTs.1 ≤ high.1)

/-- The sender has the name, up to ASCII letter case. -/
def sentBy (agent : Text) (r : MessageRow) : Bool :=
  r.sender.any fun a => eqIgnoreAsciiCase a.name agent

/-- The envelope names the agent. -/
def addressedTo (agent : Text) (m : Message) : Bool := instrLower m.recipientsJson (jsonString agent)

def asksAgent (q : SearchQuery) (r : MessageRow) : Bool :=
  q.agentName.all fun agent =>
    match q.direction with
    | some .outbox => sentBy agent r
    | some .inbox => addressedTo agent r.message
    | none => sentBy agent r || addressedTo agent r.message

/-- The row stands after the one the cursor was made from. -/
def afterCursor (q : SearchQuery) (r : PlanRow) : Bool :=
  (q.cursor.bind SearchCursor.decode).all fun cursor =>
    let afterKey (negated : Bool) := cursor.score.lt' (r.timeKey negated) ||
      ((r.timeKey negated).eq' cursor.score && decide (cursor.id.1 < r.id.1))
    match q.ranking with
    | .recency => afterKey true
    | .oldest => afterKey false
    | .relevance => decide (cursor.id.1 < r.id.1)

/-- What a query asks of a message, apart from its scope and its cursor. -/
def asksMessage (q : SearchQuery) (r : MessageRow) : Bool :=
  asksText q r.message && asksProject q r &&
    (q.importance.isEmpty || decide (r.message.importance ∈ q.importance.map Importance.asStr)) &&
    asksThread q r.message && asksAck q r.message && asksTime q r.message && asksAgent q r

/-- What a query asks of two texts of an agent or project. -/
def asksTerms (q : SearchQuery) (first second : Text) : Bool :=
  (extractLikeTerms q.text 5).all fun term => containsText term first || containsText term second

/-- Whether there is anything to search for. -/
def searches (q : SearchQuery) : Bool :=
  match q.docKind with
  | .message | .thread => decide (messageMethod q ≠ .empty)
  | .agent | .project => decide (entityMethod q ≠ .empty)

/-- What a query asks of a row, apart from its scope. -/
def asks (q : SearchQuery) : PlanRow → Bool
  | .message r => asksMessage q r && afterCursor q (.message r)
  | .agent a => asksTerms q a.name a.taskDescription && q.projectId.all fun pid =>
      decide (a.projectId = pid)
  | .project p => asksTerms q p.slug p.humanKey
  | .constants => false

/-- The rows that a query is about. -/
def queriedRows (D : Tables) (q : SearchQuery) : List PlanRow :=
  if searches q then
    match q.docKind with
    | .message | .thread => (Source.messages (q.projectId.isNone && q.productId.isSome)).rows D
    | .agent => Source.agents.rows D
    | .project => Source.projects.rows D
  else []

/-- The scope as the planners enforce it. -/
def scopeAdmits (scope : ScopePolicy) (r : PlanRow) : Bool :=
  match scope with
  | .projectSet allowed => allowed.isEmpty || decide (r.projectId ∈ allowed)
  | _ => true

/-! ### Plans have that meaning -/

/-- The condition of a piece, with its own parameters. -/
def Piece.holds (p : Piece) (r : PlanRow) : Bool := p.pushed.holds PlanTest.test r

section

variable {q : SearchQuery} {r : PlanRow} {mr : MessageRow}

theorem likeAny_holds {columns : List Column} {needle : Text}
    {texts : List Text} (h : columns.map r.cell = texts.map SqlValue.text) :
    (likeAny columns needle).holds PlanTest.test r = texts.any (containsText needle) := by
  have hcell (column : Column) (t : Text) (hc : r.cell column = .text t) :
      (Pushed.atom (PlanTest.like column) [.text (likePattern needle)] rfl :
        Pushed PlanTest.arity PlanParam).holds PlanTest.test r = containsText needle t := by
    rw [Pushed.holds_atom]
    simp only [PlanTest.test, hc]
    rw [Bool.eq_iff_iff, like_likePattern, containsText, decide_eq_true_eq]
  rw [likeAny, Pushed.holds_any]
  induction columns generalizing texts with
  | nil =>
    rw [map_nil, eq_comm, map_eq_nil_iff] at h
    rw [h]
    rfl
  | cons column columns ih =>
    cases texts with
    | nil => cases h
    | cons t texts =>
      rw [map_cons, map_cons, List.cons.injEq] at h
      rw [map_cons, any_cons, any_cons, hcell column t h.1, ih h.2]

theorem textPieces_holds : (textPieces q).all (·.holds (.message mr)) =
    (likeConditions q.text q.textFields.columns 5).all (·.asks mr.message) := by
  have hpart (c : LikeCondition) :
      (if c.negated then (likeAny c.columns.columns c.needle).not
        else likeAny c.columns.columns c.needle).holds PlanTest.test (.message mr) =
      c.asks mr.message := by
    have hcolumns : c.columns.columns.map (PlanRow.message mr).cell =
        (c.columns.texts mr.message).map SqlValue.text := by
      cases c.columns <;> rfl
    rw [LikeCondition.asks]
    cases c.negated with
    | false => rw [if_neg Bool.false_ne_true, likeAny_holds hcolumns, Bool.xor_false]
    | true => rw [if_pos rfl, Pushed.holds_not, likeAny_holds hcolumns, Bool.xor_true]
  have hparts : ((likeParts q).all fun p => p.holds PlanTest.test (.message mr)) =
      (likeConditions q.text q.textFields.columns 5).all (·.asks mr.message) := by
    rw [likeParts, all_map]
    exact congrArg _ (funext hpart)
  unfold textPieces
  split
  · next h =>
    rw [← hparts, List.isEmpty_iff.mp h]
    rfl
  · rw [all_cons, all_nil, Bool.and_true, Piece.holds, Pushed.holds_all, hparts]

theorem equalsPiece_holds {column : Column} {p : PlanParam} {facet : Text} :
    (equalsPiece column p facet).holds r = (r.cell column).equalsParam p := by
  rw [Piece.holds, equalsPiece, Pushed.holds_atom]
  rfl

theorem projectPieces_holds : (projectPieces q).all (·.holds (.message mr)) = asksProject q mr := by
  unfold projectPieces asksProject
  cases q.projectId with
  | some pid =>
    rw [all_cons, all_nil, Bool.and_true, equalsPiece_holds]
    rfl
  | none =>
    cases q.productId with
    | none => rfl
    | some prodId =>
      rw [all_cons, all_nil, Bool.and_true, equalsPiece_holds]
      simp only [PlanRow.cell]
      cases mr.link <;> rfl

theorem any_equalsParam_int {ids : List I64} {n : I64} :
    (ids.map PlanParam.int).any (SqlValue.int n).equalsParam = decide (n ∈ ids) := by
  rw [Bool.eq_iff_iff, any_map, any_eq_true, decide_eq_true_eq]
  simp only [Function.comp_apply, SqlValue.equalsParam, decide_eq_true_eq, exists_eq_right']

theorem scopePieces_holds {column : Column} {scope : ScopePolicy}
    (hcolumn : r.cell column = .int r.projectId) :
    (scopePieces column scope).all (·.holds r) = scopeAdmits scope r := by
  unfold scopePieces scopeAdmits
  cases scope with
  | unrestricted => rfl
  | callerScoped _ => rfl
  | projectSet allowed =>
    dsimp only
    by_cases h : allowed.isEmpty
    · rw [if_pos h, h, Bool.true_or]
      rfl
    · rw [if_neg h, all_cons, all_nil, Bool.and_true, Piece.holds, Pushed.holds_atom,
        Bool.eq_false_of_not_eq_true h, Bool.false_or]
      change (allowed.map PlanParam.int).any (r.cell column).equalsParam = _
      rw [hcolumn, any_equalsParam_int]

theorem importancePieces_holds : (importancePieces q).all (·.holds (.message mr)) =
    (q.importance.isEmpty || decide (mr.message.importance ∈ q.importance.map Importance.asStr)) := by
  unfold importancePieces
  by_cases h : q.importance.isEmpty
  · rw [if_pos h, h, Bool.true_or]
    rfl
  · rw [if_neg h, all_cons, all_nil, Bool.and_true, Piece.holds, Pushed.holds_atom,
      Bool.eq_false_of_not_eq_true h, Bool.false_or]
    change (q.importance.map fun imp => PlanParam.text imp.asStr).any
      (SqlValue.text mr.message.importance).equalsParam = _
    rw [Bool.eq_iff_iff, any_map, any_eq_true, decide_eq_true_eq, mem_map]
    simp only [Function.comp_apply, SqlValue.equalsParam, decide_eq_true_eq]
    exact exists_congr fun imp => and_congr_right fun _ => eq_comm

theorem threadPieces_holds :
    (threadPieces q).all (·.holds (.message mr)) = asksThread q mr.message := by
  have hthread (thread : Text) :
      ((PlanRow.message mr).cell .mThreadId).equalsParam (.text thread) =
        decide (mr.message.threadId = some thread) := by
    simp only [PlanRow.cell]
    cases mr.message.threadId with
    | none => rfl
    | some t => simp [SqlValue.equalsParam]
  unfold threadPieces asksThread
  cases q.threadId with
  | none => rfl
  | some thread =>
    dsimp only [Option.all_some]
    cases hroot : (parseI64 thread).bind toI64 with
    | none =>
      dsimp only
      rw [all_cons, all_nil, Bool.and_true, equalsPiece_holds, hthread]
      simp
    | some rootId =>
      dsimp only
      rw [all_cons, all_nil, Bool.and_true, Piece.holds, Pushed.holds_any]
      simp only [any_cons, any_nil, Bool.or_false, Pushed.holds_atom]
      change (((PlanRow.message mr).cell .mThreadId).equalsParam (.text thread) ||
        (SqlValue.int mr.message.id).equalsParam (.int rootId)) = _
      rw [hthread, SqlValue.equalsParam]
      simp only [Option.some_inj, eq_comm]

theorem ackPieces_holds : (ackPieces q).all (·.holds (.message mr)) = asksAck q mr.message := by
  unfold ackPieces asksAck
  cases q.ackRequired with
  | none => rfl
  | some ack =>
    dsimp only [Option.all_some]
    rw [all_cons, all_nil, Bool.and_true, equalsPiece_holds]
    change decide (mr.message.ackRequired = _) = _
    rw [decide_eq_decide, Subtype.ext_iff]
    cases ack <;> rfl

theorem timePieces_holds : (timePieces q).all (·.holds (.message mr)) = asksTime q mr.message := by
  unfold timePieces asksTime
  rw [all_append]
  cases q.timeRange.minTs <;> cases q.timeRange.maxTs <;>
    simp [Piece.holds, PlanTest.test, PlanRow.cell]

theorem senderNamed_holds {agent : Text} :
    (senderNamed agent).holds PlanTest.test (.message mr) = sentBy agent mr := by
  rw [senderNamed, Pushed.holds_atom, sentBy]
  simp only [PlanTest.test, PlanRow.cell]
  cases mr.sender <;> rfl

theorem recipientNamed_holds {agent : Text} :
    (recipientNamed agent).holds PlanTest.test (.message mr) = addressedTo agent mr.message := by
  rw [recipientNamed, Pushed.holds_atom]
  rfl

theorem agentPieces_holds : (agentPieces q).all (·.holds (.message mr)) = asksAgent q mr := by
  unfold agentPieces asksAgent
  cases q.agentName with
  | none =>
    cases q.direction with
    | none => rfl
    | some direction => cases direction <;> rfl
  | some agent =>
    dsimp only [Option.all_some]
    cases q.direction with
    | none =>
      dsimp only
      rw [all_cons, all_nil, Bool.and_true, Piece.holds, Pushed.holds_any]
      simp only [any_cons, any_nil, Bool.or_false, senderNamed_holds, recipientNamed_holds]
    | some direction =>
      cases direction with
      | inbox =>
        dsimp only
        rw [all_cons, all_nil, Bool.and_true, Piece.holds, recipientNamed_holds]
      | outbox =>
        dsimp only
        rw [all_cons, all_nil, Bool.and_true, Piece.holds, senderNamed_holds]

theorem afterKey_holds {negated : Bool} {cursor : SearchCursor} :
    (afterKey negated cursor).holds PlanTest.test r = (cursor.score.lt' (r.timeKey negated) ||
      ((r.timeKey negated).eq' cursor.score && decide (cursor.id.1 < r.id.1))) := by
  rw [afterKey, Pushed.holds_any]
  simp only [any_cons, any_nil, Bool.or_false, Pushed.holds_atom, Pushed.holds_all,
    all_cons, all_nil, Bool.and_true]
  rfl

theorem cursorPieces_holds : (cursorPieces q).all (·.holds r) = afterCursor q r := by
  unfold cursorPieces afterCursor
  cases q.cursor.bind SearchCursor.decode with
  | none => rfl
  | some cursor =>
    dsimp only [Option.all_some]
    cases q.ranking <;> dsimp only <;> rw [all_cons, all_nil, Bool.and_true, Piece.holds]
    · rw [Pushed.holds_atom]
      rfl
    · exact afterKey_holds
    · exact afterKey_holds

/-- The pieces of a message search ask what the query asks, within the scope. -/
theorem messagePieces_holds (h : messageMethod q ≠ .empty) :
    (messagePieces q).all (·.holds (.message mr)) =
      (asks q (.message mr) && scopeAdmits q.scope (.message mr)) := by
  have htext : (if messageMethod q = .like then textPieces q else []).all
      (·.holds (.message mr)) = asksText q mr.message := by
    unfold asksText
    have hmethod : messageMethod q = .like ↔ q.text.isEmpty = false := by
      unfold messageMethod at h ⊢
      grind
    cases hempty : q.text.isEmpty with
    | true =>
      rw [if_neg, Bool.true_or]
      · rfl
      · rw [hmethod, hempty]
        exact Bool.noConfusion
    | false => rw [if_pos (hmethod.mpr hempty), textPieces_holds, Bool.false_or]
  have hscope : (scopePieces .mProjectId q.scope).all (·.holds (.message mr)) =
      scopeAdmits q.scope (.message mr) := scopePieces_holds rfl
  unfold messagePieces
  simp only [all_append, htext, projectPieces_holds, hscope, importancePieces_holds, threadPieces_holds, ackPieces_holds,
    timePieces_holds, agentPieces_holds, cursorPieces_holds, asks, asksMessage]
  ac_rfl

theorem termsPiece_holds {first second : Column} {a b : Text}
    (ha : r.cell first = .text a) (hb : r.cell second = .text b) :
    (termsPiece first second q).holds r = asksTerms q a b := by
  rw [Piece.holds, termsPiece, Pushed.holds_all, all_map, asksTerms]
  refine congrArg _ (funext fun term => ?_)
  have htexts : [first, second].map r.cell = [a, b].map SqlValue.text := by
    rw [map_cons, map_cons, ha, hb]
    rfl
  rw [Function.comp_apply, likeAny_holds htexts]
  simp

theorem agentProjectPieces_holds {a : Agent} : (agentProjectPieces q).all (·.holds (.agent a)) =
    q.projectId.all fun pid => decide (a.projectId = pid) := by
  unfold agentProjectPieces
  cases q.projectId with
  | none => rfl
  | some pid =>
    rw [Option.toList_some, map_singleton, all_cons, all_nil, Bool.and_true, equalsPiece_holds]
    rfl

end

section

variable {D : Tables} {q : SearchQuery}

/-- The `WHERE` of an assembled plan is the conjunction of its pieces, each with its own
parameters. -/
theorem admitted_assemble {source : Source} {order : PlanOrder} {method : PlanMethod}
    {pieces : List Piece} {enforced : Bool} :
    (assemble q source order method pieces enforced).admitted D =
      (source.rows D).filter fun r => pieces.all (·.holds r) := by
  apply filter_congr
  intro r _
  have hlength : (Cond.all (Pushed.clauses (pieces.map (·.pushed)))).placeholders PlanTest.arity ≤
      (Pushed.allParams (pieces.map (·.pushed))).length := by
    rw [Pushed.length_allParams]
  change (Cond.all (Pushed.clauses (pieces.map (·.pushed)))).eval PlanTest.arity PlanTest.test
    (Pushed.allParams (pieces.map (·.pushed)) ++ [limitParam q]) r = _
  rw [Cond.eval_append _ hlength, Pushed.eval_all, all_map]
  rfl

/-- The statement that stands in for an empty plan admits nothing either. -/
theorem admitted_hostile (plan : SearchPlan) (hostile : Bool) :
    (if plan.method = .empty && plan.sql.isNone && hostile then
      { plan with sql := some emptyPlanSql } else plan : SearchPlan).admitted D = plan.admitted D := by
  split
  · next h =>
    rw [Bool.and_eq_true, Bool.and_eq_true, Option.isNone_iff_eq_none] at h
    conv =>
      rhs
      rw [SearchPlan.admitted, h.1.2]
    rfl
  · rfl

/-- The rows a message source offers are messages. -/
theorem eq_message_of_mem {product : Bool} {r : PlanRow} (h : r ∈ (Source.messages product).rows D) :
    ∃ mr, r = .message mr := by
  cases product with
  | false =>
    obtain ⟨m, -, rfl⟩ := mem_map.mp h
    exact ⟨_, rfl⟩
  | true =>
    obtain ⟨m, -, hlink⟩ := mem_flatMap.mp h
    obtain ⟨l, -, rfl⟩ := mem_map.mp hlink
    exact ⟨_, rfl⟩

theorem admitted_planMessageSearch : (planMessageSearch q).admitted D =
    if messageMethod q = .empty then [] else
      ((Source.messages (q.projectId.isNone && q.productId.isSome)).rows D).filter fun r =>
        asks q r && scopeAdmits q.scope r := by
  unfold planMessageSearch
  by_cases h : messageMethod q = .empty
  · rw [if_pos h, if_pos h]
    rfl
  rw [if_neg h, if_neg h, admitted_assemble]
  apply filter_congr
  intro r hr
  obtain ⟨mr, rfl⟩ := eq_message_of_mem hr
  exact messagePieces_holds h

theorem admitted_planAgentSearch : (planAgentSearch q).admitted D =
    if entityMethod q = .empty then [] else
      (Source.agents.rows D).filter fun r => asks q r && scopeAdmits q.scope r := by
  unfold planAgentSearch
  by_cases h : entityMethod q = .empty
  · rw [if_pos h, if_pos h]
    rfl
  rw [if_neg h, if_neg h, admitted_assemble]
  apply filter_congr
  intro r hr
  obtain ⟨a, -, rfl⟩ := mem_map.mp hr
  rw [all_append, all_cons, termsPiece_holds rfl rfl, agentProjectPieces_holds,
    scopePieces_holds rfl]
  rfl

theorem admitted_planProjectSearch : (planProjectSearch q).admitted D =
    if entityMethod q = .empty then [] else
      (Source.projects.rows D).filter fun r => asks q r && scopeAdmits q.scope r := by
  unfold planProjectSearch
  by_cases h : entityMethod q = .empty
  · rw [if_pos h, if_pos h]
    rfl
  rw [if_neg h, if_neg h, admitted_assemble]
  apply filter_congr
  intro r hr
  obtain ⟨p, -, rfl⟩ := mem_map.mp hr
  rw [all_cons, termsPiece_holds rfl rfl, scopePieces_holds rfl]
  rfl

/-- The rows that a plan admits are those that fulfil what the query asks, within its scope. -/
theorem admitted_planSearch : (planSearch q).admitted D =
    (queriedRows D q).filter fun r => asks q r && scopeAdmits q.scope r := by
  have hnil (c : Prop) [Decidable c] (rows : List PlanRow) (p : PlanRow → Bool) :
      (if c then [] else rows.filter p) = (if decide (¬ c) then rows else []).filter p := by
    by_cases h : c <;> simp [h]
  unfold planSearch
  rw [admitted_hostile, queriedRows, searches]
  cases q.docKind with
  | message | thread =>
    dsimp only
    rw [admitted_planMessageSearch, hnil]
  | agent =>
    dsimp only
    rw [admitted_planAgentSearch, hnil]
  | project =>
    dsimp only
    rw [admitted_planProjectSearch, hnil]

end

end AgentMail.Search
