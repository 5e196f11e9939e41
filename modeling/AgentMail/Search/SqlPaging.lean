import AgentMail.Lib.Keyset
import AgentMail.Search.SqlSearch

/-!
# Paging through a search by SQL

The order clause, the score that a token carries, the decoded token and the condition it becomes are
four descriptions of one order. Paging through a query lists its rows once each, in that order.
-/

namespace AgentMail.Search

open Base Lib List Binary64

/-! ### The order of rows -/

/-- The second row stands after the first. -/
def PlanOrder.after : PlanOrder → PlanRow → PlanRow → Bool
  | createdDesc, a, r => decide (r.createdTs.1 < a.createdTs.1) ||
      (decide (r.createdTs.1 = a.createdTs.1) && decide (a.id.1 < r.id.1))
  | createdAsc, a, r => decide (a.createdTs.1 < r.createdTs.1) ||
      (decide (r.createdTs.1 = a.createdTs.1) && decide (a.id.1 < r.id.1))
  | score, a, r => decide (a.id.1 < r.id.1)
  | id, a, r => decide (a.id.1 < r.id.1)

section

variable {order : PlanOrder} {r s t : PlanRow}

theorem after_self (order : PlanOrder) (r : PlanRow) : order.after r r = false := by
  cases order <;> simp [PlanOrder.after]

theorem before_total (order : PlanOrder) (r s : PlanRow) :
    order.before r s = true ∨ order.before s r = true := by
  cases order <;> simp only [PlanOrder.before, Bool.or_eq_true, Bool.and_eq_true, decide_eq_true_eq] <;>
    omega

theorem before_trans (hrs : order.before r s = true) (hst : order.before s t = true) :
    order.before r t = true := by
  cases order <;>
    simp only [PlanOrder.before, Bool.or_eq_true, Bool.and_eq_true, decide_eq_true_eq] at hrs hst ⊢ <;>
    omega

/-- Rows with different ids are strictly ordered. -/
theorem after_of_before (h : order.before r s = true) (hne : r.id ≠ s.id) :
    order.after r s = true ∧ order.after s r = false := by
  have hne' : r.id.1 ≠ s.id.1 := fun heq => hne (Subtype.ext heq)
  rw [← Bool.not_eq_true]
  cases order <;>
    simp only [PlanOrder.before, PlanOrder.after, Bool.or_eq_true, Bool.and_eq_true,
      decide_eq_true_eq] at h ⊢ <;>
    omega

/-- The rows in an order. -/
def PlanOrder.sort (order : PlanOrder) (l : List PlanRow) : List PlanRow :=
  l.insertionSort fun r s => order.before r s = true

theorem sort_perm (order : PlanOrder) (l : List PlanRow) : (order.sort l).Perm l :=
  perm_insertionSort _ l

theorem sort_sorted (order : PlanOrder) (l : List PlanRow) :
    (order.sort l).Pairwise fun r s => order.before r s = true := by
  have : Std.Total fun r s => order.before r s = true := ⟨before_total order⟩
  have : IsTrans PlanRow fun r s => order.before r s = true := ⟨fun _ _ _ => before_trans⟩
  exact pairwise_insertionSort _ l

variable {l : List PlanRow}

/-- Rows with distinct ids are strictly sorted. -/
theorem sort_strict (h : (l.map (·.id)).Nodup) : (order.sort l).Pairwise fun r s =>
    order.after r s = true ∧ order.after s r = false := by
  have hnodup : ((order.sort l).map (·.id)).Nodup :=
    (((sort_perm order l).map _).nodup_iff).mpr h
  rw [List.Nodup, pairwise_map] at hnodup
  exact ((sort_sorted order l).and hnodup).imp fun h => after_of_before h.1 h.2

/-- Sorting what passes a test is the same as testing what is sorted. -/
theorem sort_filter (h : (l.map (·.id)).Nodup) (p : PlanRow → Bool) :
    order.sort (l.filter p) = (order.sort l).filter p := by
  refine List.Perm.eq_of_pairwise ?_ (sort_sorted order _)
    ((sort_sorted order l).sublist filter_sublist)
    ((sort_perm order _).trans ((sort_perm order l).symm.filter p))
  intro r s hr hs hrs hsr
  -- two rows of the list that stand before each other have the same id
  by_contra hne
  have hr' : r ∈ l := mem_of_mem_filter ((sort_perm order _).mem_iff.mp hr)
  have hs' : s ∈ l := (sort_perm order l).mem_iff.mp (mem_of_mem_filter hs)
  have hid : r.id ≠ s.id := fun heq => hne (inj_on_of_nodup_map h hr' hs' heq)
  have hafter := (after_of_before hrs hid).2
  rw [(after_of_before hsr hid.symm).1] at hafter
  cases hafter

end

/-! ### Pages of a plan -/

section

variable {D : Tables} {q : SearchQuery}

theorem order_planMessageSearch (h : messageMethod q ≠ .empty) : ∃ sql,
    (planMessageSearch q).sql = some sql ∧ sql.order = some q.ranking.order ∧
      (planMessageSearch q).limit sql = some q.effectiveLimit := by
  have hlimit : toI64 q.effectiveLimit = some ⟨q.effectiveLimit, by
      have : q.effectiveLimit ≤ 5000 := by
        unfold SearchQuery.effectiveLimit searchQueryLimitMax
        omega
      unfold i64Min i64Max
      omega⟩ := dif_pos _
  rw [planMessageSearch, if_neg h]
  refine ⟨_, rfl, rfl, ?_⟩
  rw [SearchPlan.limit, assemble]
  dsimp only
  rw [← Placeholders.Pushed.length_allParams, drop_left, limitParam, hlimit]
  rfl

/-- The rows of a message plan: what it admits, in the order of the ranking, up to the limit. -/
theorem rows_planSearch (hmessage : q.isMessage = true) : (planSearch q).rows D =
    (q.ranking.order.sort ((planSearch q).admitted D)).take q.effectiveLimit := by
  have hplan : planSearch q = if (planMessageSearch q).method = .empty &&
      (planMessageSearch q).sql.isNone && (!q.text.isEmpty || hasAnyMessageFacet q) then
      { planMessageSearch q with sql := some emptyPlanSql } else planMessageSearch q := by
    unfold SearchQuery.isMessage at hmessage
    unfold planSearch
    cases hkind : q.docKind with
    | message => rfl
    | thread => rfl
    | agent => simp [hkind] at hmessage
    | project => simp [hkind] at hmessage
  by_cases hempty : messageMethod q = .empty
  · have hsearch : planMessageSearch q = SearchPlan.empty (scopePolicyLabel q.scope) := if_pos hempty
    have hadmitted : (planSearch q).admitted D = [] := by
      rw [hplan, hsearch]
      cases !q.text.isEmpty || hasAnyMessageFacet q <;> rfl
    have hrows : (planSearch q).rows D = [] := by
      rw [hplan, hsearch]
      cases !q.text.isEmpty || hasAnyMessageFacet q <;> rfl
    rw [hrows, hadmitted]
    exact (take_nil).symm
  · have hmethod : (planMessageSearch q).method = messageMethod q := by
      rw [planMessageSearch, if_neg hempty]
      rfl
    obtain ⟨sql, hsql, horder, hlimit⟩ := order_planMessageSearch hempty
    have hself : planSearch q = planMessageSearch q := by
      rw [hplan, hmethod, decide_eq_false hempty]
      rfl
    rw [hself, SearchPlan.rows, hsql]
    dsimp only
    rw [horder]
    dsimp only
    rw [hlimit]
    rfl

/-- The joined rows of a message that pass a test on the product are one row at most: a project is
linked to a product once. -/
theorem joined_sublist {m : Message} {pid : I64} {p : PlanRow → Bool}
    (hp : ∀ mr, p (.message mr) = true → mr.link.any (fun l => decide (l.productId = pid)) = true) :
    ((((D.productProjectLinks.filter fun l => decide (l.projectId = m.projectId)).map fun l =>
      PlanRow.message ⟨m, D.agent? m.senderId, some l⟩).filter p).map (·.id)).Sublist [m.id] := by
  have hnodup : (((D.productProjectLinks.filter fun l => decide (l.projectId = m.projectId)).map
      fun l => PlanRow.message ⟨m, D.agent? m.senderId, some l⟩).filter p).Nodup := by
    apply List.Nodup.filter
    apply List.Nodup.map
    · intro l l' heq
      cases heq
      rfl
    · exact D.productProjectLinks_nodup.filter _
  have hall : ∀ r ∈ (((D.productProjectLinks.filter fun l => decide (l.projectId = m.projectId)).map
      fun l => PlanRow.message ⟨m, D.agent? m.senderId, some l⟩).filter p),
      r = .message ⟨m, D.agent? m.senderId, some ⟨pid, m.projectId⟩⟩ := by
    intro r hr
    rw [mem_filter, mem_map] at hr
    obtain ⟨⟨l, hl, rfl⟩, hpr⟩ := hr
    have hproduct := hp _ hpr
    rw [mem_filter, decide_eq_true_eq] at hl
    rw [Option.any_some, decide_eq_true_eq] at hproduct
    obtain ⟨productId, projectId⟩ := l
    dsimp only at hproduct hl
    rw [hproduct, hl.2]
  generalize ((D.productProjectLinks.filter fun l => decide (l.projectId = m.projectId)).map
      fun l => PlanRow.message ⟨m, D.agent? m.senderId, some l⟩).filter p = rows at hnodup hall ⊢
  by_cases hnil : rows = []
  · rw [hnil]
    exact nil_sublist _
  · obtain ⟨r, hr⟩ := exists_mem_of_ne_nil rows hnil
    have hsingle : rows = [r] :=
      eq_singleton_of_nodup hnodup hr fun s hs => (hall s hs).trans (hall r hr).symm
    rw [hsingle, hall r hr]
    exact List.Sublist.refl _

theorem queriedRows_message (hmessage : q.isMessage = true) : queriedRows D q =
    if searches q then (Source.messages (q.projectId.isNone && q.productId.isSome)).rows D else [] := by
  unfold SearchQuery.isMessage at hmessage
  unfold queriedRows
  cases hkind : q.docKind with
  | message => rfl
  | thread => rfl
  | agent => simp [hkind] at hmessage
  | project => simp [hkind] at hmessage

/-- A message query admits every message once at most. -/
theorem admitted_nodup (hmessage : q.isMessage = true) :
    (((planSearch q).admitted D).map (·.id)).Nodup := by
  suffices h : (((planSearch q).admitted D).map (·.id)).Sublist (D.messages.map (·.id)) from
    D.messages_nodup.sublist h
  rw [admitted_planSearch]
  by_cases hsearches : searches q
  · rw [queriedRows_message hmessage, if_pos hsearches]
    cases hproduct : q.projectId.isNone && q.productId.isSome with
    | false =>
      apply (filter_sublist.map _).trans
      rw [Source.rows, map_map]
      exact List.Sublist.refl _
    | true =>
      rw [Bool.and_eq_true, Option.isNone_iff_eq_none, Option.isSome_iff_exists] at hproduct
      obtain ⟨hnone, pid, hpid⟩ := hproduct
      have hp (mr : MessageRow) (h : (asks q (.message mr) && scopeAdmits q.scope (.message mr)) = true) :
          mr.link.any (fun l => decide (l.productId = pid)) = true := by
        have hproject : asksProject q mr = mr.link.any fun l => decide (l.productId = pid) := by
          rw [asksProject, hnone, hpid]
        rw [← hproject]
        simp only [asks, asksMessage, Bool.and_eq_true] at h
        exact h.1.1.1.1.1.1.1.2
      rw [Source.rows]
      induction D.messages with
      | nil => exact nil_sublist _
      | cons m messages ih =>
        rw [flatMap_cons, filter_append, map_append, map_cons, ← singleton_append]
        exact (joined_sublist hp).append ih
  · rw [queriedRows_message hmessage, if_neg hsearches]
    exact nil_sublist _

end

/-! ### Pages of a query -/

section

variable {D : Tables} {q : SearchQuery}

/-- Every timestamp of the table is an `f64`. -/
def ExactTimes (D : Tables) : Prop := ∀ m ∈ D.messages, Binary64.Exact m.createdTs

theorem exact_of_admitted (hexact : ExactTimes D) (hmessage : q.isMessage = true) {r : PlanRow}
    (hr : r ∈ (planSearch q).admitted D) : ∃ mr, r = .message mr ∧ Binary64.Exact mr.message.createdTs := by
  rw [admitted_planSearch, queriedRows_message hmessage] at hr
  have hrow := mem_of_mem_filter hr
  split at hrow
  · cases hproduct : q.projectId.isNone && q.productId.isSome with
    | false =>
      rw [hproduct] at hrow
      obtain ⟨m, hm, rfl⟩ := mem_map.mp hrow
      exact ⟨_, rfl, hexact m hm⟩
    | true =>
      rw [hproduct] at hrow
      obtain ⟨m, hm, hlink⟩ := mem_flatMap.mp hrow
      obtain ⟨l, -, rfl⟩ := mem_map.mp hlink
      exact ⟨_, rfl, hexact m hm⟩
  · cases hrow

/-- The token made from a row. -/
def rowToken (q : SearchQuery) (r : PlanRow) : Text :=
  SearchCursor.encode ⟨cursorSortScore (mapPlannedRow q.docKind r) q.ranking, r.id⟩

/-- The condition that a token becomes tells what stands after the row it was made from. -/
theorem afterCursor_rowToken {a r : MessageRow} (ha : Binary64.Exact a.message.createdTs)
    (hr : Binary64.Exact r.message.createdTs) (limit : Option Nat) :
    afterCursor { q with cursor := some (rowToken q (.message a)), limit := limit } (.message r) =
      q.ranking.order.after (.message a) (.message r) := by
  have hfinite : (cursorSortScore (mapPlannedRow q.docKind (.message a)) q.ranking).isFinite = true := by
    cases q.ranking with
    | relevance =>
      change zero.isFinite = true
      decide
    | recency =>
      change (ofInt a.message.createdTs).neg.isFinite = true
      rw [isFinite_neg, isFinite_ofInt]
    | oldest => exact isFinite_ofInt a.message.createdTs
  have hdecode : (some (rowToken q (.message a))).bind SearchCursor.decode =
      some ⟨cursorSortScore (mapPlannedRow q.docKind (.message a)) q.ranking, a.message.id⟩ := by
    rw [Option.bind_some, rowToken, PlanRow.id, SearchCursor.decode_encode hfinite]
  rw [afterCursor, hdecode, Option.all_some]
  cases hranking : q.ranking with
  | relevance => rfl
  | recency =>
    change ((ofInt a.message.createdTs).neg.lt' (ofInt r.message.createdTs).neg ||
      ((ofInt r.message.createdTs).neg.eq' (ofInt a.message.createdTs).neg &&
        decide (a.message.id.1 < r.message.id.1))) = _
    rw [lt'_neg, eq'_neg, lt'_ofInt hr ha, eq'_ofInt hr ha]
    rfl
  | oldest =>
    change ((ofInt a.message.createdTs).lt' (ofInt r.message.createdTs) ||
      ((ofInt r.message.createdTs).eq' (ofInt a.message.createdTs) &&
        decide (a.message.id.1 < r.message.id.1))) = _
    rw [lt'_ofInt ha hr, eq'_ofInt hr ha]
    rfl

/-- The rows of a query in its order, whatever token and limit it carries. -/
def listing (D : Tables) (q : SearchQuery) : List PlanRow :=
  q.ranking.order.sort ((planSearch { q with cursor := none }).admitted D)

theorem exact_of_listed (hexact : ExactTimes D) (hmessage : q.isMessage = true) {r : PlanRow}
    (hr : r ∈ listing D q) : ∃ mr, r = .message mr ∧ Binary64.Exact mr.message.createdTs := by
  unfold listing at hr
  rw [(sort_perm _ _).mem_iff] at hr
  exact exact_of_admitted (q := { q with cursor := none }) hexact hmessage hr

/-- A row keeps its id in the result, so that the token of the result is that of the row. -/
theorem token_result (mr : MessageRow) : SearchCursor.encode
    ⟨cursorSortScore (mapPlannedRow q.docKind (.message mr)) q.ranking,
      (mapPlannedRow q.docKind (.message mr)).id⟩ = rowToken q (.message mr) := by
  have hid : (mapPlannedRow q.docKind (.message mr)).id = (PlanRow.message mr).id := rfl
  rw [hid, rowToken]

/-- Neither token nor limit is asked of a row by the rest of the query. -/
theorem admitted_page (hmessage : q.isMessage = true) (cursor : Option Text) (limit : Option Nat) :
    (planSearch { q with cursor := cursor, limit := limit }).admitted D =
      ((planSearch { q with cursor := none }).admitted D).filter
        (afterCursor { q with cursor := cursor, limit := limit }) := by
  have hrows (c : Option Text) (l : Option Nat) :
      queriedRows D { q with cursor := c, limit := l } = queriedRows D q := rfl
  rw [admitted_planSearch, admitted_planSearch, filter_filter, hrows]
  change List.filter _ (queriedRows D q) = List.filter _ (queriedRows D q)
  apply filter_congr
  intro r hr
  rw [queriedRows_message hmessage] at hr
  split at hr
  · obtain ⟨mr, rfl⟩ := eq_message_of_mem hr
    change (asksMessage q mr && afterCursor { q with cursor := cursor, limit := limit } (.message mr) &&
      scopeAdmits q.scope (.message mr)) = (afterCursor { q with cursor := cursor, limit := limit }
        (.message mr) && (asksMessage q mr && true && scopeAdmits q.scope (.message mr)))
    rw [Bool.and_true, Bool.and_assoc, Bool.and_left_comm]
  · cases hr

/-- The token of a page of results is that of its last row. -/
theorem computeNextCursor_results {page : List PlanRow} (h : ∀ r ∈ page, ∃ mr, r = .message mr)
    (limit : Nat) : computeNextCursor (page.map (mapPlannedRow q.docKind)) limit q.ranking =
      if page.length < limit then none else page.getLast?.map (rowToken q) := by
  rw [computeNextCursor, length_map]
  by_cases hshort : page.length < limit
  · rw [if_pos hshort, if_pos hshort]
  · rw [if_neg hshort, if_neg hshort, List.getLast?_map, Option.map_map]
    apply Option.map_congr
    intro r hr
    obtain ⟨mr, rfl⟩ := h r (mem_of_getLast? hr)
    rw [Function.comp_apply, token_result]

/-- The next rows of the listing after a row. -/
def pageAfter (D : Tables) (q : SearchQuery) (last : Option PlanRow) (limit : Nat) : List PlanRow :=
  (Resume.rest q.ranking.order.after (listing D q) last).take limit

theorem mem_listing_of_page {last : Option PlanRow} {limit : Nat} {r : PlanRow}
    (h : r ∈ pageAfter D q last limit) : r ∈ listing D q := by
  have hrest := mem_of_mem_take h
  cases last with
  | none => exact hrest
  | some a => exact mem_of_mem_filter hrest

theorem rows_page (hexact : ExactTimes D) (hmessage : q.isMessage = true)
    {last : Option PlanRow} (hlast : ∀ a ∈ last, a ∈ listing D q) (limit : Option Nat) :
    (planSearch { q with cursor := last.map (rowToken q), limit := limit }).rows D =
      pageAfter D q last { q with limit := limit }.effectiveLimit := by
  have hnodup : (((planSearch { q with cursor := none }).admitted D).map (·.id)).Nodup :=
    admitted_nodup (q := { q with cursor := none }) hmessage
  have hrest : q.ranking.order.sort ((planSearch { q with
      cursor := last.map (rowToken q), limit := limit }).admitted D) =
      Resume.rest q.ranking.order.after (listing D q) last := by
    rw [admitted_page hmessage, sort_filter hnodup, ← listing]
    cases last with
    | none => exact filter_eq_self.mpr fun r _ => rfl
    | some a =>
      apply filter_congr
      intro r hr
      obtain ⟨am, rfl, ha⟩ := exact_of_listed hexact hmessage (hlast a rfl)
      obtain ⟨rm, rfl, hrm⟩ := exact_of_listed hexact hmessage hr
      exact afterCursor_rowToken ha hrm limit
  rw [rows_planSearch (q := { q with cursor := last.map (rowToken q), limit := limit }) hmessage]
  exact congrArg (List.take _) hrest

/-- A page is the next rows of the listing, and its token is made from the last of them. -/
theorem executeSqlPlanSearch_page (hexact : ExactTimes D) (hmessage : q.isMessage = true)
    {last : Option PlanRow} (hlast : ∀ a ∈ last, a ∈ listing D q) (limit : Option Nat) :
    executeSqlPlanSearch D { q with cursor := last.map (rowToken q), limit := limit } =
      ((pageAfter D q last { q with limit := limit }.effectiveLimit).map (mapPlannedRow q.docKind),
        if (pageAfter D q last { q with limit := limit }.effectiveLimit).length <
          { q with limit := limit }.effectiveLimit then none
        else (pageAfter D q last { q with limit := limit }.effectiveLimit).getLast?.map
          (rowToken q)) := by
  have hraw : (executeSqlPlanSearch D { q with cursor := last.map (rowToken q), limit := limit }).1 =
      (pageAfter D q last { q with limit := limit }.effectiveLimit).map (mapPlannedRow q.docKind) := by
    rw [← rows_page hexact hmessage hlast limit]
    unfold executeSqlPlanSearch
    dsimp only
    split
    · next h =>
      rw [Bool.and_eq_true, Option.isNone_iff_eq_none] at h
      rw [SearchPlan.rows, h.2]
      rfl
    · rfl
  have hmessages (r : PlanRow) (hr : r ∈ pageAfter D q last { q with limit := limit }.effectiveLimit) :
      ∃ mr, r = .message mr := by
    obtain ⟨mr, hmr, -⟩ := exact_of_listed hexact hmessage (mem_listing_of_page hr)
    exact ⟨mr, hmr⟩
  rw [← computeNextCursor_results hmessages, ← hraw]
  rfl

theorem newestFirst_isMessage : (newestFirst q).isMessage = q.isMessage := by
  unfold newestFirst
  split <;> rfl

theorem newestFirst_docKind : (newestFirst q).docKind = q.docKind := by
  unfold newestFirst
  split <;> rfl

/-- The pages of a query are the pages of its listing. -/
theorem searchPages_eq (hexact : ExactTimes D) (hmessage : q.isMessage = true)
    (limits : Nat → Option Nat) (fuel n : Nat) (last : Option PlanRow)
    (hlast : ∀ a ∈ last, a ∈ listing D (newestFirst q)) :
    searchPages D q limits fuel n (last.map (rowToken (newestFirst q))) =
      (Resume.pages (newestFirst q).ranking.order.after
        (fun n => { newestFirst q with limit := limits n }.effectiveLimit) (listing D (newestFirst q))
          fuel n last).map fun ps => ps.map fun page => page.map (mapPlannedRow (newestFirst q).docKind) := by
  induction fuel generalizing n last with
  | zero => rfl
  | succ fuel ih =>
    have hpage := executeSqlPlanSearch_page hexact (newestFirst_isMessage.trans hmessage) hlast
      (limits n)
    rw [← newestFirst_page, ← executeSearch] at hpage
    have hmem (a : PlanRow) (ha : a ∈ pageAfter D (newestFirst q) last
        { newestFirst q with limit := limits n }.effectiveLimit) : a ∈ listing D (newestFirst q) :=
      mem_listing_of_page ha
    rw [searchPages, hpage, Resume.pages, ← pageAfter]
    have hpos := SearchQuery.effectiveLimit_pos { newestFirst q with limit := limits n }
    generalize pageAfter D (newestFirst q) last
      { newestFirst q with limit := limits n }.effectiveLimit = page at hmem ⊢
    generalize { newestFirst q with limit := limits n }.effectiveLimit = limit at hpos ⊢
    by_cases hshort : page.length < limit
    · simp only [if_pos hshort, Option.map_some, map_cons, map_nil]
    · -- a full page is resumed after its last row
      have hne : page ≠ [] := by
        intro hnil
        rw [hnil, length_nil] at hshort
        omega
      have hsome := List.getLast?_eq_some_getLast hne
      have hnext := ih (n + 1) page.getLast? fun a ha => hmem a (mem_of_getLast? ha)
      simp only [if_neg hshort, hsome, Option.map_some] at hnext ⊢
      rw [hnext, Option.map_map, Option.map_map]
      rfl

end

/-- Paging through a message query that requires the SQL plan ends, and lists the rows that have what
the query asks, apart from its token, once each and in its order. -/
theorem sqlPaging_complete {D : Tables} (hexact : ExactTimes D) {q : SearchQuery}
    (hroute : messageQueryRequiresSqlPlan q = true) (limits : Nat → Option Nat) :
    ∃ fuel pages, searchPages D q limits fuel 0 none = some pages ∧ ∃ rows : List PlanRow,
      pages.flatten = rows.map (mapPlannedRow q.docKind) ∧
      rows.Perm ((planSearch { newestFirst q with cursor := none }).admitted D) ∧
      (rows.Pairwise fun r s => (newestFirst q).ranking.order.before r s = true) ∧
      (rows.map (·.id)).Nodup := by
  have hmessage : q.isMessage = true := by
    rw [messageQueryRequiresSqlPlan, Bool.and_eq_true] at hroute
    exact hroute.1
  have hnodup : (((planSearch { newestFirst q with cursor := none }).admitted D).map (·.id)).Nodup :=
    admitted_nodup (q := { newestFirst q with cursor := none }) (newestFirst_isMessage.trans hmessage)
  have hperm : (listing D (newestFirst q)).Perm _ := sort_perm _ _
  have hlimits (n : Nat) : 1 ≤ { newestFirst q with limit := limits n }.effectiveLimit :=
    SearchQuery.effectiveLimit_pos _
  have hstrict : (listing D (newestFirst q)).Pairwise fun r s =>
      (newestFirst q).ranking.order.after r s = true ∧
        (newestFirst q).ranking.order.after s r = false := sort_strict hnodup
  obtain ⟨ps, hps, hflat⟩ := Resume.pages_all hlimits hstrict (fun a _ => after_self _ a)
    (Nat.lt_succ_self _)
  have hpages := searchPages_eq hexact hmessage limits ((listing D (newestFirst q)).length + 1) 0 none
    fun _ h => nomatch h
  rw [hps] at hpages
  refine ⟨_, _, hpages, listing D (newestFirst q), ?_, hperm, sort_sorted _ _, ?_⟩
  · rw [← hflat, map_flatten, newestFirst_docKind]
  · exact ((hperm.map _).nodup_iff).mpr hnodup

/-- A message of project 1 with an id and a timestamp. -/
def timedMessage (id createdTs : I64) : Message :=
  ⟨id, ⟨1, isI64_one⟩, ⟨1, isI64_one⟩, none, none, "plan".toList, "notes".toList, "normal".toList,
    ⟨0, isI64_zero⟩, createdTs, "\x7b\x7d".toList⟩

theorem isI64_eleven : i64Min ≤ 11 ∧ 11 ≤ i64Max := by decide

theorem isI64_twelve : i64Min ≤ 12 ∧ 12 ≤ i64Max := by decide

theorem isI64_twoThousand : i64Min ≤ 2000 ∧ 2000 ≤ i64Max := by decide

def pagingSample : Tables :=
  { oneMessage with
    messages := [timedMessage ⟨10, isI64_ten⟩ ⟨1000, isI64_thousand⟩,
      timedMessage ⟨11, isI64_eleven⟩ ⟨2000, isI64_twoThousand⟩,
      timedMessage ⟨12, isI64_twelve⟩ ⟨2000, isI64_twoThousand⟩]
    messages_nodup := by decide }

theorem pagingSample_exact : ExactTimes pagingSample := by
  intro m hm
  simp only [pagingSample, mem_cons, not_mem_nil, or_false] at hm
  rcases hm with rfl | rfl | rfl
  · exact exact_of_mul_two_pow (m := 1000) (k := 0) (by decide) rfl
  · exact exact_of_mul_two_pow (m := 2000) (k := 0) (by decide) rfl
  · exact exact_of_mul_two_pow (m := 2000) (k := 0) (by decide) rfl

theorem sqlPaging_complete_sample :
    (ExactTimes pagingSample ∧ messageQueryRequiresSqlPlan { SearchQuery.default with
      projectId := some ⟨1, by decide⟩, ranking := .recency } = true) ∧
    ∃ fuel pages, searchPages pagingSample { SearchQuery.default with
        projectId := some ⟨1, by decide⟩, ranking := .recency } (fun _ => some 2) fuel 0 none =
        some pages ∧ ∃ rows : List PlanRow, pages.flatten = rows.map (mapPlannedRow .message) ∧
      rows.Perm ((planSearch { newestFirst { SearchQuery.default with
        projectId := some ⟨1, by decide⟩, ranking := .recency } with cursor := none }).admitted
          pagingSample) ∧
      (rows.Pairwise fun r s => PlanOrder.createdDesc.before r s = true) ∧ (rows.map (·.id)).Nodup :=
  ⟨⟨pagingSample_exact, by decide⟩, sqlPaging_complete pagingSample_exact (by decide) _⟩

end AgentMail.Search
