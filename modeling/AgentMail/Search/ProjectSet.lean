import AgentMail.Search.PlanMeaning

/-!
# Searches within a set of projects

The planners enforce a project set by a condition in the `WHERE`, and `apply_visibility` by a
membership test on each result. The planners leave their condition out when the set is empty.
-/

namespace AgentMail.Search

open Base List

/-- `VisibilityContext`. -/
structure VisibilityContext where
  callerProjectIds : List I64
  approvedContactIds : List I64
  policy : ScopePolicy
  redaction : RedactionConfig

/-- `can_see_project`. -/
def VisibilityContext.canSeeProject (ctx : VisibilityContext) (projectId : I64) : Bool :=
  match ctx.policy with
  | .unrestricted => true
  | .callerScoped _ => decide (projectId ∈ ctx.callerProjectIds)
  | .projectSet allowed => decide (projectId ∈ allowed)

section

variable {D : Tables} {q : SearchQuery} {allowed : List I64}

/-- What a query asks of a row does not depend on its scope. -/
theorem asks_scope (scope : ScopePolicy) (r : PlanRow) : asks { q with scope := scope } r = asks q r := by
  cases r <;> rfl

theorem queriedRows_scope (scope : ScopePolicy) :
    queriedRows D { q with scope := scope } = queriedRows D q := rfl

/-- A search within a project set admits exactly the rows of the unrestricted search that
`can_see_project` lets through if the set is not empty, and otherwise only if no row has what the
query asks. -/
theorem projectSet_exact_iff (D : Tables) (q : SearchQuery) (allowed : List I64)
    (ctx : VisibilityContext) :
    (planSearch { q with scope := .projectSet allowed }).admitted D =
      ((planSearch { q with scope := .unrestricted }).admitted D).filter
        (fun r => { ctx with policy := .projectSet allowed }.canSeeProject r.projectId) ↔
      allowed ≠ [] ∨ ∀ r ∈ queriedRows D q, asks q r = false := by
  have hunrestricted : (planSearch { q with scope := .unrestricted }).admitted D =
      (queriedRows D q).filter (asks q) := by
    rw [admitted_planSearch, queriedRows_scope]
    apply filter_congr
    intro r _
    rw [asks_scope]
    exact Bool.and_true _
  have hset : (planSearch { q with scope := .projectSet allowed }).admitted D =
      (queriedRows D q).filter fun r => asks q r && (allowed.isEmpty || decide (r.projectId ∈ allowed)) := by
    rw [admitted_planSearch, queriedRows_scope]
    apply filter_congr
    intro r _
    rw [asks_scope, scopeAdmits]
  have hsee (r : PlanRow) : { ctx with policy := .projectSet allowed }.canSeeProject r.projectId =
      decide (r.projectId ∈ allowed) := rfl
  rw [hunrestricted, hset, filter_filter]
  simp only [hsee]
  cases allowed with
  | nil =>
    -- nothing can be seen, and nothing is enforced
    simp only [isEmpty_nil, Bool.true_or, Bool.and_true, not_mem_nil, decide_false,
      Bool.false_and, filter_false, ne_eq, not_true, false_or, filter_eq_nil_iff, Bool.not_eq_true]
  | cons pid allowed =>
    simp only [isEmpty_cons, Bool.false_or, ne_eq, cons_ne_nil, not_false_eq_true, true_or,
      iff_true]
    apply filter_congr
    intro r _
    rw [Bool.and_comm]

end

def projectSample : Tables := oneMessage

/-- With an empty set the message is admitted, and no project can be seen. -/
theorem projectSet_empty_leaks : ¬ ∀ (D : Tables) (q : SearchQuery) (allowed : List I64)
    (ctx : VisibilityContext), (planSearch { q with scope := .projectSet allowed }).admitted D =
      ((planSearch { q with scope := .unrestricted }).admitted D).filter
        (fun r => { ctx with policy := .projectSet allowed }.canSeeProject r.projectId) := by
  intro h
  have hempty := h projectSample { SearchQuery.default with projectId := some ⟨1, by decide⟩ } []
    ⟨[], [], .unrestricted, ⟨false, false, false, []⟩⟩
  revert hempty
  decide

end AgentMail.Search
