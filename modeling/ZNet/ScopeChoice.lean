import ZNet.ScopeRouting

/-!
# The choice of a scope

The search goes through the scopes in the order of the table and keeps the longest that
matches. Scopes of the same length that begin the same URL are the same, so the order does
not matter.
-/

namespace ZNet.ScopeRouting
open TextScan Tables

/-- The scope is in the table and matches the URL. -/
structure Matching (s : ScopeRouter) (url : Str) (scope : WorkerScope) : Prop where
  stored : s.scopes.lookup scope.url = some scope
  found : scope.matches url = some true

/-- The scope matches the URL, and all others that do are shorter. -/
structure Longest (s : ScopeRouter) (url : Str) (scope : WorkerScope) : Prop where
  matching : Matching s url scope
  longer : ∀ scope', Matching s url scope' → scope' ≠ scope → scope'.url.length < scope.url.length

/-- What is returned for a URL that no scope matches. -/
def ScopeRouter.fallback (self : ScopeRouter) : Except RouteError WorkerScope :=
  self.defaultScope.elim (.error .noMatchingScope) .ok

section Search

variable {url : Str} {scope : WorkerScope} {seen : List WorkerScope}

/-- The best of the scopes that were seen so far, with its length. -/
inductive Best (url : Str) (seen : List WorkerScope) : Option WorkerScope×ℕ → Prop
  | nothing (h : ∀ scope ∈ seen, scope.matches url ≠ some true) : Best url seen (none,0)
  | longest {scope : WorkerScope} (hseen : scope ∈ seen) (hfound : scope.matches url = some true)
      (hmax : ∀ scope' ∈ seen, scope'.matches url = some true → scope'.url.length ≤ scope.url.length) :
      Best url seen (some scope,scope.url.length)

/-- A URL whose slashes fit into a byte is compared with every scope. -/
theorem WorkerScope.matches_isSome (hslashes : url.count slash ≤ 255) (scope : WorkerScope) :
    (scope.matches url).isSome := by
  rw [WorkerScope.matches,calculateDepth_eq,calculateMaxScopeDepth,if_pos (Nat.lt_succ_of_le hslashes)]
  split <;> rfl

theorem WorkerScope.prefix_of_matches (h : scope.matches url = some true) : scope.url <+: url := by
  by_contra hstart
  rw [WorkerScope.matches_of_not_prefix hstart] at h
  cases h

/-- A scope that does not match, or is no longer than the best one, is passed over. -/
theorem Best.pass {best : Option WorkerScope×ℕ} (h : Best url seen best)
    (hpass : scope.matches url = some true → scope.url.length ≤ best.2 ∧ best.1.isSome) :
    Best url (seen++[scope]) best := by
  cases h with
  | nothing hnone =>
    refine .nothing fun scope' hmem hfound => ?_
    rcases List.mem_append.mp hmem with hmem | hmem
    · exact hnone scope' hmem hfound
    · rw [List.mem_singleton.mp hmem] at hfound
      cases (hpass hfound).2
  | longest hseen hfound hmax =>
    refine .longest (List.mem_append_left _ hseen) hfound fun scope' hmem hfound' => ?_
    rcases List.mem_append.mp hmem with hmem | hmem
    · exact hmax scope' hmem hfound'
    · rw [List.mem_singleton.mp hmem] at hfound' ⊢
      exact (hpass hfound').1

/-- A longer scope that matches takes the place of the best one. -/
theorem Best.replace {best : Option WorkerScope×ℕ} (h : Best url seen best) (hfound : scope.matches url = some true)
    (hlonger : best.2 < scope.url.length) : Best url (seen++[scope]) (some scope,scope.url.length) := by
  refine .longest (List.mem_append_right _ List.mem_cons_self) hfound fun scope' hmem hfound' => ?_
  rcases List.mem_append.mp hmem with hmem | hmem
  · cases h with
    | nothing hnone => exact (hnone scope' hmem hfound').elim
    | longest hseen hbest hmax => exact Nat.le_of_lt (Nat.lt_of_le_of_lt (hmax scope' hmem hfound') hlonger)
  · rw [List.mem_singleton.mp hmem]

theorem Best.keepLonger {best : Option WorkerScope×ℕ} (h : Best url seen best) (hslashes : url.count slash ≤ 255)
    (hnamed : scope.url ≠ []) :
    ∃ next, keepLonger url best scope = some next ∧ Best url (seen++[scope]) next := by
  obtain ⟨found,hmatches⟩ := Option.isSome_iff_exists.mp (scope.matches_isSome hslashes)
  rw [ScopeRouting.keepLonger,hmatches,Option.map_some]
  cases found with
  | false =>
    refine ⟨best,rfl,h.pass fun hfound => ?_⟩
    rw [hmatches] at hfound
    cases hfound
  | true =>
    by_cases hlonger : best.2 < scope.url.length
    · rw [decide_eq_true hlonger]
      exact ⟨_,rfl,h.replace hmatches hlonger⟩
    · rw [decide_eq_false hlonger]
      refine ⟨best,rfl,h.pass fun _ => ⟨Nat.le_of_not_lt hlonger,?_⟩⟩
      cases h with
      | nothing hnone => exact (hlonger (List.length_pos_of_ne_nil hnamed)).elim
      | longest hseen hfound hmax => rfl

/-- The whole search. -/
theorem exists_best (hslashes : url.count slash ≤ 255) (scopes : List WorkerScope)
    (hnamed : ∀ scope ∈ scopes, scope.url ≠ []) :
    ∃ best, scopes.foldlM (ScopeRouting.keepLonger url) (none,0) = some best ∧ Best url scopes best := by
  induction scopes using List.reverseRecOn with
  | nil => exact ⟨_,rfl,.nothing nofun⟩
  | append_singleton scopes scope ih =>
    obtain ⟨best,hfold,hbest⟩ := ih fun scope' hmem => hnamed scope' (List.mem_append_left _ hmem)
    obtain ⟨next,hstep,hnext⟩ := hbest.keepLonger hslashes (hnamed scope (List.mem_append_right _ List.mem_cons_self))
    refine ⟨next,?_,hnext⟩
    rw [List.foldlM_append,hfold,Option.bind_eq_bind,Option.bind_some,List.foldlM_cons,hstep]
    rfl

end Search

section Routing

variable {s : ScopeRouter} {request : Request} {url : Str} {scope scope' : WorkerScope}

/-- Two scopes of the table that begin a URL and are of the same length. -/
theorem Matching.eq_of_length (h : Matching s url scope) (h' : Matching s url scope')
    (hlength : scope.url.length = scope'.url.length) : scope = scope' := by
  have hstart := WorkerScope.prefix_of_matches h.found
  have hstart' := WorkerScope.prefix_of_matches h'.found
  have hurl : scope.url = scope'.url :=
    (List.prefix_of_prefix_length_le hstart hstart' (Nat.le_of_eq hlength)).eq_of_length hlength
  have hstored := h.stored
  rw [hurl,h'.stored,Option.some.injEq] at hstored
  exact hstored.symm

theorem Longest.unique (h : Longest s url scope) (h' : Longest s url scope') : scope = scope' := by
  by_contra hne
  have hlt := h.longer scope' h'.matching (Ne.symm hne)
  have hlt' := h'.longer scope h.matching hne
  omega

/-- Every order leads to the longest scope that matches or, without one, to the default. -/
theorem routeRequest_cases (hnamed : ∀ key ∈ s.scopes, key ≠ []) (hslashes : request.url.count slash ≤ 255)
    (order : IterationOrder Str) :
    (∃ scope, Longest s request.url scope ∧ s.routeRequest order request = some (.ok scope)) ∨
    (∀ scope, ¬Matching s request.url scope) ∧ s.routeRequest order request = some s.fallback := by
  have hvalues : ∀ scope, scope ∈ valuesIn order s.scopes ↔ s.scopes.lookup scope.url = some scope :=
    fun _ => ScopeRouter.mem_getAllScopes
  have hurls : ∀ scope ∈ valuesIn order s.scopes, scope.url ≠ [] :=
    fun scope hmem => hnamed scope.url (mem_of_lookup ((hvalues scope).mp hmem))
  obtain ⟨best,hfold,hbest⟩ := exists_best hslashes (valuesIn order s.scopes) hurls
  rw [ScopeRouter.routeRequest,hfold,Option.map_some]
  cases hbest with
  | nothing hnone =>
    refine Or.inr ⟨fun scope hmatching => hnone scope ((hvalues scope).mpr hmatching.stored) hmatching.found,?_⟩
    rw [ScopeRouter.fallback]
    cases s.defaultScope <;> rfl
  | @longest scope hseen hfound hmax =>
    have hmatching : Matching s request.url scope := ⟨(hvalues scope).mp hseen,hfound⟩
    refine Or.inl ⟨scope,⟨hmatching,fun scope' hmatching' hne => ?_⟩,rfl⟩
    have hle := hmax scope' ((hvalues scope').mpr hmatching'.stored) hmatching'.found
    exact Nat.lt_of_le_of_ne hle fun hlength => hne (hmatching'.eq_of_length hmatching hlength)

/-- If a scope matches there is one longest scope that does, and the request is routed to it in
every order; otherwise it is routed to the default, if there is one. -/
theorem routeRequest_longest (s : ScopeRouter) (request : Request) (hnamed : ∀ key ∈ s.scopes, key ≠ [])
    (hslashes : request.url.count slash ≤ 255) :
    ((∃ scope, Matching s request.url scope) → ∃! scope, Longest s request.url scope) ∧
    (∀ scope, Longest s request.url scope → ∀ order, s.routeRequest order request = some (.ok scope)) ∧
    ((∀ scope, ¬Matching s request.url scope) → ∀ order, s.routeRequest order request = some s.fallback) ∧
    ∀ order order', s.routeRequest order request = s.routeRequest order' request := by
  have hcases := routeRequest_cases hnamed hslashes
  have hlongest : ∀ scope, Longest s request.url scope → ∀ order, s.routeRequest order request = some (.ok scope) := by
    intro scope hscope order
    rcases hcases order with ⟨scope',hscope',hroute⟩ | ⟨hnone,-⟩
    · rw [hroute,hscope.unique hscope']
    · exact (hnone scope hscope.matching).elim
  have hfallback : (∀ scope, ¬Matching s request.url scope) →
      ∀ order, s.routeRequest order request = some s.fallback := by
    intro hnone order
    rcases hcases order with ⟨scope,hscope,-⟩ | ⟨-,hroute⟩
    · exact (hnone scope hscope.matching).elim
    · exact hroute
  refine ⟨?_,hlongest,hfallback,fun order order' => ?_⟩
  · rintro ⟨scope,hmatching⟩
    rcases hcases (foremost []) with ⟨best,hbest,-⟩ | ⟨hnone,-⟩
    · exact ⟨best,hbest,fun other hother => hother.unique hbest⟩
    · exact (hnone scope hmatching).elim
  · rcases hcases order' with ⟨scope,hscope,hroute⟩ | ⟨hnone,hroute⟩
    · rw [hroute,hlongest scope hscope order]
    · rw [hroute,hfallback hnone order]

end Routing

def rootScope : WorkerScope := ⟨2,text "https://a/",text "https://a/",appWorker,3,by decide⟩

def nestedRouter : ScopeRouter := (appRouter.addScope enoughMemory rootScope).2

theorem routeRequest_longest_app :
    (∀ key ∈ nestedRouter.scopes, key ≠ []) ∧
    ∀ order, nestedRouter.routeRequest order (getRequest "https://a/app/x") = some (.ok appScope) := by
  have hnamed : ∀ key ∈ nestedRouter.scopes.keys, key ≠ [] := by decide
  have hnamed' : ∀ key ∈ nestedRouter.scopes, key ≠ [] :=
    fun key hmem => hnamed key (AList.mem_keys.mp hmem)
  have hspec := routeRequest_longest nestedRouter (getRequest "https://a/app/x") hnamed' (by decide)
  refine ⟨hnamed',fun order => (hspec.2.2.2 order (foremost [])).trans (by decide)⟩

end ZNet.ScopeRouting
