import ZNet.ScopeChoice

/-!
# Conflicts of scopes

Scopes are in conflict when one URL occurs in the other. Two scopes that match one request
are always reported, once in each order, and what is resolved by length is what is routed.
-/

namespace ZNet.ScopeRouting
open TextScan Tables

inductive ConflictType
  | overlappingScopes | samePriorityScopes | duplicateScopes
deriving DecidableEq

structure ScopeConflict where
  url : Str
  conflictingScopes : List WorkerScope
  conflictType : ConflictType
deriving DecidableEq

inductive ScopePriority
  | low | normal | high | critical
deriving DecidableEq

def ScopePriority.toNat : ScopePriority → ℕ
  | .low => 0
  | .normal => 1
  | .high => 2
  | .critical => 3

namespace ScopeConflictResolver

def scopesOverlap (scope1 scope2 : WorkerScope) : Bool :=
  (indexOf scope2.url scope1.url).isSome || (indexOf scope1.url scope2.url).isSome

def createConflict (scope1 scope2 : WorkerScope) : ScopeConflict := ⟨[],[scope1,scope2],.overlappingScopes⟩

def detectConflicts (scopes : List WorkerScope) : List ScopeConflict :=
  scopes.flatMap fun scope1 =>
    (scopes.filter fun scope2 => decide (scope1 ≠ scope2) && scopesOverlap scope1 scope2).map (createConflict scope1)

end ScopeConflictResolver

open ScopeConflictResolver

variable {s : ScopeRouter} {scope a b : WorkerScope} {url : Str} {scopes : List WorkerScope}

section Detection

theorem scopesOverlap_iff : scopesOverlap a b = true ↔ b.url <:+: a.url ∨ a.url <:+: b.url := by
  simp [scopesOverlap,indexOf_isSome_iff]

theorem mem_detectConflicts (hne : a ≠ b) :
    createConflict a b ∈ detectConflicts scopes ↔ a ∈ scopes ∧ b ∈ scopes ∧ (b.url <:+: a.url ∨ a.url <:+: b.url) := by
  simp only [detectConflicts,List.mem_flatMap,List.mem_map,List.mem_filter,Bool.and_eq_true,decide_eq_true_eq,
    scopesOverlap_iff]
  constructor
  · rintro ⟨a',ha,b',⟨hb,-,hoverlap⟩,heq⟩
    simp only [createConflict,ScopeConflict.mk.injEq,List.cons.injEq,and_true,true_and] at heq
    obtain ⟨rfl,rfl⟩ := heq
    exact ⟨ha,hb,hoverlap⟩
  · rintro ⟨ha,hb,hoverlap⟩
    exact ⟨a,ha,b,⟨hb,hne,hoverlap⟩,rfl⟩

/-- Two scopes match some URL together when one begins the other and goes on without a slash. -/
theorem contested_iff (a b : WorkerScope) : (∃ url, a.matches url = some true ∧ b.matches url = some true) ↔
    (a.url <+: b.url ∨ b.url <+: a.url) ∧ a.url.count slash = b.url.count slash := by
  have hlevel : ∀ {a : WorkerScope} {url : Str}, a.matches url = some true → url.count slash = a.url.count slash := by
    intro a url h
    have hstart := WorkerScope.prefix_of_matches h
    have hrest := (WorkerScope.matches_of_prefix hstart).mp h
    obtain ⟨rest,rfl⟩ := hstart
    rw [List.drop_left] at hrest
    rw [List.count_append,List.count_eq_zero.mpr hrest,Nat.add_zero]
  have hlonger : ∀ {a b : WorkerScope}, a.url <+: b.url → a.url.count slash = b.url.count slash →
      a.matches b.url = some true ∧ b.matches b.url = some true := by
    intro a b hstart hcount
    refine ⟨(WorkerScope.matches_of_prefix hstart).mpr ?_,(WorkerScope.matches_of_prefix (List.prefix_refl _)).mpr ?_⟩
    · obtain ⟨rest,hrest⟩ := hstart
      rw [← hrest,List.count_append] at hcount
      rw [← hrest,List.drop_left,← List.count_eq_zero]
      omega
    · simp
  constructor
  · rintro ⟨url,ha,hb⟩
    refine ⟨?_,(hlevel ha).symm.trans (hlevel hb)⟩
    exact List.prefix_or_prefix_of_prefix (WorkerScope.prefix_of_matches ha) (WorkerScope.prefix_of_matches hb)
  · rintro ⟨hab|hba,hcount⟩
    · exact ⟨b.url,hlonger hab hcount⟩
    · exact ⟨a.url,(hlonger hba hcount.symm).symm⟩

/-- Two scopes that match one URL are reported. -/
theorem Matching.reported (ha : Matching s url a) (hb : Matching s url b) (hne : a ≠ b) (order : IterationOrder Str) :
    createConflict a b ∈ detectConflicts (s.getAllScopes order) := by
  rw [mem_detectConflicts hne,ScopeRouter.mem_getAllScopes,ScopeRouter.mem_getAllScopes]
  refine ⟨ha.stored,hb.stored,?_⟩
  rcases List.prefix_or_prefix_of_prefix (WorkerScope.prefix_of_matches ha.found)
    (WorkerScope.prefix_of_matches hb.found) with h|h
  · exact Or.inr h.isInfix
  · exact Or.inl h.isInfix

theorem firstMatch_cases (hslashes : url.count slash ≤ 255) (scopes : List WorkerScope) :
    (∃ scope ∈ scopes, scope.matches url = some true ∧ firstMatch url scopes = some (some scope)) ∨
      (∀ scope ∈ scopes, scope.matches url ≠ some true) ∧ firstMatch url scopes = some none := by
  induction scopes with
  | nil => exact Or.inr ⟨by simp,rfl⟩
  | cons scope scopes ih =>
    obtain ⟨found,hmatches⟩ := Option.isSome_iff_exists.mp (scope.matches_isSome hslashes)
    cases found with
    | true => exact Or.inl ⟨scope,List.mem_cons_self,hmatches,by simp [firstMatch,hmatches]⟩
    | false =>
      rcases ih with ⟨other,hmem,hfound,hfirst⟩|⟨hnone,hfirst⟩
      · exact Or.inl ⟨other,List.mem_cons_of_mem _ hmem,hfound,by simp [firstMatch,hmatches,hfirst]⟩
      · refine Or.inr ⟨?_,by simp [firstMatch,hmatches,hfirst]⟩
        rintro other (_|⟨_,hmem⟩)
        · simp [hmatches]
        · exact hnone other hmem

/-- Scopes that match one URL are reported in both orders, whatever the order of the table,
and they do so when one begins the other and goes on without a slash. Where nothing is
reported, the search for a scope and the routing of a request agree in all orders. -/
theorem conflicts_complete (s : ScopeRouter) (hnamed : ∀ key ∈ s.scopes, key ≠ []) (order : IterationOrder Str) :
    (∀ a b : WorkerScope, (∃ url, a.matches url = some true ∧ b.matches url = some true) ↔
      (a.url <+: b.url ∨ b.url <+: a.url) ∧ a.url.count slash = b.url.count slash) ∧
    (∀ url a b, Matching s url a → Matching s url b → a ≠ b →
      createConflict a b ∈ detectConflicts (s.getAllScopes order) ∧
        createConflict b a ∈ detectConflicts (s.getAllScopes order)) ∧
    (detectConflicts (s.getAllScopes order) = [] → ∀ request : Request, request.url.count slash ≤ 255 →
      ∀ order₁ order₂, ∃ found : Option WorkerScope, s.getScopeForUrl order₁ request.url = some found ∧
        s.routeRequest order₂ request = some (found.elim s.fallback .ok)) := by
  refine ⟨contested_iff,fun url a b ha hb hne => ⟨ha.reported hb hne order,hb.reported ha hne.symm order⟩,?_⟩
  intro hquiet request hslashes order₁ order₂
  have honly : ∀ a b, Matching s request.url a → Matching s request.url b → a = b := by
    intro a b ha hb
    by_contra hne
    have hmem := ha.reported hb hne order
    rw [hquiet] at hmem
    cases hmem
  have hroute := routeRequest_cases hnamed hslashes order₂
  rcases firstMatch_cases hslashes (valuesIn order₁ s.scopes) with ⟨scope,hmem,hfound,hfirst⟩|⟨hnone,hfirst⟩
  · have hscope : Matching s request.url scope := ⟨ScopeRouter.mem_getAllScopes.mp hmem,hfound⟩
    refine ⟨some scope,hfirst,?_⟩
    rcases hroute with ⟨best,hbest,heq⟩|⟨hall,-⟩
    · rw [heq,honly scope best hscope hbest.matching]
      rfl
    · exact absurd hscope (hall scope)
  · refine ⟨none,hfirst,?_⟩
    rcases hroute with ⟨best,hbest,-⟩|⟨-,heq⟩
    · exact absurd hbest.matching.found (hnone best (ScopeRouter.mem_getAllScopes.mpr hbest.matching.stored))
    · exact heq

end Detection

section Resolution

theorem ScopePriority.toNat_inj {p q : ScopePriority} : p.toNat = q.toNat ↔ p = q := by
  cases p <;> cases q <;> simp [ScopePriority.toNat]

end Resolution

def shortScope : WorkerScope := ⟨3,text "https://a/app",text "https://a/app",appWorker,3,by decide⟩

def longScope : WorkerScope := ⟨4,text "https://a/apps",text "https://a/apps",appWorker,3,by decide⟩

def contestedRouter : ScopeRouter :=
  ((ScopeRouter.init.addScope enoughMemory shortScope).2.addScope enoughMemory longScope).2

theorem contestedRouter_named : ∀ key ∈ contestedRouter.scopes, key ≠ [] := by
  have hnamed : ∀ key ∈ contestedRouter.scopes.keys, key ≠ [] := by decide
  exact fun key hmem => hnamed key (AList.mem_keys.mp hmem)

theorem conflicts_complete_contested :
    createConflict shortScope longScope ∈ detectConflicts (contestedRouter.getAllScopes (foremost [])) :=
  ((conflicts_complete contestedRouter contestedRouter_named (foremost [])).2.1 (text "https://a/apps") shortScope
    longScope ⟨by decide,by decide⟩ ⟨by decide,by decide⟩ (by decide)).1

end ZNet.ScopeRouting
