import ZNet.TextScan
import ZNet.Tables
import ZNet.Runs
import Mathlib.Data.List.MinMax

/-!
# Scopes of service workers

The router chooses among the scopes that begin a URL and have no fewer slashes, the
interceptor looks for the worker's scope anywhere in the URL, and a default scope is kept
beside the table of the scopes.
-/

namespace ZNet.ScopeRouting
open TextScan Tables Runs

abbrev Str := List UInt8

def slash : UInt8 := 47

structure ServiceWorkerRegistration where
  scope : Str
  scriptUrl : Str
deriving DecidableEq

structure ServiceWorker where
  id : ℕ
  registration : ServiceWorkerRegistration
deriving DecidableEq

structure Request where
  url : Str
  method : Str
  headers : Table Str Str

def generateScopePattern (url : Str) : Str := url

/-- The number of slashes, if it fits into a byte. -/
def calculateMaxScopeDepth (url : Str) : Option ℕ := if url.count slash < 256 then some (url.count slash) else none

def deepen (depth : ℕ) (char : UInt8) : Option ℕ :=
  if char = slash then if depth+1 < 256 then some (depth+1) else none else some depth

/-- The slashes are counted in a byte. -/
def calculateDepth (url : Str) : Option ℕ := url.foldlM deepen 0

def urlStartsWith (url start : Str) : Bool := decide (indexOf start url = some 0)

/-- Scopes at different addresses are different. -/
structure WorkerScope where
  address : ℕ
  url : Str
  pattern : Str
  worker : ServiceWorker
  maxScopeDepth : ℕ
  depth_eq : calculateMaxScopeDepth url = some maxScopeDepth
deriving DecidableEq

def WorkerScope.init (address : ℕ) (url : Str) (worker : ServiceWorker) : Option WorkerScope :=
  match h : calculateMaxScopeDepth url with
  | some depth => some ⟨address,url,generateScopePattern url,worker,depth,h⟩
  | none => none

def WorkerScope.matches (self : WorkerScope) (url : Str) : Option Bool :=
  if !urlStartsWith url self.url then some false
  else (calculateDepth url).map fun depth => decide (depth ≤ self.maxScopeDepth)

structure Route where
  pattern : Str
  workerScope : WorkerScope

/-- `held`: the lists and tables of the scope have not been deinitialized. -/
def WorkerScope.deinit (held : Bool) : Option Bool := if held then some false else none

/-- A route deinitializes its scope. -/
def Route.deinit (held : Bool) : Option Bool := WorkerScope.deinit held

/-- The routes of other scopes, after those of the scope are deinitialized. -/
def removeRoutes (scope : WorkerScope) : List Route → Bool → Option (List Route×Bool)
  | [],held => some ([],held)
  | route::routes,held =>
    if route.workerScope = scope then (Route.deinit held).bind fun held => removeRoutes scope routes held
    else (removeRoutes scope routes held).map fun rest => (route::rest.1,rest.2)

structure RoutingCondition where
  field : Str
  operator : String
  value : Str

structure RoutingRule where
  ruleId : ℕ
  sourcePattern : Str
  targetScope : Str
  conditions : List RoutingCondition

def getFieldValue (field : Str) (request : Request) : Str :=
  if field = ascii "url".toList then request.url
  else if field = ascii "method".toList then request.method
  else (request.headers.lookup field).getD []

def checkCondition (condition : RoutingCondition) (request : Request) : Bool :=
  let value := getFieldValue condition.field request
  if condition.operator = "equals" then decide (value = condition.value)
  else if condition.operator = "contains" then (indexOf condition.value value).isSome
  else if condition.operator = "starts_with" then decide (indexOf condition.value value = some 0)
  else if condition.operator = "ends_with" then condition.value.isSuffixOf value
  else false

def RoutingRule.matches (self : RoutingRule) (request : Request) : Bool :=
  if indexOf self.sourcePattern request.url ≠ some 0 then false
  else self.conditions.all fun condition => checkCondition condition request

inductive RouteError
  | noMatchingScope
deriving DecidableEq

inductive AddError
  | outOfMemory | routeCreationFailed
deriving DecidableEq

/-- Whether there is memory for the entry of a scope, for its route and for the route's place
in the list. -/
structure Memory where
  entry : Bool
  route : Bool
  item : Bool

/-- A scope is kept under its URL. -/
structure ScopeRouter where
  scopes : Table Str WorkerScope
  routes : List Route
  defaultScope : Option WorkerScope
  routingRules : List RoutingRule
  keyed : ∀ url scope, scopes.lookup url = some scope → scope.url = url

/-- The longest scope so far, with the length of its URL. -/
def keepLonger (url : Str) (best : Option WorkerScope×ℕ) (scope : WorkerScope) : Option (Option WorkerScope×ℕ) :=
  (scope.matches url).map fun found =>
    if found && decide (best.2 < scope.url.length) then (some scope,scope.url.length) else best

def firstMatch (url : Str) : List WorkerScope → Option (Option WorkerScope)
  | [] => some none
  | scope::scopes => (scope.matches url).bind fun found => if found then some (some scope) else firstMatch url scopes

namespace ScopeRouter

def init : ScopeRouter := ⟨∅,[],none,[],nofun⟩

/-- The scope is found under its URL. -/
def store (self : ScopeRouter) (scope : WorkerScope) : ScopeRouter where
  scopes := self.scopes.insert scope.url scope
  routes := self.routes
  defaultScope := self.defaultScope
  routingRules := self.routingRules
  keyed := by
    intro url scope' h
    rw [lookup_insert_eq] at h
    split_ifs at h with hurl
    · rw [Option.some.injEq] at h
      rw [hurl,h]
    · exact self.keyed url scope' h

/-- The scope is kept also if there is no memory for its route. -/
def addScope (self : ScopeRouter) (memory : Memory) (scope : WorkerScope) : Except AddError Unit×ScopeRouter :=
  if !memory.entry then (.error .outOfMemory,self)
  else if !memory.route then (.error .routeCreationFailed,self.store scope)
  else if !memory.item then (.error .outOfMemory,self.store scope)
  else (.ok (),{ self.store scope with routes := self.routes++[⟨scope.pattern,scope⟩] })

/-- The scope and its routes go. `none`: its lists and tables are deinitialized twice, by a
route and by the removal or by two routes. -/
def removeScope (self : ScopeRouter) (scopeUrl : Str) : Option (Bool×ScopeRouter) :=
  match self.scopes.lookup scopeUrl with
  | some scope => do
    let (routes,held) ← removeRoutes scope self.routes true
    let _ ← WorkerScope.deinit held
    some (true,
      { self with
        scopes := self.scopes.erase scopeUrl
        routes := routes
        keyed := by
          intro url scope' h
          rw [lookup_erase_eq] at h
          split_ifs at h
          exact self.keyed url scope' h })
  | none => some (false,self)

/-- `none`: the slashes of the URL do not fit into a byte. -/
def routeRequest (self : ScopeRouter) (order : IterationOrder Str) (request : Request) :
    Option (Except RouteError WorkerScope) :=
  ((valuesIn order self.scopes).foldlM (keepLonger request.url) (none,0)).map fun best =>
    match best.1 with
    | some scope => .ok scope
    | none =>
      match self.defaultScope with
      | some scope => .ok scope
      | none => .error .noMatchingScope

def getScopeForUrl (self : ScopeRouter) (order : IterationOrder Str) (url : Str) : Option (Option WorkerScope) :=
  firstMatch url (valuesIn order self.scopes)

def getAllScopes (self : ScopeRouter) (order : IterationOrder Str) : List WorkerScope := valuesIn order self.scopes

def setDefaultScope (self : ScopeRouter) (scope : WorkerScope) : ScopeRouter := { self with defaultScope := some scope }

def addRoutingRule (self : ScopeRouter) (rule : RoutingRule) : ScopeRouter :=
  { self with routingRules := self.routingRules++[rule] }

def removeRoutingRule (self : ScopeRouter) (ruleId : ℕ) : ScopeRouter :=
  { self with routingRules := self.routingRules.eraseP fun rule => decide (rule.ruleId = ruleId) }

/-- The scope of the first rule that matches and names a scope. -/
def applyRoutingRules (self : ScopeRouter) (order : IterationOrder Str) (request : Request) :
    Option (Except RouteError WorkerScope) :=
  match self.routingRules.findSome? fun rule =>
      if rule.matches request then self.scopes.lookup rule.targetScope else none with
  | some scope => some (.ok scope)
  | none => self.routeRequest order request

end ScopeRouter

/-- The interceptor's test of the worker's scope. -/
def shouldIntercept (worker : ServiceWorker) (request : Request) : Bool :=
  (indexOf worker.registration.scope request.url).isSome

inductive RouterCall
  | addScope (memory : Memory) (scope : WorkerScope)
  | removeScope (scopeUrl : Str)
  | setDefaultScope (scope : WorkerScope)
  | addRoutingRule (rule : RoutingRule)
  | removeRoutingRule (ruleId : ℕ)

def step (s : ScopeRouter) : RouterCall → Option ScopeRouter
  | .addScope memory scope => some (s.addScope memory scope).2
  | .removeScope scopeUrl => (s.removeScope scopeUrl).map Prod.snd
  | .setDefaultScope scope => some (s.setDefaultScope scope)
  | .addRoutingRule rule => some (s.addRoutingRule rule)
  | .removeRoutingRule ruleId => some (s.removeRoutingRule ruleId)

/-- The call gives the scope to the router. -/
def RouterCall.Gives (scope : WorkerScope) : RouterCall → Prop
  | .addScope _ scope' => scope' = scope
  | .setDefaultScope scope' => scope' = scope
  | _ => False

/-- A scope controls the URLs that it begins, and the router, the lookup and the interceptor
say the same of it. -/
structure Agreed (s : ScopeRouter) (order : IterationOrder Str) (request : Request) : Prop where
  controls : ∀ scope ∈ s.getAllScopes order, scope.matches request.url = some (decide (scope.url <+: request.url))
  intercepts : ∀ scope ∈ s.getAllScopes order, shouldIntercept scope.worker request = decide (scope.url <+: request.url)
  routed : ∃ found : Option WorkerScope,
    s.routeRequest order request = some (found.elim (.error .noMatchingScope) .ok) ∧
    s.getScopeForUrl order request.url = some found ∧
    (found.isSome ↔ ∃ scope ∈ s.getAllScopes order, scope.url <+: request.url)

/-- No function of the router returns the scope. -/
structure Forgotten (s : ScopeRouter) (scope : WorkerScope) : Prop where
  routeRequest : ∀ order request, s.routeRequest order request ≠ some (.ok scope)
  applyRoutingRules : ∀ order request, s.applyRoutingRules order request ≠ some (.ok scope)
  getScopeForUrl : ∀ order url, s.getScopeForUrl order url ≠ some (some scope)
  getAllScopes : ∀ order, scope ∉ s.getAllScopes order

/-- The removal of the scope succeeds, and no function of the router returns the scope in any
later run in which it is not given to the router again. -/
def Removed (s : ScopeRouter) (scopeUrl : Str) (scope : WorkerScope) : Prop :=
  ∃ s', s.removeScope scopeUrl = some (true,s') ∧
    ∀ calls : List RouterCall, (∀ call ∈ calls, ¬call.Gives scope) →
      ∀ s'', calls.foldlM step s' = some s'' → Forgotten s'' scope

/-- The scope has neither a route nor the place of the default. -/
structure Unrouted (s : ScopeRouter) (scope : WorkerScope) : Prop where
  routes : ∀ route ∈ s.routes, route.workerScope ≠ scope
  default : s.defaultScope ≠ some scope

/-- At most one scope begins the URL. No slash follows it, and the scopes under which the
workers are registered are found in the URL just if theirs begin it. -/
structure Unambiguous (s : ScopeRouter) (url : Str) : Prop where
  named : s.scopes.lookup [] = none
  only : ∀ key ∈ s.scopes, ∀ key' ∈ s.scopes, key <+: url → key' <+: url → key = key'
  level : ∀ key ∈ s.scopes, key <+: url → slash ∉ url.drop key.length
  registered : ∀ key scope, s.scopes.lookup key = some scope → key <+: url → scope.worker.registration.scope <:+: url
  elsewhere : ∀ key scope, s.scopes.lookup key = some scope → ¬key <+: url → ¬scope.worker.registration.scope <:+: url

theorem deepen_foldlM (url : Str) {depth : ℕ} (h : depth < 256) :
    url.foldlM deepen depth = if depth+url.count slash < 256 then some (depth+url.count slash) else none := by
  induction url generalizing depth with
  | nil => rw [List.count_nil,Nat.add_zero,if_pos h]; rfl
  | cons c url ih =>
    rw [List.foldlM_cons,deepen,List.count_cons]
    by_cases hc : c = slash
    · by_cases hfits : depth+1 < 256
      · rw [if_pos hc,if_pos hfits,Option.bind_eq_bind,Option.bind_some,ih hfits,hc,beq_self_eq_true,if_pos rfl,
          Nat.add_assoc,Nat.add_comm 1]
      · rw [if_pos hc,if_neg hfits,Option.bind_eq_bind,Option.bind_none,if_neg (by simp [hc]; omega)]
    · rw [if_neg hc,Option.bind_eq_bind,Option.bind_some,ih h,beq_eq_false_iff_ne.mpr hc,if_neg Bool.false_ne_true,
        Nat.add_zero]

/-- Both counts of the slashes are the same. -/
theorem calculateDepth_eq (url : Str) : calculateDepth url = calculateMaxScopeDepth url := by
  rw [calculateDepth,deepen_foldlM url (by decide),Nat.zero_add,calculateMaxScopeDepth]

theorem urlStartsWith_eq (url start : Str) : urlStartsWith url start = decide (start <+: url) :=
  decide_eq_decide.mpr indexOf_eq_zero_iff

theorem WorkerScope.maxScopeDepth_eq (scope : WorkerScope) : scope.maxScopeDepth = scope.url.count slash := by
  have h := scope.depth_eq
  rw [calculateMaxScopeDepth,Option.ite_none_right_eq_some,Option.some.injEq] at h
  exact h.2.symm

theorem WorkerScope.count_lt (scope : WorkerScope) : scope.url.count slash < 256 := by
  have h := scope.depth_eq
  rw [calculateMaxScopeDepth,Option.ite_none_right_eq_some] at h
  exact h.1

theorem WorkerScope.matches_of_not_prefix {scope : WorkerScope} {url : Str} (h : ¬scope.url <+: url) :
    scope.matches url = some false := by
  rw [WorkerScope.matches,urlStartsWith_eq,decide_eq_false h]
  rfl

/-- A scope matches the URLs that it begins unless they go on with a slash. -/
theorem WorkerScope.matches_append (scope : WorkerScope) (rest : Str) :
    scope.matches (scope.url++rest) =
      if (scope.url++rest).count slash < 256 then some (decide (slash ∉ rest)) else none := by
  have hstart : urlStartsWith (scope.url++rest) scope.url = true := by
    rw [urlStartsWith_eq]
    exact decide_eq_true (List.prefix_append _ _)
  have hlevel : (scope.url++rest).count slash ≤ scope.maxScopeDepth ↔ slash ∉ rest := by
    rw [scope.maxScopeDepth_eq,List.count_append,← List.count_eq_zero]
    omega
  rw [WorkerScope.matches,hstart,calculateDepth_eq,calculateMaxScopeDepth,Bool.not_true,if_neg Bool.false_ne_true,
    apply_ite (Option.map _),Option.map_some,Option.map_none,decide_eq_decide.mpr hlevel]

theorem WorkerScope.matches_of_prefix {scope : WorkerScope} {url : Str} (h : scope.url <+: url) :
    scope.matches url = some true ↔ slash ∉ url.drop scope.url.length := by
  obtain ⟨rest,rfl⟩ := h
  have hcount := scope.count_lt
  rw [scope.matches_append rest,List.drop_left,Option.ite_none_right_eq_some,Option.some.injEq,decide_eq_true_eq,
    and_iff_right_iff_imp,List.count_append]
  intro hlevel
  rwa [List.count_eq_zero.mpr hlevel]

theorem ScopeRouter.mem_getAllScopes {s : ScopeRouter} {order : IterationOrder Str} {scope : WorkerScope} :
    scope ∈ s.getAllScopes order ↔ s.scopes.lookup scope.url = some scope := by
  rw [getAllScopes,mem_valuesIn]
  constructor
  · rintro ⟨key,h⟩
    rwa [s.keyed key scope h]
  · intro h
    exact ⟨_,h⟩

section Choice

variable {url : Str} {scopes : List WorkerScope}

/-- The named scopes that begin the URL. -/
def candidates (url : Str) (scopes : List WorkerScope) : List WorkerScope :=
  scopes.filter fun scope => decide (scope.url <+: url ∧ scope.url ≠ [])

/-- The longest scope that begins the URL. -/
def longest (url : Str) (scopes : List WorkerScope) : Option WorkerScope :=
  (candidates url scopes).argmax fun scope => scope.url.length

def size (best : Option WorkerScope) : ℕ := best.elim 0 fun scope => scope.url.length

theorem candidates_concat (url : Str) (scopes : List WorkerScope) (scope : WorkerScope) :
    candidates url (scopes++[scope]) =
      if scope.url <+: url ∧ scope.url ≠ [] then candidates url scopes++[scope] else candidates url scopes := by
  rw [candidates,candidates,List.filter_append,List.filter_singleton]
  split <;> simp [*]

theorem longest_concat (url : Str) (scopes : List WorkerScope) (scope : WorkerScope) :
    longest url (scopes++[scope]) =
      if scope.url <+: url ∧ size (longest url scopes) < scope.url.length then some scope else longest url scopes := by
  rw [longest,candidates_concat]
  by_cases hcandidate : scope.url <+: url ∧ scope.url ≠ []
  · rw [if_pos hcandidate,List.argmax_concat]
    cases hbest : (candidates url scopes).argmax fun scope => scope.url.length with
    | none =>
      rw [longest,hbest]
      exact (if_pos ⟨hcandidate.1,List.length_pos_of_ne_nil hcandidate.2⟩).symm
    | some best =>
      rw [longest,hbest,size,Option.elim_some]
      simp only [hcandidate.1,true_and]
  · rw [if_neg hcandidate,if_neg]
    · rfl
    · rintro ⟨hstart,hlonger⟩
      exact hcandidate ⟨hstart,List.ne_nil_of_length_pos (Nat.zero_lt_of_lt hlonger)⟩

/-- Where no slash decides, the search keeps the longest scope. -/
theorem keepLonger_foldlM (hmatch : ∀ scope ∈ scopes, scope.matches url = some (decide (scope.url <+: url))) :
    scopes.foldlM (keepLonger url) (none,0) = some (longest url scopes,size (longest url scopes)) := by
  induction scopes using List.reverseRecOn with
  | nil => rfl
  | append_singleton scopes scope ih =>
    have hlast : keepLonger url (longest url scopes,size (longest url scopes)) scope =
        some (longest url (scopes++[scope]),size (longest url (scopes++[scope]))) := by
      rw [keepLonger,hmatch scope (List.mem_append_right _ List.mem_cons_self),Option.map_some,longest_concat,
        ← Bool.decide_and]
      by_cases hlonger : scope.url <+: url ∧ size (longest url scopes) < scope.url.length
      · rw [decide_eq_true hlonger,if_pos hlonger]
        rfl
      · rw [decide_eq_false hlonger,if_neg hlonger]
        rfl
    rw [List.foldlM_append,ih fun scope h => hmatch scope (List.mem_append_left _ h),Option.bind_eq_bind,
      Option.bind_some,List.foldlM_cons,hlast]
    rfl

theorem firstMatch_eq (hmatch : ∀ scope ∈ scopes, scope.matches url = some (decide (scope.url <+: url))) :
    firstMatch url scopes = some (scopes.find? fun scope => decide (scope.url <+: url)) := by
  induction scopes with
  | nil => rfl
  | cons scope scopes ih =>
    rw [firstMatch,hmatch scope List.mem_cons_self,Option.bind_some,List.find?_cons,
      ih fun scope h => hmatch scope (List.mem_cons_of_mem _ h)]
    cases decide (scope.url <+: url) <;> rfl

theorem mem_candidates {scope : WorkerScope} :
    scope ∈ candidates url scopes ↔ scope ∈ scopes ∧ scope.url <+: url ∧ scope.url ≠ [] := by
  rw [candidates,List.mem_filter,decide_eq_true_eq]

theorem longest_some {scope : WorkerScope} (h : longest url scopes = some scope) :
    scope ∈ scopes ∧ scope.url <+: url ∧ scope.url ≠ [] ∧
    ∀ scope' ∈ scopes, scope'.url <+: url → scope'.url.length ≤ scope.url.length := by
  obtain ⟨hmem,hstart,hnamed⟩ := mem_candidates.mp (List.argmax_mem h)
  refine ⟨hmem,hstart,hnamed,fun scope' hmem' hstart' => ?_⟩
  by_cases hnamed' : scope'.url = []
  · rw [hnamed']
    exact Nat.zero_le _
  · exact List.le_of_mem_argmax (f:=fun scope : WorkerScope => scope.url.length) (mem_candidates.mpr ⟨hmem',hstart',hnamed'⟩) h

theorem longest_none (h : longest url scopes = none) {scope : WorkerScope} (hmem : scope ∈ scopes)
    (hstart : scope.url <+: url) : scope.url = [] := by
  by_contra hnamed
  have hcandidate := mem_candidates.mpr ⟨hmem,hstart,hnamed⟩
  rw [List.argmax_eq_none.mp h] at hcandidate
  cases hcandidate

end Choice

section Agreement

variable {s : ScopeRouter} {order : IterationOrder Str} {request : Request} {scope : WorkerScope}

theorem routeRequest_eq (hdefault : s.defaultScope = none)
    (hmatch : ∀ scope ∈ s.getAllScopes order, scope.matches request.url = some (decide (scope.url <+: request.url))) :
    s.routeRequest order request =
      some ((longest request.url (s.getAllScopes order)).elim (.error .noMatchingScope) .ok) := by
  have hsearch := keepLonger_foldlM hmatch
  rw [ScopeRouter.getAllScopes] at hsearch ⊢
  rw [ScopeRouter.routeRequest,hsearch,hdefault,Option.map_some]
  cases longest request.url (valuesIn order s.scopes) <;> rfl

theorem shouldIntercept_iff {worker : ServiceWorker} :
    shouldIntercept worker request = true ↔ worker.registration.scope <:+: request.url := indexOf_isSome_iff

/-- The first scope in any order is the longest. -/
theorem Unambiguous.find?_eq (h : Unambiguous s request.url) (order : IterationOrder Str) :
    ((s.getAllScopes order).find? fun scope => decide (scope.url <+: request.url)) =
      longest request.url (s.getAllScopes order) := by
  cases hfirst : (s.getAllScopes order).find? fun scope => decide (scope.url <+: request.url) with
  | none =>
    cases hbest : longest request.url (s.getAllScopes order) with
    | none => rfl
    | some best =>
      obtain ⟨hmem,hstart,-⟩ := longest_some hbest
      exact (List.find?_eq_none.mp hfirst best hmem (decide_eq_true hstart)).elim
  | some first =>
    have hlookup := ScopeRouter.mem_getAllScopes.mp (List.mem_of_find?_eq_some hfirst)
    have hstart : first.url <+: request.url := by simpa using List.find?_some hfirst
    cases hbest : longest request.url (s.getAllScopes order) with
    | none =>
      rw [longest_none hbest (List.mem_of_find?_eq_some hfirst) hstart,h.named] at hlookup
      cases hlookup
    | some best =>
      obtain ⟨hmem,hstart',-⟩ := longest_some hbest
      have hlookup' := ScopeRouter.mem_getAllScopes.mp hmem
      rwa [h.only _ (mem_of_lookup hlookup') _ (mem_of_lookup hlookup) hstart' hstart,hlookup] at hlookup'

theorem Unambiguous.controls (h : Unambiguous s request.url) (hmem : scope ∈ s.getAllScopes order) :
    scope.matches request.url = some (decide (scope.url <+: request.url)) := by
  by_cases hstart : scope.url <+: request.url
  · rw [decide_eq_true hstart]
    exact (WorkerScope.matches_of_prefix hstart).mpr
      (h.level _ (mem_of_lookup (ScopeRouter.mem_getAllScopes.mp hmem)) hstart)
  · rw [decide_eq_false hstart]
    exact WorkerScope.matches_of_not_prefix hstart

theorem Unambiguous.agreed (h : Unambiguous s request.url) (hdefault : s.defaultScope = none)
    (order : IterationOrder Str) : Agreed s order request := by
  have hcontrols : ∀ scope ∈ s.getAllScopes order,
      scope.matches request.url = some (decide (scope.url <+: request.url)) := fun _ hmem => h.controls hmem
  refine ⟨hcontrols,fun scope hmem => ?_,_,routeRequest_eq hdefault hcontrols,?_,?_⟩
  · have hlookup := ScopeRouter.mem_getAllScopes.mp hmem
    rw [Bool.eq_iff_iff,shouldIntercept_iff,decide_eq_true_eq]
    exact ⟨fun hfound => by_contra fun hstart => h.elsewhere _ scope hlookup hstart hfound,
      h.registered _ scope hlookup⟩
  · rw [← h.find?_eq order]
    exact firstMatch_eq hcontrols
  · rw [← h.find?_eq order,List.find?_isSome]
    simp only [decide_eq_true_eq]

/-- In the iteration that comes to it first a scope is found, so it has to be the longest. -/
theorem longest_of_agreed (h : Agreed s (foremost scope.url) request) (hdefault : s.defaultScope = none)
    (hlookup : s.scopes.lookup scope.url = some scope) (hstart : scope.url <+: request.url) :
    longest request.url (s.getAllScopes (foremost scope.url)) = some scope := by
  obtain ⟨found,hroute,hget,-⟩ := h.routed
  obtain ⟨rest,hfirst⟩ := valuesIn_foremost hlookup
  have hcontrols := h.controls
  rw [routeRequest_eq hdefault hcontrols,Option.some.injEq] at hroute
  rw [ScopeRouter.getScopeForUrl,← ScopeRouter.getAllScopes,firstMatch_eq hcontrols,ScopeRouter.getAllScopes,hfirst,
    List.find?_cons,decide_eq_true hstart,Option.some.injEq] at hget
  rw [← hget] at hroute
  cases hbest : longest request.url (s.getAllScopes (foremost scope.url)) with
  | none =>
    rw [hbest] at hroute
    cases hroute
  | some best =>
    rw [hbest] at hroute
    exact congrArg some (Except.ok.inj hroute)

theorem Unambiguous.of_agreed (hdefault : s.defaultScope = none) (h : ∀ order, Agreed s order request) :
    Unambiguous s request.url := by
  have hlongest : ∀ scope, s.scopes.lookup scope.url = some scope → scope.url <+: request.url → scope.url ≠ [] ∧
      ∀ scope', s.scopes.lookup scope'.url = some scope' → scope'.url <+: request.url →
        scope'.url.length ≤ scope.url.length := by
    intro scope hlookup hstart
    obtain ⟨-,-,hnamed,hmax⟩ := longest_some (longest_of_agreed (h _) hdefault hlookup hstart)
    exact ⟨hnamed,fun scope' hlookup' => hmax scope' (ScopeRouter.mem_getAllScopes.mpr hlookup')⟩
  have hin : ∀ key scope, s.scopes.lookup key = some scope →
      scope.url = key ∧ s.scopes.lookup scope.url = some scope ∧ scope ∈ s.getAllScopes (foremost key) := by
    intro key scope hlookup
    have hkey := s.keyed key scope hlookup
    have hlookup' : s.scopes.lookup scope.url = some scope := by rwa [hkey]
    exact ⟨hkey,hlookup',ScopeRouter.mem_getAllScopes.mpr hlookup'⟩
  refine ⟨?_,?_,?_,?_,?_⟩
  · cases hempty : s.scopes.lookup [] with
    | none => rfl
    | some scope =>
      obtain ⟨hkey,hlookup,-⟩ := hin [] scope hempty
      exact ((hlongest scope hlookup (hkey ▸ List.nil_prefix)).1 hkey).elim
  · intro key hmem key' hmem' hstart hstart'
    obtain ⟨scope,hlookup⟩ := exists_lookup hmem
    obtain ⟨scope',hlookup'⟩ := exists_lookup hmem'
    obtain ⟨rfl,hlookup,-⟩ := hin key scope hlookup
    obtain ⟨rfl,hlookup',-⟩ := hin key' scope' hlookup'
    have hle := (hlongest scope hlookup hstart).2 scope' hlookup' hstart'
    have hge := (hlongest scope' hlookup' hstart').2 scope hlookup hstart
    exact (List.prefix_of_prefix_length_le hstart hstart' hge).eq_of_length (Nat.le_antisymm hge hle)
  · intro key hmem hstart
    obtain ⟨scope,hlookup⟩ := exists_lookup hmem
    obtain ⟨rfl,-,hall⟩ := hin key scope hlookup
    have hcontrols := (h _).controls scope hall
    rw [decide_eq_true hstart] at hcontrols
    exact (WorkerScope.matches_of_prefix hstart).mp hcontrols
  all_goals
    intro key scope hlookup hstart
    obtain ⟨rfl,-,hall⟩ := hin key scope hlookup
    have hfound := (h _).intercepts scope hall
    rw [Bool.eq_iff_iff,shouldIntercept_iff,decide_eq_true_eq] at hfound
  · exact hfound.mpr hstart
  · exact mt hfound.mp hstart

theorem agreed_iff (hdefault : s.defaultScope = none) :
    (∀ order, Agreed s order request) ↔ Unambiguous s request.url :=
  ⟨.of_agreed hdefault,fun h order => h.agreed hdefault order⟩

end Agreement

section Removal

variable {s : ScopeRouter} {scope : WorkerScope}

/-- The router does not have the scope, neither in the table nor as the default. -/
structure Absent (s : ScopeRouter) (scope : WorkerScope) : Prop where
  table : s.scopes.lookup scope.url ≠ some scope
  default : s.defaultScope ≠ some scope

theorem store_scopes (s : ScopeRouter) (scope : WorkerScope) : (s.store scope).scopes = s.scopes.insert scope.url scope :=
  rfl

/-- The router is as it was, or it has the scope and perhaps a new route. -/
theorem addScope_cases (s : ScopeRouter) (memory : Memory) (scope : WorkerScope) :
    (s.addScope memory scope).2 = s ∨ ∃ routes, (s.addScope memory scope).2 = { s.store scope with routes := routes } := by
  rw [ScopeRouter.addScope]
  split_ifs
  · exact .inl rfl
  · exact .inr ⟨s.routes,rfl⟩
  · exact .inr ⟨s.routes,rfl⟩
  · exact .inr ⟨_,rfl⟩

/-- No route is for the scope, or one of them has deinitialized it. -/
theorem removeRoutes_eq_some {scope : WorkerScope} {routes : List Route} {held : Bool} {rest : List Route×Bool}
    (h : removeRoutes scope routes held = some rest) :
    rest.2 = held ∧ (∀ route ∈ routes, route.workerScope ≠ scope) ∨ rest.2 = false := by
  induction routes generalizing held rest with
  | nil =>
    cases h
    exact .inl ⟨rfl,nofun⟩
  | cons route routes ih =>
    rw [removeRoutes] at h
    split_ifs at h with hscope
    · obtain ⟨held',hheld,hrest⟩ := Option.bind_eq_some_iff.mp h
      rw [Route.deinit,WorkerScope.deinit,Option.ite_none_right_eq_some,Option.some.injEq] at hheld
      rcases ih hrest with ⟨hsame,-⟩ | hgone
      · exact .inr (hsame.trans hheld.2.symm)
      · exact .inr hgone
    · obtain ⟨rest',hrest,rfl⟩ := Option.map_eq_some_iff.mp h
      rcases ih hrest with ⟨hsame,hothers⟩ | hgone
      · exact .inl ⟨hsame,List.forall_mem_cons.mpr ⟨hscope,hothers⟩⟩
      · exact .inr hgone

theorem removeRoutes_of_unrouted {scope : WorkerScope} {routes : List Route} (held : Bool)
    (h : ∀ route ∈ routes, route.workerScope ≠ scope) : removeRoutes scope routes held = some (routes,held) := by
  induction routes with
  | nil => rfl
  | cons route routes ih =>
    obtain ⟨hscope,hothers⟩ := List.forall_mem_cons.mp h
    rw [removeRoutes,if_neg hscope,ih hothers]
    rfl

/-- A removal that gives nothing back twice is one of a scope without routes, whose entry goes. -/
theorem removeScope_eq_some {scopeUrl : Str} {scope : WorkerScope} (hlookup : s.scopes.lookup scopeUrl = some scope)
    {result : Bool×ScopeRouter} (h : s.removeScope scopeUrl = some result) :
    (∀ route ∈ s.routes, route.workerScope ≠ scope) ∧ result.1 = true ∧
      result.2.scopes = s.scopes.erase scopeUrl ∧ result.2.defaultScope = s.defaultScope := by
  rw [ScopeRouter.removeScope] at h
  split at h
  · next scope' hscope =>
    cases hlookup.symm.trans hscope
    simp only [Option.bind_eq_bind,Option.bind_eq_some_iff,Option.some.injEq] at h
    obtain ⟨rest,hrest,held,hheld,rfl⟩ := h
    rw [WorkerScope.deinit,Option.ite_none_right_eq_some] at hheld
    rcases removeRoutes_eq_some hrest with ⟨-,hothers⟩ | hgone
    · exact ⟨hothers,rfl,rfl,rfl⟩
    · rw [hgone] at hheld
      cases hheld.1
  · next hnone => cases hlookup.symm.trans hnone

theorem removeScope_of_unrouted {scopeUrl : Str} {scope : WorkerScope} (hlookup : s.scopes.lookup scopeUrl = some scope)
    (h : ∀ route ∈ s.routes, route.workerScope ≠ scope) : ∃ s', s.removeScope scopeUrl = some (true,s') := by
  rw [ScopeRouter.removeScope]
  split
  · next scope' hscope =>
    cases hlookup.symm.trans hscope
    rw [removeRoutes_of_unrouted true h]
    exact ⟨_,rfl⟩
  · next hnone => cases hlookup.symm.trans hnone

/-- A removal leaves the default, and of the entries it takes at most that of the URL. -/
theorem removeScope_cases {scopeUrl : Str} {result : Bool×ScopeRouter} (h : s.removeScope scopeUrl = some result) :
    result.2 = s ∨ result.2.scopes = s.scopes.erase scopeUrl ∧ result.2.defaultScope = s.defaultScope := by
  cases hlookup : s.scopes.lookup scopeUrl with
  | none =>
    rw [ScopeRouter.removeScope] at h
    split at h
    · next hscope => cases hlookup.symm.trans hscope
    · cases h
      exact .inl rfl
  | some scope => exact .inr (removeScope_eq_some hlookup h).2.2

theorem Absent.step (h : Absent s scope) {call : RouterCall} (hcall : ¬call.Gives scope) {s' : ScopeRouter}
    (hstep : step s call = some s') : Absent s' scope := by
  obtain ⟨htable,hdefault⟩ := h
  cases call with
  | addScope memory scope' =>
    cases hstep
    rcases addScope_cases s memory scope' with hsame | ⟨routes,hstored⟩
    · rw [hsame]
      exact ⟨htable,hdefault⟩
    · rw [hstored]
      refine ⟨?_,hdefault⟩
      rw [store_scopes,lookup_insert_eq]
      split
      · exact fun hsame => hcall (Option.some.inj hsame)
      · exact htable
  | removeScope scopeUrl =>
    obtain ⟨result,hremove,rfl⟩ := Option.map_eq_some_iff.mp hstep
    rcases removeScope_cases hremove with hsame | ⟨hscopes,hkept⟩
    · rw [hsame]
      exact ⟨htable,hdefault⟩
    · refine ⟨?_,hkept ▸ hdefault⟩
      rw [hscopes,lookup_erase_eq]
      split
      · nofun
      · exact htable
  | setDefaultScope scope' =>
    cases hstep
    exact ⟨htable,fun hsame => hcall (Option.some.inj hsame)⟩
  | addRoutingRule rule =>
    cases hstep
    exact ⟨htable,hdefault⟩
  | removeRoutingRule ruleId =>
    cases hstep
    exact ⟨htable,hdefault⟩

theorem Absent.run (h : Absent s scope) {calls : List RouterCall} (hcalls : ∀ call ∈ calls, ¬call.Gives scope)
    {s' : ScopeRouter} (hrun : calls.foldlM ScopeRouting.step s = some s') : Absent s' scope := by
  induction calls generalizing s with
  | nil =>
    cases hrun
    exact h
  | cons call calls ih =>
    obtain ⟨hcall,hrest⟩ := List.forall_mem_cons.mp hcalls
    rw [List.foldlM_cons,Option.bind_eq_bind,Option.bind_eq_some_iff] at hrun
    obtain ⟨next,hnext,hrun⟩ := hrun
    exact ih (h.step hcall hnext) hrest hrun

/-- The search ends with a scope of the list or with the one that it began with. -/
theorem keepLonger_mem {url : Str} {scopes : List WorkerScope} {best found : Option WorkerScope×ℕ}
    (h : scopes.foldlM (keepLonger url) best = some found) :
    found.1 = best.1 ∨ ∃ scope ∈ scopes, found.1 = some scope := by
  induction scopes generalizing best with
  | nil =>
    cases h
    exact .inl rfl
  | cons scope scopes ih =>
    rw [List.foldlM_cons,Option.bind_eq_bind,Option.bind_eq_some_iff] at h
    obtain ⟨next,hnext,hrest⟩ := h
    rcases ih hrest with hsame | ⟨scope',hmem,hfound⟩
    · obtain ⟨matched,-,rfl⟩ := Option.map_eq_some_iff.mp hnext
      split at hsame
      · exact .inr ⟨scope,List.mem_cons_self,hsame⟩
      · exact .inl hsame
    · exact .inr ⟨scope',List.mem_cons_of_mem _ hmem,hfound⟩

theorem firstMatch_mem {url : Str} {scopes : List WorkerScope} (h : firstMatch url scopes = some (some scope)) :
    scope ∈ scopes := by
  induction scopes with
  | nil => cases h
  | cons scope' scopes ih =>
    rw [firstMatch,Option.bind_eq_some_iff] at h
    obtain ⟨matched,-,hfound⟩ := h
    split at hfound
    · cases hfound
      exact List.mem_cons_self
    · exact List.mem_cons_of_mem _ (ih hfound)

theorem Absent.forgotten (h : Absent s scope) : Forgotten s scope := by
  have hall : ∀ order, scope ∉ s.getAllScopes order := fun order hmem => h.table (ScopeRouter.mem_getAllScopes.mp hmem)
  have hroute : ∀ order request, s.routeRequest order request ≠ some (.ok scope) := by
    intro order request hsome
    obtain ⟨best,hbest,hok⟩ := Option.map_eq_some_iff.mp hsome
    split at hok
    · rename_i found hfound
      cases hok
      rcases keepLonger_mem hbest with hnone | ⟨scope',hmem,hsame⟩
      · rw [hfound] at hnone
        cases hnone
      · rw [hfound] at hsame
        cases hsame
        exact hall order hmem
    · split at hok
      · rename_i hdefault
        cases hok
        exact h.default hdefault
      · cases hok
  refine ⟨hroute,fun order request hsome => ?_,fun order url hsome => hall order (firstMatch_mem hsome),hall⟩
  rw [ScopeRouter.applyRoutingRules] at hsome
  split at hsome
  · rename_i hrule
    cases hsome
    obtain ⟨rule,-,htarget⟩ := List.exists_of_findSome?_eq_some hrule
    split at htarget
    · have hkey := s.keyed _ scope htarget
      exact h.table (hkey ▸ htarget)
    · cases htarget
  · exact hroute order request hsome

/-- For every router there is a request that no scope matches. -/
theorem exists_unmatched (s : ScopeRouter) : ∃ request : Request, ∀ order, ∀ scope ∈ s.getAllScopes order,
    scope.matches request.url = some false := by
  let letters : Str := List.replicate s.scopes.keys.flatten.length 97
  have hletters : slash ∉ letters := by simp [letters,slash]
  refine ⟨⟨letters++[slash],[],∅⟩,fun order scope hmem => ?_⟩
  by_cases hstart : scope.url <+: letters++[slash]
  · have hshort : scope.url.length ≤ letters.length := by
      have hkey := mem_keys_of_lookup (ScopeRouter.mem_getAllScopes.mp hmem)
      rw [List.length_replicate]
      exact (List.sublist_flatten_of_mem hkey).length_le
    have hfront := List.prefix_of_prefix_length_le hstart (List.prefix_append _ _) hshort
    obtain ⟨rest,hrest⟩ := hstart
    have hslash : slash ∈ scope.url++rest := by simp [hrest]
    have hdeep : slash ∈ rest := (List.mem_append.mp hslash).resolve_left fun hin => hletters (hfront.subset hin)
    change scope.matches (letters++[slash]) = _
    rw [← hrest,scope.matches_append,hrest,List.count_append,List.count_eq_zero.mpr hletters,if_pos (by decide),
      decide_eq_false (not_not_intro hdeep)]
  · exact WorkerScope.matches_of_not_prefix hstart

theorem keepLonger_unmatched {url : Str} {scopes : List WorkerScope}
    (h : ∀ scope ∈ scopes, scope.matches url = some false) (best : Option WorkerScope×ℕ) :
    scopes.foldlM (keepLonger url) best = some best := by
  induction scopes with
  | nil => rfl
  | cons scope scopes ih =>
    rw [List.foldlM_cons,keepLonger,h scope List.mem_cons_self]
    exact ih fun scope' hmem => h scope' (List.mem_cons_of_mem _ hmem)

theorem routeRequest_default {order : IterationOrder Str} {request : Request} (hdefault : s.defaultScope = some scope)
    (h : ∀ scope ∈ s.getAllScopes order, scope.matches request.url = some false) :
    s.routeRequest order request = some (.ok scope) := by
  rw [ScopeRouter.routeRequest,← ScopeRouter.getAllScopes,keepLonger_unmatched h,hdefault]
  rfl

theorem Forgotten.absent (h : Forgotten s scope) : s.defaultScope ≠ some scope := by
  intro hdefault
  obtain ⟨request,hnone⟩ := exists_unmatched s
  exact h.routeRequest _ request (routeRequest_default hdefault (hnone (foremost [])))

/-- A scope is removed, and not returned again, exactly if no route has it and it is not the
default. A route deinitializes it before the removal does. -/
theorem removed_iff {scopeUrl : Str} (hlookup : s.scopes.lookup scopeUrl = some scope) :
    Removed s scopeUrl scope ↔ Unrouted s scope := by
  constructor
  · rintro ⟨s',hremove,hforgotten⟩
    obtain ⟨hroutes,-,-,hdefault⟩ := removeScope_eq_some hlookup hremove
    refine ⟨hroutes,?_⟩
    rw [← hdefault]
    exact (hforgotten [] nofun s' rfl).absent
  · rintro ⟨hroutes,hdefault⟩
    obtain ⟨s',hremove⟩ := removeScope_of_unrouted hlookup hroutes
    obtain ⟨-,-,hscopes,hkept⟩ := removeScope_eq_some hlookup hremove
    have habsent : Absent s' scope := by
      refine ⟨?_,hkept ▸ hdefault⟩
      rw [hscopes,s.keyed scopeUrl scope hlookup,AList.lookup_erase]
      nofun
    exact ⟨s',hremove,fun calls hcalls s'' hrun => (habsent.run hcalls hrun).forgotten⟩

end Removal

/-- Without a default scope the router, the lookup and the interceptor agree on a URL in every
order exactly if the URL is not ambiguous, and a scope is removed and never returned again
exactly if it has no route and is not the default. -/
theorem scopes_agree_iff (s : ScopeRouter) :
    (s.defaultScope = none → ∀ request, (∀ order, Agreed s order request) ↔ Unambiguous s request.url) ∧
    ∀ scopeUrl scope, s.scopes.lookup scopeUrl = some scope → (Removed s scopeUrl scope ↔ Unrouted s scope) :=
  ⟨fun hdefault _ => agreed_iff hdefault,fun _ _ hlookup => removed_iff hlookup⟩

def text (s : String) : Str := ascii s.toList

def appWorker : ServiceWorker := ⟨1,⟨text "https://a/app/",text "sw.js"⟩⟩

def appScope : WorkerScope := ⟨1,text "https://a/app/",text "https://a/app/",appWorker,4,by decide⟩

def enoughMemory : Memory := ⟨true,true,true⟩

def appRouter : ScopeRouter := (ScopeRouter.init.addScope enoughMemory appScope).2

/-- There is no memory for the route. -/
def unroutedRouter : ScopeRouter := (ScopeRouter.init.addScope ⟨true,false,true⟩ appScope).2

def getRequest (url : String) : Request := ⟨text url,text "GET",∅⟩

theorem scopes_agree_app :
    appRouter.defaultScope = none ∧ unroutedRouter.scopes.lookup (text "https://a/app/") = some appScope ∧
    ((∀ order, Agreed appRouter order (getRequest "https://a/app/x")) ↔
      Unambiguous appRouter (getRequest "https://a/app/x").url) ∧
    Removed unroutedRouter (text "https://a/app/") appScope :=
  ⟨rfl,by decide,(scopes_agree_iff appRouter).1 rfl _,
    ((scopes_agree_iff unroutedRouter).2 _ _ (by decide)).mpr ⟨nofun,nofun⟩⟩

/-- A URL two levels below the scope is not controlled by it. -/
theorem scopes_disagree : ¬∀ s : ScopeRouter,
    (s.defaultScope = none → ∀ request order, Agreed s order request) ∧
    ∀ scopeUrl scope, s.scopes.lookup scopeUrl = some scope → Removed s scopeUrl scope := by
  intro h
  have hagreed := (h appRouter).1 rfl (getRequest "https://a/app/x/y") (foremost [])
  have hcontrols := hagreed.controls appScope (by decide)
  revert hcontrols
  decide

end ZNet.ScopeRouting
