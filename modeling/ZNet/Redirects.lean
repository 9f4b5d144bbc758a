import ZNet.RateLimit
import Mathlib.Data.Nat.Find

/-!
# Following redirects

The loop of `fetch` runs to its end against servers that answer each URL with a response.
The chain of URLs that the answers give decides how it ends and what is returned.
-/

namespace ZNet.Redirects
open Pipelines RateLimit Tables

/-- The outcome of a call, and the URLs that were requested one after the other. -/
structure Trace where
  requests : List Str
  outcome : Option (Except PipelineError PipelineResponse)

/-- The rounds of the loop. Without fuel there is no outcome. -/
def rounds (urls : UrlCrate) (executeRequest : Str → Except PipelineError PipelineResponse) : ℕ → Fetch → Trace
  | 0,_ => ⟨[],none⟩
  | fuel+1,fetch =>
    let next := fetch.onResult urls (executeRequest fetch.currentUrl)
    match next.point with
    | .returning result => ⟨[fetch.currentUrl],some result⟩
    | _ =>
      let rest := rounds urls executeRequest fuel next
      ⟨fetch.currentUrl::rest.requests,rest.outcome⟩

/-- The permit is dropped as soon as it is acquired. A panic has no outcome. -/
def fetch (urls : UrlCrate) (config : PipelineConfig) (executeRequest : Str → Except PipelineError PipelineResponse)
    (fuel : ℕ) (self : Pipeline) (url : Str) (options : RequestOptions) : Trace :=
  match config.rateLimitPerHost with
  | none => rounds urls executeRequest fuel (.init url options .requesting)
  | some limit =>
    match (self.acquireRateLimit urls url limit).1 with
    | .permit => rounds urls executeRequest fuel (.init url options .requesting)
    | .error e => ⟨[],some (.error e)⟩
    | .panic => ⟨[],none⟩

/-- Where a response redirects to: a status of 3xx with a location. -/
def redirection (response : PipelineResponse) : Option Str :=
  if 300 ≤ response.statusCode ∧ response.statusCode < 400 then
    response.headers.lookup (TextScan.ascii "location".toList) else none

/-- The URL that the first `i` redirects lead to. -/
def chain (urls : UrlCrate) (server : Str → PipelineResponse) (url : Str) : ℕ → Str
  | 0 => url
  | i+1 =>
    let currentUrl := chain urls server url i
    urls.resolveRelativeUrl currentUrl ((redirection (server currentUrl)).getD [])

/-- The call follows the chain of redirects, up to its limit. -/
structure Follows (urls : UrlCrate) (server : Str → PipelineResponse) (url : Str) (maxRedirects : ℕ)
    (trace : Trace) : Prop where
  terminates : ∃ result, trace.outcome = some result
  bounded : trace.requests.length ≤ maxRedirects+1
  succeeds : (∃ response, trace.outcome = some (.ok response)) ↔
    ∃ k ≤ maxRedirects, redirection (server (chain urls server url k)) = none
  result : ∀ k ≤ maxRedirects, (∀ i < k, redirection (server (chain urls server url i)) ≠ none) →
    redirection (server (chain urls server url k)) = none →
    trace.outcome = some (.ok { server (chain urls server url k) with
      url := url, finalUrl := chain urls server url k, redirects := (List.range' 1 (k-1)).map (chain urls server url) })
  fails : (∀ k ≤ maxRedirects, redirection (server (chain urls server url k)) ≠ none) →
    (∃ e, trace.outcome = some (.error e)) ∧ trace.requests.length = maxRedirects+1

/-- The rate limit lets the call through. -/
def Admitted (urls : UrlCrate) (config : PipelineConfig) (self : Pipeline) (url : Str) : Prop :=
  ∀ limit, config.rateLimitPerHost = some limit → (self.acquireRateLimit urls url limit).1 = .permit

section Rounds

variable {urls : UrlCrate} {server : Str → PipelineResponse} {url : Str} {options : RequestOptions} {fuel i j k : ℕ}

theorem onResult_final {response : PipelineResponse} (hfinal : redirection response = none) (fetch : Fetch) :
    fetch.onResult urls (.ok response) = { fetch with point := .returning (.ok (fetch.finalResult response)) } := by
  rw [redirection] at hfinal
  simp only [Fetch.onResult]
  cases hlookup : response.headers.lookup (TextScan.ascii "location".toList) with
  | none => rfl
  | some location =>
    simp only
    split
    · rename_i hstatus
      rw [if_pos hstatus,hlookup] at hfinal
      cases hfinal
    · rfl

theorem onResult_redirect {response : PipelineResponse} {location : Str}
    (hredirect : redirection response = some location) {fetch : Fetch}
    (hfollow : fetch.options.followRedirects = true) :
    fetch.onResult urls (.ok response) = { fetch with
      currentUrl := urls.resolveRelativeUrl fetch.currentUrl location
      redirectCount := fetch.redirectCount+1
      redirects := if 0 < fetch.redirectCount then fetch.redirects++[fetch.currentUrl] else fetch.redirects
      point := if fetch.redirectCount+1 ≤ fetch.options.maxRedirects then .requesting
        else .returning (.error .maxRetriesExceeded) } := by
  rw [redirection] at hredirect
  split at hredirect
  · rename_i hstatus
    simp only [Fetch.onResult,hredirect,if_pos hstatus,if_pos hfollow]
  · cases hredirect

/-- The state of the loop before its round `i`. -/
def fetchAt (urls : UrlCrate) (server : Str → PipelineResponse) (url : Str) (options : RequestOptions) (i : ℕ) :
    Fetch :=
  ⟨url,options,chain urls server url i,i,(List.range' 1 (i-1)).map (chain urls server url),.requesting⟩

/-- A response that does not redirect is returned. -/
theorem rounds_final (hfinal : redirection (server (chain urls server url i)) = none) :
    rounds urls (fun u => .ok (server u)) (fuel+1) (fetchAt urls server url options i) =
      ⟨[chain urls server url i],some (.ok { server (chain urls server url i) with
        url := url
        finalUrl := chain urls server url i
        redirects := (List.range' 1 (i-1)).map (chain urls server url) })⟩ := by
  simp only [rounds,fetchAt,onResult_final hfinal]
  rfl

/-- A redirect leads to the next round, if the limit allows another one. -/
theorem rounds_redirect (hfollow : options.followRedirects = true)
    (hredirect : redirection (server (chain urls server url i)) ≠ none) :
    rounds urls (fun u => .ok (server u)) (fuel+1) (fetchAt urls server url options i) =
      if i+1 ≤ options.maxRedirects then
        let rest := rounds urls (fun u => .ok (server u)) fuel (fetchAt urls server url options (i+1))
        ⟨chain urls server url i::rest.requests,rest.outcome⟩
      else ⟨[chain urls server url i],some (.error .maxRetriesExceeded)⟩ := by
  obtain ⟨location,hlocation⟩ := Option.ne_none_iff_exists'.mp hredirect
  have hnext : chain urls server url (i+1) = urls.resolveRelativeUrl (chain urls server url i) location := by
    rw [chain,hlocation]
    rfl
  have hredirects : (if 0 < i then (List.range' 1 (i-1)).map (chain urls server url)++[chain urls server url i]
      else (List.range' 1 (i-1)).map (chain urls server url)) = (List.range' 1 i).map (chain urls server url) := by
    cases i with
    | zero => rfl
    | succ i => simp [List.range'_concat,Nat.add_comm]
  have hstate : (fetchAt urls server url options i).onResult urls (.ok (server (chain urls server url i))) =
      { fetchAt urls server url options (i+1) with
        point := if i+1 ≤ options.maxRedirects then .requesting else .returning (.error .maxRetriesExceeded) } := by
    rw [onResult_redirect hlocation hfollow]
    simp only [fetchAt,hnext,Nat.add_sub_cancel]
    rw [← hredirects]
    rfl
  rw [rounds]
  simp only [show (fetchAt urls server url options i).currentUrl = chain urls server url i from rfl,hstate]
  by_cases hlimit : i+1 ≤ options.maxRedirects
  · simp only [if_pos hlimit]
    rfl
  · simp only [if_neg hlimit]

/-- The first `j` redirects of the chain are followed while the limit allows them. -/
theorem rounds_chain (hfollow : options.followRedirects = true) (hj : j ≤ options.maxRedirects)
    (hredirect : ∀ i < j, redirection (server (chain urls server url i)) ≠ none) (fuel : ℕ) :
    rounds urls (fun u => .ok (server u)) (fuel+j) (fetchAt urls server url options 0) =
      let rest := rounds urls (fun u => .ok (server u)) fuel (fetchAt urls server url options j)
      ⟨(List.range j).map (chain urls server url)++rest.requests,rest.outcome⟩ := by
  induction j generalizing fuel with
  | zero => rfl
  | succ j ih =>
    have hstep := @rounds_redirect urls server url options fuel j hfollow (hredirect j (Nat.lt_succ_self j))
    rw [if_pos hj] at hstep
    rw [← Nat.succ_add_eq_add_succ,ih (by omega) (fun i hi => hredirect i (by omega)) (fuel+1),hstep]
    simp [List.range_succ]

theorem rounds_follows (hfollow : options.followRedirects = true) (hfuel : options.maxRedirects < fuel) :
    Follows urls server url options.maxRedirects
      (rounds urls (fun u => .ok (server u)) fuel (.init url options .requesting)) := by
  have hstart : Fetch.init url options .requesting = fetchAt urls server url options 0 := rfl
  rw [hstart]
  by_cases hstops : ∃ k ≤ options.maxRedirects, redirection (server (chain urls server url k)) = none
  · -- the first response that does not redirect
    let k := Nat.find hstops
    obtain ⟨hk,hfinal⟩ := Nat.find_spec hstops
    have hbefore : ∀ i < k, redirection (server (chain urls server url i)) ≠ none := by
      intro i hi hnone
      exact Nat.find_min hstops hi ⟨by omega,hnone⟩
    obtain ⟨rest,rfl⟩ : ∃ rest, fuel = rest+1+k := ⟨fuel-(k+1),by omega⟩
    rw [rounds_chain hfollow hk hbefore,rounds_final hfinal]
    refine ⟨⟨_,rfl⟩,?_,iff_of_true ⟨_,rfl⟩ hstops,?_,fun hall => absurd hfinal (hall k hk)⟩
    · simpa using hk
    · intro k' hk' hbefore' hfinal'
      obtain rfl : k' = k := by
        obtain hlt|heq|hlt := Nat.lt_trichotomy k' k
        · exact absurd hfinal' (hbefore k' hlt)
        · exact heq
        · exact absurd hfinal (hbefore' k hlt)
      rfl
  · have hall : ∀ k ≤ options.maxRedirects, redirection (server (chain urls server url k)) ≠ none :=
      fun k hk hnone => hstops ⟨k,hk,hnone⟩
    obtain ⟨rest,rfl⟩ : ∃ rest, fuel = rest+1+options.maxRedirects := ⟨fuel-(options.maxRedirects+1),by omega⟩
    rw [rounds_chain hfollow (Nat.le_refl _) (fun i hi => hall i (Nat.le_of_lt hi)),
      rounds_redirect hfollow (hall _ (Nat.le_refl _)),if_neg (by omega)]
    refine ⟨⟨_,rfl⟩,?_,?_,fun k hk _ hfinal => absurd hfinal (hall k hk),fun _ => ⟨⟨_,rfl⟩,?_⟩⟩
    · simp
    · refine iff_of_false ?_ hstops
      rintro ⟨response,hresponse⟩
      cases hresponse
    · simp

end Rounds

/-- Whatever the servers answer, a call that the rate limit lets through follows the chain
of redirects, and one that is refused makes no request. -/
theorem fetch_follows (urls : UrlCrate) (config : PipelineConfig) (self : Pipeline) (server : Str → PipelineResponse)
    (url : Str) (options : RequestOptions) (hfollow : options.followRedirects = true) (fuel : ℕ)
    (hfuel : options.maxRedirects < fuel) :
    (Admitted urls config self url → Follows urls server url options.maxRedirects
      (fetch urls config (fun u => .ok (server u)) fuel self url options)) ∧
    ∀ limit e, config.rateLimitPerHost = some limit → (self.acquireRateLimit urls url limit).1 = .error e →
      fetch urls config (fun u => .ok (server u)) fuel self url options = ⟨[],some (.error e)⟩ := by
  refine ⟨fun hadmitted => ?_,fun limit e hlimit hrefused => ?_⟩
  · rw [fetch]
    cases hlimit : config.rateLimitPerHost with
    | none => exact rounds_follows hfollow hfuel
    | some limit =>
      simp only [hadmitted limit hlimit]
      exact rounds_follows hfollow hfuel
  · rw [fetch,hlimit]
    simp only [hrefused]

/-- A server that redirects `http://a/` to `http://a/b`, and `http://a/b` to `http://a/c`. -/
def hops (url : Str) : PipelineResponse :=
  if url = urlA then ⟨302,AList.singleton (TextScan.ascii "location".toList) (urlA++[0x62]),[],[],[],[]⟩
  else if url = urlA++[0x62] then ⟨301,AList.singleton (TextScan.ascii "location".toList) (urlA++[0x63]),[],[],[],[]⟩
  else ⟨200,∅,[],url,url,[]⟩

/-- Two redirects are followed, and only the first of their targets is listed. -/
theorem fetch_follows_hops :
    (({} : RequestOptions).followRedirects = true ∧ ({} : RequestOptions).maxRedirects < 6) ∧
    Follows originUrls hops urlA 5 (fetch originUrls ⟨some 1⟩ (fun u => .ok (hops u)) 6 .init urlA {}) ∧
    (fetch originUrls ⟨some 1⟩ (fun u => .ok (hops u)) 6 .init urlA {}).outcome =
      some (.ok ⟨200,∅,[],urlA,urlA++[0x63],[urlA++[0x62]]⟩) := by
  have hpermit : (Pipeline.init.acquireRateLimit originUrls urlA 1).1 = .permit := by
    have hhost : originUrls.host "No host" urlA = .ok [0x61] := by decide
    rw [Pipeline.acquireRateLimit,hhost]
    rfl
  have hadmitted : Admitted originUrls ⟨some 1⟩ .init urlA := by
    intro limit hlimit
    obtain rfl := Option.some.inj hlimit
    exact hpermit
  have hfollows := (fetch_follows originUrls ⟨some 1⟩ .init hops urlA {} rfl 6 (by decide)).1 hadmitted
  refine ⟨⟨rfl,by decide⟩,hfollows,?_⟩
  have hone : chain originUrls hops urlA 1 = urlA++[0x62] := by decide
  have htwo : chain originUrls hops urlA 2 = urlA++[0x63] := by
    rw [chain,hone]
    decide
  have hredirects : ∀ i < 2, redirection (hops (chain originUrls hops urlA i)) ≠ none := by
    intro i hi
    obtain rfl|rfl : i = 0 ∨ i = 1 := by omega
    · decide
    · rw [hone]
      decide
  have hlist : (List.range' 1 (2-1)).map (chain originUrls hops urlA) = [urlA++[0x62]] := congrArg (fun u => [u]) hone
  rw [hfollows.result 2 (by decide) hredirects (by rw [htwo]; decide),htwo,hlist]
  rfl

/-- With a limit of no requests at all the call returns an error before its first request,
though the server would answer it. -/
theorem refused_before_request :
    fetch originUrls ⟨some 0⟩ (fun _ => .ok ⟨200,∅,[],[],[],[]⟩) 6 .init urlA {} =
      ⟨[],some (.error (.networkError "Rate limit exceeded"))⟩ ∧
    ¬Follows originUrls (fun _ => ⟨200,∅,[],[],[],[]⟩) urlA 5
      (fetch originUrls ⟨some 0⟩ (fun _ => .ok ⟨200,∅,[],[],[],[]⟩) 6 .init urlA {}) := by
  have hhost : originUrls.host "No host" urlA = .ok [0x61] := by decide
  have hrefused : (Pipeline.init.acquireRateLimit originUrls urlA 0).1 =
      .error (.networkError "Rate limit exceeded") := by
    rw [Pipeline.acquireRateLimit,hhost]
    rfl
  have hfetch : fetch originUrls ⟨some 0⟩ (fun _ => .ok ⟨200,∅,[],[],[],[]⟩) 6 .init urlA {} =
      ⟨[],some (.error (.networkError "Rate limit exceeded"))⟩ := by
    simp only [fetch,hrefused]
  refine ⟨hfetch,fun h => ?_⟩
  rw [hfetch] at h
  obtain ⟨response,hresponse⟩ := h.succeeds.mpr ⟨0,by decide,by rfl⟩
  cases hresponse

end ZNet.Redirects
