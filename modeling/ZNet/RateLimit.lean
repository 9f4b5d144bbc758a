import ZNet.Pipeline
import ZNet.Runs

/-!
# The rate limit of a host

`fetch` takes a permit of the host's semaphore and drops it at the end of the same statement.
The fetches that are in flight take their steps in any order.
-/

namespace ZNet.RateLimit
open Pipelines Tables Runs

structure PipelineConfig where
  rateLimitPerHost : Option ℕ

/-- The places where a call of `fetch` can be interrupted. -/
inductive Point
  /-- The permit is taken and not yet dropped. -/
  | acquired
  | requesting
  | returning (result : Except PipelineError PipelineResponse)

structure Fetch where
  url : Str
  options : RequestOptions
  currentUrl : Str
  redirectCount : ℕ
  redirects : List Str
  point : Point

def Fetch.init (url : Str) (options : RequestOptions) (point : Point) : Fetch := ⟨url,options,url,0,[],point⟩

/-- The available permits of each host, and the fetches in flight. -/
structure Pipeline where
  rateLimiters : Table Str ℕ
  poisoned : Bool
  fetches : Table ℕ Fetch

def Pipeline.init : Pipeline := ⟨∅,false,∅⟩

/-- A semaphore with more permits panics. -/
def maxPermits : ℕ := 2^61-1

inductive Acquired
  | permit
  | error (error : PipelineError)
  | panic

/-- The entry of the host, with a new semaphore if there is none. -/
def Pipeline.semaphore (self : Pipeline) (host : Str) (limit : ℕ) : Option Pipeline :=
  match self.rateLimiters.lookup host with
  | some _ => some self
  | none =>
    if maxPermits < limit then none else some { self with rateLimiters := self.rateLimiters.insert host limit }

def Pipeline.tryAcquireOwned (self : Pipeline) (host : Str) : Acquired×Pipeline :=
  match self.rateLimiters.lookup host with
  | some (available+1) => (.permit,{ self with rateLimiters := self.rateLimiters.insert host available })
  | _ => (.error (.networkError "Rate limit exceeded"),self)

/-- The lock of the limiters is poisoned by a panic under it. -/
def Pipeline.acquireRateLimit (self : Pipeline) (urls : UrlCrate) (url : Str) (limit : ℕ) : Acquired×Pipeline :=
  match urls.host "No host" url with
  | .error e => (.error e,self)
  | .ok host =>
    if self.poisoned then (.panic,self)
    else
      match self.semaphore host limit with
      | none => (.panic,{ self with poisoned := true })
      | some self => self.tryAcquireOwned host

def Pipeline.dropPermit (self : Pipeline) (host : Str) : Pipeline :=
  match self.rateLimiters.lookup host with
  | none => self
  | some available => { self with rateLimiters := self.rateLimiters.insert host (available+1) }

def Fetch.finalResult (self : Fetch) (result : PipelineResponse) : PipelineResponse :=
  { result with url := self.url, finalUrl := self.currentUrl, redirects := self.redirects }

/-- One round of the loop of `fetch`, with what `execute_request` returns in it. -/
def Fetch.onResult (self : Fetch) (urls : UrlCrate) (result : Except PipelineError PipelineResponse) : Fetch :=
  match result with
  | .error e => { self with point := .returning (.error e) }
  | .ok response =>
    let final := { self with point := .returning (.ok (self.finalResult response)) }
    match response.headers.lookup (TextScan.ascii "location".toList) with
    | none => final
    | some location =>
      if 300 ≤ response.statusCode ∧ response.statusCode < 400 then
        if self.options.followRedirects then
          let redirectCount := self.redirectCount+1
          { self with
            currentUrl := urls.resolveRelativeUrl self.currentUrl location
            redirectCount := redirectCount
            redirects := if 0 < self.redirectCount then self.redirects++[self.currentUrl] else self.redirects
            point := if redirectCount ≤ self.options.maxRedirects then .requesting
              else .returning (.error .maxRetriesExceeded) }
        else { self with point := .returning (.ok response) }
      else final

inductive Step
  /-- A call starts and runs through its acquire. -/
  | fetch (id : ℕ) (url : Str) (options : RequestOptions)
  | dropPermit (id : ℕ)
  | executeRequest (id : ℕ) (result : Except PipelineError PipelineResponse)
  /-- The call returns, or is dropped where it waits. -/
  | finish (id : ℕ)

def step (urls : UrlCrate) (config : PipelineConfig) (s : Pipeline) : Step → Pipeline
  | .fetch id url options =>
    match s.fetches.lookup id with
    | some _ => s
    | none =>
      match config.rateLimitPerHost with
      | none => { s with fetches := s.fetches.insert id (.init url options .requesting) }
      | some limit =>
        match s.acquireRateLimit urls url limit with
        | (.permit,s) => { s with fetches := s.fetches.insert id (.init url options .acquired) }
        | (.error _,s) => s
        | (.panic,s) => s
  | .dropPermit id =>
    match s.fetches.lookup id with
    | none => s
    | some fetch =>
      match fetch.point,urls.host "No host" fetch.url with
      | .acquired,.ok host =>
        let s := s.dropPermit host
        { s with fetches := s.fetches.insert id { fetch with point := .requesting } }
      | _,_ => s
  | .executeRequest id result =>
    match s.fetches.lookup id with
    | none => s
    | some fetch =>
      match fetch.point with
      | .requesting => { s with fetches := s.fetches.insert id (fetch.onResult urls result) }
      | _ => s
  | .finish id =>
    match s.fetches.lookup id with
    | none => s
    | some fetch =>
      match fetch.point with
      | .acquired => s
      | _ => { s with fetches := s.fetches.erase id }

section Counts

variable (urls : UrlCrate) (s : Pipeline) (host : Str)

/-- The fetch acquired for the host. -/
def Fetch.isFor (fetch : Fetch) : Bool :=
  match urls.host "No host" fetch.url with
  | .ok host' => host' == host
  | .error _ => false

def Fetch.holds (fetch : Fetch) : Bool :=
  match fetch.point with
  | .acquired => true
  | _ => false

/-- The fetches to the host between their acquire and their finish. -/
def inFlight : ℕ := total (fun fetch => (fetch.isFor urls host).toNat) s.fetches

/-- Those of them that have not dropped their permit. -/
def holders : ℕ := total (fun fetch => (fetch.isFor urls host && fetch.holds).toNat) s.fetches

end Counts

/-- After the step no host has more fetches in flight than the limit. -/
def WithinLimit (urls : UrlCrate) (limit : ℕ) (s : Pipeline) (a : Step) : Prop :=
  ∀ host, inFlight urls (step urls ⟨some limit⟩ s a) host ≤ limit

/-- A fetch that starts while the host has as many as the limit meets all of these before they
drop their permits. -/
def MeetsHolders (urls : UrlCrate) (limit : ℕ) (s : Pipeline) (a : Step) : Prop :=
  ∀ id url options host, a = .fetch id url options → s.fetches.lookup id = none →
    urls.host "No host" url = .ok host → inFlight urls s host = limit → holders urls s host = limit

variable {urls : UrlCrate} {limit : ℕ} {s : Pipeline} {host : Str}

section Permits

/-- The permits that are available to a host, before it has a semaphore too. -/
def freePermits (s : Pipeline) (limit : ℕ) (host : Str) : ℕ := (s.rateLimiters.lookup host).getD limit

/-- The entry adds the semaphore that the permits were counted with. -/
theorem semaphore_eq (hlimit : limit ≤ maxPermits) (s : Pipeline) (host : Str) :
    ∃ limiters, s.semaphore host limit = some { s with rateLimiters := limiters } ∧
      limiters.lookup host = some (freePermits s limit host) ∧
      ∀ host', host' ≠ host → limiters.lookup host' = s.rateLimiters.lookup host' := by
  rw [Pipeline.semaphore,freePermits]
  cases hlookup : s.rateLimiters.lookup host with
  | some available => exact ⟨s.rateLimiters,rfl,hlookup,fun _ _ => rfl⟩
  | none =>
    refine ⟨s.rateLimiters.insert host limit,?_,AList.lookup_insert _,fun _ hne => AList.lookup_insert_ne hne⟩
    simp only [if_neg (Nat.not_lt.mpr hlimit)]

/-- The acquire takes a permit of the host if there is one. -/
theorem acquireRateLimit_eq (hlimit : limit ≤ maxPermits) (hpoisoned : s.poisoned = false) {url : Str}
    (hhost : urls.host "No host" url = .ok host) : ∃ limiters,
      s.acquireRateLimit urls url limit =
        (if freePermits s limit host = 0 then .error (.networkError "Rate limit exceeded") else .permit,
          { s with rateLimiters := limiters }) ∧
      limiters.lookup host = some (freePermits s limit host-1) ∧
      ∀ host', host' ≠ host → limiters.lookup host' = s.rateLimiters.lookup host' := by
  obtain ⟨limiters,hsemaphore,hown,hother⟩ := semaphore_eq hlimit s host
  rw [Pipeline.acquireRateLimit,hhost]
  simp only [hpoisoned,hsemaphore,Bool.false_eq_true,if_false]
  rw [Pipeline.tryAcquireOwned]
  cases hpermits : freePermits s limit host with
  | zero =>
    rw [hpermits] at hown
    simp only [hown]
    exact ⟨limiters,by simp,hown,hother⟩
  | succ available =>
    rw [hpermits] at hown
    simp only [hown]
    refine ⟨limiters.insert host available,by simp,AList.lookup_insert _,?_⟩
    intro host' hne
    exact (AList.lookup_insert_ne hne).trans (hother host' hne)

end Permits

section Rounds

theorem onResult_url (fetch : Fetch) (urls : UrlCrate) (result : Except PipelineError PipelineResponse) :
    (fetch.onResult urls result).url = fetch.url := by
  cases result with
  | error e => rfl
  | ok response =>
    rw [Fetch.onResult]
    simp only
    split
    · rfl
    · split
      · split
        · rfl
        · rfl
      · rfl

/-- Requests do not acquire again. -/
theorem onResult_holds (fetch : Fetch) (urls : UrlCrate) (result : Except PipelineError PipelineResponse) :
    (fetch.onResult urls result).holds = false := by
  have hpoint : (fetch.onResult urls result).point ≠ .acquired := by
    cases result with
    | error e => simp [Fetch.onResult]
    | ok response =>
      rw [Fetch.onResult]
      simp only
      split
      · simp
      · split
        · split
          · simp only
            split
            · simp
            · simp
          · simp
        · simp
  rw [Fetch.holds]
  split
  · rename_i hacquired
    exact absurd hacquired hpoint
  · rfl

theorem isFor_congr {fetch fetch' : Fetch} (h : fetch'.url = fetch.url) (urls : UrlCrate) (host : Str) :
    fetch'.isFor urls host = fetch.isFor urls host := by
  rw [Fetch.isFor,Fetch.isFor,h]

theorem isFor_eq {fetch : Fetch} (h : urls.host "No host" fetch.url = .ok host) (host' : Str) :
    fetch.isFor urls host' = (host == host') := by
  rw [Fetch.isFor,h]

theorem isFor_toNat {fetch : Fetch} (h : urls.host "No host" fetch.url = .ok host) (host' : Str) :
    (fetch.isFor urls host').toNat = if host' = host then 1 else 0 := by
  rw [isFor_eq h]
  split
  · rename_i hsame
    rw [hsame,beq_self_eq_true,Bool.toNat_true]
  · rename_i hne
    rw [beq_false_of_ne (Ne.symm hne),Bool.toNat_false]

end Rounds

/-- The permits of a host are available or held. -/
structure Sound (urls : UrlCrate) (limit : ℕ) (s : Pipeline) : Prop where
  unpoisoned : s.poisoned = false
  conserved : ∀ host, freePermits s limit host+holders urls s host = limit

theorem sound_init (urls : UrlCrate) (limit : ℕ) : Sound urls limit .init := ⟨rfl,fun _ => rfl⟩

/-- A fetch replaces the one of the same call. -/
theorem inFlight_insert {id : ℕ} {fetch fetch' : Fetch} (hlookup : s.fetches.lookup id = some fetch)
    (hurl : fetch'.url = fetch.url) (limiters : Table Str ℕ) (poisoned : Bool) (host : Str) :
    inFlight urls ⟨limiters,poisoned,s.fetches.insert id fetch'⟩ host = inFlight urls s host := by
  have htotal := total_insert_old hlookup (fun fetch => (fetch.isFor urls host).toNat) fetch'
  rw [isFor_congr hurl] at htotal
  exact Nat.add_right_cancel (htotal.trans (Nat.add_comm _ _))

theorem holders_insert (urls : UrlCrate) {id : ℕ} {fetch fetch' : Fetch} (hlookup : s.fetches.lookup id = some fetch)
    (hholds : fetch'.holds = false) (limiters : Table Str ℕ) (poisoned : Bool) (host : Str) :
    holders urls ⟨limiters,poisoned,s.fetches.insert id fetch'⟩ host+(fetch.isFor urls host && fetch.holds).toNat =
      holders urls s host := by
  have htotal := total_insert_old hlookup (fun fetch => (fetch.isFor urls host && fetch.holds).toNat) fetch'
  rw [hholds,Bool.and_false,Bool.toNat_false,Nat.zero_add] at htotal
  exact htotal

/-- What a step other than a start leaves: the permits are still accounted for, and no host
has more in flight. -/
def Steady (urls : UrlCrate) (limit : ℕ) (s s' : Pipeline) : Prop :=
  Sound urls limit s' ∧ ∀ host, inFlight urls s' host ≤ inFlight urls s host

theorem Sound.steady (h : Sound urls limit s) : Steady urls limit s s := ⟨h,fun _ => le_rfl⟩

theorem Sound.dropPermit (h : Sound urls limit s) (id : ℕ) :
    Steady urls limit s (step urls ⟨some limit⟩ s (.dropPermit id)) := by
  rw [step]
  split
  · exact h.steady
  · rename_i fetch hlookup
    split
    · rename_i host hpoint hhost
      have hcount : ∀ limiters poisoned host',
          holders urls ⟨limiters,poisoned,s.fetches.insert id { fetch with point := .requesting }⟩ host'+
            (if host' = host then 1 else 0) = holders urls s host' := by
        intro limiters poisoned host'
        have hdropped : ({ fetch with point := .requesting } : Fetch).holds = false := rfl
        rw [← holders_insert urls hlookup hdropped limiters poisoned host',Fetch.holds,hpoint,Bool.and_true,
          isFor_toNat hhost]
      rw [Pipeline.dropPermit]
      cases hlimiter : s.rateLimiters.lookup host with
      | none =>
        -- a host without a semaphore has no permit to drop
        have hnone := h.conserved host
        have hheld := hcount ∅ false host
        rw [freePermits,hlimiter,Option.getD_none] at hnone
        rw [if_pos rfl] at hheld
        omega
      | some available =>
        refine ⟨⟨h.unpoisoned,fun host' => ?_⟩,
          fun host' => (inFlight_insert hlookup (show Fetch.url { fetch with point := .requesting } = _ from rfl) ..).le⟩
        have hbefore := h.conserved host'
        rw [← hcount (s.rateLimiters.insert host (available+1)) s.poisoned host',freePermits] at hbefore
        simp only [freePermits,lookup_insert_eq]
        split
        · rename_i hsame
          rw [hsame,hlimiter,if_pos rfl,Option.getD_some] at hbefore
          rw [hsame,Option.getD_some]
          omega
        · rename_i hne
          rw [if_neg hne] at hbefore
          exact hbefore
    · exact h.steady

theorem Sound.executeRequest (h : Sound urls limit s) (id : ℕ) (result : Except PipelineError PipelineResponse) :
    Steady urls limit s (step urls ⟨some limit⟩ s (.executeRequest id result)) := by
  rw [step]
  split
  · exact h.steady
  · rename_i fetch hlookup
    split
    · rename_i hpoint
      refine ⟨⟨h.unpoisoned,fun host => ?_⟩,fun host => (inFlight_insert hlookup (onResult_url ..) ..).le⟩
      have hcount := holders_insert urls hlookup (onResult_holds fetch urls result) s.rateLimiters s.poisoned host
      rw [Fetch.holds,hpoint,Bool.and_false,Bool.toNat_false,Nat.add_zero] at hcount
      exact (congrArg (freePermits s limit host+·) hcount).trans (h.conserved host)
    · exact h.steady

theorem Sound.finish (h : Sound urls limit s) (id : ℕ) :
    Steady urls limit s (step urls ⟨some limit⟩ s (.finish id)) := by
  rw [step]
  split
  · exact h.steady
  · rename_i fetch hlookup
    split
    · exact h.steady
    · rename_i hpoint
      refine ⟨⟨h.unpoisoned,fun host => ?_⟩,fun host => total_erase_le _ _ id⟩
      have hholds : fetch.holds = false := by
        rw [Fetch.holds]
        split
        · rename_i hacquired
          exact absurd hacquired hpoint
        · rfl
      have hcount : holders urls ⟨s.rateLimiters,s.poisoned,s.fetches.erase id⟩ host+
          (fetch.isFor urls host && fetch.holds).toNat = holders urls s host := total_erase hlookup _
      rw [hholds,Bool.and_false,Bool.toNat_false,Nat.add_zero] at hcount
      exact (congrArg (freePermits s limit host+·) hcount).trans (h.conserved host)

/-- A fetch that is refused leaves what is in flight; one that is admitted holds a permit that was
available, so that fewer than the limit were held. -/
theorem Sound.fetch (h : Sound urls limit s) (hlimit : limit ≤ maxPermits) (id : ℕ) {url : Str} (options : RequestOptions)
    (hnew : s.fetches.lookup id = none) (hhost : urls.host "No host" url = .ok host) :
    Sound urls limit (step urls ⟨some limit⟩ s (.fetch id url options)) ∧
    ∀ host', inFlight urls (step urls ⟨some limit⟩ s (.fetch id url options)) host' =
      (if host' = host ∧ holders urls s host < limit then 1 else 0)+inFlight urls s host' := by
  obtain ⟨limiters,hacquire,hown,hother⟩ := acquireRateLimit_eq hlimit h.unpoisoned hhost
  have hhere := h.conserved host
  have hpermits : ∀ host', (limiters.lookup host').getD limit = if host' = host then freePermits s limit host-1
      else freePermits s limit host' := by
    intro host'
    split
    · rename_i hsame
      rw [hsame,hown,Option.getD_some]
    · rename_i hne
      rw [hother host' hne,freePermits]
  simp only [step,hnew,hacquire]
  by_cases havailable : freePermits s limit host = 0
  · simp only [if_pos havailable]
    constructor
    · refine ⟨h.unpoisoned,fun host' => ?_⟩
      have hbefore := h.conserved host'
      rw [freePermits,hpermits]
      split
      · rename_i hsame
        rw [hsame,havailable] at hbefore
        rw [hsame,havailable]
        exact hbefore
      · exact hbefore
    · intro host'
      rw [if_neg fun hheld => by omega,Nat.zero_add]
      rfl
  · simp only [if_neg havailable]
    have hisFor : ∀ host', ((Fetch.init url options .acquired).isFor urls host').toNat = if host' = host then 1 else 0 :=
      isFor_toNat hhost
    constructor
    · refine ⟨h.unpoisoned,fun host' => ?_⟩
      have hcount : holders urls ⟨limiters,s.poisoned,s.fetches.insert id (.init url options .acquired)⟩ host' =
          ((Fetch.init url options .acquired).isFor urls host' && true).toNat+holders urls s host' :=
        total_insert_new hnew _ _
      have hbefore := h.conserved host'
      rw [hcount,Bool.and_true,hisFor,freePermits,hpermits]
      split
      · rename_i hsame
        rw [hsame] at hbefore ⊢
        omega
      · rw [Nat.zero_add]
        exact hbefore
    · intro host'
      have hcount : inFlight urls ⟨limiters,s.poisoned,s.fetches.insert id (.init url options .acquired)⟩ host' =
          ((Fetch.init url options .acquired).isFor urls host').toNat+inFlight urls s host' := total_insert_new hnew _ _
      have hheld : holders urls s host < limit := by omega
      rw [hcount,hisFor]
      simp only [hheld,and_true]

/-- A call that does not acquire leaves the state. -/
theorem fetch_skip {id : ℕ} {url : Str} (limit : ℕ) (options : RequestOptions)
    (h : ∀ host, s.fetches.lookup id = none → urls.host "No host" url ≠ .ok host) :
    step urls ⟨some limit⟩ s (.fetch id url options) = s := by
  rw [step]
  cases hlookup : s.fetches.lookup id with
  | some fetch => rfl
  | none =>
    simp only [Pipeline.acquireRateLimit]
    cases hhost : urls.host "No host" url with
    | error e => rfl
    | ok host => exact absurd hhost (h host hlookup)

theorem Sound.step (h : Sound urls limit s) (hlimit : limit ≤ maxPermits) (a : Step) :
    Sound urls limit (RateLimit.step urls ⟨some limit⟩ s a) := by
  cases a with
  | dropPermit id => exact (h.dropPermit id).1
  | executeRequest id result => exact (h.executeRequest id result).1
  | finish id => exact (h.finish id).1
  | fetch id url options =>
    by_cases hadmitted : ∃ host, s.fetches.lookup id = none ∧ urls.host "No host" url = .ok host
    · obtain ⟨host,hnew,hhost⟩ := hadmitted
      exact (h.fetch hlimit id options hnew hhost).1
    · rw [fetch_skip limit options fun host hnew hhost => hadmitted ⟨host,hnew,hhost⟩]
      exact h

/-- In a step the limit is kept exactly if a start at the limit meets only holders. -/
theorem Sound.withinLimit_iff (h : Sound urls limit s) (hlimit : limit ≤ maxPermits)
    (hwithin : ∀ host, inFlight urls s host ≤ limit) (a : Step) :
    WithinLimit urls limit s a ↔ MeetsHolders urls limit s a := by
  have hsteady : (∀ id url options, a ≠ .fetch id url options) →
      (∀ host, inFlight urls (RateLimit.step urls ⟨some limit⟩ s a) host ≤ inFlight urls s host) →
      (WithinLimit urls limit s a ↔ MeetsHolders urls limit s a) := by
    intro hother hle
    constructor
    · intro _ id url options _ hfetch
      exact absurd hfetch (hother id url options)
    · intro _ host
      exact (hle host).trans (hwithin host)
  cases a with
  | dropPermit id => exact hsteady (by simp) (h.dropPermit id).2
  | executeRequest id result => exact hsteady (by simp) (h.executeRequest id result).2
  | finish id => exact hsteady (by simp) (h.finish id).2
  | fetch id url options =>
    by_cases hadmitted : ∃ host, s.fetches.lookup id = none ∧ urls.host "No host" url = .ok host
    · obtain ⟨host,hnew,hhost⟩ := hadmitted
      have hcount := (h.fetch hlimit id options hnew hhost).2
      have hconserved := h.conserved host
      constructor
      · intro hlimited id' url' options' host' hfetch hnew' hhost' hfull
        cases hfetch
        cases hhost.symm.trans hhost'
        have hafter := hlimited host
        rw [hcount host,hfull] at hafter
        by_contra hheld
        rw [if_pos ⟨rfl,by omega⟩] at hafter
        omega
      · intro hmeets host'
        rw [hcount host']
        have hbefore := hwithin host'
        split
        · rename_i hstart
          obtain ⟨rfl,hheld⟩ := hstart
          have hfull := hmeets id url options host' rfl hnew hhost
          omega
        · omega
    · have hskip := fetch_skip limit options fun host hnew hhost => hadmitted ⟨host,hnew,hhost⟩
      constructor
      · intro _ id' url' options' host hfetch hnew hhost
        cases hfetch
        exact absurd ⟨host,hnew,hhost⟩ hadmitted
      · intro _ host
        rw [hskip]
        exact hwithin host

/-- With a limit that no semaphore can have, every acquire panics. -/
theorem step_tooMany (urls : UrlCrate) (hlimit : maxPermits < limit) (a : Step) (h : s.rateLimiters = ∅ ∧ s.fetches = ∅) :
    (step urls ⟨some limit⟩ s a).rateLimiters = ∅ ∧ (step urls ⟨some limit⟩ s a).fetches = ∅ := by
  obtain ⟨limiters,poisoned,fetches⟩ := s
  obtain ⟨rfl,rfl⟩ := h
  cases a with
  | dropPermit id => exact ⟨rfl,rfl⟩
  | executeRequest id result => exact ⟨rfl,rfl⟩
  | finish id => exact ⟨rfl,rfl⟩
  | fetch id url options =>
    simp only [step,AList.lookup_empty,Pipeline.acquireRateLimit,Pipeline.semaphore,if_pos hlimit]
    cases urls.host "No host" url with
    | error e => exact ⟨rfl,rfl⟩
    | ok host => cases poisoned <;> exact ⟨rfl,rfl⟩

/-- In every run the fetches to a host are within the limit after every step exactly if each
fetch that starts while the host has as many as the limit meets all of these still holding
their permits. -/
theorem along_withinLimit_iff_meetsHolders (urls : UrlCrate) (limit : ℕ) (steps : List Step) :
    Along (step urls ⟨some limit⟩) (WithinLimit urls limit) .init steps ↔
      Along (step urls ⟨some limit⟩) (MeetsHolders urls limit) .init steps := by
  rcases Nat.lt_or_ge maxPermits limit with hlimit | hlimit
  · have hempty : ∀ s : Pipeline, s.rateLimiters = ∅ ∧ s.fetches = ∅ → ∀ host, inFlight urls s host = 0 := by
      intro s h host
      rw [inFlight,h.2]
      rfl
    have hkeeps : ∀ (s : Pipeline) a, s.rateLimiters = ∅ ∧ s.fetches = ∅ →
        (WithinLimit urls limit s a ∧ MeetsHolders urls limit s a) ∧
          (step urls ⟨some limit⟩ s a).rateLimiters = ∅ ∧ (step urls ⟨some limit⟩ s a).fetches = ∅ := by
      intro s a h
      have hafter := step_tooMany urls hlimit a h
      refine ⟨⟨fun host => (hempty _ hafter host).le.trans (Nat.zero_le _),?_⟩,hafter⟩
      intro id url options host _ _ _ hfull
      rw [hempty s h host] at hfull
      omega
    have hboth := along_of_step hkeeps (s:=.init) ⟨rfl,rfl⟩ steps
    exact iff_of_true (along_and.mp hboth).1 (along_and.mp hboth).2
  · apply along_iff (I:=fun s => Sound urls limit s ∧ ∀ host, inFlight urls s host ≤ limit)
    · intro s a h hmeets
      exact ⟨h.1.step hlimit a,(h.1.withinLimit_iff hlimit h.2 a).mpr hmeets⟩
    · intro s a h
      exact h.1.withinLimit_iff hlimit h.2 a
    · exact ⟨sound_init urls limit,fun host => Nat.zero_le _⟩

/-- With a limit of one, a second fetch starts after the first has dropped its permit. -/
theorem withinLimit_broken :
    ¬Along (step originUrls ⟨some 1⟩) (WithinLimit originUrls 1) .init
      [.fetch 0 urlA {},.dropPermit 0,.fetch 1 urlA {}] := by
  intro hrun
  have hlimited := hrun.2.2.1 [0x61]
  revert hlimited
  decide

end ZNet.RateLimit
