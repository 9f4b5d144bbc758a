import ZNet.ProxyConfig

/-!
# The hosts that bypass the proxy

An entry of the `no_proxy` list is a suffix of the hosts it lets past. Where it has no
leading dot it may begin in the middle of a label.
-/

namespace ZNet.NoProxy
open TextScan ProxyConfigs

def dot : UInt8 := 0x2e

/-- The entry is made of whole labels at the end of the host. -/
def MatchesLabels (entry host : Text) : Prop :=
  host = entry ∨ entry.head? = some dot ∧ entry <:+ host ∨ entry.head? ≠ some dot ∧ dot::entry <:+ host

/-- The host ends with an entry without a leading dot, but in the middle of a label. -/
def MatchesInside (entry host : Text) : Prop :=
  entry.head? ≠ some dot ∧ ∃ c ≠ dot, c::entry <:+ host

theorem suffix_iff {entry host : Text} : entry <:+ host ↔ host = entry ∨ ∃ c, c::entry <:+ host := by
  constructor
  · rintro ⟨front,rfl⟩
    cases front using List.reverseRecOn with
    | nil => exact .inl rfl
    | append_singleton front c => exact .inr ⟨c,front,by simp⟩
  · rintro (rfl|⟨c,h⟩)
    · exact List.suffix_refl _
    · exact (List.suffix_cons c entry).trans h

theorem suffix_iff_matches {entry host : Text} :
    entry <:+ host ↔ MatchesLabels entry host ∨ MatchesInside entry host := by
  by_cases hdot : entry.head? = some dot
  · simp only [MatchesLabels,MatchesInside,hdot]
    constructor
    · intro h
      exact .inl (.inr (.inl ⟨trivial,h⟩))
    · rintro ((rfl|⟨-,h⟩|⟨h,-⟩)|⟨h,-⟩)
      · exact List.suffix_refl _
      · exact h
      · exact absurd rfl h
      · exact absurd rfl h
  · rw [suffix_iff]
    simp only [MatchesLabels,MatchesInside,hdot,false_and,false_or,ne_eq,not_false_iff,true_and]
    constructor
    · rintro (h|⟨c,h⟩)
      · exact .inl (.inl h)
      · by_cases hc : c = dot
        · exact .inl (.inr (hc ▸ h))
        · exact .inr ⟨c,hc,h⟩
    · rintro ((h|h)|⟨c,-,h⟩)
      · exact .inl h
      · exact .inr ⟨dot,h⟩
      · exact .inr ⟨c,h⟩

theorem shouldBypassProxy_suffix {cfg : ProxyConfig} {host : Text} :
    shouldBypassProxy cfg host = true ↔ ∃ entry ∈ cfg.noProxy, entry <:+ host := by
  rw [shouldBypassProxy,List.any_eq_true]
  refine exists_congr fun entry => and_congr_right fun _ => ?_
  rw [Bool.or_eq_true,beq_iff_eq,List.isSuffixOf_iff_suffix]
  constructor
  · rintro (rfl|h)
    · exact List.suffix_refl _
    · exact h
  · exact .inr

/-- No entry that is read from the environment is empty. -/
theorem fromEnv_noProxy_ne_nil {env : Environment} : ∀ entry ∈ (fromEnv env).noProxy, entry ≠ [] := by
  intro entry hentry
  rw [fromEnv] at hentry
  cases hv : env.noProxy with
  | none => simp [hv] at hentry
  | some v =>
    simp only [hv,List.mem_filter,decide_eq_true_eq] at hentry
    exact hentry.2

/-- A host is bypassed for whole labels, and also where it ends with an entry without a
leading dot in the middle of a label. -/
theorem shouldBypassProxy_iff (cfg : ProxyConfig) (host : Text) :
    shouldBypassProxy cfg host = true ↔
      ∃ entry ∈ cfg.noProxy, MatchesLabels entry host ∨ MatchesInside entry host := by
  rw [shouldBypassProxy_suffix]
  exact exists_congr fun entry => and_congr_right fun _ => suffix_iff_matches

/-- `example.com` -/
def exampleCom : Text := ascii ['e','x','a','m','p','l','e','.','c','o','m']

/-- The host `notexample.com` bypasses the proxy for the entry `example.com`. -/
theorem shouldBypassProxy_inside_label :
    ¬∀ cfg host, (∀ entry ∈ cfg.noProxy, entry ≠ []) →
      (shouldBypassProxy cfg host = true ↔ ∃ entry ∈ cfg.noProxy, MatchesLabels entry host) := by
  intro h
  have hmatches := (h ⟨none,none,∅,[exampleCom]⟩ (ascii ['n','o','t']++exampleCom) (by decide)).mp (by decide)
  obtain ⟨entry,hentry,hlabels⟩ := hmatches
  obtain rfl := List.mem_singleton.mp hentry
  revert hlabels
  unfold MatchesLabels
  decide

end ZNet.NoProxy
