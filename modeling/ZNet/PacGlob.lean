import ZNet.GlobLanguage
import ZNet.PacEngine
import ZNet.PacEvaluator

/-!
# Wildcards of proxy scripts

Both evaluators match `shExpMatch` with the loop of `TextScan`, the Rust one over the
characters and the Zig one over the bytes.
-/

namespace ZNet.PacGlob
open TextScan GlobLanguage

/-- `glob_match` of the Rust evaluator. -/
def globMatchChars (pattern s : PacEvaluator.Str) : Bool := globMatch '*' '?' pattern s

/-- `globMatch` of the Zig engine. -/
def globMatchBytes (pattern s : ProxyConfigs.Text) : Bool := globMatch 0x2a 0x3f pattern s

/-- The condition of the Zig engine, from its tokens. -/
theorem evalCond_shExpMatch (host word arg1 arg2 : ProxyConfigs.Text) (rest : List ProxyConfigs.Text) :
    PacEngine.evalCond host (PacEngine.shExpMatchToken::word::arg1::arg2::rest) =
      .ok (some (globMatchBytes (trim (ascii ['"',')']) arg2) (trim (ascii ['"',',']) arg1))) := by
  rfl

/-- Both matchers return for every pattern and text, and decide the language of the pattern. -/
theorem globMatch_language :
    (∀ pattern s, globMatchChars pattern s = true ↔ Matches '*' '?' pattern s) ∧
    ∀ pattern s, globMatchBytes pattern s = true ↔ Matches 0x2a 0x3f pattern s :=
  ⟨globMatch_iff '*' '?',globMatch_iff 0x2a 0x3f⟩

end ZNet.PacGlob
