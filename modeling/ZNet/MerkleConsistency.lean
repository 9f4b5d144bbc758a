import ZNet.MerkleTrees
import ZNet.SignedTimestamps
import Mathlib.Data.Nat.Bitwise

/-!
# The consistency of logs

The check of a consistency proof goes down from the new size to the old one, both below
`2^64`. At every level the part that is to be compared with the proof is empty.
-/

namespace ZNet.Transparency
open MerkleTrees

/-- A hash of 32 bytes. -/
def Digest := {bytes : List UInt8 // bytes.length = 32}

instance : DecidableEq Digest := inferInstanceAs (DecidableEq {bytes : List UInt8 // bytes.length = 32})

/-- The number of zero bits at the end of a number of 64 bits. -/
def ctz (n : ℕ) : ℕ := ((List.range 64).find? n.testBit).getD 64

theorem two_pow_ctz_dvd (n : ℕ) : 2^ctz n ∣ n := by
  have hlow : ∀ i < ctz n, n.testBit i = false := by
    intro i hi
    rw [ctz] at hi
    cases hfind : (List.range 64).find? n.testBit with
    | none =>
      rw [hfind] at hi
      exact Bool.eq_false_of_not_eq_true (List.find?_eq_none.mp hfind i (List.mem_range.mpr hi))
    | some k =>
      rw [hfind] at hi
      have hfirst := (List.find?_range_eq_some.mp hfind).2.2 i hi
      simpa using hfirst
  rw [Nat.dvd_iff_mod_eq_zero]
  apply Nat.eq_of_testBit_eq
  intro i
  rw [Nat.testBit_mod_two_pow,Nat.zero_testBit]
  by_cases hi : i < ctz n
  · rw [hlow i hi,Bool.and_false]
  · rw [decide_eq_false hi,Bool.false_and]

/-- The part below the lowest bit is empty. -/
theorem levelSize_eq (n : ℕ) : n &&& (2^ctz n-1) = 0 := by
  rw [Nat.and_two_pow_sub_one_eq_mod]
  exact Nat.mod_eq_zero_of_dvd (two_pow_ctz_dvd n)

theorem half_lt {n : ℕ} (hpos : 0 < n) : 2^ctz n >>> 1 < n := by
  have hle := Nat.le_of_dvd hpos (two_pow_ctz_dvd n)
  have hpow : 0 < 2^ctz n := Nat.pow_pos (by decide)
  rw [Nat.shiftRight_one]
  omega

section Check

variable (sha256 : List UInt8 → Digest)

/-- The hash at an index of the proof. -/
def proofHash (proof : List UInt8) (index : ℕ) : Except CtError (List UInt8) :=
  if index*32+32 ≤ proof.length then .ok ((proof.drop (index*32)).take 32) else .error .panic

/-- The walk from the new size down to the old one. Without a result, a hash of the proof is
not the one that was computed. -/
def walkProof (proof : List UInt8) (oldSize : ℕ) (currentHash : Digest) (proofIndex leftSize : ℕ) :
    Except CtError (Option Digest) :=
  if hlt : oldSize < leftSize then
    let levelMask := 2^ctz leftSize
    have hhalf : levelMask >>> 1 < leftSize := half_lt (by omega)
    let levelSize := leftSize &&& (levelMask-1)
    if hlevel : levelSize = 0 then walkProof proof oldSize currentHash proofIndex (levelMask >>> 1)
    else do
      let hashLeft ← proofHash proof proofIndex
      let hashRight ← proofHash proof (proofIndex+1)
      let newRootHash := sha256 (currentHash.1++hashLeft)
      if newRootHash.1 ≠ hashRight then return none
      else walkProof proof oldSize newRootHash (proofIndex+2) levelSize
  else .ok (some currentHash)
termination_by leftSize
decreasing_by
  · exact hhalf
  · exact (hlevel (levelSize_eq leftSize)).elim

def verifyMerkleConsistency (oldHash newHash : Digest) (proof : List UInt8) (oldSize newSize : ℕ) :
    Except CtError Bool :=
  (walkProof sha256 proof oldSize newHash 0 newSize).map fun result => decide (result = some oldHash)

variable {sha256}

/-- The walk never looks at the proof. -/
theorem walkProof_eq (proof : List UInt8) (oldSize : ℕ) (currentHash : Digest) (proofIndex leftSize : ℕ) :
    walkProof sha256 proof oldSize currentHash proofIndex leftSize = .ok (some currentHash) := by
  induction leftSize using Nat.strong_induction_on with
  | _ leftSize ih =>
    rw [walkProof]
    split_ifs with hlt
    · simp only [levelSize_eq,dif_pos]
      exact ih _ (half_lt (by omega))
    · rfl

/-- Only the same root is accepted. -/
theorem verifyMerkleConsistency_eq (oldHash newHash : Digest) (proof : List UInt8) (oldSize newSize : ℕ) :
    verifyMerkleConsistency sha256 oldHash newHash proof oldSize newSize = .ok (decide (newHash = oldHash)) := by
  rw [verifyMerkleConsistency,walkProof_eq]
  simp only [Except.map,Option.some.injEq]

end Check

section Logs

variable (sha256 : List UInt8 → Digest)

/-- The text that is hashed: leaves and nodes begin with different bytes. -/
def hashInput : Preimage (List UInt8) Digest → List UInt8
  | .empty => []
  | .leaf d => 0x00::d
  | .node left right => 0x01::(left.1++right.1)

theorem hashInput_injective {x y : Preimage (List UInt8) Digest} (h : hashInput x = hashInput y) : x = y := by
  cases x with
  | empty =>
    cases y with
    | empty => rfl
    | leaf d => cases h
    | node left right => cases h
  | leaf d =>
    cases y with
    | empty => cases h
    | leaf e => rw [(List.cons.inj h).2]
    | node left right => exact absurd (List.cons.inj h).1 (by decide)
  | node left right =>
    cases y with
    | empty => cases h
    | leaf e => exact absurd (List.cons.inj h).1 (by decide)
    | node left' right' =>
      obtain ⟨hleft,hright⟩ := List.append_inj (List.cons.inj h).2 (left.2.trans left'.2.symm)
      rw [Subtype.ext hleft,Subtype.ext hright]

/-- The root of a log. -/
def treeRoot (ds : List (List UInt8)) : Digest := (Tree.ofLeaves ds).root fun x => sha256 (hashInput x)

def hashedInputs (ds : List (List UInt8)) : List (List UInt8) :=
  ((Tree.ofLeaves ds).hashed fun x => sha256 (hashInput x)).map hashInput

/-- No two texts that are hashed for the two logs have the same hash. -/
def CollisionFree (old new : List (List UInt8)) : Prop :=
  ∀ x ∈ hashedInputs sha256 old, ∀ y ∈ hashedInputs sha256 new, sha256 x = sha256 y → x = y

variable {sha256}

theorem treeRoot_injective {old new : List (List UInt8)} (hfree : CollisionFree sha256 old new)
    (h : treeRoot sha256 old = treeRoot sha256 new) : old = new := by
  have htree : Tree.ofLeaves old = Tree.ofLeaves new := by
    apply Tree.root_injective _ h
    intro x hx y hy heq
    apply hashInput_injective
    exact hfree _ (List.mem_map_of_mem hx) _ (List.mem_map_of_mem hy) heq
  rw [← Tree.leaves_ofLeaves old,htree,Tree.leaves_ofLeaves]

/-- The proof for a log that was continued is accepted, and none for other logs. -/
structure Verifies (sha256 : List UInt8 → Digest) (old new : List (List UInt8)) : Prop where
  accepts : old <+: new → verifyMerkleConsistency sha256 (treeRoot sha256 old) (treeRoot sha256 new)
    ((consistencyProof (fun x => sha256 (hashInput x)) old.length new).flatMap Subtype.val) old.length new.length = .ok true
  refuses : ¬old <+: new → ∀ proof, verifyMerkleConsistency sha256 (treeRoot sha256 old) (treeRoot sha256 new)
    proof old.length new.length ≠ .ok true

/-- Exactly then the check is right for two logs: the new one is no real continuation of the old
one. -/
theorem verifies_iff (sha256 : List UInt8 → Digest) (old new : List (List UInt8)) (hfree : CollisionFree sha256 old new) :
    Verifies sha256 old new ↔ ¬(old <+: new ∧ old ≠ new) := by
  have hroots : treeRoot sha256 new = treeRoot sha256 old ↔ old = new :=
    ⟨fun h => treeRoot_injective hfree h.symm,fun h => by rw [h]⟩
  have haccepts : ∀ proof, verifyMerkleConsistency sha256 (treeRoot sha256 old) (treeRoot sha256 new) proof old.length
      new.length = .ok true ↔ old = new := by
    intro proof
    rw [verifyMerkleConsistency_eq,Except.ok.injEq,decide_eq_true_iff,hroots]
  constructor
  · rintro h ⟨hcontinued,hne⟩
    exact hne ((haccepts _).mp (h.accepts hcontinued))
  · intro h
    refine ⟨fun hcontinued => (haccepts _).mpr ?_,fun hcontinued proof heq => hcontinued ?_⟩
    · by_contra hne
      exact h ⟨hcontinued,hne⟩
    · obtain rfl := (haccepts proof).mp heq
      exact List.prefix_rfl

end Logs

/-- The hash of the zero byte. -/
def zeroHash : Digest :=
  ⟨[0x6e,0x34,0x0b,0x9c,0xff,0xb3,0x7a,0x98,0x9c,0xa5,0x44,0xe6,0xbb,0x78,0x0a,0x2c,
    0x78,0x90,0x1d,0x3f,0xb3,0x37,0x38,0x76,0x85,0x11,0xa3,0x06,0x17,0xaf,0xa0,0x1d],rfl⟩

/-- The hash of two such hashes behind a one. -/
def pairHash : Digest :=
  ⟨[0xfe,0x43,0xd6,0x6a,0xfa,0x4a,0x9a,0x5c,0x4f,0x9c,0x9d,0xa8,0x9f,0x4f,0xfb,0x52,
    0x63,0x5c,0x8f,0x34,0x2e,0x7f,0xfb,0x73,0x1d,0x68,0xe3,0x6c,0x59,0x82,0x07,0x2a],rfl⟩

/-- The hash function on the texts of logs with one or two empty entries. -/
def emptyEntriesHash (text : List UInt8) : Digest := if text.length = 1 then zeroHash else pairHash

theorem ofLeaves_one : Tree.ofLeaves [([] : List UInt8)] = .leaf [] := by rw [Tree.ofLeaves]

theorem ofLeaves_two : Tree.ofLeaves [([] : List UInt8),[]] = .node (.leaf []) (.leaf []) := by
  have hsplit : splitSize [([] : List UInt8),[]].length = 1 := by decide
  rw [Tree.ofLeaves,hsplit]
  simp only [List.take_succ_cons,List.take_zero,List.drop_succ_cons,List.drop_zero]
  rw [ofLeaves_one]

/-- The hash of these two hashes behind a one. -/
def tripleHash : Digest :=
  ⟨[0x48,0x37,0x66,0x5d,0xfe,0x64,0x0a,0x37,0x0e,0x74,0x96,0xc6,0x91,0x98,0x75,0x62,
    0xd0,0x24,0x62,0x14,0x2c,0x5f,0x34,0xf5,0x9e,0x18,0x59,0x11,0xa1,0x23,0x70,0xea],rfl⟩

/-- The hash function on the texts of logs with up to three empty entries. -/
def threeEntriesHash (text : List UInt8) : Digest :=
  if text = hashInput (.node pairHash zeroHash) then tripleHash else emptyEntriesHash text

theorem ofLeaves_three : Tree.ofLeaves [([] : List UInt8),[],[]] = .node (.node (.leaf []) (.leaf [])) (.leaf []) := by
  have hsplit : splitSize [([] : List UInt8),[],[]].length = 2 := by decide
  rw [Tree.ofLeaves,hsplit]
  simp only [List.take_succ_cons,List.take_zero,List.drop_succ_cons,List.drop_zero]
  rw [ofLeaves_two,ofLeaves_one]

/-- A log of three entries that was not continued, and one that has lost the third. -/
theorem verifies_iff_three : Verifies threeEntriesHash [[],[],[]] [[],[],[]] ∧ Verifies threeEntriesHash [[],[],[]] [[],[]] := by
  have hsame : CollisionFree threeEntriesHash [[],[],[]] [[],[],[]] := by
    rw [CollisionFree,hashedInputs,ofLeaves_three]
    decide
  have hlost : CollisionFree threeEntriesHash [[],[],[]] [[],[]] := by
    rw [CollisionFree,hashedInputs,hashedInputs,ofLeaves_three,ofLeaves_two]
    decide
  refine ⟨(verifies_iff threeEntriesHash [[],[],[]] [[],[],[]] hsame).mpr fun h => h.2 rfl,?_⟩
  exact (verifies_iff threeEntriesHash [[],[],[]] [[],[]] hlost).mpr fun h => absurd h.1.length_le (by decide)

/-- A log that was continued from one entry to two. -/
theorem continuation_refused : ¬∀ (sha256 : List UInt8 → Digest) (old new : List (List UInt8)),
    CollisionFree sha256 old new → Verifies sha256 old new := by
  intro h
  have hfree : CollisionFree emptyEntriesHash [[]] [[],[]] := by
    rw [CollisionFree,hashedInputs,hashedInputs,ofLeaves_one,ofLeaves_two]
    decide
  have haccepts := (h emptyEntriesHash [[]] [[],[]] hfree).accepts (List.prefix_append [[]] [[]])
  rw [verifyMerkleConsistency_eq,treeRoot,treeRoot,ofLeaves_one,ofLeaves_two] at haccepts
  revert haccepts
  decide

end ZNet.Transparency
