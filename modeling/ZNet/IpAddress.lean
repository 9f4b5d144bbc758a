import ZNet.TextScan

/-!
# Addresses in dotted form

A number of up to 255 for each of four octets, without a zero before other digits.
-/

namespace ZNet.IpAddresses
open TextScan

structure IpAddress where
  octets : List UInt8
  port : UInt16
deriving DecidableEq

/-- The octets of a dotted address: `octets` are complete, `x` is the one being read. -/
def parseOctets (octets : List UInt8) (x : ℕ) (sawAnyDigits hasZeroPrefix : Bool) : List UInt8 → Option (List UInt8)
  | [] => if octets.length = 3 ∧ sawAnyDigits then some (octets++[UInt8.ofNat x]) else none
  | c::cs =>
    if c = 0x2e then
      if sawAnyDigits ∧ octets.length ≠ 3 then parseOctets (octets++[UInt8.ofNat x]) 0 false false cs else none
    else if isDigit c then
      if c = 0x30 ∧ sawAnyDigits = false then parseOctets octets 0 true true cs
      else if hasZeroPrefix then none
      else if x*10+digitValue c < 256 then parseOctets octets (x*10+digitValue c) true hasZeroPrefix cs
      else none
    else none

def parseIp4 (text : List UInt8) (port : UInt16) : Option IpAddress :=
  (parseOctets [] 0 false false text).map fun octets => ⟨octets,port⟩

end ZNet.IpAddresses
