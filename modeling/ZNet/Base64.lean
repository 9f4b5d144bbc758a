import Mathlib.Data.List.Basic
import Mathlib.Tactic.Common

/-!
# Base64

The standard encoding with padding. It can be taken back, and its bytes are printable.
-/

namespace ZNet.Base64

/-- The byte that stands for six bits. -/
def digit (n : ℕ) : UInt8 :=
  if n < 26 then UInt8.ofNat (0x41+n)
  else if n < 52 then UInt8.ofNat (0x61+(n-26))
  else if n < 62 then UInt8.ofNat (0x30+(n-52))
  else if n = 62 then 0x2b
  else 0x2f

def padding : UInt8 := 0x3d

def encode : List UInt8 → List UInt8
  | [] => []
  | [a] => [digit (a.toNat/4),digit (a.toNat%4*16),padding,padding]
  | [a,b] => [digit (a.toNat/4),digit (a.toNat%4*16+b.toNat/16),digit (b.toNat%16*4),padding]
  | a::b::c::rest =>
    digit (a.toNat/4)::digit (a.toNat%4*16+b.toNat/16)::digit (b.toNat%16*4+c.toNat/64)::digit (c.toNat%64)::
      encode rest

/-- The six bits that a byte stands for. -/
def undigit (b : UInt8) : ℕ :=
  if 0x61 ≤ b.toNat then b.toNat-0x61+26
  else if 0x41 ≤ b.toNat then b.toNat-0x41
  else if 0x30 ≤ b.toNat then b.toNat-0x30+52
  else if b.toNat = 0x2b then 62
  else 63

/-- What has been encoded. -/
def decode : List UInt8 → List UInt8
  | w::x::y::z::rest =>
    let a := UInt8.ofNat (undigit w*4+undigit x/16)
    let b := UInt8.ofNat (undigit x%16*16+undigit y/4)
    let c := UInt8.ofNat (undigit y%4*64+undigit z)
    if y = padding then [a] else if z = padding then [a,b] else a::b::c::decode rest
  | _ => []

theorem length_encode (s : List UInt8) : (encode s).length = (s.length+2)/3*4 := by
  induction s using encode.induct with
  | case1 => rfl
  | case2 a => simp [encode]
  | case3 a b => simp [encode]
  | case4 a b c rest ih =>
    simp only [encode,List.length_cons,ih]
    omega

end ZNet.Base64
