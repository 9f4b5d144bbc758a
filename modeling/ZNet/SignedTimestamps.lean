import ZNet.ByteOrder
import ZNet.TextScan
import ZNet.Tables

/-!
# Signed certificate timestamps

The fields of a timestamp are read by a cursor, while the extensions and the signature are
cut from the end of the bytes by the two lengths that the message gives.
-/

namespace ZNet.Transparency
open ByteOrder TextScan Tables

inductive CtError
  | invalidSctFormat | unsupportedLogVersion
  /-- An overflow or a slice outside the bytes. -/
  | panic
deriving DecidableEq

inductive CtLogVersion
  | v1
deriving DecidableEq

inductive SignatureType
  | certificateTimestamp | treeHash
deriving DecidableEq

/-- A slice of the bytes that are parsed. -/
structure Slice where
  start : ℕ
  stop : ℕ
deriving DecidableEq

structure SignedCertificateTimestamp where
  sctVersion : CtLogVersion
  logId : List UInt8
  timestamp : ℕ
  extensions : Slice
  signature : Slice
  signatureType : SignatureType
deriving DecidableEq

/-- The next number of the stream and what is left of it. -/
def readInt (stream : List UInt8) (width : ℕ) : Except CtError (ℕ×List UInt8) :=
  if width ≤ stream.length then .ok (ofBytes .big (stream.take width),stream.drop width)
  else .error .invalidSctFormat

/-- As many bytes as there are, up to the length. -/
def read (stream : List UInt8) (length : ℕ) : List UInt8×List UInt8 := (stream.take length,stream.drop length)

/-- The difference of two unsigned numbers, which traps if it is negative. -/
def subtract (m n : ℕ) : Except CtError ℕ := if n ≤ m then .ok (m-n) else .error .panic

def SignedCertificateTimestamp.parse (rawData : List UInt8) : Except CtError SignedCertificateTimestamp :=
  if rawData.length < 16 then .error .invalidSctFormat
  else do
    let (version,stream) ← readInt rawData 1
    if version ≠ 1 then .error .unsupportedLogVersion
    else
      let (_entryType,stream) ← readInt stream 2
      let (sigLen,stream) ← readInt stream 2
      let (sigType,stream) ← readInt stream 1
      if 1 < sigType then .error .invalidSctFormat
      else
        let (timestamp,stream) ← readInt stream 8
        let (logId,stream) := read stream 32
        let (extLen,_) ← readInt stream 2
        let extStart ← subtract rawData.length extLen >>= fun n => subtract n sigLen
        let sigStart ← subtract rawData.length sigLen
        return { sctVersion := .v1, logId := logId, timestamp := timestamp, extensions := ⟨extStart,sigStart⟩,
                 signature := ⟨sigStart,rawData.length⟩,
                 signatureType := if sigType = 0 then .certificateTimestamp else .treeHash }

/-- The id is given by its hexadecimal digits. -/
structure CtLogInfo where
  id : List UInt8
  description : String
  url : String
  isOperational : Bool

def knownLogs : List CtLogInfo :=
  [⟨ascii "a4b90990b418c4d04aa0bd94148c545d43650c7dbf36b30885934747939cab2d".toList,"Let's Encrypt Oak 2026",
    "oak.ct.letsencrypt.org",true⟩,
   ⟨ascii "e23b4c8d0852e5da69ea47a7b6c8fece4e4b06b8e68b2b0e6a9eab4a12c7ce39".toList,"Cloudflare Nimbus 2025",
    "ct.cloudflare.com",true⟩,
   ⟨ascii "f47ac10b58cc4372a5670e02b2e6da287bf29bcd1a8d8b5c9c8e8a4d5d8b4c3e".toList,"Google Argon 2026",
    "ct.googleapis.com/logs/argon2026/",true⟩]

structure CtValidator where
  knownLogsCache : Table (List UInt8) CtLogInfo

def CtValidator.init : CtValidator := ⟨knownLogs.foldl (fun m log => m.insert log.id log) ∅⟩

/-- Two digits for each byte. -/
def bytesToHex (bytes : List UInt8) : List UInt8 :=
  bytes.flatMap fun b => ascii (Nat.toDigits 16 (b.toNat/16)++Nat.toDigits 16 (b.toNat%16))

/-- A day in milliseconds. -/
def maxAge : ℕ := 24*60*60*1000

/-- The sum traps when it overflows. -/
def tooOld (now : ℤ) (timestamp : ℕ) : Except CtError Bool :=
  if timestamp+maxAge < 2^64 then .ok (decide ((timestamp+maxAge : ℕ) < now)) else .error .panic

/-- The content that is to be signed is put together, but no signature is compared with it. -/
def verifySctSignature (_sct : SignedCertificateTimestamp) (_certificateDer : List UInt8) (_logInfo : CtLogInfo) :
    Except CtError Bool := .ok true

/-- The entries of the log are fetched and not looked at; an error of the client is no error here. -/
def verifyCertificateInLog (_logUrl : String) (_certificateDer : List UInt8) : Except CtError Bool := .ok false

/-- The checks of a timestamp of a log in operation. -/
def checkSct (now : ℤ) (certificateDer : List UInt8) (sct : SignedCertificateTimestamp) (logInfo : CtLogInfo) :
    Except CtError Bool := do
  if ← tooOld now sct.timestamp then return false
  else if !(← verifySctSignature sct certificateDer logInfo) then return false
  else if ← verifyCertificateInLog logInfo.url certificateDer then return true
  else return true

def CtValidator.validateSingleSct (self : CtValidator) (now : ℤ) (certificateDer sctData : List UInt8) :
    Except CtError Bool :=
  match SignedCertificateTimestamp.parse sctData with
  | .error .panic => .error .panic
  | .error _ => .error .invalidSctFormat
  | .ok sct =>
    match self.knownLogsCache.lookup (bytesToHex sct.logId) with
    | none => .ok false
    | some logInfo => if logInfo.isOperational then checkSct now certificateDer sct logInfo else .ok false

section Fields

def headerLength : ℕ := 48

variable (rawData : List UInt8)

def timestampField : ℕ := numberAt rawData 6 8

def logIdField : List UInt8 := (rawData.drop 14).take 32

def signatureLength : ℕ := numberAt rawData 3 2

def extensionsLength : ℕ := numberAt rawData 46 2

/-- All fields of the header are there, and those that are checked have a legal value. -/
structure HasHeader : Prop where
  length : headerLength ≤ rawData.length
  version : numberAt rawData 0 1 = 1
  signatureType : numberAt rawData 5 1 ≤ 1

instance : Decidable (HasHeader rawData) :=
  decidable_of_iff (headerLength ≤ rawData.length ∧ numberAt rawData 0 1 = 1 ∧ numberAt rawData 5 1 ≤ 1)
    ⟨fun h => ⟨h.1,h.2.1,h.2.2⟩,fun h => ⟨h.length,h.version,h.signatureType⟩⟩

/-- What the fields of the bytes say. -/
def sctOf : SignedCertificateTimestamp where
  sctVersion := .v1
  logId := logIdField rawData
  timestamp := timestampField rawData
  extensions := ⟨rawData.length-extensionsLength rawData-signatureLength rawData,rawData.length-signatureLength rawData⟩
  signature := ⟨rawData.length-signatureLength rawData,rawData.length⟩
  signatureType := if numberAt rawData 5 1 = 0 then .certificateTimestamp else .treeHash

end Fields

section Parsing

variable {rawData : List UInt8}

/-- A read at an offset. -/
theorem readInt_drop (rawData : List UInt8) (offset width : ℕ) (hpos : 0 < width) :
    readInt (rawData.drop offset) width =
      if offset+width ≤ rawData.length then .ok (numberAt rawData offset width,rawData.drop (offset+width))
      else .error .invalidSctFormat := by
  rw [readInt,List.length_drop,List.drop_drop,numberAt]
  split_ifs with hread hread'
  · rfl
  · omega
  · omega
  · rfl

theorem ok_bind {α β : Type} (a : α) (f : α → Except CtError β) : (Except.ok a >>= f) = f a := rfl

theorem subtract_lengths (n ext sig : ℕ) : (subtract n ext >>= fun rest => subtract rest sig) =
    if ext+sig ≤ n then .ok (n-ext-sig) else .error .panic := by
  rw [subtract]
  split_ifs with hext hboth
  · change subtract (n-ext) sig = _
    rw [subtract,if_pos (by omega)]
  · change subtract (n-ext) sig = _
    rw [subtract,if_neg (by omega)]
  · omega
  · rfl

/-- The checks in the order of the parser; sixteen bytes are enough up to the timestamp. -/
theorem parse_eq (hlen : 16 ≤ rawData.length) : SignedCertificateTimestamp.parse rawData =
    if numberAt rawData 0 1 ≠ 1 then .error .unsupportedLogVersion
    else if 1 < numberAt rawData 5 1 then .error .invalidSctFormat
    else if rawData.length < 48 then .error .invalidSctFormat
    else if extensionsLength rawData+signatureLength rawData ≤ rawData.length then .ok (sctOf rawData)
    else .error .panic := by
  have hread : ∀ offset width : ℕ, 0 < width → offset+width ≤ 16 → readInt (rawData.drop offset) width =
      .ok (numberAt rawData offset width,rawData.drop (offset+width)) := by
    intro offset width hpos hfits
    rw [readInt_drop rawData offset width hpos,if_pos (by omega)]
  have hversion : readInt rawData 1 = .ok (numberAt rawData 0 1,rawData.drop 1) :=
    hread 0 1 (by decide) (by decide)
  have hentry := hread 1 2 (by decide) (by decide)
  have hsig := hread 3 2 (by decide) (by decide)
  have htype := hread 5 1 (by decide) (by decide)
  have htime := hread 6 8 (by decide) (by decide)
  have hlog : read (rawData.drop 14) 32 = (logIdField rawData,rawData.drop 46) := by rw [read,List.drop_drop,logIdField]
  have hext := readInt_drop rawData 46 2 (by decide)
  have hstarts := subtract_lengths rawData.length (extensionsLength rawData) (signatureLength rawData)
  rw [SignedCertificateTimestamp.parse,if_neg (by omega)]
  simp only [hversion,hentry,hsig,htype,htime,hlog,hext,ok_bind,Nat.reduceAdd]
  apply if_congr Iff.rfl rfl
  apply if_congr Iff.rfl rfl
  by_cases hlong : 48 ≤ rawData.length
  · rw [if_pos hlong,if_neg (Nat.not_lt.mpr hlong),ok_bind,← extensionsLength,← signatureLength,hstarts]
    by_cases hfits : extensionsLength rawData+signatureLength rawData ≤ rawData.length
    · have hsigStart : subtract rawData.length (signatureLength rawData) = .ok (rawData.length-signatureLength rawData) :=
        if_pos (by omega)
      rw [if_pos hfits,if_pos hfits,ok_bind,hsigStart]
      rfl
    · rw [if_neg hfits,if_neg hfits]
      rfl
  · rw [if_neg hlong,if_pos (Nat.lt_of_not_le hlong)]
    rfl

theorem parse_short (hlen : rawData.length < 16) :
    SignedCertificateTimestamp.parse rawData = .error .invalidSctFormat := if_pos hlen

/-- A header that is short or has an illegal value is an error. -/
theorem parse_header (h : ¬HasHeader rawData) : SignedCertificateTimestamp.parse rawData = .error .invalidSctFormat ∨
    SignedCertificateTimestamp.parse rawData = .error .unsupportedLogVersion := by
  by_cases hlen : 16 ≤ rawData.length
  · rw [parse_eq hlen]
    split_ifs with hversion htype hlong
    · exact Or.inr rfl
    · exact Or.inl rfl
    · exact Or.inl rfl
    all_goals exact (h ⟨Nat.le_of_not_lt hlong,not_not.mp hversion,Nat.le_of_not_lt htype⟩).elim
  · exact Or.inl (parse_short (Nat.lt_of_not_le hlen))

/-- Behind a header the two lengths decide. -/
theorem parse_lengths (h : HasHeader rawData) : SignedCertificateTimestamp.parse rawData =
    if extensionsLength rawData+signatureLength rawData ≤ rawData.length then .ok (sctOf rawData)
    else .error .panic := by
  have hlong : 48 ≤ rawData.length := h.length
  rw [parse_eq (by omega),if_neg (not_not.mpr h.version),if_neg (Nat.not_lt.mpr h.signatureType),
    if_neg (Nat.not_lt.mpr hlong)]

end Parsing

/-- The first slice ends before the second one begins. -/
def Slice.Before (s t : Slice) : Prop := s.start ≤ s.stop ∧ s.stop ≤ t.start ∧ t.start ≤ t.stop

/-- The parser and the check return; the two slices of what is parsed are apart, behind the
header and inside the bytes. -/
structure Safe (validator : CtValidator) (now : ℤ) (certificateDer rawData : List UInt8) : Prop where
  parses : SignedCertificateTimestamp.parse rawData ≠ .error .panic
  slices : ∀ sct, SignedCertificateTimestamp.parse rawData = .ok sct →
    headerLength ≤ sct.extensions.start ∧ sct.extensions.Before sct.signature ∧ sct.signature.stop ≤ rawData.length
  validates : validator.validateSingleSct now certificateDer rawData ≠ .error .panic

/-- The log is known and in operation. -/
def CtValidator.Trusts (self : CtValidator) (logId : List UInt8) : Prop :=
  ∃ logInfo, self.knownLogsCache.lookup (bytesToHex logId) = some logInfo ∧ logInfo.isOperational = true

/-- The header is an error, or there is room for both slices behind it and a timestamp that is
checked is more than a day before the end of time. -/
def Roomy (validator : CtValidator) (rawData : List UInt8) : Prop :=
  ¬HasHeader rawData ∨ headerLength+extensionsLength rawData+signatureLength rawData ≤ rawData.length ∧
    (validator.Trusts (logIdField rawData) → timestampField rawData+maxAge < 2^64)

section Validation

variable {self : CtValidator} {now : ℤ} {certificateDer rawData : List UInt8}

theorem validateSingleSct_header (h : ¬HasHeader rawData) :
    self.validateSingleSct now certificateDer rawData = .error .invalidSctFormat := by
  rw [CtValidator.validateSingleSct]
  rcases parse_header h with hparse | hparse
  · rw [hparse]
  · rw [hparse]

/-- The lengths go beyond the bytes. -/
theorem validateSingleSct_overrun (h : HasHeader rawData)
    (hlengths : ¬extensionsLength rawData+signatureLength rawData ≤ rawData.length) :
    self.validateSingleSct now certificateDer rawData = .error .panic := by
  rw [CtValidator.validateSingleSct,parse_lengths h,if_neg hlengths]

theorem validateSingleSct_untrusted (h : HasHeader rawData)
    (hlengths : extensionsLength rawData+signatureLength rawData ≤ rawData.length)
    (hlog : ¬self.Trusts (logIdField rawData)) : self.validateSingleSct now certificateDer rawData = .ok false := by
  rw [CtValidator.validateSingleSct,parse_lengths h,if_pos hlengths]
  simp only [sctOf]
  cases hlookup : self.knownLogsCache.lookup (bytesToHex (logIdField rawData)) with
  | none => rfl
  | some logInfo => exact if_neg fun hoperational => hlog ⟨logInfo,hlookup,hoperational⟩

/-- Of a trusted log only the age is checked. -/
theorem validateSingleSct_trusted (h : HasHeader rawData)
    (hlengths : extensionsLength rawData+signatureLength rawData ≤ rawData.length)
    (hlog : self.Trusts (logIdField rawData)) :
    self.validateSingleSct now certificateDer rawData = (tooOld now (timestampField rawData)).map not := by
  obtain ⟨logInfo,hlookup,hoperational⟩ := hlog
  rw [CtValidator.validateSingleSct,parse_lengths h,if_pos hlengths]
  simp only [sctOf,hlookup,hoperational,if_true]
  rw [checkSct]
  cases tooOld now (timestampField rawData) with
  | error e => rfl
  | ok old => cases old <;> rfl

theorem tooOld_panic {timestamp : ℕ} : (tooOld now timestamp).map not = .error .panic ↔ ¬timestamp+maxAge < 2^64 := by
  rw [tooOld]
  split_ifs with hsum
  · exact iff_of_false (fun h => nomatch h) (not_not.mpr hsum)
  · exact iff_of_true rfl hsum

/-- Whether the check of one timestamp traps. -/
theorem validateSingleSct_panic : self.validateSingleSct now certificateDer rawData = .error .panic ↔
    HasHeader rawData ∧ (rawData.length < extensionsLength rawData+signatureLength rawData ∨
      self.Trusts (logIdField rawData) ∧ 2^64 ≤ timestampField rawData+maxAge) := by
  by_cases h : HasHeader rawData
  · by_cases hlengths : extensionsLength rawData+signatureLength rawData ≤ rawData.length
    · have hover : ¬rawData.length < extensionsLength rawData+signatureLength rawData := Nat.not_lt.mpr hlengths
      by_cases hlog : self.Trusts (logIdField rawData)
      · rw [validateSingleSct_trusted h hlengths hlog,tooOld_panic,Nat.not_lt]
        simp only [h,hover,hlog,true_and,false_or]
      · rw [validateSingleSct_untrusted h hlengths hlog]
        simp [hover,hlog]
    · rw [validateSingleSct_overrun h hlengths]
      exact iff_of_true rfl ⟨h,Or.inl (Nat.lt_of_not_le hlengths)⟩
  · rw [validateSingleSct_header h]
    exact iff_of_false (fun heq => nomatch heq) fun hpanic => h hpanic.1

/-- The slices are apart in any case, and behind the header exactly if there is room for them. -/
theorem slices_iff (h : HasHeader rawData) (hlengths : extensionsLength rawData+signatureLength rawData ≤ rawData.length) :
    headerLength ≤ (sctOf rawData).extensions.start ∧ (sctOf rawData).extensions.Before (sctOf rawData).signature ∧
        (sctOf rawData).signature.stop ≤ rawData.length ↔
      headerLength+extensionsLength rawData+signatureLength rawData ≤ rawData.length := by
  simp only [sctOf,Slice.Before]
  have hlen := h.length
  omega

/-- Exactly then a timestamp is handled safely. -/
theorem sct_safe_iff (self : CtValidator) (now : ℤ) (certificateDer rawData : List UInt8) :
    Safe self now certificateDer rawData ↔ Roomy self rawData := by
  by_cases h : HasHeader rawData
  · by_cases hlengths : extensionsLength rawData+signatureLength rawData ≤ rawData.length
    · have hparse : SignedCertificateTimestamp.parse rawData = .ok (sctOf rawData) := by
        rw [parse_lengths h,if_pos hlengths]
      have hpanic : self.validateSingleSct now certificateDer rawData = .error .panic ↔ _ := validateSingleSct_panic
      have hover : ¬rawData.length < extensionsLength rawData+signatureLength rawData := Nat.not_lt.mpr hlengths
      rw [Roomy,← slices_iff h hlengths]
      constructor
      · intro hsafe
        refine Or.inr ⟨hsafe.slices _ hparse,fun hlog => ?_⟩
        by_contra hsum
        exact hsafe.validates (hpanic.mpr ⟨h,Or.inr ⟨hlog,Nat.le_of_not_lt hsum⟩⟩)
      · rintro (hnone | ⟨hslices,hsum⟩)
        · exact (hnone h).elim
        · refine ⟨fun heq => (nomatch hparse.symm.trans heq),?_,?_⟩
          · intro sct hsct
            cases hparse.symm.trans hsct
            exact hslices
          · intro heq
            rcases (hpanic.mp heq).2 with hlt | ⟨hlog,hle⟩
            · exact hover hlt
            · exact Nat.not_lt.mpr hle (hsum hlog)
    · have hparse : SignedCertificateTimestamp.parse rawData = .error .panic := by
        rw [parse_lengths h,if_neg hlengths]
      refine iff_of_false (fun hsafe => hsafe.parses hparse) ?_
      rintro (hnone | ⟨hroom,-⟩)
      · exact hnone h
      · omega
  · refine iff_of_true ⟨?_,?_,?_⟩ (Or.inl h)
    · rcases parse_header h with hparse | hparse
      · exact fun heq => nomatch hparse.symm.trans heq
      · exact fun heq => nomatch hparse.symm.trans heq
    · intro sct hsct
      rcases parse_header h with hparse | hparse
      · cases hparse.symm.trans hsct
      · cases hparse.symm.trans hsct
    · rw [validateSingleSct_header h]
      exact fun heq => nomatch heq

end Validation

/-- A header that announces a signature of 65535 bytes, and nothing behind it. -/
def longSignature : List UInt8 := [1,0,0,0xff,0xff]++List.replicate 43 0

/-- A timestamp of a known log, from the last day that can be counted. -/
def lastTimestamp : List UInt8 :=
  [1,0,0,0,0,0]++List.replicate 8 0xff++
  [0xa4,0xb9,0x09,0x90,0xb4,0x18,0xc4,0xd0,0x4a,0xa0,0xbd,0x94,0x14,0x8c,0x54,0x5d,
   0x43,0x65,0x0c,0x7d,0xbf,0x36,0xb3,0x08,0x85,0x93,0x47,0x47,0x93,0x9c,0xab,0x2d]++[0,0]

theorem longSignature_traps : ¬Safe .init 0 [] longSignature ∧ ¬Safe .init 0 [] lastTimestamp := by
  constructor
  · intro h
    exact h.parses (by decide +kernel)
  · intro h
    exact h.validates (by decide +kernel)

end ZNet.Transparency
