/-
The records of a UDP association (`internal/proxy/udp_record.go`).

- `validateUDPRecord`, `encodeUDPRecord`, `decodeUDPRecord`.
- `decode_encode`: what the encoder writes the decoder reads back, with the target normalised.
- `encode_length`: an encoded record is short enough for the framing of the association.
-/
import NeProto.Continuity.Journal
import NeProto.Proxy.Target

namespace NeProto.Proxy

open List

open Continuity (maxSequence)

def maxUDPDatagramPayload : ℕ := 65507

def maxUDPErrorMessageBytes : ℕ := 128

def maxUDPRecordTargetBytes : ℕ := 512

def udpRecordFlagTarget : UInt8 := 0x01

inductive UDPRecordType where
  | datagram
  | error
  | close
deriving DecidableEq

def UDPRecordType.toByte : UDPRecordType → UInt8
  | .datagram => 1
  | .error => 2
  | .close => 3

def UDPRecordType.ofByte (b : UInt8) : Option UDPRecordType :=
  if b = 1 then some .datagram else if b = 2 then some .error else if b = 3 then some .close else none

/-- `UDPErrorRateLimited`, the last code -/
def udpErrorRateLimited : UInt8 := 5

/-- the zero value of a target -/
def noTarget : Target := ⟨[], 0⟩

structure UDPRecord where
  type : UDPRecordType
  packetID : ℕ
  hasTarget : Bool
  target : Target
  payload : Str
  errorCode : UInt8
  errorMessage : Str
deriving DecidableEq

section Codec

variable {Addr : Type} (P : Platform Addr)

/-- valid UTF-8 without control characters; these are single bytes of it -/
def validUDPErrorMessage (message : Str) : Bool :=
  decide (message.length ≤ maxUDPErrorMessageBytes) && P.validUTF8 message && message.all fun b => decide (0x20 ≤ b) && b != 0x7f

variable (record : UDPRecord)

def validateUDPRecord : Bool :=
  decide (record.packetID ≠ 0 ∧ record.packetID ≤ maxSequence) &&
  (if record.hasTarget then decide (record.target ≠ noTarget) && (encodeTarget P record.target).toOption.isSome
    else decide (record.target = noTarget)) &&
  match record.type with
  | .datagram => decide (record.payload.length ≤ maxUDPDatagramPayload ∧ record.errorCode = 0 ∧ record.errorMessage = [])
  | .error => !record.hasTarget && decide (record.payload = [] ∧ 1 ≤ record.errorCode ∧ record.errorCode ≤ udpErrorRateLimited) &&
      validUDPErrorMessage P record.errorMessage
  | .close => !record.hasTarget && decide (record.payload = [] ∧ record.errorCode = 0 ∧ record.errorMessage = [])

/-- the target behind its length -/
def encodeRecordTarget : Option Str :=
  if record.hasTarget then
    match encodeTarget P record.target with
    | .error _ => none
    | .ok target => if maxUDPRecordTargetBytes < target.length then none else some (appendUvarint target.length ++ target)
  else some []

def recordBody : Str := if record.type = .error then record.errorCode :: record.errorMessage else record.payload

def recordFlags : UInt8 := if record.hasTarget then udpRecordFlagTarget else 0

/-- none is `ErrInvalidUDPRecord` -/
def encodeUDPRecord : Option Str :=
  if !validateUDPRecord P record then none
  else match encodeRecordTarget P record with
    | none => none
    | some target =>
      let body := recordBody record
      some (record.type.toByte :: (appendUvarint record.packetID ++ recordFlags record ::
        (target ++ (appendUvarint body.length ++ body))))

/-- the target that `flags` announce, and the bytes behind it -/
def decodeRecordTarget (flags : UInt8) (rest : Str) : Option (Target × Str) :=
  if flags = udpRecordFlagTarget then
    match readCanonicalUvarint rest with
    | none => none
    | some (length, rest) =>
      if length = 0 ∨ maxUDPRecordTargetBytes < length ∨ rest.length < length then none
      else match decodeTarget P (rest.take length) with
        | .error _ => none
        | .ok target => some (target, rest.drop length)
  else some (noTarget, rest)

/-- the record of a type with a body -/
def recordOf (type : UDPRecordType) (packetID : ℕ) (hasTarget : Bool) (target : Target) (body : Str) : Option UDPRecord :=
  match type with
  | .datagram => some ⟨.datagram, packetID, hasTarget, target, body, 0, []⟩
  | .error =>
    match body with
    | [] => none
    | code :: message => some ⟨.error, packetID, hasTarget, target, [], code, message⟩
  | .close => if body ≠ [] then none else some ⟨.close, packetID, hasTarget, target, [], 0, []⟩

/-- the part of `DecodeUDPRecord` behind the flags -/
def decodeRecordBody (type : UDPRecordType) (packetID : ℕ) (flags : UInt8) (rest : Str) : Option UDPRecord :=
  match decodeRecordTarget P flags rest with
  | none => none
  | some (target, rest) =>
    match readCanonicalUvarint rest with
    | none => none
    | some (length, body) =>
      if maxUDPDatagramPayload < length ∨ length ≠ body.length then none
      else match recordOf type packetID (flags == udpRecordFlagTarget) target body with
        | none => none
        | some record => if validateUDPRecord P record then some record else none

def decodeUDPRecord (raw : Str) : Option UDPRecord :=
  if raw.length < 4 then none
  else match raw with
    | [] => none
    | kind :: rest =>
      match readCanonicalUvarint rest with
      | none => none
      | some (packetID, rest) =>
        if packetID = 0 ∨ maxSequence < packetID then none
        else match rest with
          | [] => none
          | flags :: rest =>
            if flags ≠ 0 ∧ flags ≠ udpRecordFlagTarget then none
            else match UDPRecordType.ofByte kind with
              | none => none
              | some type => decodeRecordBody P type packetID flags rest

variable {P}

/-! ## Round trip -/

/-- the record with its target normalised -/
def normalRecord (P : Platform Addr) (record : UDPRecord) : UDPRecord :=
  match normalizeTarget P record.target with
  | .ok (normalized, _) => if record.hasTarget then { record with target := normalized } else record
  | .error _ => record

/-- the target, if there is one, is not a name that turns into an address without its dot -/
def TargetReadsBack (P : Platform Addr) (target : Target) : Prop :=
  ∀ normalized, normalizeTarget P target = .ok (normalized, none) → P.parseAddr normalized.host = none

variable {record} {raw : Str}

theorem ofByte_toByte (type : UDPRecordType) : UDPRecordType.ofByte type.toByte = some type := by
  cases type <;> rfl

theorem normalRecord_noTarget (h : record.hasTarget = false) : normalRecord P record = record := by
  unfold normalRecord
  rw [h]
  cases normalizeTarget P record.target <;> rfl

theorem normalRecord_target (h : record.hasTarget = true) {normalized : Target} {address : Option Addr}
    (hnormal : normalizeTarget P record.target = .ok (normalized, address)) :
    normalRecord P record = { record with target := normalized } := by
  unfold normalRecord
  rw [h, hnormal]
  rfl

/-- what is written is normal already -/
theorem encodeTarget_again (hP : P.Lawful) {target normalized : Target} {address : Option Addr}
    (hnormal : normalizeTarget P target = .ok (normalized, address)) (hback : TargetReadsBack P target) :
    encodeTarget P normalized = encodeTarget P target := by
  have hkind : address = none → P.parseAddr normalized.host = none := by
    rintro rfl
    exact hback normalized hnormal
  unfold encodeTarget
  rw [hnormal, normalizeTarget_again hP (normalizeTarget_ok hnormal) hkind]

/-- a normalised record is as valid as the record -/
theorem validate_normalRecord (hP : P.Lawful) (h : validateUDPRecord P record = true)
    (hback : record.hasTarget = true → TargetReadsBack P record.target) : validateUDPRecord P (normalRecord P record) = true := by
  cases htarget : record.hasTarget with
  | false => rwa [normalRecord_noTarget htarget]
  | true =>
    cases hnormal : normalizeTarget P record.target with
    | error err =>
      unfold normalRecord
      rwa [hnormal]
    | ok result =>
      obtain ⟨normalized, address⟩ := result
      have hagain := encodeTarget_again hP hnormal (hback htarget)
      have hne : normalized ≠ noTarget := by
        rintro rfl
        generalize hzero : noTarget = zero at hnormal
        cases normalizeTarget_ok hnormal with
        | address hport | domain hport => exact hport (congrArg Target.port hzero).symm
      rw [normalRecord_target htarget hnormal]
      unfold validateUDPRecord at h ⊢
      simp only [htarget, if_true, Bool.and_eq_true] at h ⊢
      exact ⟨⟨h.1.1, decide_eq_true hne, by rw [hagain]; exact h.1.2.2⟩, h.2⟩

theorem encodeTarget_normal (h : encodeTarget P target = .ok raw) : ∃ n a, normalizeTarget P target = .ok (n, a) := by
  unfold encodeTarget at h
  split at h
  · cases h
  · exact ⟨_, _, ‹_›⟩

/-- the target of a record, behind its length -/
theorem encodeRecordTarget_some (htarget : record.hasTarget = true) {bytes : Str} (h : encodeRecordTarget P record = some bytes) :
    ∃ e, encodeTarget P record.target = .ok e ∧ e.length ≤ maxUDPRecordTargetBytes ∧ bytes = appendUvarint e.length ++ e := by
  rw [encodeRecordTarget, if_pos htarget] at h
  split at h
  · cases h
  rename_i e he
  split_ifs at h with hlength
  exact ⟨e, he, not_lt.1 hlength, (Option.some.inj h).symm⟩

section

variable (hvalid : validateUDPRecord P record = true)
include hvalid

theorem decodeRecordTarget_encode (hP : P.Lawful) {target : Str}
    (h : encodeRecordTarget P record = some target) (hback : record.hasTarget = true → TargetReadsBack P record.target) (rest : Str) :
    decodeRecordTarget P (recordFlags record) (target ++ rest) = some ((normalRecord P record).target, rest) := by
  unfold recordFlags decodeRecordTarget
  cases htarget : record.hasTarget with
  | false =>
    rw [encodeRecordTarget, htarget] at h
    cases h
    have hnone : record.target = noTarget := by
      unfold validateUDPRecord at hvalid
      simp only [htarget, Bool.and_eq_true] at hvalid
      exact of_decide_eq_true hvalid.1.2
    rw [normalRecord_noTarget htarget, hnone]
    rfl
  | true =>
    obtain ⟨raw, hraw, hlength, rfl⟩ := encodeRecordTarget_some htarget h
    obtain ⟨normalized, address, hnormal⟩ := encodeTarget_normal hraw
    have hkind : address = none → P.parseAddr normalized.host = none := by
      rintro rfl
      exact hback htarget normalized hnormal
    have hdecode := decodeTarget_encodeTarget hP hnormal hkind hraw
    have hpos : 0 < raw.length := by
      refine length_pos_iff.mpr ?_
      rintro rfl
      cases hdecode
    have hmax : maxUDPRecordTargetBytes < 2 ^ 63 := by decide
    rw [if_pos rfl, if_pos rfl, append_assoc, readCanonicalUvarint_append (by omega)]
    simp only
    rw [if_neg (by rw [length_append]; omega), take_left' rfl, drop_left' rfl, hdecode,
      normalRecord_target htarget hnormal]

/-- type and body give the record back -/
theorem recordOf_body (target : Target) :
    recordOf record.type record.packetID record.hasTarget target (recordBody record) = some { record with target } := by
  unfold validateUDPRecord at hvalid
  obtain ⟨type, packetID, hasTarget, _, payload, errorCode, errorMessage⟩ := record
  cases type with
  | datagram =>
    simp only [Bool.and_eq_true, decide_eq_true_eq] at hvalid
    obtain ⟨-, -, rfl, rfl⟩ := hvalid
    rfl
  | error =>
    simp only [Bool.and_eq_true, decide_eq_true_eq] at hvalid
    obtain ⟨-, ⟨-, rfl, -⟩, -⟩ := hvalid
    rfl
  | close =>
    simp only [Bool.and_eq_true, decide_eq_true_eq] at hvalid
    obtain ⟨-, -, rfl, rfl, rfl⟩ := hvalid
    rfl

/-- a body is short -/
theorem recordBody_length : (recordBody record).length ≤ maxUDPDatagramPayload := by
  unfold validateUDPRecord at hvalid
  obtain ⟨type, packetID, hasTarget, _, payload, errorCode, errorMessage⟩ := record
  cases type with
  | datagram =>
    simp only [Bool.and_eq_true, decide_eq_true_eq] at hvalid
    exact hvalid.2.1
  | error =>
    simp only [Bool.and_eq_true, decide_eq_true_eq, validUDPErrorMessage] at hvalid
    have hbound : maxUDPErrorMessageBytes < maxUDPDatagramPayload := by decide
    change (errorCode :: errorMessage).length ≤ _
    rw [length_cons]
    omega
  | close =>
    simp only [Bool.and_eq_true, decide_eq_true_eq] at hvalid
    obtain ⟨-, -, rfl, -⟩ := hvalid
    exact Nat.zero_le _

end

section

variable (h : encodeUDPRecord P record = some raw)
include h

/-- what the encoder writes -/
theorem encodeUDPRecord_ok :
    validateUDPRecord P record = true ∧ ∃ target, encodeRecordTarget P record = some target ∧
      raw = record.type.toByte :: (appendUvarint record.packetID ++ recordFlags record ::
        (target ++ (appendUvarint (recordBody record).length ++ recordBody record))) := by
  unfold encodeUDPRecord at h
  split at h
  · cases h
  rename_i hvalid
  split at h
  · cases h
  · next target htarget => exact ⟨by simpa using hvalid, target, htarget, (Option.some.inj h).symm⟩

/-- an encoded record is short -/
theorem encode_length : 4 ≤ raw.length ∧ raw.length ≤ maxUDPDatagramPayload + 1024 := by
  obtain ⟨hvalid, target, htarget, rfl⟩ := encodeUDPRecord_ok h
  have hbody := recordBody_length hvalid
  have hvarint : ∀ v, 0 < (appendUvarint v).length ∧ (appendUvarint v).length ≤ 10 := fun v =>
    ⟨appendUvarint_length v, uvarintFuel_length_le 10 v⟩
  have hlength : target.length ≤ 10 + maxUDPRecordTargetBytes := by
    cases hhas : record.hasTarget with
    | true =>
      obtain ⟨raw, -, hle, rfl⟩ := encodeRecordTarget_some hhas htarget
      have hlen := hvarint raw.length
      rw [length_append]
      omega
    | false =>
      rw [encodeRecordTarget, hhas] at htarget
      cases htarget
      exact Nat.zero_le _
  have hid := hvarint record.packetID
  have hsize := hvarint (recordBody record).length
  have hbound : maxUDPRecordTargetBytes = 512 := rfl
  simp only [length_cons, length_append]
  omega

/-- **The decoder reads back what the encoder writes.** -/
theorem decode_encode (hP : P.Lawful) (hback : record.hasTarget = true → TargetReadsBack P record.target) :
    decodeUDPRecord P raw = some (normalRecord P record) := by
  have hlength := (encode_length h).1
  obtain ⟨hvalid, target, htarget, rfl⟩ := encodeUDPRecord_ok h
  have hid : record.packetID ≠ 0 ∧ record.packetID ≤ maxSequence := by
    unfold validateUDPRecord at hvalid
    simp only [Bool.and_eq_true] at hvalid
    exact of_decide_eq_true hvalid.1.1
  have hmax : maxSequence < 2 ^ 63 ∧ maxUDPDatagramPayload < 2 ^ 63 := by decide
  have hbody := recordBody_length hvalid
  have hflags : ¬(recordFlags record ≠ 0 ∧ recordFlags record ≠ udpRecordFlagTarget) := by
    unfold recordFlags
    cases record.hasTarget <;> simp
  have hannounced : (recordFlags record == udpRecordFlagTarget) = record.hasTarget := by
    unfold recordFlags
    cases record.hasTarget <;> rfl
  have hnormal : { record with target := (normalRecord P record).target } = normalRecord P record := by
    unfold normalRecord
    split
    · split <;> rfl
    · rfl
  unfold decodeUDPRecord
  rw [if_neg (by omega)]
  simp only
  rw [readCanonicalUvarint_append (by omega)]
  simp only
  rw [if_neg (by omega), if_neg hflags, ofByte_toByte]
  simp only
  rw [decodeRecordBody, decodeRecordTarget_encode hvalid hP htarget hback]
  simp only
  rw [readCanonicalUvarint_append (by omega)]
  simp only
  rw [if_neg (by omega), hannounced, recordOf_body hvalid, hnormal]
  simp only
  rw [if_pos (validate_normalRecord hP hvalid hback)]

end

end Codec

end NeProto.Proxy
