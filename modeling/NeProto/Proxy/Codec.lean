/-
The laws of the target and record codecs (`internal/proxy/target.go`, `internal/proxy/udp_record.go`).

- `BytesReadBack`: what is used of `netip` besides `Platform.Lawful`.
- `encodeTarget_decodeTarget`, `encode_decode`: accepted bytes are the encoding of what is read from them.
- `codec_laws`: a target, or a record, reads back normalised exactly when it is not a name that turns into an address without its dot.
- `dotted_address_lost`: such a name.
-/
import NeProto.Proxy.UDPRecord

namespace NeProto.Proxy

open List

variable {Addr : Type} {P : Platform Addr} {raw : Str} {target normalized : Target} {record : UDPRecord}

/-- the text of four or sixteen bytes, if it is an address at all, is the address of these bytes -/
def BytesReadBack (P : Platform Addr) : Prop :=
  ∀ bytes address, bytes.length = 4 ∨ bytes.length = 16 → P.parseAddr (P.addrString (P.addrFrom bytes)) = some address →
    P.asSlice address = bytes ∧ P.is4 address = decide (bytes.length = 4)

/-! ## Targets -/

theorem putUint_port {port : Str} (h : port.length = 2) : Bytes.putUint 2 (UInt16.ofNat (Bytes.uint port)).toNat = port := by
  obtain ⟨a, b, rfl⟩ := length_eq_two.1 h
  have ha := a.toNat_lt
  have hb := b.toNat_lt
  have hport : Bytes.uint [a, b] = a.toNat * 256 + b.toNat := by simp [Bytes.uint]
  rw [UInt16.toNat_ofNat', hport, Nat.mod_eq_of_lt (by omega)]
  simp only [Bytes.putUint, pow_one, pow_zero, Nat.div_one]
  rw [show (a.toNat * 256 + b.toNat) / 256 = a.toNat by omega, UInt8.ofNat_toNat]
  congr 2
  exact UInt8.toNat_inj.1 (by rw [UInt8.toNat_ofNat']; omega)

theorem Normalized.some_address {address : Addr} (h : Normalized P target normalized (some address)) :
    ∃ a, P.parseAddr target.host = some a ∧ address = P.unmap a ∧ normalized.host = P.addrString address := by
  cases h with
  | address _ a hparse _ => exact ⟨a, hparse, rfl, rfl⟩

section

variable (hP : P.Lawful)
include hP

/-- the address in accepted bytes is written with the same kind and bytes -/
theorem encodeHost_bytes (hB : BytesReadBack P) {bytes : Str} {address : Addr}
    (hlen : bytes.length = 4 ∨ bytes.length = 16) (hhost : target.host = P.addrString (P.addrFrom bytes))
    (h : normalizeTarget P target = .ok (target, some address)) (host : Str) :
    encodeHost P host (some address) = (if bytes.length = 4 then targetIPv4 else targetIPv6) :: bytes := by
  obtain ⟨a, hparse, rfl, hself⟩ := (normalizeTarget_ok h).some_address
  -- the text is the address's own, so unmapping has changed nothing
  have hagain := hP.parse_string _ (hP.unmap_valid a (hP.parse_valid _ a hparse))
  rw [← hself, hparse] at hagain
  obtain ⟨hslice, h4⟩ := hB bytes a hlen (hhost ▸ hparse)
  rw [encodeHost, ← Option.some.inj hagain, ← Option.some.inj hagain, encodeAddress, h4, hslice]
  by_cases hfour : bytes.length = 4 <;> simp [hfour]

/-- **Accepted bytes are the encoding of their target.** -/
theorem encodeTarget_decodeTarget (hB : BytesReadBack P) (h : decodeTarget P raw = .ok target) :
    encodeTarget P target = .ok raw := by
  unfold decodeTarget at h
  split at h
  next network kind rest =>
    split_ifs at h with hnetwork
    split at h
    · cases h
    rename_i host port hhost
    split_ifs at h with hport
    simp only at h
    split at h
    · cases h
    rename_i found address hnormal
    split_ifs at h with hsame
    cases h
    obtain ⟨hsame, hkind⟩ := not_or.1 hsame
    cases not_not.1 hsame
    rw [encodeTarget, hnormal]
    simp only
    rw [putUint_port (not_not.1 hport), not_not.1 hnetwork]
    suffices hrest : encodeHost P host address ++ port = kind :: rest by rw [hrest]
    have haddress : ∀ (n : ℕ) (k : UInt8), (n = 4 ∧ k = targetIPv4 ∨ n = 16 ∧ k = targetIPv6) → n ≤ rest.length → kind = k →
        some (P.addrString (P.addrFrom (rest.take n)), rest.drop n) = some (host, port) →
        encodeHost P host address ++ port = kind :: rest := by
      rintro n k hn hle rfl heq
      cases heq
      have htake : (rest.take n).length = n := length_take_of_le hle
      have hsome : address.isSome = true := by
        by_contra hnone
        rw [Bool.not_eq_true] at hnone
        rcases hn with ⟨-, rfl⟩ | ⟨-, rfl⟩ <;> exact hkind (hnone ▸ rfl)
      obtain ⟨a, rfl⟩ := Option.isSome_iff_exists.1 hsome
      rw [encodeHost_bytes hP hB (by omega) rfl hnormal, htake, cons_append, take_append_drop]
      rcases hn with ⟨rfl, rfl⟩ | ⟨rfl, rfl⟩ <;> rfl
    unfold decodeHost at hhost
    split_ifs at hhost with hdomain h4 h4len h6 h6len
    · subst hdomain
      split at hhost
      · cases hhost
      rename_i length body hread
      split_ifs at hhost with hlen
      cases hhost
      cases address with
      | some a => exact absurd rfl hkind
      | none =>
        rw [encodeHost, length_take, Nat.min_eq_left (by omega), cons_append, append_assoc, take_append_drop,
          ← readCanonicalUvarint_split hread]
    · exact haddress 4 _ (.inl ⟨rfl, rfl⟩) (by omega) h4 hhost
    · exact haddress 16 _ (.inr ⟨rfl, rfl⟩) (by omega) h6 hhost
  next => cases h

omit hP in
/-- a name that is written as its normalised form has not become an address -/
theorem readsBack_of_same (h : encodeTarget P target = .ok raw)
    (hsame : ∀ n a, normalizeTarget P target = .ok (n, a) → encodeTarget P n = .ok raw) : TargetReadsBack P target := by
  intro n hn
  refine (encodeTarget_kind (hsame n none hn)).1 ((encodeTarget_kind h).2 ?_)
  cases hparse : P.parseAddr target.host with
  | none => rfl
  | some a =>
    unfold normalizeTarget at hn
    rw [hparse] at hn
    simp only at hn
    split_ifs at hn
    cases hn

/-- **Targets read back** -/
theorem target_iff (hB : BytesReadBack P) (h : encodeTarget P target = .ok raw) :
    (∃ n a, normalizeTarget P target = .ok (n, a) ∧ decodeTarget P raw = .ok n ∧ ∃ a', normalizeTarget P n = .ok (n, a')) ↔
      TargetReadsBack P target := by
  obtain ⟨n, a, hn⟩ := encodeTarget_normal h
  constructor
  · rintro ⟨n', a', hn', hdecode, -⟩
    refine readsBack_of_same h fun m b hm => ?_
    cases hn'.symm.trans hm
    exact encodeTarget_decodeTarget hP hB hdecode
  · intro hback
    have hkind : a = none → P.parseAddr n.host = none := by
      rintro rfl
      exact hback n hn
    exact ⟨n, a, hn, decodeTarget_encodeTarget hP hn hkind h, a, normalizeTarget_again hP (normalizeTarget_ok hn) hkind⟩

theorem encodeTarget_length (h : encodeTarget P target = .ok raw) : raw.length ≤ maxUDPRecordTargetBytes := by
  obtain ⟨n, a, hn⟩ := encodeTarget_normal h
  rw [encodeTarget, hn] at h
  cases h
  have hhost : (encodeHost P n.host a).length ≤ 11 + maxDomainLength := by
    cases normalizeTarget_ok hn with
    | address _ a hparse _ =>
      have hlen := hP.slice_length _ (hP.unmap_valid _ (hP.unmap_valid a (hP.parse_valid _ a hparse)))
      have hle : (P.asSlice (P.unmap (P.unmap a))).length ≤ 16 := by
        rw [hlen]
        split <;> decide
      simp only [encodeHost, encodeAddress]
      split <;> exact (Nat.succ_le_succ hle).trans (Nat.le_add_right 17 247)
    | domain _ host hvalid =>
      have hlen := (of_decide_eq_true (Bool.and_eq_true_iff.mp hvalid).1).2
      have hvarint := uvarintFuel_length_le 10 host.length
      change (targetDomain :: (uvarintFuel 10 host.length ++ host)).length ≤ _
      rw [length_cons, length_append]
      omega
  have hbound : maxDomainLength = 253 ∧ maxUDPRecordTargetBytes = 512 := ⟨rfl, rfl⟩
  rw [length_cons, length_append, Bytes.length_putUint]
  omega

/-! ## Records -/

omit hP in
theorem toByte_ofByte {b : UInt8} {type : UDPRecordType} (h : UDPRecordType.ofByte b = some type) : type.toByte = b := by
  unfold UDPRecordType.ofByte at h
  split_ifs at h <;> cases h <;> symm <;> assumption

omit hP in
theorem recordOf_some {type : UDPRecordType} {packetID : ℕ} {hasTarget : Bool} {body : Str}
    (h : recordOf type packetID hasTarget target body = some record) :
    record.type = type ∧ record.packetID = packetID ∧ record.hasTarget = hasTarget ∧ record.target = target ∧
      recordBody record = body := by
  cases type with
  | datagram =>
    cases h
    exact ⟨rfl, rfl, rfl, rfl, rfl⟩
  | error =>
    cases body with
    | nil => cases h
    | cons code message =>
      cases h
      exact ⟨rfl, rfl, rfl, rfl, rfl⟩
  | close =>
    unfold recordOf at h
    split_ifs at h with hbody
    cases h
    exact ⟨rfl, rfl, rfl, rfl, (not_not.1 hbody).symm⟩

theorem encodeRecordTarget_decode (hB : BytesReadBack P) {flags : UInt8} {rest rest' : Str}
    (h : decodeRecordTarget P flags rest = some (record.target, rest')) (hflags : record.hasTarget = (flags == udpRecordFlagTarget)) :
    ∃ bytes, encodeRecordTarget P record = some bytes ∧ rest = bytes ++ rest' := by
  unfold decodeRecordTarget at h
  unfold encodeRecordTarget
  rw [hflags]
  split_ifs at h with hf
  · split at h
    · cases h
    rename_i length body hread
    split_ifs at h with hlen
    split at h
    · cases h
    rename_i t hdecode
    cases h
    have htake : (body.take length).length = length := length_take_of_le (by omega)
    refine ⟨appendUvarint length ++ body.take length, ?_, ?_⟩
    · rw [hf, encodeTarget_decodeTarget hP hB hdecode]
      simp only [beq_self_eq_true, if_true, htake]
      rw [if_neg (by omega)]
    · rw [append_assoc, take_append_drop]
      exact readCanonicalUvarint_split hread
  · obtain ⟨-, rfl⟩ := Prod.mk.inj (Option.some.inj h)
    exact ⟨[], if_neg (by simpa using hf), rfl⟩

/-- **Accepted bytes are the encoding of their record.** -/
theorem encode_decode (hB : BytesReadBack P) (h : decodeUDPRecord P raw = some record) :
    encodeUDPRecord P record = some raw := by
  unfold decodeUDPRecord at h
  split_ifs at h
  split at h
  · cases h
  split at h
  · cases h
  rename_i packetID rest hid
  split_ifs at h
  split at h
  · cases h
  rename_i flags rest
  split_ifs at h with hflags
  split at h
  · cases h
  rename_i type htype
  unfold decodeRecordBody at h
  split at h
  · cases h
  rename_i t rest' htarget
  split at h
  · cases h
  rename_i length body hread
  split_ifs at h with hlen
  split at h
  · cases h
  rename_i found hfound
  split_ifs at h with hvalid
  cases h
  obtain ⟨rfl, rfl, hhas, rfl, rfl⟩ := recordOf_some hfound
  obtain ⟨bytes, hbytes, rfl⟩ := encodeRecordTarget_decode hP hB htarget hhas
  have hfl : recordFlags record = flags := by
    unfold recordFlags
    rw [hhas]
    by_cases hf : flags = udpRecordFlagTarget
    · rw [hf, beq_self_eq_true, if_pos rfl]
    · rw [beq_false_of_ne hf]
      exact (not_not.1 fun hz => hflags ⟨hz, hf⟩).symm
  have hl : length = (recordBody record).length := not_not.1 (not_or.1 hlen).2
  rw [encodeUDPRecord, hvalid, hbytes, hfl, toByte_ofByte htype]
  simp only [← hl, ← readCanonicalUvarint_split hread, ← readCanonicalUvarint_split hid]
  rfl

theorem encodeUDPRecord_valid (h : validateUDPRecord P record = true) : ∃ raw, encodeUDPRecord P record = some raw := by
  unfold encodeUDPRecord
  rw [h, encodeRecordTarget]
  cases htarget : record.hasTarget with
  | false => exact ⟨_, rfl⟩
  | true =>
    unfold validateUDPRecord at h
    simp only [htarget, if_true, Bool.and_eq_true] at h
    have hsome := h.1.2.2
    cases he : encodeTarget P record.target with
    | error err =>
      rw [he] at hsome
      cases hsome
    | ok e =>
      simp only [if_true, if_neg (not_lt.2 (encodeTarget_length hP he))]
      exact ⟨_, rfl⟩

theorem record_iff (hB : BytesReadBack P) (h : validateUDPRecord P record = true) :
    (∃ raw, encodeUDPRecord P record = some raw ∧ decodeUDPRecord P raw = some (normalRecord P record) ∧
      normalRecord P (normalRecord P record) = normalRecord P record) ↔
      (record.hasTarget = true → TargetReadsBack P record.target) := by
  constructor
  · rintro ⟨raw, hraw, hdecode, -⟩ htarget
    obtain ⟨-, bytes, hbytes, rfl⟩ := encodeUDPRecord_ok hraw
    obtain ⟨-, bytes', hbytes', heq⟩ := encodeUDPRecord_ok (encode_decode hP hB hdecode)
    obtain ⟨e, he, hle, rfl⟩ := encodeRecordTarget_some htarget hbytes
    refine readsBack_of_same he fun n a hn => ?_
    have hnormal : ({ record with target := n } : UDPRecord).hasTarget = true := htarget
    rw [normalRecord_target htarget hn] at hbytes' heq
    obtain ⟨e', he', hle', rfl⟩ := encodeRecordTarget_some hnormal hbytes'
    -- only the bytes of the target could differ
    have hread := congrArg readCanonicalUvarint (append_cancel_right (cons.inj (append_cancel_left (cons.inj heq).2)).2)
    have hmax : maxUDPRecordTargetBytes < 2 ^ 63 := by decide
    rw [readCanonicalUvarint_append (by omega), readCanonicalUvarint_append (by omega)] at hread
    obtain ⟨-, rfl⟩ := Prod.mk.inj (Option.some.inj hread)
    exact he'
  · intro hback
    obtain ⟨raw, hraw⟩ := encodeUDPRecord_valid hP h
    refine ⟨raw, hraw, decode_encode hraw hP hback, ?_⟩
    cases htarget : record.hasTarget with
    | false => rw [normalRecord_noTarget htarget, normalRecord_noTarget htarget]
    | true =>
      obtain ⟨-, bytes, hbytes, -⟩ := encodeUDPRecord_ok hraw
      obtain ⟨e, he, -, -⟩ := encodeRecordTarget_some htarget hbytes
      obtain ⟨n, a, hn⟩ := encodeTarget_normal he
      have hagain := normalizeTarget_again hP (normalizeTarget_ok hn) fun ha => hback htarget n (ha ▸ hn)
      have hnormal : ({ record with target := n } : UDPRecord).hasTarget = true := htarget
      rw [normalRecord_target htarget hn]
      exact normalRecord_target hnormal hagain

end

/-- **The codec laws.** Accepted bytes are the encoding of what they stand for; the way back needs that no target is a name which
turns into an address without its dot. -/
theorem codec_laws (hP : P.Lawful) (hB : BytesReadBack P) :
    (∀ target raw, encodeTarget P target = .ok raw →
      ((∃ n a, normalizeTarget P target = .ok (n, a) ∧ decodeTarget P raw = .ok n ∧ ∃ a', normalizeTarget P n = .ok (n, a')) ↔
        TargetReadsBack P target)) ∧
    (∀ raw target, decodeTarget P raw = .ok target → encodeTarget P target = .ok raw) ∧
    (∀ record, validateUDPRecord P record = true →
      ((∃ raw, encodeUDPRecord P record = some raw ∧ decodeUDPRecord P raw = some (normalRecord P record) ∧
        normalRecord P (normalRecord P record) = normalRecord P record) ↔
        (record.hasTarget = true → TargetReadsBack P record.target))) ∧
    ∀ raw record, decodeUDPRecord P raw = some record → encodeUDPRecord P record = some raw :=
  ⟨fun _ _ h => target_iff hP hB h, fun _ _ h => encodeTarget_decodeTarget hP hB h, fun _ h => record_iff hP hB h,
    fun _ _ h => encode_decode hP hB h⟩

theorem ascii_bytesReadBack : BytesReadBack asciiPlatform := by
  intro bytes address hlen hparse
  have hbound : ∀ octet ∈ bytes.map UInt8.toNat, octet ≤ 255 := by
    intro octet hmem
    obtain ⟨b, -, rfl⟩ := mem_map.1 hmem
    exact Nat.le_of_lt_succ b.toNat_lt
  have hne : bytes.map UInt8.toNat ≠ [] := by
    rintro hnil
    rw [map_eq_nil_iff.1 hnil] at hlen
    simp at hlen
  change parseIPv4 (asciiPlatform.addrString (bytes.map UInt8.toNat)) = some address at hparse
  have hfour : bytes.length = 4 := by
    unfold parseIPv4 at hparse
    rw [splitOn_addrString hne hbound] at hparse
    simpa using (Option.ite_none_right_eq_some.1 hparse).1.1
  rw [parseIPv4_string (by rw [length_map, hfour]) hbound] at hparse
  cases hparse
  refine ⟨?_, by rw [hfour]; rfl⟩
  change (bytes.map UInt8.toNat).map UInt8.ofNat = bytes
  simp [Function.comp_def]

/-- a byte string that is accepted, on a platform that meets the assumptions -/
theorem codec_laws_example : BytesReadBack asciiPlatform ∧
    encodeTarget asciiPlatform ⟨ascii "1.2.3.4", 80⟩ = .ok [1, 0x24, 1, 2, 3, 4, 0, 80] :=
  ⟨ascii_bytesReadBack, (codec_laws asciiPlatform_lawful ascii_bytesReadBack).2.1 _ _ (by decide)⟩

/-- the name is written as the domain `1.2.3.4`, and the decoder takes this for an address -/
theorem dotted_address_lost : ¬∀ target raw, encodeTarget asciiPlatform target = .ok raw →
    ∃ n a, normalizeTarget asciiPlatform target = .ok (n, a) ∧ decodeTarget asciiPlatform raw = .ok n := by
  intro h
  obtain ⟨n, a, -, hdecode⟩ := h ⟨ascii "1.2.3.4.", 80⟩ _ rfl
  have hnone : (decodeTarget asciiPlatform (1 :: 0x11 :: 7 :: (ascii "1.2.3.4" ++ [0, 80]))).toOption = none := by decide
  cases hnone.symm.trans (congrArg Except.toOption hdecode)

end NeProto.Proxy
