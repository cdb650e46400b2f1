/-
Cells and their wire form (`internal/protocol/cell.go`): the type map a session derives from its seed, and the codec.

- the type map is a shuffle of the codes 1 to 12 by the bytes of an HMAC stream; `mac` gives the blocks of the stream and is
  arbitrary. Rejection sampling need not stop: `uniform` has fuel, and `none` says that it ran out.
- `CellKind.invalid` stands for every value that is not a kind.
- a varint that cannot be read is one error here; the source tells a short one from one that is not canonical.
- `shuffle_perm`: the codes are permuted. `TypeMap.Lawful`: what the map needs to be; `newTypeMap_lawful`: it is.
- `cell_codec`: the map is a bijection, and the codec inverts itself on both sides.
-/
import NeProto.Lib.Bytes
import NeProto.Lib.Varint

namespace NeProto.Protocol

open Function
open List hiding Vector

/-! ## Kinds -/

inductive CellKind where
  | invalid
  | opens
  | openOK
  | openFail
  | data
  | fin
  | reset
  | windowUpdate
  | dummy
  | profile
  | ping
  | pong
  | goAway
deriving DecidableEq

namespace CellKind

def valid (k : CellKind) : Bool := k != .invalid

def controlOnly : CellKind → Bool
  | .dummy | .profile | .ping | .pong | .goAway => true
  | _ => false

/-- the valid kinds in the order of their numbers -/
def all : List CellKind :=
  [.opens, .openOK, .openFail, .data, .fin, .reset, .windowUpdate, .dummy, .profile, .ping, .pong, .goAway]

theorem mem_all {k : CellKind} : k ∈ all ↔ k.valid = true := by
  cases k <;> decide

end CellKind

inductive CellErr where
  | cellTooLarge
  | invalidCell
  | invalidTypeMap
  | varint
  | unknownCellType

/-! ## The type map -/

abbrev Seed := Vector UInt8 32

structure MapRandom where
  counter : ℕ
  block : Vector UInt8 32
  offset : ℕ

def newMapRandom : MapRandom := ⟨0, Vector.replicate 32 0, 32⟩

section

variable (mac : ℕ → Vector UInt8 32)

/-- a new block when fewer than eight bytes are left -/
def MapRandom.refill (r : MapRandom) : MapRandom :=
  if 32 < r.offset + 8 then ⟨(r.counter + 1) % 2 ^ 64, mac r.counter, 0⟩ else r

def MapRandom.uint64 (r : MapRandom) : ℕ × MapRandom :=
  let r := r.refill mac
  (Bytes.uint ((r.block.toList.drop r.offset).take 8), { r with offset := r.offset + 8 })

def MapRandom.uniform (limit : ℕ) : ℕ → MapRandom → Option (ℕ × MapRandom)
  | 0, _ => none
  | fuel + 1, r =>
    let (candidate, r) := r.uint64 mac
    if candidate < maxUint64 - maxUint64 % limit then some (candidate % limit, r) else MapRandom.uniform limit fuel r

/-- the loop from `index` down to one -/
def shuffle (fuel : ℕ) : ℕ → Array UInt8 → MapRandom → Option (Array UInt8)
  | 0, codes, _ => some codes
  | index + 1, codes, r =>
    match r.uniform mac (index + 2) fuel with
    | none => none
    | some (other, r) => shuffle fuel index (codes.swapIfInBounds (index + 1) other) r

end

structure TypeMap where
  encode : CellKind → UInt8
  decode : UInt8 → CellKind

def TypeMap.empty : TypeMap := ⟨fun _ => 0, fun _ => .invalid⟩

def TypeMap.assign (m : TypeMap) (p : CellKind × UInt8) : TypeMap :=
  ⟨update m.encode p.1 p.2, update m.decode p.2 p.1⟩

/-- the codes 1 to 12 -/
def initialCodes : Array UInt8 := #[1, 2, 3, 4, 5, 6, 7, 8, 9, 10, 11, 12]

/-- `mac seed` are the blocks of the HMAC stream of the seed -/
def newTypeMap (mac : Seed → ℕ → Vector UInt8 32) (fuel : ℕ) (seed : Seed) : Option (Except CellErr TypeMap) :=
  if seed = Vector.replicate 32 0 then some (.error .invalidTypeMap)
  else (shuffle (mac seed) fuel 11 initialCodes newMapRandom).map fun codes =>
    .ok ((CellKind.all.zip codes.toList).foldl TypeMap.assign .empty)

namespace TypeMap

def encodeKind (m : TypeMap) (k : CellKind) : Except CellErr UInt8 :=
  if k.valid = false then .error .unknownCellType
  else if m.encode k = 0 then .error .unknownCellType
  else .ok (m.encode k)

def decodeKind (m : TypeMap) (wire : UInt8) : Except CellErr CellKind :=
  if (m.decode wire).valid = false then .error .unknownCellType else .ok (m.decode wire)

end TypeMap

/-! ## The codec -/

/-- `MaxCellSize` -/
def maxCellSize : ℕ := 65535

def maxCellPayloadSize : ℕ := 32768

def maxCellPaddingSize : ℕ := 16384

/-- `MaxStreamID` and `MaxSequence` -/
def maxNumber : ℕ := 2 ^ 62 - 1

structure Cell where
  kind : CellKind
  streamID : ℕ
  sequence : ℕ
  payload : Str
  padding : Str

def validateCell (c : Cell) : Except CellErr Unit :=
  if c.kind.valid = false then .error .unknownCellType
  else if maxCellPayloadSize < c.payload.length ∨ maxCellPaddingSize < c.padding.length then .error .cellTooLarge
  else if maxNumber < c.streamID ∨ maxNumber < c.sequence then .error .invalidCell
  else if c.kind.controlOnly = true ∧ c.streamID ≠ 0 then .error .invalidCell
  else if c.kind.controlOnly = false ∧ c.streamID = 0 then .error .invalidCell
  else .ok ()

/-- the bytes behind the wire type -/
def Cell.body (c : Cell) : Str :=
  appendUvarint c.streamID ++ (appendUvarint c.sequence ++ (appendUvarint c.payload.length ++
    (appendUvarint c.padding.length ++ (c.payload ++ c.padding))))

def encodeCell (m : TypeMap) (c : Cell) : Except CellErr Str :=
  match validateCell c with
  | .error err => .error err
  | .ok () =>
    match m.encodeKind c.kind with
    | .error err => .error err
    | .ok wire => if maxCellSize < (wire :: c.body).length then .error .cellTooLarge else .ok (wire :: c.body)

/-- the four numbers in front of the payload, and the bytes behind them -/
def readNumbers (raw : Str) : Option (ℕ × ℕ × ℕ × ℕ × Str) :=
  match readCanonicalUvarint raw with
  | none => none
  | some (streamID, raw) =>
    match readCanonicalUvarint raw with
    | none => none
    | some (sequence, raw) =>
      match readCanonicalUvarint raw with
      | none => none
      | some (payloadLength, raw) =>
        match readCanonicalUvarint raw with
        | none => none
        | some (paddingLength, raw) => some (streamID, sequence, payloadLength, paddingLength, raw)

/-- `DecodeCell` behind the wire type -/
def decodeBody (kind : CellKind) (raw : Str) : Except CellErr Cell :=
  match readNumbers raw with
  | none => .error .varint
  | some (streamID, sequence, payloadLength, paddingLength, rest) =>
    if maxCellPayloadSize < payloadLength ∨ maxCellPaddingSize < paddingLength then .error .cellTooLarge
    else if payloadLength + paddingLength ≠ rest.length then .error .invalidCell
    else
      let c : Cell := ⟨kind, streamID, sequence, rest.take payloadLength, rest.drop payloadLength⟩
      match validateCell c with
      | .error err => .error err
      | .ok () => .ok c

def decodeCell (m : TypeMap) (raw : Str) : Except CellErr Cell :=
  match raw with
  | [] => .error .invalidCell
  | wire :: body =>
    if maxCellSize < (wire :: body).length then .error .cellTooLarge
    else
      match m.decodeKind wire with
      | .error err => .error err
      | .ok kind => decodeBody kind body

/-! ## The shuffle -/

variable {c : Cell} {m : TypeMap} {raw : Str}

theorem swapIfInBounds_perm (codes : Array UInt8) (i j : ℕ) : (codes.swapIfInBounds i j).toList.Perm codes.toList := by
  unfold Array.swapIfInBounds
  split
  · split
    · exact (Array.swap_perm ..).toList
    · exact .refl _
  · exact .refl _

/-- **The codes are permuted**, whatever the stream. -/
theorem shuffle_perm {mac : ℕ → Vector UInt8 32} {fuel index : ℕ} {codes codes' : Array UInt8} {r : MapRandom}
    (h : shuffle mac fuel index codes r = some codes') : codes'.toList.Perm codes.toList := by
  induction index generalizing codes r with
  | zero =>
    cases h
    exact .refl _
  | succ index ih =>
    simp only [shuffle] at h
    split at h
    · cases h
    · exact (ih h).trans (swapIfInBounds_perm codes _ _)

open CellKind

/-! ## The map -/

/-- the map takes the valid kinds to non-zero bytes and back -/
structure TypeMap.Lawful (m : TypeMap) : Prop where
  wire : ∀ k, k.valid = true → m.encode k ≠ 0
  decode : ∀ k, k.valid = true → m.decode (m.encode k) = k
  encode : ∀ wire, (m.decode wire).valid = true → m.encode (m.decode wire) = wire

/-- **Assignments.** Pairs without a repeated kind or byte are what the map then says, and bytes of no pair keep their kind. -/
theorem foldl_assign {pairs : List (CellKind × UInt8)} (hkinds : (pairs.map Prod.fst).Nodup) (hwires : (pairs.map Prod.snd).Nodup)
    (m : TypeMap) :
    (∀ p ∈ pairs, (pairs.foldl TypeMap.assign m).encode p.1 = p.2 ∧ (pairs.foldl TypeMap.assign m).decode p.2 = p.1) ∧
      (∀ k, k ∉ pairs.map Prod.fst → (pairs.foldl TypeMap.assign m).encode k = m.encode k) ∧
      (∀ w, w ∉ pairs.map Prod.snd → (pairs.foldl TypeMap.assign m).decode w = m.decode w) := by
  induction pairs generalizing m with
  | nil => exact ⟨nofun, fun _ _ => rfl, fun _ _ => rfl⟩
  | cons p rest ih =>
    rw [map_cons, nodup_cons] at hkinds hwires
    obtain ⟨hpairs, hencode, hdecode⟩ := ih hkinds.2 hwires.2 (m.assign p)
    rw [foldl_cons]
    refine ⟨fun q hq => ?_, fun k hk => ?_, fun w hw => ?_⟩
    · rcases mem_cons.1 hq with rfl | hrest
      · rw [hencode _ hkinds.1, hdecode _ hwires.1]
        exact ⟨update_self .., update_self ..⟩
      · exact hpairs q hrest
    · rw [map_cons, mem_cons, not_or] at hk
      rw [hencode k hk.2]
      exact update_of_ne hk.1 _ _
    · rw [map_cons, mem_cons, not_or] at hw
      rw [hdecode w hw.2]
      exact update_of_ne hw.1 _ _

theorem newTypeMap_lawful {mac : Seed → ℕ → Vector UInt8 32} {fuel : ℕ} {seed : Seed} {result : Except CellErr TypeMap}
    (hseed : seed ≠ Vector.replicate 32 0) (h : newTypeMap mac fuel seed = some result) :
    ∃ m : TypeMap, result = .ok m ∧ m.Lawful := by
  rw [newTypeMap, if_neg hseed] at h
  obtain ⟨codes, hcodes, rfl⟩ := Option.map_eq_some_iff.1 h
  refine ⟨_, rfl, ?_⟩
  have hperm := shuffle_perm hcodes
  have hlength : codes.toList.length = 12 := hperm.length_eq
  have hnodup : codes.toList.Nodup := hperm.nodup_iff.2 (by decide)
  have hnonzero : ∀ w ∈ codes.toList, w ≠ 0 := fun w hw => by
    have hmem := hperm.mem_iff.1 hw
    rintro rfl
    exact absurd hmem (by decide)
  have hsize : CellKind.all.length = codes.toList.length := hlength.symm
  have hfst : (CellKind.all.zip codes.toList).map Prod.fst = CellKind.all := map_fst_zip hsize.le
  have hsnd : (CellKind.all.zip codes.toList).map Prod.snd = codes.toList := map_snd_zip hsize.ge
  obtain ⟨hpairs, -, hrest⟩ := foldl_assign (by rw [hfst]; decide) (by rw [hsnd]; exact hnodup) TypeMap.empty
  -- every valid kind stands in a pair
  have hpair : ∀ k : CellKind, k.valid = true → ∃ w ∈ codes.toList, (k, w) ∈ all.zip codes.toList := fun k hk => by
    have hmem : k ∈ (all.zip codes.toList).map Prod.fst := by
      rw [hfst]
      exact mem_all.2 hk
    obtain ⟨⟨k', w⟩, hp, rfl⟩ := mem_map.1 hmem
    exact ⟨w, (of_mem_zip hp).2, hp⟩
  refine ⟨fun k hk => ?_, fun k hk => ?_, fun w hw => ?_⟩
  · obtain ⟨w, hw, hp⟩ := hpair k hk
    rw [(hpairs _ hp).1]
    exact hnonzero w hw
  · obtain ⟨w, -, hp⟩ := hpair k hk
    rw [(hpairs _ hp).1, (hpairs _ hp).2]
  · by_cases hmem : w ∈ (all.zip codes.toList).map Prod.snd
    · obtain ⟨⟨k, w'⟩, hp, rfl⟩ := mem_map.1 hmem
      rw [(hpairs _ hp).2, (hpairs _ hp).1]
    · rw [hrest w hmem] at hw
      cases hw

namespace TypeMap.Lawful

variable {m : TypeMap}

variable {k : CellKind}

theorem encodeKind (h : m.Lawful) (hk : k.valid = true) : m.encodeKind k = .ok (m.encode k) := by
  rw [TypeMap.encodeKind, if_neg (by simp [hk]), if_neg (h.wire k hk)]

theorem decodeKind (h : m.Lawful) (hk : k.valid = true) : m.decodeKind (m.encode k) = .ok k := by
  rw [TypeMap.decodeKind, h.decode k hk, if_neg (by simp [hk])]

theorem decodeKind_ok (h : m.Lawful) {wire : UInt8} (hw : m.decodeKind wire = .ok k) :
    k.valid = true ∧ m.encode k = wire := by
  rw [TypeMap.decodeKind] at hw
  split at hw
  · cases hw
  rename_i hvalid
  obtain rfl := Except.ok.inj hw
  have hv : (m.decode wire).valid = true := by simpa using hvalid
  exact ⟨hv, h.encode wire hv⟩

end TypeMap.Lawful

/-! ## The round trips -/

/-- what `validateCell` accepts -/
structure Cell.Ok (c : Cell) : Prop where
  kind : c.kind.valid = true
  payload : c.payload.length ≤ maxCellPayloadSize
  padding : c.padding.length ≤ maxCellPaddingSize
  streamID : c.streamID ≤ maxNumber
  sequence : c.sequence ≤ maxNumber

theorem validateCell_ok (h : validateCell c = .ok ()) : c.Ok := by
  simp only [validateCell] at h
  split at h
  · cases h
  rename_i hkind
  split at h
  · cases h
  split at h
  · cases h
  next hnumbers => exact ⟨by simpa using hkind, by omega, by omega, by omega, by omega⟩

/-- the sizes `validateCell` allows leave room for the type and four varints -/
theorem Cell.Ok.fits (h : c.Ok) (wire : UInt8) : (wire :: c.body).length ≤ maxCellSize := by
  have hvarint : ∀ v, (appendUvarint v).length ≤ 10 := uvarintFuel_length_le 10
  have hstream := hvarint c.streamID
  have hsequence := hvarint c.sequence
  have hpayload := hvarint c.payload.length
  have hpadding := hvarint c.padding.length
  have hsizes := h.payload
  have hpads := h.padding
  simp only [Cell.body, length_cons, length_append, maxCellSize, maxCellPayloadSize, maxCellPaddingSize] at *
  omega

theorem encodeCell_ok (hm : m.Lawful) (h : validateCell c = .ok ()) : encodeCell m c = .ok (m.encode c.kind :: c.body) := by
  have hok := validateCell_ok h
  have hfits := hok.fits (m.encode c.kind)
  simp only [encodeCell, h, hm.encodeKind hok.kind]
  rw [if_neg (by omega)]

theorem readNumbers_body (h : c.Ok) :
    readNumbers c.body = some (c.streamID, c.sequence, c.payload.length, c.padding.length, c.payload ++ c.padding) := by
  have hpayload := h.payload
  have hpadding := h.padding
  have hstream := h.streamID
  have hsequence := h.sequence
  simp only [maxNumber, maxCellPayloadSize, maxCellPaddingSize] at *
  have small : ∀ v, v ≤ 2 ^ 62 - 1 → v < 2 ^ 63 := by omega
  simp only [readNumbers, Cell.body]
  rw [readCanonicalUvarint_append (small _ hstream)]
  simp only
  rw [readCanonicalUvarint_append (small _ hsequence)]
  simp only
  rw [readCanonicalUvarint_append (by omega)]
  simp only
  rw [readCanonicalUvarint_append (by omega)]

theorem readNumbers_split {rest : Str} {streamID sequence payloadLength paddingLength : ℕ}
    (h : readNumbers raw = some (streamID, sequence, payloadLength, paddingLength, rest)) :
    raw = appendUvarint streamID ++ (appendUvarint sequence ++ (appendUvarint payloadLength ++
      (appendUvarint paddingLength ++ rest))) := by
  simp only [readNumbers] at h
  split at h
  · cases h
  rename_i hfirst
  split at h
  · cases h
  rename_i hsecond
  split at h
  · cases h
  rename_i hthird
  split at h
  · cases h
  rename_i hfourth
  obtain ⟨rfl, rfl, rfl, rfl, rfl⟩ := h
  rw [readCanonicalUvarint_split hfirst, readCanonicalUvarint_split hsecond, readCanonicalUvarint_split hthird,
    readCanonicalUvarint_split hfourth]

theorem decodeBody_body (h : validateCell c = .ok ()) : decodeBody c.kind c.body = .ok c := by
  have hok := validateCell_ok h
  have hpayload := hok.payload
  have hpadding := hok.padding
  simp only [decodeBody, readNumbers_body hok]
  rw [if_neg (by omega), if_neg (by simp), take_left, drop_left]
  simp only [h]

/-- what `decodeBody` accepts is the body of what it returns -/
theorem decodeBody_ok {kind : CellKind} (h : decodeBody kind raw = .ok c) :
    c.kind = kind ∧ validateCell c = .ok () ∧ c.body = raw := by
  simp only [decodeBody] at h
  split at h
  · cases h
  rename_i streamID sequence payloadLength paddingLength rest hread
  split at h
  · cases h
  split at h
  · cases h
  split at h
  · cases h
  rename_i hvalid
  obtain rfl := Except.ok.inj h
  refine ⟨rfl, hvalid, ?_⟩
  have htake : (rest.take payloadLength).length = payloadLength := by
    rw [length_take]
    omega
  have hdrop : (rest.drop payloadLength).length = paddingLength := by
    rw [length_drop]
    omega
  rw [readNumbers_split hread, Cell.body]
  simp only [htake, hdrop, take_append_drop]

theorem decodeCell_encoded (hm : m.Lawful) (h : validateCell c = .ok ()) :
    decodeCell m (m.encode c.kind :: c.body) = .ok c := by
  have hok := validateCell_ok h
  have hfits := hok.fits (m.encode c.kind)
  simp only [decodeCell]
  rw [if_neg (by omega), hm.decodeKind hok.kind]
  exact decodeBody_body h

theorem encodeCell_decoded (hm : m.Lawful) (h : decodeCell m raw = .ok c) : encodeCell m c = .ok raw := by
  cases raw with
  | nil => cases h
  | cons wire body =>
    simp only [decodeCell] at h
    split at h
    · cases h
    split at h
    · cases h
    rename_i kind hkind
    obtain ⟨rfl, hvalid, rfl⟩ := decodeBody_ok h
    rw [encodeCell_ok hm hvalid, (hm.decodeKind_ok hkind).2]

/-- **Cell codec.** For every non-zero seed and every HMAC stream on which rejection sampling stops, the type map is a bijection
between the valid kinds and non-zero bytes; every valid cell is encoded and decoded to itself, and every byte string that is
decoded is what its cell is encoded to. -/
theorem cell_codec (mac : Seed → ℕ → Vector UInt8 32) (fuel : ℕ) (seed : Seed) (hseed : seed ≠ Vector.replicate 32 0)
    (result : Except CellErr TypeMap) (hstops : newTypeMap mac fuel seed = some result) :
    ∃ m : TypeMap, result = .ok m ∧
      (∀ k : CellKind, k.valid = true → ∃ wire, wire ≠ 0 ∧ m.encodeKind k = .ok wire ∧ m.decodeKind wire = .ok k) ∧
      (∀ wire k, m.decodeKind wire = .ok k → k.valid = true ∧ m.encodeKind k = .ok wire) ∧
      (∀ c, validateCell c = .ok () → ∃ raw, encodeCell m c = .ok raw ∧ decodeCell m raw = .ok c) ∧
      ∀ raw c, decodeCell m raw = .ok c → encodeCell m c = .ok raw := by
  obtain ⟨m, hresult, hm⟩ := newTypeMap_lawful hseed hstops
  refine ⟨m, hresult, fun k hk => ?_, fun wire k hw => ?_, fun c hc => ?_, fun raw c hc => encodeCell_decoded hm hc⟩
  · exact ⟨m.encode k, hm.wire k hk, hm.encodeKind hk, hm.decodeKind hk⟩
  · obtain ⟨hvalid, rfl⟩ := hm.decodeKind_ok hw
    exact ⟨hvalid, hm.encodeKind hvalid⟩
  · exact ⟨_, encodeCell_ok hm hc, decodeCell_encoded hm hc⟩

/-- a stream of zero blocks swaps every code with the first -/
theorem cell_codec_zero_stream :
    ∃ m : TypeMap, newTypeMap (fun _ _ => Vector.replicate 32 0) 1 (Vector.replicate 32 1) = some (.ok m) ∧
      ∀ raw c, decodeCell m raw = .ok c → encodeCell m c = .ok raw := by
  have hstops : (newTypeMap (fun _ _ => Vector.replicate 32 0) 1 (Vector.replicate 32 1)).isSome = true := by decide +kernel
  obtain ⟨result, hresult⟩ := Option.isSome_iff_exists.1 hstops
  obtain ⟨m, rfl, -, -, -, hback⟩ :=
    cell_codec (fun _ _ => Vector.replicate 32 0) 1 (Vector.replicate 32 1) (by decide +kernel) result hresult
  exact ⟨m, hresult, hback⟩

end NeProto.Protocol
