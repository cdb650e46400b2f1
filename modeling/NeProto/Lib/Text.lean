/-
Go strings, and what the standard library does with them and with addresses.

A Go string is its bytes (`Str`). `Platform` stands for what the sources take from `net/netip`, `net` and `strings`; nothing is
assumed about it, `Platform.Lawful` says what the results about names use. `asciiPlatform` is an instance that runs: IPv4 addresses
and ASCII text.

- `index`: `bytes.Index`, with the rule that bytes added behind a match do not move it (`index_append`).
- `mem_splitOn`: the bytes of the parts of a string are those of the string.
- `cut`, `split`: `strings.Cut` and `strings.Split` for a separator of any length.
-/
import Mathlib.Data.List.ReduceOption
import Mathlib.Tactic

namespace NeProto

open List

/-! ## Strings -/

/-- a Go string -/
abbrev Str := List UInt8

instance decidableMemStr (s : Str) (l : List Str) : Decidable (s ∈ l) := List.instDecidableMemOfLawfulBEq s l

def ascii (s : String) : Str := s.toList.map fun c => c.toNat.toUInt8

def isLower (b : UInt8) : Bool := decide (97 ≤ b ∧ b ≤ 122)

def isUpper (b : UInt8) : Bool := decide (65 ≤ b ∧ b ≤ 90)

def isDigit (b : UInt8) : Bool := decide (48 ≤ b ∧ b ≤ 57)

def hyphen : UInt8 := 45

def underscore : UInt8 := 95

def dot : UInt8 := 46

def colon : UInt8 := 58

/-- `bytes.Index`, none for -1 -/
def index (sep : Str) : Str → Option ℕ
  | [] => if sep = [] then some 0 else none
  | b :: s => if sep.isPrefixOf (b :: s) then some 0 else (index sep s).map (· + 1)

/-- `strings.Cut` -/
def cut (sep s : Str) : Option (Str × Str) := (index sep s).map fun i => (s.take i, s.drop (i + sep.length))

/-- the parts of `s` around `sep`, at most `fuel` cuts -/
def splitFuel (sep : Str) : ℕ → Str → List Str
  | 0, s => [s]
  | fuel + 1, s =>
    match cut sep s with
    | none => [s]
    | some (part, rest) => part :: splitFuel sep fuel rest

/-- `strings.Split`, for a separator that is not empty -/
def split (sep s : Str) : List Str := splitFuel sep s.length s

/-- `strings.TrimSuffix` for a suffix of one byte -/
def trimSuffix (s : Str) (b : UInt8) : Str := if s.getLast? = some b then s.dropLast else s

variable {s : Str} {b : UInt8} {address : List ℕ}

/-- a match ends inside the string -/
theorem index_length {sep : Str} {i : ℕ} (h : index sep s = some i) : i + sep.length ≤ s.length := by
  induction s generalizing i with
  | nil =>
    rw [index] at h
    split at h
    · next hsep => simp_all
    · cases h
  | cons b s ih =>
    rw [index] at h
    split at h
    · next hpre =>
      cases h
      have hle := ( isPrefixOf_iff_prefix.mp hpre).length_le
      omega
    · obtain ⟨j, hj, rfl⟩ := Option.map_eq_some_iff.mp h
      have hle := ih hj
      rw [length_cons]
      omega

/-- bytes added behind a match do not move it -/
theorem index_append {sep : Str} {i : ℕ} (hsep : sep ≠ []) (h : index sep s = some i) (more : Str) :
    index sep (s ++ more) = some i := by
  induction s generalizing i with
  | nil =>
    rw [index, if_neg hsep] at h
    cases h
  | cons b s ih =>
    rw [index] at h
    rw [cons_append, index]
    split at h
    · next hpre =>
      have hlong : sep.isPrefixOf (b :: (s ++ more)) = true :=
        isPrefixOf_iff_prefix.mpr (( isPrefixOf_iff_prefix.mp hpre).trans (prefix_append (b :: s) more))
      rw [if_pos hlong]
      exact h
    · next hpre =>
      obtain ⟨j, hj, rfl⟩ := Option.map_eq_some_iff.mp h
      have hend := index_length hj
      -- a match at the front of the longer string would already be one of the shorter string, which is long enough
      have hshort : ¬sep.isPrefixOf (b :: (s ++ more)) = true := by
        intro hlong
        apply hpre
        rw [ isPrefixOf_iff_prefix] at hlong ⊢
        exact prefix_of_prefix_length_le hlong (prefix_append (b :: s) more) (by rw [length_cons]; omega)
      rw [if_neg hshort, ih hj, Option.map_some]

/-- the bytes between separators are those of the string -/
theorem mem_intercalate {sep : UInt8} (h : b ≠ sep) (parts : List Str) :
    b ∈ [sep].intercalate parts ↔ ∃ part ∈ parts, b ∈ part := by
  induction parts with
  | nil => simp [intercalate]
  | cons part parts ih =>
    cases parts with
    | nil => simp [intercalate]
    | cons next parts =>
      rw [intercalate_cons_cons, mem_append, mem_append, ih]
      simp [h]

theorem mem_splitOn {sep : UInt8} (h : b ≠ sep) (s : Str) : b ∈ s ↔ ∃ part ∈ s.splitOn sep, b ∈ part := by
  rw [← mem_intercalate h, intercalate_splitOn]

/-! ## The standard library -/

/-- what the standard library does -/
structure Platform (Addr : Type) where
  /-- `netip.ParseAddr` -/
  parseAddr : Str → Option Addr
  isValid : Addr → Bool
  isUnspecified : Addr → Bool
  isGlobalUnicast : Addr → Bool
  unmap : Addr → Addr
  /-- `Addr.String` -/
  addrString : Addr → Str
  zone : Addr → Str
  is4 : Addr → Bool
  /-- `As4` of an IPv4 address, `As16` of another one -/
  asSlice : Addr → Str
  /-- `AddrFrom4` of four bytes, `AddrFrom16` of sixteen -/
  addrFrom : Str → Addr
  /-- `netip.ParsePrefix`, as `String` and `Contains` of what it returns -/
  parsePrefix : Str → Option (Str × (Addr → Bool))
  /-- `net.SplitHostPort` -/
  splitHostPort : Str → Option (Str × Str)
  /-- `strings.ToLower` -/
  toLower : Str → Str
  /-- `strings.ToUpper` -/
  toUpper : Str → Str
  /-- `strings.TrimSpace` -/
  trimSpace : Str → Str
  /-- `strings.Fields` -/
  fields : Str → List Str
  /-- `strings.EqualFold` -/
  equalFold : Str → Str → Bool
  /-- `utf8.ValidString` -/
  validUTF8 : Str → Bool

/-- `net.ParseIP` is not nil: an address without a zone -/
def Platform.parseIP {Addr : Type} (P : Platform Addr) (s : Str) : Bool :=
  match P.parseAddr s with
  | some address => decide (P.zone address = [])
  | none => false

def percent : UInt8 := 37

/-- what `strings` and `net/netip` promise: lower-case ASCII is left alone, a zone stands behind a percent sign, an underscore is in no
address without one, and an address reads back from its text and from its bytes -/
structure Platform.Lawful {Addr : Type} (P : Platform Addr) : Prop where
  toLower_lower : ∀ s : Str, (∀ b ∈ s, b < 128 ∧ isUpper b = false) → P.toLower s = s
  zone_percent : ∀ s address, P.parseAddr s = some address → percent ∉ s → P.zone address = []
  no_underscore : ∀ s address, P.parseAddr s = some address → percent ∉ s → underscore ∉ s
  parse_string : ∀ address, P.isValid address = true → P.parseAddr (P.addrString address) = some address
  parse_valid : ∀ s address, P.parseAddr s = some address → P.isValid address = true
  unmap_valid : ∀ address, P.isValid address = true → P.isValid (P.unmap address) = true
  unmap_unmap : ∀ address, P.unmap (P.unmap address) = P.unmap address
  unmap_zone : ∀ address, P.zone address = [] → P.zone (P.unmap address) = []
  slice_length : ∀ address, P.isValid address = true → (P.asSlice address).length = if P.is4 address then 4 else 16
  from_slice : ∀ address, P.isValid address = true → P.zone address = [] → P.addrFrom (P.asSlice address) = address

/-! ## A platform with IPv4 and ASCII -/

/-- a decimal octet without leading zeros -/
def parseOctet (s : Str) : Option ℕ :=
  let value := s.foldl (fun v b => v * 10 + (b.toNat - 48)) 0
  if s ≠ [] ∧ s.length ≤ 3 ∧ s.all isDigit ∧ (s.head? = some 48 → s.length = 1) ∧ value ≤ 255 then some value else none

def parseIPv4 (s : Str) : Option (List ℕ) :=
  let octets := (s.splitOn dot).map parseOctet
  if octets.length = 4 ∧ octets.all Option.isSome then some (octets.filterMap id) else none

/-- an octet in decimal -/
def octetString (octet : ℕ) : Str :=
  let digit := fun n => UInt8.ofNat (48 + n % 10)
  if octet < 10 then [digit octet]
  else if octet < 100 then [digit (octet / 10), digit octet]
  else [digit (octet / 100), digit (octet / 10), digit octet]

def isSpace (b : UInt8) : Bool := b == 32 || decide (9 ≤ b ∧ b ≤ 13)

def lowerByte (b : UInt8) : UInt8 := if isUpper b then b + 32 else b

def asciiPlatform : Platform (List ℕ) where
  parseAddr := parseIPv4
  isValid := fun address => decide (address.length = 4) && address.all (· ≤ 255)
  isUnspecified := fun address => decide (address = [0, 0, 0, 0])
  isGlobalUnicast := fun address => match address with
    | [a, b, c, d] =>
      decide ([a, b, c, d] ≠ [0, 0, 0, 0] ∧ [a, b, c, d] ≠ [255, 255, 255, 255] ∧ a ≠ 127 ∧
        ¬(224 ≤ a ∧ a ≤ 239) ∧ ¬(a = 169 ∧ b = 254))
    | _ => false
  unmap := id
  addrString := fun address => ((address.map octetString).intersperse [dot]).flatten
  zone := fun _ => []
  is4 := fun _ => true
  asSlice := List.map UInt8.ofNat
  addrFrom := List.map UInt8.toNat
  parsePrefix := fun _ => none
  splitHostPort := fun s => match s.splitOn colon with
    | [host, port] => some (host, port)
    | _ => none
  toLower := List.map lowerByte
  toUpper := List.map fun b => if isLower b then b - 32 else b
  trimSpace := fun s => ((s.dropWhile isSpace).reverse.dropWhile isSpace).reverse
  fields := fun s => (s.splitOnP isSpace).filter (· ≠ [])
  equalFold := fun s t => decide (s.map lowerByte = t.map lowerByte)
  validUTF8 := fun s => s.all (· < 128)

theorem parseIPv4_bytes (h : parseIPv4 s = some address) (hb : b ∈ s) : b = dot ∨ isDigit b = true := by
  by_cases hdot : b = dot
  · exact .inl hdot
  obtain ⟨part, hpart, hmem⟩ := (mem_splitOn hdot s).mp hb
  unfold parseIPv4 at h
  simp only [Option.ite_none_right_eq_some, all_map, all_eq_true] at h
  have hoctet := h.1.2 part hpart
  simp only [Function.comp_apply, parseOctet, Option.isSome_ite] at hoctet
  exact .inr (all_eq_true.mp hoctet.2.2.1 b hmem)

theorem parseIPv4_valid (h : parseIPv4 s = some address) : asciiPlatform.isValid address = true := by
  unfold parseIPv4 at h
  simp only [Option.ite_none_right_eq_some, Option.some.injEq] at h
  obtain ⟨⟨hlen, hall⟩, rfl⟩ := h
  have hlength : (((s.splitOn dot).map parseOctet).filterMap id).length = 4 :=
    ((reduceOption_length_eq_iff (l := (s.splitOn dot).map parseOctet)).mpr (all_eq_true.mp hall)).trans hlen
  refine Bool.and_eq_true_iff.mpr ⟨decide_eq_true hlength, all_eq_true.mpr fun octet hmem => decide_eq_true ?_⟩
  obtain ⟨_, hpart, rfl⟩ := mem_filterMap.mp hmem
  obtain ⟨part, -, hparse⟩ := mem_map.mp hpart
  unfold parseOctet at hparse
  simp only [Option.ite_none_right_eq_some, Option.some.injEq] at hparse
  omega

theorem parseOctet_string : ∀ octet : Fin 256, parseOctet (octetString octet) = some octet.val ∧ dot ∉ octetString octet := by
  decide +kernel

theorem splitOn_addrString (hne : address ≠ []) (hbound : ∀ octet ∈ address, octet ≤ 255) :
    (asciiPlatform.addrString address).splitOn dot = address.map octetString := by
  refine splitOn_intercalate dot ?_ fun hnil => hne (map_eq_nil_iff.mp hnil)
  intro part hpart
  obtain ⟨octet, hmem, rfl⟩ := mem_map.mp hpart
  exact (parseOctet_string ⟨octet, Nat.lt_succ_of_le (hbound octet hmem)⟩).2

theorem parseIPv4_string (hlen : address.length = 4) (hbound : ∀ octet ∈ address, octet ≤ 255) :
    parseIPv4 (asciiPlatform.addrString address) = some address := by
  have hne : address ≠ [] := by
    rintro rfl
    cases hlen
  have hread : (address.map octetString).map parseOctet = address.map some := by
    rw [map_map]
    exact map_congr_left fun octet h => (parseOctet_string ⟨octet, Nat.lt_succ_of_le (hbound octet h)⟩).1
  unfold parseIPv4
  rw [splitOn_addrString hne hbound, hread]
  simp [hlen, filterMap_map]

theorem asciiPlatform_lawful : asciiPlatform.Lawful where
  toLower_lower := by
    intro s h
    have hbyte : ∀ b ∈ s, lowerByte b = b := fun b hb => by rw [lowerByte, (h b hb).2]; rfl
    exact (map_congr_left hbyte).trans (map_id s)
  zone_percent := fun _ _ _ _ => rfl
  no_underscore := by
    intro s address h _ hmem
    have hbyte := parseIPv4_bytes h hmem
    exact absurd hbyte (by decide)
  parse_string := by
    intro address h
    obtain ⟨hlen, hbound⟩ := Bool.and_eq_true_iff.mp h
    exact parseIPv4_string (of_decide_eq_true hlen) fun octet hmem => of_decide_eq_true (all_eq_true.mp hbound octet hmem)
  parse_valid := fun _ _ h => parseIPv4_valid h
  unmap_valid := fun _ h => h
  unmap_unmap := fun _ => rfl
  unmap_zone := fun _ h => h
  slice_length := by
    intro address h
    obtain ⟨hlen, -⟩ := Bool.and_eq_true_iff.mp h
    exact (length_map _).trans (of_decide_eq_true hlen)
  from_slice := by
    intro address h _
    obtain ⟨-, hbound⟩ := Bool.and_eq_true_iff.mp h
    have hoctet : ∀ octet ∈ address, (UInt8.ofNat octet).toNat = octet := by
      intro octet hmem
      have hle : octet ≤ 255 := of_decide_eq_true (all_eq_true.mp hbound octet hmem)
      rw [UInt8.toNat_ofNat']
      omega
    change (address.map UInt8.ofNat).map UInt8.toNat = address
    rw [map_map]
    exact (map_congr_left hoctet).trans (map_id address)

end NeProto
