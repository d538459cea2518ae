/-
Names and Interests: what the messages need of the NDN library, and
`BuildName` (`ndn/ndnsuit/utils.go`).

The library is a parameter, with the laws that the messages rest on: a path
of plain tokens is parsed into generic components, one for each; the digest
of the parameters becomes a component of its own type at the end of a name
that has none; a TLV element, whose type is not zero, is read as it was written.
-/
import NdnGeth.Lib.Decimal
import NdnGeth.Kad.Common
import NdnGeth.Ndnsuit.Tlv

namespace NdnGeth.Ndn

open Lib.Rlp (Bytes toBytesN)
open Kad (Name NameComponent)

def ttGenericNameComponent : UInt32 := 8
def ttParametersSha256DigestComponent : UInt32 := 2

/-- The component that plain text is parsed into. -/
def generic (value : Bytes) : NameComponent := ⟨ttGenericNameComponent, value⟩

def alphanumeric (c : UInt8) : Bool :=
  (97 ≤ c.toNat && c.toNat ≤ 122) || (65 ≤ c.toNat && c.toNat ≤ 90) || (48 ≤ c.toNat && c.toNat ≤ 57)

/-- Text that stands for itself in a path. -/
structure Plain (t : Bytes) : Prop where
  ne_nil : t ≠ []
  alphanumeric : ∀ c ∈ t, alphanumeric c = true

/-- The tokens, each after a slash. -/
def path (tokens : List Bytes) : Bytes := tokens.flatMap (47 :: ·)

structure Interest where
  name : Name
  appParameters : Bytes
  /-- The delegations, each with its preference. -/
  forwardingHint : List (Nat × Name)
  deriving DecidableEq, Repr

/-- The functions of the library that the messages use. -/
structure Library where
  parseName : Bytes → Name
  updateParamsDigest : Interest → Interest
  tlvEncode : BitVec 32 → Bytes → Bytes
  tlvDecode : Bytes → Option (BitVec 32 × Bytes)
  parseName_path : ∀ tokens, (∀ t ∈ tokens, Plain t) → parseName (path tokens) = tokens.map generic
  updateParamsDigest_eq : ∀ i, (∀ c ∈ i.name, c.typ ≠ ttParametersSha256DigestComponent) →
    ∃ digest, updateParamsDigest i = { i with name := i.name ++ [⟨ttParametersSha256DigestComponent, digest⟩] }
  tlvDecode_tlvEncode : ∀ typ value, typ ≠ 0 → value.length < 2 ^ 64 → tlvDecode (tlvEncode typ value) = some (typ, value)
  tlvEncode_ne_nil : ∀ typ value, tlvEncode typ value ≠ []

def buildName (names : List Name) : Name := names.flatten

theorem Plain.format (n : Nat) : Plain (Lib.Decimal.format n) where
  ne_nil := Lib.Decimal.format_ne_nil n
  alphanumeric c hc := by
    have := Lib.Decimal.mem_format hc
    simp [Ndn.alphanumeric, this]

/-! ## A library with these laws -/

/-- The non-empty tokens between slashes. -/
def tokens (text : Bytes) : List Bytes := (text.splitOn 47).filter (· ≠ [])

theorem Plain.slash_notMem {t : Bytes} (h : Plain t) : (47 : UInt8) ∉ t :=
  fun hm => absurd (h.alphanumeric _ hm) (by decide)

theorem path_eq_intercalate : ∀ ts : List Bytes, path ts = [(47 : UInt8)].intercalate ([] :: ts)
  | [] => rfl
  | [t] => by simp [path, List.intercalate]
  | t :: t' :: ts => by
    have := path_eq_intercalate (t' :: ts)
    simp only [path, List.intercalate, List.flatMap_cons, List.intersperse_cons_cons, List.flatten_cons, List.nil_append] at this ⊢
    rw [this]
    simp

theorem tokens_path {ts : List Bytes} (h : ∀ t ∈ ts, Plain t) : tokens (path ts) = ts := by
  unfold tokens
  rw [path_eq_intercalate, List.splitOn_intercalate _ (fun t ht => ?_) (List.cons_ne_nil _ _)]
  · simp only [List.filter_cons, ne_eq, not_true, decide_false, Bool.false_eq_true, if_false]
    exact List.filter_eq_self.2 fun t ht => decide_eq_true (h t ht).ne_nil
  · rcases List.mem_cons.1 ht with rfl | ht
    · exact List.not_mem_nil
    · exact (h t ht).slash_notMem

/-- A number in the shortest of its forms. -/
def toVarNum (n : Nat) : Bytes :=
  if n < 0xFD then [UInt8.ofNat n]
  else if n < 2 ^ 16 then 0xFD :: toBytesN 2 n
  else if n < 2 ^ 32 then 0xFE :: toBytesN 4 n
  else 0xFF :: toBytesN 8 n

def element (typ : Nat) (value : Bytes) : Bytes := toVarNum typ ++ (toVarNum value.length ++ value)

/-- The wire as one element. -/
def readElement (wire : Bytes) : Option (BitVec 32 × Bytes) :=
  let rest := wire.drop (varNumSize (wire.headD 0))
  let value := rest.drop (varNumSize (rest.headD 0))
  if 0 < readVarNum wire ∧ readVarNum wire < 2 ^ 32 ∧ readVarNum rest = value.length then
    some (.ofNat 32 (readVarNum wire), value)
  else none

theorem varNum_toVarNum {n : Nat} (h : n < 2 ^ 64) : VarNum (toVarNum n) n := by
  have hmore : ∀ {b : UInt8} {k : Nat}, varNumSize b = k + 1 → k ≠ 0 → n < 256 ^ k → VarNum (b :: toBytesN k n) n := by
    intro b k hb hk hn
    have : VarNum (b :: toBytesN k n) _ := .more (by omega) (by rw [Lib.Rlp.length_toBytesN hn]; omega)
    rwa [Lib.Rlp.ofBytes_toBytesN] at this
  unfold toVarNum
  split
  · next hlt =>
    have hto : (UInt8.ofNat n).toNat = n := UInt8.toNat_ofNat_of_lt' (Nat.lt_trans hlt (by decide))
    have hsize : varNumSize (UInt8.ofNat n) = 1 := by
      have hne : ∀ k : UInt8, 0xFD ≤ k.toNat → UInt8.ofNat n ≠ k := fun k hk heq => by
        rw [← heq, hto] at hk
        omega
      unfold varNumSize
      rw [if_neg (hne _ (by decide)), if_neg (hne _ (by decide)), if_neg (hne _ (by decide))]
    have := VarNum.one hsize
    rwa [hto] at this
  · split
    · exact hmore rfl (by decide) (by omega)
    · split
      · exact hmore rfl (by decide) (by omega)
      · exact hmore rfl (by decide) (by omega)

/-- The library as it writes: a path is split at its slashes; an element is its
type, its length and its value; the digest is that of the element of the
parameters, which replaces the one of a name that has one. -/
def Library.standard (sha256 : Bytes → Vector UInt8 32) : Library where
  parseName text := (tokens text).map generic
  updateParamsDigest i :=
    let c : NameComponent := ⟨ttParametersSha256DigestComponent, (sha256 (element 0x24 i.appParameters)).toList⟩
    if i.name.any (·.typ = c.typ) then { i with name := i.name.map fun x => if x.typ = c.typ then c else x }
    else { i with name := i.name ++ [c] }
  tlvEncode typ value := element typ.toNat value
  tlvDecode := readElement
  parseName_path ts h := by rw [tokens_path h]
  updateParamsDigest_eq i h := ⟨_, if_neg (by simpa using h)⟩
  tlvDecode_tlvEncode typ value h0 hlen := by
    have htyp := varNum_toVarNum (Nat.lt_trans typ.isLt (by decide))
    have hlen := varNum_toVarNum hlen
    have hpos : 0 < typ.toNat := Nat.pos_of_ne_zero fun h => h0 (BitVec.eq_of_toNat_eq h)
    simp only [element, readElement, htyp.read, htyp.drop, hlen.read, hlen.drop]
    rw [if_pos ⟨hpos, typ.isLt, trivial⟩, BitVec.ofNat_toNat, BitVec.setWidth_eq]
  tlvEncode_ne_nil typ value h := by
    exact (varNum_toVarNum (Nat.lt_trans typ.isLt (by decide))).length.1 (List.append_eq_nil_iff.1 h).1

end NdnGeth.Ndn
