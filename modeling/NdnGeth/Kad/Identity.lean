/-
What the identity of a node commits it to. It is the hash of the public key
with the printed name after it (`makeId`, `MakeID`), and nothing says where
the one ends and the other begins: a key of any length is taken from the
network (`NdnNodeRecordUnmarshaling`). And the printed name is not the name:
the type of a component is not printed, and of a digest only two bytes are.

Where keys have one length, a name is found again from what is printed up to
just these two things (`prettyName_injective`), since a component is escaped and
has no `/` in it.
-/
import NdnGeth.Kad.Rpc
import NdnGeth.Lib.Keccak

namespace NdnGeth.Kad

open Lib.Hex
open Lib.Rlp (Bytes)

/-! ## Escaped bytes -/

/-- What `url.QueryEscape` makes of one byte. -/
def escapeByte (c : UInt8) : Bytes :=
  if unreserved c.toNat then [c] else if c = 32 then [43] else [37, hexDigit 65 (c.toNat / 16), hexDigit 65 (c.toNat % 16)]

theorem queryEscape_cons (c : UInt8) (b : Bytes) : queryEscape (c :: b) = escapeByte c ++ queryEscape b := rfl

/-- The value of a digit that was written with capital letters. -/
def hexValue (d : UInt8) : Nat := if d.toNat < 65 then d.toNat - 48 else d.toNat - 55

/-- The first byte that an escaped string stands for, and what follows it. -/
def unescape : Bytes → Option (UInt8 × Bytes)
  | 37 :: h :: l :: rest => some (UInt8.ofNat (16 * hexValue h + hexValue l), rest)
  | 43 :: rest => some (32, rest)
  | c :: rest => some (c, rest)
  | [] => none

theorem escapeByte_ne (c : UInt8) : 47 ∉ escapeByte c := by
  refine forall_byte (P := fun c => 47 ∉ escapeByte c) ?_ c
  decide +kernel

theorem unescape_cons (c : UInt8) (rest : Bytes) : unescape (escapeByte c ++ rest) = some (c, rest) := by
  unfold escapeByte
  split
  · next h =>
    have hne : c ≠ 37 ∧ c ≠ 43 := by
      constructor <;> rintro rfl <;> simp [unreserved] at h
    simp [unescape, hne]
  · split
    · next h =>
      subst h
      rfl
    · have hdigits : ∀ c : UInt8, UInt8.ofNat (16 * hexValue (hexDigit 65 (c.toNat / 16)) + hexValue (hexDigit 65 (c.toNat % 16))) = c := by
        refine forall_byte ?_
        decide +kernel
      simp [unescape, hdigits]

theorem queryEscape_injective : ∀ {a b : Bytes}, queryEscape a = queryEscape b → a = b
  | [], [], _ => rfl
  | [], c :: b, h => by
    have := congrArg unescape h
    rw [queryEscape_cons, unescape_cons] at this
    cases this
  | c :: a, [], h => by
    have := congrArg unescape h
    rw [queryEscape_cons, unescape_cons] at this
    cases this
  | c :: a, d :: b, h => by
    have := congrArg unescape h
    rw [queryEscape_cons, queryEscape_cons, unescape_cons, unescape_cons, Option.some.injEq, Prod.mk.injEq] at this
    rw [this.1, queryEscape_injective this.2]

/-! ## Printed names -/

def NameComponent.isDigest (c : NameComponent) : Bool := c.typ = 1 || c.typ = 2

/-- The digest components of a name. -/
def digests (n : Name) : Name := n.filter NameComponent.isDigest

theorem hexEncode_ne (b : Bytes) : 47 ∉ hexEncode b := by
  intro hd
  obtain ⟨d, hlt, heq⟩ := mem_hexEncode hd
  exact absurd heq ((by decide : ∀ d < 16, 47 ≠ hexDigit 97 d) d hlt)

variable {prims : Primitives} {c : NameComponent}

theorem prettyNameComponent_ne {s : Bytes} (h : prettyNameComponent c = some s) : 47 ∉ s := by
  unfold prettyNameComponent at h
  split at h
  · split at h
    · cases h
    · cases h
      intro hd
      rcases List.mem_append.1 hd with hd | hd
      · exact hexEncode_ne _ (List.mem_of_mem_take hd)
      · simp at hd
  · cases h
    intro hd
    obtain ⟨b, _, hb⟩ := List.mem_flatMap.1 hd
    exact escapeByte_ne b hb

theorem prettyName_cons {n : Name} {p : Bytes} (h : prettyName (c :: n) = some p) :
    ∃ s t, prettyNameComponent c = some s ∧ prettyName n = some t ∧ p = 47 :: (s ++ t) := by
  unfold prettyName at h
  split at h
  · next s t hs ht =>
    cases h
    exact ⟨s, t, hs, ht, rfl⟩
  · cases h

theorem takeWhile_pretty {n : Name} {s t : Bytes} (hs : prettyNameComponent c = some s)
    (ht : prettyName n = some t) : (s ++ t).takeWhile (· ≠ 47) = s := by
  rw [List.takeWhile_append_of_pos fun d hd => by simpa using fun h : d = 47 => prettyNameComponent_ne hs (h ▸ hd)]
  cases n with
  | nil =>
    cases ht
    simp
  | cons c n =>
    obtain ⟨s', t', _, _, rfl⟩ := prettyName_cons ht
    simp

theorem prettyName_injective : ∀ {n m : Name} {p : Bytes}, prettyName n = some p → prettyName m = some p →
    n.map (·.typ) = m.map (·.typ) → digests n = digests m → n = m
  | [], [], _, _, _, _, _ => rfl
  | [], _ :: _, _, _, _, htyp, _ => by simp at htyp
  | _ :: _, [], _, _, _, htyp, _ => by simp at htyp
  | c :: n, d :: m, p, hn, hm, htyp, hdig => by
    obtain ⟨s, t, hs, ht, hp⟩ := prettyName_cons hn
    obtain ⟨s', t', hs', ht', hp'⟩ := prettyName_cons hm
    rw [List.map_cons, List.map_cons, List.cons.injEq] at htyp
    have hrest : s ++ t = s' ++ t' := by
      rw [hp, List.cons.injEq] at hp'
      exact hp'.2
    obtain rfl : s = s' := by rw [← takeWhile_pretty hs ht, hrest, takeWhile_pretty hs' ht']
    obtain rfl : t = t' := List.append_cancel_left hrest
    have hkind : c.isDigest = d.isDigest := by simp [NameComponent.isDigest, htyp.1]
    unfold digests at hdig
    by_cases hc : c.isDigest = true
    · rw [List.filter_cons_of_pos hc, List.filter_cons_of_pos (hkind ▸ hc), List.cons.injEq] at hdig
      rw [hdig.1, prettyName_injective ht ht' htyp.2 hdig.2]
    · rw [List.filter_cons_of_neg hc, List.filter_cons_of_neg (hkind ▸ hc)] at hdig
      have hval : queryEscape c.value = queryEscape d.value := by
        have hc' : ¬d.isDigest = true := hkind ▸ hc
        simp only [NameComponent.isDigest, Bool.or_eq_true, decide_eq_true_eq] at hc hc'
        simp only [prettyNameComponent, if_neg hc, if_neg hc', Option.some.injEq] at hs hs'
        exact hs.trans hs'.symm
      obtain ⟨ctyp, cval⟩ := c
      obtain ⟨dtyp, dval⟩ := d
      simp only at htyp hval
      rw [htyp.1, queryEscape_injective hval, prettyName_injective ht ht' htyp.2 hdig]

/-! ## Identities -/

/-- The string that the identity of a record is the hash of. -/
def NdnNodeRecord.hashed (r : NdnNodeRecord) : Bytes := r.pubkey ++ (prettyName r.pfx).getD []

/-- Two records differ in nothing that the identity leaves open: how long the
key is, of what types the components are, and the digests among them. -/
def SameShape (r r' : NdnNodeRecord) : Prop :=
  r.pubkey.length = r'.pubkey.length ∧ r.pfx.map (·.typ) = r'.pfx.map (·.typ) ∧ digests r.pfx = digests r'.pfx

theorem makeID_eq (prims : Primitives) (pub pfx : Bytes) : makeID prims pub pfx = makeID prims (pub ++ pfx) [] := by
  unfold makeID
  rw [List.append_nil]

theorem unmarshaling_eq {info : NdnNodeRecordInfo} {r : NdnNodeRecord}
    (h : ndnNodeRecordUnmarshaling prims info = some r) :
    r.id = makeID prims r.hashed [] ∧ ∃ p, prettyName r.pfx = some p := by
  unfold ndnNodeRecordUnmarshaling at h
  split at h
  · next p hp =>
    obtain rfl := Option.some.inj h
    refine ⟨(makeID_eq ..).trans ?_, p, hp⟩
    congr 1
    simp [NdnNodeRecord.hashed, hp]
  · cases h

/-- **When the identity binds key and name.** Of two records from the network
with one identity, whose hashed strings do not collide, key and name are the
same exactly if the records are of one shape. So a boot node's record is
completed with the key and the name that its identity was made from exactly
if the record from the network is of the shape of that one. -/
theorem identity_binds {i₁ i₂ : NdnNodeRecordInfo} {r₁ r₂ : NdnNodeRecord}
    (h₁ : ndnNodeRecordUnmarshaling prims i₁ = some r₁) (h₂ : ndnNodeRecordUnmarshaling prims i₂ = some r₂)
    (hinj : Set.InjOn (fun b => makeID prims b []) {r₁.hashed, r₂.hashed}) (hid : r₁.id = r₂.id) :
    (r₁.pubkey = r₂.pubkey ∧ r₁.pfx = r₂.pfx ↔ SameShape r₁ r₂) ∧
    ∀ p : Kadpeer, p.record.untrusted = true → p.record.id = r₁.id →
      ∃ p', p.updateNodeRecord prims i₂ = some (p', none) ∧
        (p'.record.pubkey = r₁.pubkey ∧ p'.record.pfx = r₁.pfx ↔ SameShape r₁ r₂) := by
  obtain ⟨hid₁, p₁, hp₁⟩ := unmarshaling_eq h₁
  obtain ⟨hid₂, p₂, hp₂⟩ := unmarshaling_eq h₂
  have hsame : r₁.pubkey ++ p₁ = r₂.pubkey ++ p₂ := by
    have := hinj (by simp) (by simp) (hid₁.symm.trans (hid.trans hid₂))
    simpa [NdnNodeRecord.hashed, hp₁, hp₂] using this
  have hiff : r₁.pubkey = r₂.pubkey ∧ r₁.pfx = r₂.pfx ↔ SameShape r₁ r₂ := by
    constructor
    · rintro ⟨hkey, hpfx⟩
      exact ⟨by rw [hkey], by rw [hpfx], by rw [hpfx]⟩
    · rintro ⟨hlen, htyp, hdig⟩
      obtain ⟨hkey, hprint⟩ := List.append_inj hsame hlen
      exact ⟨hkey, prettyName_injective hp₁ (hprint ▸ hp₂) htyp hdig⟩
  refine ⟨hiff, fun p huntrusted hpid => ⟨{ p with record := r₂ }, ?_, ?_⟩⟩
  · simp [Kadpeer.updateNodeRecord, h₂, huntrusted, hpid, hid]
  · rw [← hiff]
    exact ⟨fun h => ⟨h.1.symm, h.2.symm⟩, fun h => ⟨h.1.symm, h.2.symm⟩⟩

/-! A name is what stands between the slashes, for examples. -/

def splitName (b : Bytes) : Name := ((b.splitOn 47).filter (· ≠ [])).map fun v => ⟨8, v⟩

/-- A key, and the same with `/a` after it. -/
def sixtyFive : Bytes := List.replicate 65 4

def infoA : NdnNodeRecordInfo := ⟨[47, 97, 47, 98], sixtyFive⟩
def infoB : NdnNodeRecordInfo := ⟨[47, 98], sixtyFive ++ [47, 97]⟩

theorem unmarshaling_splitName (hparse : prims.parseName = splitName) {info : NdnNodeRecordInfo} {p : Bytes}
    (h : prettyName (splitName info.pfx) = some p) :
    ndnNodeRecordUnmarshaling prims info = some ⟨makeID prims info.pub p, splitName info.pfx, info.pub⟩ := by
  simp only [ndnNodeRecordUnmarshaling, hparse, h]

/-- The name `/a/b` comes spelled with two slashes. -/
theorem identity_binds_other_spelling :
    let prims : Primitives := ⟨Lib.Keccak.digest, fun _ _ _ => true, splitName⟩
    ∃ r p', ndnNodeRecordUnmarshaling prims infoA = some r ∧
      (peerFromRecord ⟨r.id, r.pfx, []⟩).updateNodeRecord prims ⟨[47, 97, 47, 47, 98], sixtyFive⟩ = some (p', none) ∧
      p'.record.pubkey = sixtyFive ∧ p'.record.pfx = splitName infoA.pfx := by
  intro prims
  have hA : prettyName (splitName infoA.pfx) = some [47, 97, 47, 98] := by decide +kernel
  have hname : splitName [47, 97, 47, 47, 98] = splitName infoA.pfx := by decide +kernel
  have hrA : ndnNodeRecordUnmarshaling prims infoA = some _ := unmarshaling_splitName rfl hA
  have hr : ndnNodeRecordUnmarshaling prims ⟨[47, 97, 47, 47, 98], sixtyFive⟩ = some _ := unmarshaling_splitName rfl (hname ▸ hA)
  rw [hname] at hr
  obtain ⟨_, hupdate⟩ := identity_binds hrA hr (by simp [NdnNodeRecord.hashed, infoA]) rfl
  obtain ⟨p', hp', hiff⟩ := hupdate (peerFromRecord ⟨_, splitName infoA.pfx, []⟩) rfl rfl
  obtain ⟨hkey, hpfx⟩ := hiff.2 ⟨rfl, rfl, rfl⟩
  exact ⟨_, p', hrA, hp', hkey, hpfx⟩

/-- The node `/b` whose key is that of `/a/b` with `/a` after it has the identity
of `/a/b`, whatever the hash, and a boot node known by that identity is completed
with the longer key. -/
theorem identity_shared : ∃ info₁ info₂ : NdnNodeRecordInfo,
    ∀ (keccak256 : Bytes → Vector UInt8 32) (verify : Bytes → Vector UInt8 32 → Bytes → Bool),
      let prims : Primitives := ⟨keccak256, verify, splitName⟩
      ∃ r₁ r₂, ndnNodeRecordUnmarshaling prims info₁ = some r₁ ∧ ndnNodeRecordUnmarshaling prims info₂ = some r₂ ∧
        r₁.id = r₂.id ∧ r₁.pubkey ≠ r₂.pubkey ∧ r₁.pfx ≠ r₂.pfx ∧
        (peerFromRecord ⟨r₁.id, r₁.pfx, []⟩).updateNodeRecord prims info₂ = some (⟨r₂, r₁.id⟩, none) := by
  refine ⟨infoA, infoB, fun keccak256 verify => ?_⟩
  intro prims
  have hA : prettyName (splitName infoA.pfx) = some [47, 97, 47, 98] := by decide +kernel
  have hB : prettyName (splitName infoB.pfx) = some [47, 98] := by decide +kernel
  have hid : makeID prims infoA.pub [47, 97, 47, 98] = makeID prims infoB.pub [47, 98] := by
    rw [makeID_eq, makeID_eq prims infoB.pub]
    rfl
  have hrA : ndnNodeRecordUnmarshaling prims infoA = some _ := unmarshaling_splitName rfl hA
  have hrB : ndnNodeRecordUnmarshaling prims infoB = some _ := unmarshaling_splitName rfl hB
  have hkey : infoA.pub ≠ infoB.pub := by decide +kernel
  have hname : splitName infoA.pfx ≠ splitName infoB.pfx := by decide +kernel
  refine ⟨_, _, hrA, hrB, hid, hkey, hname, ?_⟩
  simp only [Kadpeer.updateNodeRecord, hrB, peerFromRecord, NdnNodeRecord.untrusted, hid, ne_eq, not_true_eq_false, if_false,
    List.isEmpty_nil, if_true]

end NdnGeth.Kad
