/-
Identities and their distance (`ndn/kad/common.go`), and the records and
peers they belong to (`ndn/kad/ndnpeer.go`, `ndn/kad/peer.go`).

`DistCmp` compares two identities byte by byte. The distance it compares is
a number: the exclusive or with the target read as a big-endian integer
(`dist`), so the order of the lookup is the order of natural numbers.
-/
import Mathlib.Data.List.Basic
import Mathlib.Tactic.Ring

namespace NdnGeth.Kad

def KADEMLIA_ALPHA : Nat := 3
def ADDRBYTES : Nat := 20

/-- `ID`, an array of `ADDRBYTES` bytes. -/
abbrev ID := Vector UInt8 ADDRBYTES

/-- The loop of `DistCmp`, over the remaining bytes. -/
def distCmpBytes : (target a b : List UInt8) → Int
  | t :: ts, a :: as, b :: bs =>
    let da := a ^^^ t
    let db := b ^^^ t
    if da > db then 1 else if da < db then -1 else distCmpBytes ts as bs
  | _, _, _ => 0

/-- `DistCmp`: which of `a` and `b` is farther from the target. -/
def distCmp (target a b : ID) : Int := distCmpBytes target.toList a.toList b.toList

/-- An NDN name component: a type number and its bytes. -/
structure NameComponent where
  typ : UInt32
  value : List UInt8
  deriving DecidableEq, Repr, Inhabited

abbrev Name := List NameComponent

/-- `ndnNodeRecord`. A boot node's record has no public key. -/
structure NdnNodeRecord where
  id : ID
  pfx : Name
  pubkey : List UInt8
  deriving DecidableEq, Repr, Inhabited

/-- `kadpeer`: a record and the identity it was made with. -/
structure Kadpeer where
  record : NdnNodeRecord
  id : ID
  deriving DecidableEq, Repr, Inhabited

def peerFromRecord (rec : NdnNodeRecord) : Kadpeer := ⟨rec, rec.id⟩

/-! ## Distance as a number -/

/-- The big-endian value of a byte string. -/
def value : List UInt8 → Nat
  | [] => 0
  | b :: bs => b.toNat * 256 ^ bs.length + value bs

theorem value_lt : ∀ l : List UInt8, value l < 256 ^ l.length
  | [] => by simp [value]
  | b :: bs => by
    have h1 := value_lt bs
    have h2 : b.toNat < 256 := b.toNat_lt
    have h3 : (b.toNat + 1) * 256 ^ bs.length ≤ 256 * 256 ^ bs.length := Nat.mul_le_mul_right _ h2
    rw [value, List.length_cons, Nat.pow_succ, Nat.mul_comm (256 ^ bs.length)]
    rw [Nat.add_mul] at h3
    omega

theorem value_cons_lt {a b : UInt8} {as bs : List UInt8} (hl : as.length = bs.length) :
    value (a :: as) < value (b :: bs) ↔ a < b ∨ a = b ∧ value as < value bs := by
  have ha := value_lt as
  have hb := value_lt bs
  simp only [value, hl] at ha ⊢
  generalize hp : 256 ^ bs.length = n at *
  rw [UInt8.lt_iff_toNat_lt]
  constructor
  · intro h
    rcases Nat.lt_trichotomy a.toNat b.toNat with hlt | heq | hgt
    · exact .inl hlt
    · exact .inr ⟨UInt8.toNat_inj.mp heq, by rw [heq] at h; omega⟩
    · have : (b.toNat + 1) * n ≤ a.toNat * n := Nat.mul_le_mul_right _ hgt
      rw [Nat.add_mul] at this
      omega
  · rintro (hlt | ⟨rfl, h⟩)
    · have : (a.toNat + 1) * n ≤ b.toNat * n := Nat.mul_le_mul_right _ hlt
      rw [Nat.add_mul] at this
      omega
    · omega

theorem value_cons_cmp {x y : UInt8} {xs ys : List UInt8} (hl : xs.length = ys.length) :
    (if x > y then 1 else if x < y then -1
      else if value ys < value xs then 1 else if value xs < value ys then -1 else 0 : Int) =
      if value (y :: ys) < value (x :: xs) then 1 else if value (x :: xs) < value (y :: ys) then -1 else 0 := by
  have hirr : ∀ z : UInt8, ¬ z < z := fun z hz => Nat.lt_irrefl _ (UInt8.lt_iff_toNat_lt.mp hz)
  rw [if_congr (value_cons_lt hl.symm) rfl rfl, if_congr (value_cons_lt hl) rfl rfl]
  rcases Nat.lt_trichotomy x.toNat y.toNat with hlt | heq | hgt
  · have hxy : x < y := UInt8.lt_iff_toNat_lt.mpr hlt
    have hyx : ¬ y < x := fun h => by rw [UInt8.lt_iff_toNat_lt] at h; omega
    have hne : ¬ y = x := fun h => hirr x (h ▸ hxy)
    simp [hxy, hyx, hne]
  · obtain rfl := UInt8.toNat_inj.mp heq
    simp [hirr x]
  · have hyx : y < x := UInt8.lt_iff_toNat_lt.mpr hgt
    simp [hyx]

/-- The bytes of `a` exclusive-or the target's. -/
def xorBytes (target a : List UInt8) : List UInt8 := List.zipWith (· ^^^ ·) a target

/-- The distance of `a` from the target. -/
def dist (target a : ID) : Nat := value (xorBytes target.toList a.toList)

theorem distCmpBytes_eq : ∀ (target a b : List UInt8), a.length = target.length → b.length = target.length →
    distCmpBytes target a b =
      if value (xorBytes target b) < value (xorBytes target a) then 1
      else if value (xorBytes target a) < value (xorBytes target b) then -1 else 0
  | [], a, b, ha, hb => by
    simp only [List.length_nil, List.length_eq_zero_iff] at ha hb
    subst ha hb
    simp [distCmpBytes, xorBytes]
  | t :: ts, a :: as, b :: bs, ha, hb => by
    simp only [List.length_cons, Nat.add_right_cancel_iff] at ha hb
    have ih := distCmpBytes_eq ts as bs ha hb
    have hl : (xorBytes ts as).length = (xorBytes ts bs).length := by simp [xorBytes, ha, hb]
    rw [distCmpBytes, ih]
    exact value_cons_cmp hl
  | _ :: _, [], _, ha, _ => by simp at ha
  | _ :: _, _ :: _, [], _, hb => by simp at hb

theorem distCmp_eq (target a b : ID) : distCmp target a b =
    if dist target b < dist target a then 1 else if dist target a < dist target b then -1 else 0 :=
  distCmpBytes_eq _ _ _ (by simp) (by simp)

variable {target a b : ID}

theorem distCmp_le_zero : distCmp target a b ≤ 0 ↔ dist target a ≤ dist target b := by
  rw [distCmp_eq]
  split_ifs <;> omega

theorem distCmp_neg : distCmp target a b < 0 ↔ dist target a < dist target b := by
  rw [distCmp_eq]
  split_ifs <;> omega

theorem value_inj : ∀ {a b : List UInt8}, a.length = b.length → value a = value b → a = b
  | [], b, hl, _ => by simpa using hl.symm
  | x :: xs, [], hl, _ => by simp at hl
  | x :: xs, y :: ys, hl, h => by
    simp only [List.length_cons, Nat.add_right_cancel_iff] at hl
    have h1 := mt (value_cons_lt (a := x) (b := y) hl).mpr (by omega)
    have h2 := mt (value_cons_lt (a := y) (b := x) hl.symm).mpr (by omega)
    have hxy : x = y := by grind
    subst hxy
    rw [value_inj hl (by grind)]

theorem dist_inj (h : dist target a = dist target b) : a = b := by
  have hx := value_inj (by simp [xorBytes]) h
  apply Vector.toList_inj.mp
  refine List.ext_getElem (by simp) fun i h1 h2 => ?_
  have hi := congrArg (fun l : List UInt8 => l[i]?) hx
  simp only [xorBytes, List.getElem?_zipWith] at hi
  simp only [Vector.length_toList] at h1 h2
  simpa [h1] using hi

end NdnGeth.Kad
