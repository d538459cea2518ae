/-
Recursive length prefixes: trees of byte strings, written with a length
before each string and list. A number is a string of its bytes, as few as it
needs, the most significant first. A reader refuses every other way to write
a tree: a length with leading zeros or in the long form when the short one
does, or a length before a single small byte.

A `Codec` is the way of a type into these trees and back; it carries the
proof that what is written is read.
-/
import Mathlib.Data.Nat.Digits.Lemmas

namespace Lib.Rlp

abbrev Bytes := List UInt8

inductive Item
  | bytes (b : Bytes)
  | list (xs : List Item)

/-! ## Numbers -/

/-- The number in as few bytes as it needs. -/
def toBytes (n : Nat) : Bytes := (Nat.digits 256 n).reverse.map UInt8.ofNat

def ofBytes (b : Bytes) : Nat := Nat.ofDigits 256 (b.reverse.map UInt8.toNat)

theorem ofBytes_toBytes (n : Nat) : ofBytes (toBytes n) = n := by
  have hdigits : (Nat.digits 256 n).map (UInt8.toNat ∘ UInt8.ofNat) = Nat.digits 256 n := by
    conv_rhs => rw [← List.map_id (Nat.digits 256 n)]
    refine List.map_congr_left fun d hd => ?_
    have hlt : d < 256 := Nat.digits_lt_base (by decide) hd
    simp only [Function.comp_apply, UInt8.toNat_ofNat', id_eq]
    exact Nat.mod_eq_of_lt hlt
  rw [ofBytes, toBytes, ← List.map_reverse, List.reverse_reverse, List.map_map, hdigits, Nat.ofDigits_digits]

theorem toBytes_head_ne_zero (n : Nat) : (toBytes n).head? ≠ some 0 := by
  intro h
  rw [toBytes, List.head?_map, List.head?_reverse, Option.map_eq_some_iff] at h
  obtain ⟨d, hd, hzero⟩ := h
  have hlt : d < 256 := Nat.digits_lt_base (by decide) (List.mem_of_getLast? hd)
  have hne : Nat.digits 256 n ≠ [] := by
    intro hnil
    rw [hnil] at hd
    cases hd
  have hlast : d ≠ 0 := by
    rw [List.getLast?_eq_some_getLast hne] at hd
    cases hd
    exact Nat.getLast_digit_ne_zero 256 (fun h0 => hne (by rw [h0, Nat.digits_zero]))
  have := congrArg UInt8.toNat hzero
  rw [UInt8.toNat_ofNat', Nat.mod_eq_of_lt hlt] at this
  exact hlast this

/-- Bytes without a leading zero are those of their number. -/
theorem toBytes_ofBytes {b : Bytes} (h : b.head? ≠ some 0) : toBytes (ofBytes b) = b := by
  have hdigits : Nat.digits 256 (ofBytes b) = b.reverse.map UInt8.toNat := by
    refine Nat.digits_ofDigits 256 (by decide) _ (fun d hd => ?_) fun hne => ?_
    · obtain ⟨x, -, rfl⟩ := List.mem_map.1 hd
      exact x.toNat_lt
    · have hb : b ≠ [] := fun hnil => hne (by rw [hnil]; rfl)
      rw [List.getLast_map, List.getLast_reverse]
      intro hzero
      refine h ?_
      rw [List.head?_eq_some_head hb, ← UInt8.toNat_inj.1 (hzero.trans UInt8.toNat_zero.symm)]
  rw [toBytes, hdigits, ← List.map_reverse, List.reverse_reverse, List.map_map]
  refine (List.map_congr_left fun x _ => ?_).trans (List.map_id b)
  simp

theorem toBytes_length_le {n k : Nat} (h : n < 256 ^ k) : (toBytes n).length ≤ k := by
  rw [toBytes, List.length_map, List.length_reverse]
  exact (Nat.digits_length_le_iff (by decide) n).2 h

theorem lt_pow_toBytes_length (n : Nat) : n < 256 ^ (toBytes n).length := by
  rw [toBytes, List.length_map, List.length_reverse]
  exact Nat.lt_base_pow_length_digits (by decide)

theorem ofBytes_replicate_zero (n : Nat) (b : Bytes) : ofBytes (List.replicate n 0 ++ b) = ofBytes b := by
  have hzeros : Nat.ofDigits 256 (List.replicate n 0) = 0 := by
    induction n with
    | zero => rfl
    | succ n ih => simp [List.replicate_succ, Nat.ofDigits_cons, ih]
  simp [ofBytes, Nat.ofDigits_append, hzeros]

theorem ofBytes_append (a b : Bytes) : ofBytes (a ++ b) = ofBytes a * 256 ^ b.length + ofBytes b := by
  simp only [ofBytes, List.reverse_append, List.map_append, Nat.ofDigits_append, List.length_map, List.length_reverse]
  rw [Nat.add_comm, Nat.mul_comm]

theorem ofBytes_lt (b : Bytes) : ofBytes b < 256 ^ b.length := by
  have h := Nat.ofDigits_lt_base_pow_length (b := 256) (l := b.reverse.map UInt8.toNat) (by decide) fun d hd => by
    obtain ⟨x, -, rfl⟩ := List.mem_map.1 hd
    exact x.toNat_lt
  simpa [ofBytes] using h

/-- The number in `n` bytes, with zeros in front. -/
def toBytesN (n v : Nat) : Bytes := List.replicate (n - (toBytes v).length) 0 ++ toBytes v

theorem ofBytes_toBytesN (n v : Nat) : ofBytes (toBytesN n v) = v := by
  rw [toBytesN, ofBytes_replicate_zero, ofBytes_toBytes]

theorem length_toBytesN {n v : Nat} (h : v < 256 ^ n) : (toBytesN n v).length = n := by
  have := toBytes_length_le h
  simp only [toBytesN, List.length_append, List.length_replicate]
  omega

/-! ## Strings and lists -/

inductive Kind | string | list
  deriving DecidableEq

/-- The byte that stands before an empty string, or list. -/
def Kind.tag : Kind → Nat
  | .string => 0x80
  | .list => 0xC0

/-- A string that is its own encoding. -/
def isSmall : Bytes → Bool
  | [b] => b.toNat < 0x80
  | _ => false

theorem isSmall_iff {b : Bytes} : isSmall b = true ↔ ∃ x, b = [x] ∧ x.toNat < 0x80 := by
  rcases b with _ | ⟨x, _ | ⟨y, b⟩⟩ <;> simp [isSmall]

/-- What stands before a content of this length. -/
def head (kind : Kind) (n : Nat) : Bytes :=
  if n < 56 then [UInt8.ofNat (kind.tag + n)]
  else UInt8.ofNat (kind.tag + 55 + (toBytes n).length) :: toBytes n

/-- A length in `k` bytes. -/
def readSize (k : Nat) (bs : Bytes) : Option (Nat × Bytes) :=
  let size := bs.take k
  if bs.length < k ∨ size.head? = some 0 ∨ ofBytes size < 56 then none else some (ofBytes size, bs.drop k)

/-- A content of `n` bytes. -/
def readContent (kind : Kind) (n : Nat) (bs : Bytes) : Option (Kind × Bytes × Bytes) :=
  let content := bs.take n
  if bs.length < n ∨ (kind = .string ∧ isSmall content = true) then none else some (kind, content, bs.drop n)

/-- What is read after a first byte that is `n` above the tag. -/
def readTagged (kind : Kind) (n : Nat) (bs : Bytes) : Option (Kind × Bytes × Bytes) :=
  if n < 56 then readContent kind n bs
  else
    match readSize (n - 55) bs with
    | some (size, bs') => readContent kind size bs'
    | none => none

/-- The kind and content of the first value, and what comes after it. -/
def split : Bytes → Option (Kind × Bytes × Bytes)
  | [] => none
  | b :: bs =>
    if b.toNat < 0x80 then some (.string, [b], bs)
    else if b.toNat < 0xC0 then readTagged .string (b.toNat - 0x80) bs
    else readTagged .list (b.toNat - 0xC0) bs

theorem readSize_toBytes {n : Nat} (h : 56 ≤ n) (rest : Bytes) :
    readSize (toBytes n).length (toBytes n ++ rest) = some (n, rest) := by
  have hcond : ¬((toBytes n ++ rest).length < (toBytes n).length ∨ (toBytes n).head? = some 0 ∨ ofBytes (toBytes n) < 56) := by
    rw [ofBytes_toBytes, List.length_append]
    have := toBytes_head_ne_zero n
    intro h
    obtain h | h | h := h
    · omega
    · exact this h
    · omega
  simp only [readSize, List.take_left', List.drop_left', ofBytes_toBytes] at hcond ⊢
  rw [if_neg hcond]

theorem readContent_append {kind : Kind} {c : Bytes} (hc : kind = .string → isSmall c = false) (rest : Bytes) :
    readContent kind c.length (c ++ rest) = some (kind, c, rest) := by
  have hcond : ¬((c ++ rest).length < c.length ∨ (kind = .string ∧ isSmall c = true)) := by
    rw [List.length_append]
    intro h
    obtain h | ⟨h, hs⟩ := h
    · omega
    · rw [hc h] at hs
      cases hs
  simp only [readContent, List.take_left', List.drop_left']
  rw [if_neg hcond]

/-- A value is split off as it was written. -/
theorem split_head {kind : Kind} {c : Bytes} (hc : kind = .string → isSmall c = false) (hlt : c.length < 2 ^ 64) (rest : Bytes) :
    split (head kind c.length ++ (c ++ rest)) = some (kind, c, rest) := by
  have htag : ∀ n bs, n < 64 → split (UInt8.ofNat (kind.tag + n) :: bs) = readTagged kind n bs := by
    intro n bs hn
    cases kind with
    | string =>
      have hb : (UInt8.ofNat (0x80 + n)).toNat = 0x80 + n := by
        rw [UInt8.toNat_ofNat']
        exact Nat.mod_eq_of_lt (by omega)
      simp only [Kind.tag, split, hb]
      rw [if_neg (by omega), if_pos (by omega), Nat.add_sub_cancel_left]
    | list =>
      have hb : (UInt8.ofNat (0xC0 + n)).toNat = 0xC0 + n := by
        rw [UInt8.toNat_ofNat']
        exact Nat.mod_eq_of_lt (by omega)
      simp only [Kind.tag, split, hb]
      rw [if_neg (by omega), if_neg (by omega), Nat.add_sub_cancel_left]
  simp only [head]
  split
  · next hn =>
    rw [List.singleton_append, htag _ _ (by omega), readTagged, if_pos hn, readContent_append hc]
  · next hn =>
    have hlen : (toBytes c.length).length ≤ 8 := toBytes_length_le (by omega)
    have hpos : 0 < (toBytes c.length).length := by
      rw [List.length_pos_iff]
      intro hnil
      have := ofBytes_toBytes c.length
      rw [hnil] at this
      have hz : ofBytes [] = 0 := rfl
      omega
    rw [List.cons_append, Nat.add_assoc, htag _ _ (by omega), readTagged, if_neg (by omega), Nat.add_sub_cancel_left,
      readSize_toBytes (by omega)]
    exact readContent_append hc rest

/-! ## Trees -/

def encodeString (b : Bytes) : Bytes := if isSmall b then b else head .string b.length ++ b

mutual

def encode : Item → Bytes
  | .bytes b => encodeString b
  | .list xs => head .list (encodeMany xs).length ++ encodeMany xs

/-- The items one after the other. -/
def encodeMany : List Item → Bytes
  | [] => []
  | x :: xs => encode x ++ encodeMany xs

end

/-- The items that the bytes are made of; there are no more than `fuel`. -/
def decodeMany : (fuel : Nat) → Bytes → Option (List Item)
  | _, [] => some []
  | 0, _ => none
  | fuel + 1, bs =>
    match split bs with
    | none => none
    | some (.string, content, rest) => (decodeMany fuel rest).map (.bytes content :: ·)
    | some (.list, content, rest) =>
      match decodeMany fuel content, decodeMany fuel rest with
      | some xs, some ys => some (.list xs :: ys)
      | _, _ => none

/-- The item that the bytes are. -/
def decode (bs : Bytes) : Option Item :=
  match decodeMany bs.length bs with
  | some [x] => some x
  | _ => none

theorem split_encodeString {b : Bytes} (hlt : b.length < 2 ^ 64) (rest : Bytes) :
    split (encodeString b ++ rest) = some (.string, b, rest) := by
  simp only [encodeString]
  split
  · next h =>
    obtain ⟨x, rfl, hx⟩ := isSmall_iff.1 h
    simp only [List.singleton_append, Rlp.split, if_pos hx]
  · next h =>
    rw [List.append_assoc]
    exact split_head (fun _ => by simpa using h) hlt rest

theorem head_length_pos (kind : Kind) (n : Nat) : 0 < (head kind n).length := by
  simp only [head]
  split <;> simp

theorem encodeString_length (b : Bytes) : b.length ≤ (encodeString b).length ∧ 0 < (encodeString b).length := by
  simp only [encodeString]
  split
  · next h =>
    match b, h with
    | [x], h => exact ⟨Nat.le_refl _, Nat.one_pos⟩
  · have := head_length_pos .string b.length
    rw [List.length_append]
    omega

theorem encode_length_pos (x : Item) : 0 < (encode x).length := by
  cases x with
  | bytes b =>
    simp only [encode]
    exact (encodeString_length b).2
  | list xs =>
    simp only [encode, List.length_append]
    exact Nat.add_pos_left (head_length_pos ..) _

variable {xs : List Item} {x : Item}

theorem encodeMany_length_of_mem : ∀ {xs : List Item}, x ∈ xs → (encode x).length ≤ (encodeMany xs).length
  | y :: ys, h => by
    simp only [encodeMany, List.length_append]
    rcases List.mem_cons.1 h with rfl | h
    · exact Nat.le_add_right _ _
    · exact Nat.le_add_left_of_le (encodeMany_length_of_mem h)

theorem encode_length_of_mem (h : x ∈ xs) : (encode x).length ≤ (encode (.list xs)).length := by
  simp only [encode, List.length_append]
  exact Nat.le_add_left_of_le (encodeMany_length_of_mem h)

theorem length_le_encode_bytes (b : Bytes) : b.length ≤ (encode (.bytes b)).length := by
  simp only [encode]
  exact (encodeString_length b).1

theorem head_length_le (kind : Kind) {n : Nat} (h : n < 2 ^ 64) : (head kind n).length ≤ 9 := by
  unfold head
  split
  · simp
  · have := toBytes_length_le (n := n) (k := 8) (by omega)
    simp only [List.length_cons]
    omega

theorem encode_bytes_length_le {b : Bytes} (h : b.length < 2 ^ 64) : (encode (.bytes b)).length ≤ b.length + 9 := by
  simp only [encode, encodeString]
  split
  · omega
  · have := head_length_le .string h
    rw [List.length_append]
    omega

theorem encode_list_length_le {k : Nat} (h : (encodeMany xs).length ≤ k) (hk : k < 2 ^ 64) :
    (encode (.list xs)).length ≤ k + 9 := by
  have := head_length_le .list (Nat.lt_of_le_of_lt h hk)
  simp only [encode, List.length_append]
  omega

theorem encodeMany_cons_length_le {j k : Nat} (h : (encode x).length ≤ j)
    (hs : (encodeMany xs).length ≤ k) : (encodeMany (x :: xs)).length ≤ j + k := by
  rw [encodeMany, List.length_append]
  exact Nat.add_le_add h hs

/-- What is written is read, by a reader that may take as many items as there
are bytes. -/
theorem decodeMany_encodeMany (fuel : Nat) : ∀ xs : List Item, (encodeMany xs).length ≤ fuel → (encodeMany xs).length < 2 ^ 64 →
    decodeMany fuel (encodeMany xs) = some xs := by
  induction fuel with
  | zero =>
    intro xs hlen _
    match xs with
    | [] => rfl
    | x :: xs =>
      have := encode_length_pos x
      simp only [encodeMany, List.length_append] at hlen
      omega
  | succ fuel ih =>
    intro xs hlen hlt
    match xs with
    | [] => simp [encodeMany, decodeMany]
    | .bytes b :: xs =>
      obtain ⟨hb, hpos⟩ := encodeString_length b
      simp only [encodeMany, encode, List.length_append] at hlen hlt ⊢
      have hrest := ih xs (by omega) (by omega)
      have hsplit := split_encodeString (b := b) (by omega) (encodeMany xs)
      obtain ⟨c, cs, hcons⟩ := List.exists_cons_of_length_pos hpos
      rw [hcons, List.cons_append] at hsplit ⊢
      simp only [decodeMany, hsplit, hrest, Option.map_some]
    | .list ys :: xs =>
      have hpos := head_length_pos .list (encodeMany ys).length
      simp only [encodeMany, encode, List.length_append] at hlen hlt ⊢
      have hitems := ih ys (by omega) (by omega)
      have hrest := ih xs (by omega) (by omega)
      have hsplit := split_head (c := encodeMany ys) (fun h : Kind.list = .string => by cases h) (by omega) (encodeMany xs)
      obtain ⟨c, cs, hcons⟩ := List.exists_cons_of_length_pos hpos
      rw [hcons] at hsplit ⊢
      simp only [List.cons_append, List.append_assoc] at hsplit ⊢
      simp only [decodeMany, hsplit, hitems, hrest]

/-- **What is written is read.** -/
theorem decode_encode (h : (encode x).length < 2 ^ 64) : decode (encode x) = some x := by
  have hone : encodeMany [x] = encode x := by simp [encodeMany]
  have := decodeMany_encodeMany (encode x).length [x] (by rw [hone]) (by rw [hone]; exact h)
  rw [hone] at this
  simp only [decode, this]

/-! ## Codecs -/

/-- How the values of a type are written as items and read from them. -/
structure Codec (α : Type) where
  toItem : α → Item
  ofItem : Item → Option α
  ofItem_toItem : ∀ a, ofItem (toItem a) = some a

/-- The same for the fields of a record, one after the other. -/
structure Fields (α : Type) where
  toItems : α → List Item
  ofItems : List Item → Option α
  ofItems_toItems : ∀ a, ofItems (toItems a) = some a

namespace Codec

variable {α β : Type}

def encode (c : Codec α) (a : α) : Bytes := Rlp.encode (c.toItem a)

def decode (c : Codec α) (bs : Bytes) : Option α := (Rlp.decode bs).bind c.ofItem

theorem decode_encode (c : Codec α) {a : α} (h : (c.encode a).length < 2 ^ 64) : c.decode (c.encode a) = some a := by
  rw [decode, encode, Rlp.decode_encode h]
  exact c.ofItem_toItem a

theorem encode_ne_nil (c : Codec α) (a : α) : c.encode a ≠ [] :=
  List.ne_nil_of_length_pos (encode_length_pos _)

def bytes : Codec Bytes where
  toItem := .bytes
  ofItem
    | .bytes b => some b
    | .list _ => none
  ofItem_toItem _ := rfl

/-- A number of `n` bytes at most, without leading zeros. -/
def uint (n : Nat) : Codec (BitVec (8 * n)) where
  toItem v := .bytes (toBytes v.toNat)
  ofItem
    | .bytes b => if b.length ≤ n ∧ b.head? ≠ some 0 then some (BitVec.ofNat _ (ofBytes b)) else none
    | .list _ => none
  ofItem_toItem v := by
    have hlt : v.toNat < 256 ^ n := by
      have := v.isLt
      rw [Nat.pow_mul] at this
      exact this
    simp only
    rw [if_pos ⟨toBytes_length_le hlt, toBytes_head_ne_zero _⟩, ofBytes_toBytes, BitVec.ofNat_toNat, BitVec.setWidth_eq]

/-- A number of any size, without leading zeros. -/
def nat : Codec Nat where
  toItem n := .bytes (toBytes n)
  ofItem
    | .bytes b => if b.head? ≠ some 0 then some (ofBytes b) else none
    | .list _ => none
  ofItem_toItem n := by
    simp only
    rw [if_pos (toBytes_head_ne_zero n), ofBytes_toBytes]

/-- A string of `n` bytes. -/
def fixed (n : Nat) : Codec (BitVec (8 * n)) where
  toItem v := .bytes (toBytesN n v.toNat)
  ofItem
    | .bytes b => if b.length = n then some (BitVec.ofNat _ (ofBytes b)) else none
    | .list _ => none
  ofItem_toItem v := by
    have hlt : v.toNat < 256 ^ n := by
      have := v.isLt
      rw [Nat.pow_mul] at this
      exact this
    simp only
    rw [if_pos (length_toBytesN hlt), ofBytes_toBytesN, BitVec.ofNat_toNat, BitVec.setWidth_eq]

/-- A pointer, written as the empty string where it is nil; what it points to
is never written so. -/
def nilable (c : Codec α) (h : ∀ a, c.toItem a ≠ .bytes []) : Codec (Option α) where
  toItem
    | none => .bytes []
    | some a => c.toItem a
  ofItem
    | .bytes [] => some none
    | x => (c.ofItem x).map some
  ofItem_toItem
    | none => rfl
    | some a => by
      split
      · next heq => exact absurd heq (h a)
      · simp only [c.ofItem_toItem, Option.map_some]

/-- `true` is the number one, `false` zero. -/
def bool : Codec Bool where
  toItem b := .bytes (if b then [1] else [])
  ofItem
    | .bytes [] => some false
    | .bytes [1] => some true
    | _ => none
  ofItem_toItem b := by cases b <;> rfl

/-- A list of values of one type. -/
def list (c : Codec α) : Codec (List α) where
  toItem as := .list (as.map c.toItem)
  ofItem
    | .list xs => xs.mapM c.ofItem
    | .bytes _ => none
  ofItem_toItem as := by
    simp only
    induction as with
    | nil => rfl
    | cons a as ih => simp [c.ofItem_toItem a, ih]

/-- A record. -/
def struct (fs : Fields α) : Codec α where
  toItem a := .list (fs.toItems a)
  ofItem
    | .list xs => fs.ofItems xs
    | .bytes _ => none
  ofItem_toItem := fs.ofItems_toItems

end Codec

namespace Fields

variable {α β : Type}

def last (c : Codec α) : Fields α where
  toItems a := [c.toItem a]
  ofItems
    | [x] => c.ofItem x
    | _ => none
  ofItems_toItems := c.ofItem_toItem

def cons (c : Codec α) (fs : Fields β) : Fields (α × β) where
  toItems p := c.toItem p.1 :: fs.toItems p.2
  ofItems
    | [] => none
    | x :: xs =>
      match c.ofItem x, fs.ofItems xs with
      | some a, some b => some (a, b)
      | _, _ => none
  ofItems_toItems p := by simp only [c.ofItem_toItem, fs.ofItems_toItems]

/-- The fields under another form of the record. -/
def map (fs : Fields α) (f : α → β) (g : β → α) (h : ∀ b, f (g b) = b) : Fields β where
  toItems b := fs.toItems (g b)
  ofItems xs := (fs.ofItems xs).map f
  ofItems_toItems b := by simp only [fs.ofItems_toItems, Option.map_some, h]

end Fields

/-! ## Bounds -/

/-- No encoding is longer. -/
def Codec.Within {α : Type} (c : Codec α) (k : Nat) : Prop := ∀ a, (c.encode a).length ≤ k

/-- The fields together are no longer. -/
def Fields.Within {α : Type} (fs : Fields α) (k : Nat) : Prop := ∀ a, (encodeMany (fs.toItems a)).length ≤ k

section Within

variable {α β : Type} {c : Codec α} {fs : Fields β} {j k : Nat}

theorem Codec.uint_within (n : Nat) (hn : n < 2 ^ 64) : (uint n).Within (n + 9) := by
  intro v
  have hlt : v.toNat < 256 ^ n := by
    have := v.isLt
    rw [Nat.pow_mul] at this
    exact this
  have hlen := toBytes_length_le hlt
  exact Nat.le_trans (encode_bytes_length_le (Nat.lt_of_le_of_lt hlen hn)) (Nat.add_le_add_right hlen 9)

theorem Codec.fixed_within (n : Nat) (hn : n < 2 ^ 64) : (fixed n).Within (n + 9) := by
  intro v
  have hlt : v.toNat < 256 ^ n := by
    have := v.isLt
    rw [Nat.pow_mul] at this
    exact this
  have hlen := length_toBytesN hlt
  exact Nat.le_trans (encode_bytes_length_le (Nat.lt_of_le_of_lt (Nat.le_of_eq hlen) hn)) (Nat.le_of_eq (congrArg (· + 9) hlen))

theorem Fields.Within.last (h : c.Within k) : (Fields.last c).Within k :=
  fun a => encodeMany_cons_length_le (k := 0) (h a) (Nat.le_refl 0)

theorem Fields.Within.cons (h : c.Within j) (hs : fs.Within k) : (Fields.cons c fs).Within (j + k) :=
  fun p => encodeMany_cons_length_le (h p.1) (hs p.2)

theorem Fields.Within.map {γ : Type} (hs : fs.Within k) (f : β → γ) (g : γ → β) (h : ∀ b, f (g b) = b) :
    (fs.map f g h).Within k :=
  fun a => hs (g a)

theorem Codec.Within.struct (hs : fs.Within k) (hk : k < 2 ^ 64) : (Codec.struct fs).Within (k + 9) :=
  fun a => encode_list_length_le (hs a) hk

end Within

end Lib.Rlp
