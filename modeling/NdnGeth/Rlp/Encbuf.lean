/-
The buffer of the encoder and its three outputs (`rlp/encode.go`).

The strings stand one after the other, and the headers of the lists beside
them, each with its place; the size of a list is known when it is closed. The
headers are put in when the buffer is turned into bytes, written to a writer or
read from a reader.

`Renders` says what a stretch of the buffer comes out as; it is put together
along the tree that is written. The outputs then only have to agree on
`toBytesFrom`, the buffer from a place on.
-/
import NdnGeth.Lib.Result
import NdnGeth.Lib.Rlp

namespace NdnGeth.Rlp

open Lib
open Lib.Rlp (Bytes Item toBytes ofBytes encode encodeMany)

/-! ## Headers -/

/-- The low `k` bytes of a number, the most significant first. -/
def bigEndian (k i : Nat) : Bytes := (List.range k).reverse.map fun j => UInt8.ofNat (i >>> (8 * j))

def putint (i : Nat) : Bytes :=
  if i < 2 ^ 8 then bigEndian 1 i
  else if i < 2 ^ 16 then bigEndian 2 i
  else if i < 2 ^ 24 then bigEndian 3 i
  else if i < 2 ^ 32 then bigEndian 4 i
  else if i < 2 ^ 40 then bigEndian 5 i
  else if i < 2 ^ 48 then bigEndian 6 i
  else if i < 2 ^ 56 then bigEndian 7 i
  else bigEndian 8 i

/-- The loop of `intsize`; a `uint64` is done after eight turns. -/
def intsizeLoop : (fuel size i : Nat) → Nat
  | 0, size, _ => size
  | fuel + 1, size, i => if i >>> 8 = 0 then size else intsizeLoop fuel (size + 1) (i >>> 8)

def intsize (i : Nat) : Nat := intsizeLoop 8 1 i

def puthead (smalltag largetag size : Nat) : Bytes :=
  if size < 56 then [UInt8.ofNat (smalltag + size)] else UInt8.ofNat (largetag + (putint size).length) :: putint size

theorem ofBytes_bigEndian (k i : Nat) : ofBytes (bigEndian k i) = i % 256 ^ k := by
  have hdigits : ((List.range k).map fun j => (UInt8.ofNat (i >>> (8 * j))).toNat) = (List.range k).map fun j => i / 256 ^ j % 256 := by
    refine List.map_congr_left fun j _ => ?_
    rw [UInt8.toNat_ofNat', Nat.shiftRight_eq_div_pow, Nat.pow_mul]
  rw [ofBytes, bigEndian, ← List.map_reverse, List.reverse_reverse, List.map_map]
  refine (congrArg (Nat.ofDigits 256) hdigits).trans ?_
  clear hdigits
  induction k with
  | zero => simp [Nat.mod_one]
  | succ k ih =>
    rw [List.range_succ, List.map_append, Nat.ofDigits_append, ih, List.length_map, List.length_range, Nat.mod_pow_succ]
    simp

theorem bigEndian_eq {k i : Nat} (hle : 256 ^ k ≤ i) (hlt : i < 256 ^ (k + 1)) : bigEndian (k + 1) i = toBytes i := by
  have hval : ofBytes (bigEndian (k + 1) i) = i := by rw [ofBytes_bigEndian, Nat.mod_eq_of_lt hlt]
  have hdiv : i >>> (8 * k) = i / 256 ^ k := by rw [Nat.shiftRight_eq_div_pow, Nat.pow_mul]
  have hhead : (bigEndian (k + 1) i).head? ≠ some 0 := by
    rw [bigEndian, List.range_succ, List.reverse_append, List.reverse_singleton, List.singleton_append, List.map_cons,
      List.head?_cons, hdiv]
    intro h
    have hnat := congrArg UInt8.toNat (Option.some.inj h)
    rw [UInt8.toNat_ofNat', Nat.mod_eq_of_lt] at hnat
    · have := Nat.div_pos hle (Nat.pow_pos (by decide))
      rw [UInt8.toNat_zero] at hnat
      omega
    · rw [Nat.div_lt_iff_lt_mul (Nat.pow_pos (by decide)), Nat.mul_comm]
      exact hlt
  rw [← Lib.Rlp.toBytes_ofBytes hhead, hval]

theorem putint_eq {i : Nat} (hpos : 0 < i) (hlt : i < 2 ^ 64) : putint i = toBytes i := by
  unfold putint
  repeat' split
  · exact bigEndian_eq (k := 0) (by omega) (by omega)
  · exact bigEndian_eq (k := 1) (by omega) (by omega)
  · exact bigEndian_eq (k := 2) (by omega) (by omega)
  · exact bigEndian_eq (k := 3) (by omega) (by omega)
  · exact bigEndian_eq (k := 4) (by omega) (by omega)
  · exact bigEndian_eq (k := 5) (by omega) (by omega)
  · exact bigEndian_eq (k := 6) (by omega) (by omega)
  · exact bigEndian_eq (k := 7) (by omega) (by omega)

variable {n : Nat}

theorem puthead_tag (kind : Lib.Rlp.Kind) (h : n < 2 ^ 64) : puthead kind.tag (kind.tag + 55) n = Lib.Rlp.head kind n := by
  rw [puthead, Lib.Rlp.head]
  split
  · rfl
  · rw [putint_eq (by omega) h]

theorem puthead_string (h : n < 2 ^ 64) : puthead 0x80 0xB7 n = Lib.Rlp.head .string n := puthead_tag .string h

theorem puthead_list (h : n < 2 ^ 64) : puthead 0xC0 0xF7 n = Lib.Rlp.head .list n := puthead_tag .list h

theorem puthead_ne_nil (smalltag largetag size : Nat) : puthead smalltag largetag size ≠ [] := by
  unfold puthead
  split <;> simp

theorem intsizeLoop_eq {fuel size i k : Nat} (hk : k < fuel) (hlt : i < 256 ^ (k + 1)) (hle : i = 0 ∧ k = 0 ∨ 256 ^ k ≤ i) :
    intsizeLoop fuel size i = size + k := by
  induction fuel generalizing size i k with
  | zero => omega
  | succ fuel ih =>
    have hdiv : i >>> 8 = i / 256 := Nat.shiftRight_eq_div_pow i 8
    rw [intsizeLoop, hdiv]
    cases k with
    | zero => rw [if_pos (Nat.div_eq_of_lt (by omega)), Nat.add_zero]
    | succ k =>
      have hge : 256 ^ (k + 1) ≤ i := by omega
      have hpow : 256 ^ (k + 1) = 256 ^ k * 256 := Nat.pow_succ 256 k
      have hpow' : 256 ^ (k + 1 + 1) = 256 ^ (k + 1) * 256 := Nat.pow_succ 256 (k + 1)
      have hone : 0 < 256 ^ k := Nat.pow_pos (by decide)
      have hlow : 256 ^ k ≤ i / 256 := by omega
      rw [if_neg (by omega), ih (by omega) (by omega) (.inr hlow)]
      omega

theorem intsize_eq (hpos : 0 < n) (h : n < 2 ^ 64) : intsize n = (toBytes n).length := by
  have hlt := Lib.Rlp.lt_pow_toBytes_length n
  have hle : (toBytes n).length ≤ 8 := Lib.Rlp.toBytes_length_le (by omega)
  obtain ⟨k, hk⟩ : ∃ k, (toBytes n).length = k + 1 := by
    refine Nat.exists_eq_succ_of_ne_zero fun h0 => ?_
    rw [h0] at hlt
    omega
  have hge : 256 ^ k ≤ n := by
    by_contra hcon
    have := Lib.Rlp.toBytes_length_le (Nat.lt_of_not_le hcon)
    omega
  rw [hk] at hlt
  rw [intsize, intsizeLoop_eq (by omega : k < 8) hlt (.inr hge), hk, Nat.add_comm]

/-! ## The buffer -/

structure Listhead where
  offset : Nat
  size : Nat

structure Encbuf where
  str : Bytes
  lheads : List Listhead
  lhsize : Nat

namespace Encbuf

def empty : Encbuf := ⟨[], [], 0⟩

def append (w : Encbuf) (b : Bytes) : Encbuf := { w with str := w.str ++ b }

def encodeStringHeader (w : Encbuf) (size : Nat) : Encbuf := w.append (puthead 0x80 0xB7 size)

def encodeString (w : Encbuf) (b : Bytes) : Encbuf :=
  if b.length = 1 ∧ b.head?.any (·.toNat ≤ 0x7F) then w.append b else (w.encodeStringHeader b.length).append b

/-- The header of a new list is the last one. -/
def list (w : Encbuf) : Encbuf := { w with lheads := w.lheads ++ [⟨w.str.length, w.lhsize⟩] }

def size (w : Encbuf) : Nat := w.str.length + w.lhsize

/-- `listEnd` on the header at this index. -/
def listEnd (w : Encbuf) (lh : Nat) : Encbuf :=
  match w.lheads[lh]? with
  | none => w
  | some head =>
    let size := w.size - head.offset - head.size
    { w with
      lheads := w.lheads.set lh ⟨head.offset, size⟩
      lhsize := if size < 56 then w.lhsize + 1 else w.lhsize + (1 + intsize size) }

end Encbuf

def Listhead.encode (head : Listhead) : Bytes := puthead 0xC0 0xF7 head.size

mutual

/-- The calls for a tree: a string, or a list with its items before its end. -/
def writeItem : Item → Encbuf → Encbuf
  | .bytes b, w => w.encodeString b
  | .list xs, w => (writeItems xs w.list).listEnd w.lheads.length

def writeItems : List Item → Encbuf → Encbuf
  | [], w => w
  | x :: xs, w => writeItems xs (writeItem x w)

end

namespace Encbuf

/-- What the loop of `toBytes` copies. -/
def toBytesFrom (str : Bytes) : (strpos : Nat) → List Listhead → Bytes
  | strpos, [] => str.drop strpos
  | strpos, head :: heads => (str.drop strpos).take (head.offset - strpos) ++ (head.encode ++ toBytesFrom str head.offset heads)

/-- `toBytes`: into a slice of the buffer's size. -/
def toBytes (w : Encbuf) : Bytes :=
  let out := toBytesFrom w.str 0 w.lheads
  out.take w.size ++ List.replicate (w.size - out.length) 0

/-- The writes of `toWriter`, to a writer that takes them all. -/
def toWriterFrom (str : Bytes) : (strpos : Nat) → List Listhead → List Bytes
  | strpos, [] => if strpos < str.length then [str.drop strpos] else []
  | strpos, head :: heads =>
    if head.offset > strpos then (str.drop strpos).take (head.offset - strpos) :: head.encode :: toWriterFrom str head.offset heads
    else head.encode :: toWriterFrom str strpos heads

def toWriter (w : Encbuf) : List Bytes := toWriterFrom w.str 0 w.lheads

end Encbuf

/-! ## The reader -/

structure EncReader where
  buf : Option Encbuf
  lhpos : Nat
  strpos : Nat
  piece : Option Bytes

namespace EncReader

def new (w : Encbuf) : EncReader := ⟨some w, 0, 0, none⟩

def next (r : EncReader) : Option Bytes × EncReader :=
  match r.buf, r.piece with
  | none, _ => (none, r)
  | some _, some piece => (some piece, r)
  | some buf, none =>
    match buf.lheads[r.lhpos]? with
    | some head =>
      if head.offset > r.strpos then (some ((buf.str.drop r.strpos).take (head.offset - r.strpos)), { r with strpos := head.offset })
      else (some head.encode, { r with lhpos := r.lhpos + 1 })
    | none =>
      if r.strpos < buf.str.length then (some (buf.str.drop r.strpos), { r with strpos := buf.str.length }) else (none, r)

/-- A round of `Read` into a slice of `n` bytes, of which some are there; at the
end what was read and whether it is the end of the input. -/
def readRound (n : Nat) (s : EncReader × Bytes) : Result Empty ((EncReader × Bytes) ⊕ (Bytes × Bool × EncReader)) :=
  match s.1.next with
  | (none, r) => .ok (.inr (s.2, true, { r with buf := none, piece := none }))
  | (some piece, r) =>
    let nn := min (n - s.2.length) piece.length
    if nn < piece.length then .ok (.inr (s.2 ++ piece.take nn, false, { r with piece := some (piece.drop nn) }))
    else .ok (.inl ({ r with piece := none }, s.2 ++ piece.take nn))

/-- `Read`; every round but the last reads a byte. -/
def read (n : Nat) (r : EncReader) : Result Empty (Bytes × Bool × EncReader) :=
  iterate (readRound n) (r.buf.elim 0 (·.size) + 1) (r, [])

/-- Reads with one slice after the other. -/
def reads : EncReader → List Nat → Result Empty (List (Bytes × Bool))
  | _, [] => .ok []
  | r, n :: ns => do
    let (b, eof, r) ← r.read n
    let bs ← r.reads ns
    .ok ((b, eof) :: bs)

end EncReader

/-- Reading some bytes: the end is told with the last of them. -/
def chunks : Bytes → List Nat → List (Bytes × Bool)
  | _, [] => []
  | b, n :: ns => (b.take n, decide (b.length ≤ n)) :: chunks (b.drop n) ns

/-! ## What a stretch of the buffer comes out as -/

/-- The headers stand in the order of their places, from a place on. -/
def Ordered (str : Bytes) : (pos : Nat) → List Listhead → Prop
  | pos, [] => pos ≤ str.length
  | pos, head :: heads => pos ≤ head.offset ∧ Ordered str head.offset heads

theorem Ordered.le_length {str : Bytes} : ∀ {heads : List Listhead} {pos : Nat}, Ordered str pos heads → pos ≤ str.length := by
  intro heads
  induction heads with
  | nil => exact fun h => h
  | cons head heads ih => exact fun h => h.1.trans (ih h.2)

/-- From a place to another, with these headers between them. -/
def Renders (str : Bytes) (pos pos' : Nat) (heads : List Listhead) (out : Bytes) : Prop :=
  ∀ rest, Ordered str pos' rest →
    Ordered str pos (heads ++ rest) ∧ Encbuf.toBytesFrom str pos (heads ++ rest) = out ++ Encbuf.toBytesFrom str pos' rest

namespace Renders

variable {str out out' : Bytes} {pos pos' pos'' : Nat} {heads heads' : List Listhead}

theorem refl (str : Bytes) (pos : Nat) : Renders str pos pos [] [] := fun _ h => ⟨h, rfl⟩

theorem trans (h : Renders str pos pos' heads out) (h' : Renders str pos' pos'' heads' out') :
    Renders str pos pos'' (heads ++ heads') (out ++ out') := by
  intro rest hrest
  obtain ⟨ho', he'⟩ := h' rest hrest
  obtain ⟨ho, he⟩ := h _ ho'
  rw [List.append_assoc, List.append_assoc, ← he']
  exact ⟨ho, he⟩

theorem string {b : Bytes} (hb : (str.drop pos).take b.length = b) : Renders str pos (pos + b.length) [] b := by
  have hsplit : str.drop pos = b ++ str.drop (pos + b.length) := by
    rw [← List.drop_drop, ← List.take_append_drop b.length (str.drop pos), hb]
    simp
  intro rest hrest
  cases rest with
  | nil => exact ⟨Nat.le_trans (Nat.le_add_right _ _) hrest, hsplit⟩
  | cons head rest =>
    have hle := hrest.1
    refine ⟨⟨by omega, hrest.2⟩, ?_⟩
    rw [List.nil_append, Encbuf.toBytesFrom, Encbuf.toBytesFrom, hsplit, ← List.append_assoc b, List.take_append,
      List.take_of_length_le (by omega)]
    congr 3
    omega

theorem list (h : Renders str pos pos' heads out) (n : Nat) :
    Renders str pos pos' (⟨pos, n⟩ :: heads) (puthead 0xC0 0xF7 n ++ out) := by
  intro rest hrest
  obtain ⟨ho, he⟩ := h rest hrest
  refine ⟨⟨Nat.le_refl _, ho⟩, ?_⟩
  rw [List.cons_append, Encbuf.toBytesFrom, he, Nat.sub_self, List.take_zero, List.append_assoc]
  rfl

end Renders

/-- What calls add to the buffer, which may then be added to. -/
structure Wrote (w : Encbuf) (out : Bytes) (w' : Encbuf) : Prop where
  added : ∃ str heads, w'.str = w.str ++ str ∧ w'.lheads = w.lheads ++ heads ∧
    ∀ more, Renders (w'.str ++ more) w.str.length w'.str.length heads out
  size : w'.size = w.size + out.length

theorem Wrote.trans {w w' w'' : Encbuf} {out out' : Bytes} (h : Wrote w out w') (h' : Wrote w' out' w'') : Wrote w (out ++ out') w'' := by
  obtain ⟨str, heads, hstr, hheads, hrenders⟩ := h.added
  obtain ⟨str', heads', hstr', hheads', hrenders'⟩ := h'.added
  refine ⟨⟨str ++ str', heads ++ heads', ?_, ?_, fun more => ?_⟩, ?_⟩
  · rw [hstr', hstr, List.append_assoc]
  · rw [hheads', hheads, List.append_assoc]
  · have hfirst := hrenders (str' ++ more)
    rw [← List.append_assoc, ← hstr'] at hfirst
    exact hfirst.trans (hrenders' more)
  · rw [h'.size, h.size, List.length_append, Nat.add_assoc]

theorem Wrote.append (w : Encbuf) (b : Bytes) : Wrote w b (w.append b) := by
  refine ⟨⟨b, [], rfl, (List.append_nil _).symm, fun more => ?_⟩, ?_⟩
  · have hb : ((w.str ++ b ++ more).drop w.str.length).take b.length = b := by
      rw [List.append_assoc, List.drop_left, List.take_left]
    have hstring := Renders.string hb
    rw [← List.length_append] at hstring
    exact hstring
  · simp only [Encbuf.size, Encbuf.append, List.length_append]
    omega

theorem encodeString_eq (w : Encbuf) {b : Bytes} (h : b.length < 2 ^ 64) : w.encodeString b = w.append (Lib.Rlp.encodeString b) := by
  have hsmall : (b.length = 1 ∧ b.head?.any (·.toNat ≤ 0x7F) = true) ↔ Lib.Rlp.isSmall b = true := by
    rcases b with _ | ⟨x, _ | ⟨y, rest⟩⟩
    · simp [Lib.Rlp.isSmall]
    · simp only [List.length_singleton, List.head?_cons, Option.any_some, true_and, Lib.Rlp.isSmall, decide_eq_true_eq]
      omega
    · simp [Lib.Rlp.isSmall]
  rw [Encbuf.encodeString, Lib.Rlp.encodeString]
  split
  · next hs => rw [if_pos (hsmall.1 hs)]
  · next hs =>
    rw [if_neg fun hb => hs (hsmall.2 hb), Encbuf.encodeStringHeader, puthead_string h, Encbuf.append, Encbuf.append,
      Encbuf.append, List.append_assoc]

theorem Wrote.listEnd {w w' : Encbuf} {out : Bytes} (h : Wrote w.list out w') (hlt : out.length < 2 ^ 64) :
    Wrote w (Lib.Rlp.head .list out.length ++ out) (w'.listEnd w.lheads.length) := by
  obtain ⟨str, heads, hstr, hheads, hrenders⟩ := h.added
  have hlh : w'.lheads = w.lheads ++ ⟨w.str.length, w.lhsize⟩ :: heads := by
    rw [hheads, Encbuf.list, List.append_assoc, List.singleton_append]
  have hget : w'.lheads[w.lheads.length]? = some ⟨w.str.length, w.lhsize⟩ := by
    rw [hlh, List.getElem?_append_right (Nat.le_refl _), Nat.sub_self, List.getElem?_cons_zero]
  have hsize := h.size
  have hout : w'.size - w.str.length - w.lhsize = out.length := by
    rw [hsize, Encbuf.size, Encbuf.list]
    dsimp only
    omega
  simp only [Encbuf.listEnd, hget, hout]
  refine ⟨⟨str, ⟨w.str.length, out.length⟩ :: heads, hstr, ?_, fun more => ?_⟩, ?_⟩
  · rw [hlh, List.set_append_right _ _ (Nat.le_refl _), Nat.sub_self, List.set_cons_zero]
  · rw [← puthead_list hlt]
    exact (hrenders more).list out.length
  · simp only [Encbuf.size, Encbuf.list] at hsize ⊢
    rw [List.length_append, Lib.Rlp.head]
    split
    · rw [List.length_singleton]
      omega
    · next hbig =>
      rw [List.length_cons, ← intsize_eq (by omega) hlt]
      omega

mutual

theorem writeItem_wrote : (x : Item) → (w : Encbuf) → (encode x).length < 2 ^ 64 → Wrote w (encode x) (writeItem x w)
  | .bytes b, w, h => by
    have hb := Lib.Rlp.length_le_encode_bytes b
    rw [writeItem, encodeString_eq w (by omega)]
    exact .append w _
  | .list xs, w, h => by
    rw [encode, List.length_append] at h
    rw [writeItem, encode]
    exact (writeItems_wrote xs w.list (by omega)).listEnd (by omega)

theorem writeItems_wrote : (xs : List Item) → (w : Encbuf) → (encodeMany xs).length < 2 ^ 64 → Wrote w (encodeMany xs) (writeItems xs w)
  | [], w, _ => ⟨⟨[], [], (List.append_nil _).symm, (List.append_nil _).symm, fun _ => .refl _ _⟩, rfl⟩
  | x :: xs, w, h => by
    rw [encodeMany, List.length_append] at h
    rw [writeItems, encodeMany]
    exact (writeItem_wrote x w (by omega)).trans (writeItems_wrote xs _ (by omega))

end

theorem writeItems_spec {xs : List Item} (h : (encodeMany xs).length < 2 ^ 64) {w : Encbuf} (hw : writeItems xs .empty = w) :
    w.size = (encodeMany xs).length ∧ Ordered w.str 0 w.lheads ∧ Encbuf.toBytesFrom w.str 0 w.lheads = encodeMany xs := by
  have hwrote := writeItems_wrote xs .empty h
  rw [hw] at hwrote
  obtain ⟨str, heads, hstr, hheads, hrenders⟩ := hwrote.added
  obtain ⟨ho, he⟩ := hrenders [] [] (by simp [Ordered])
  rw [List.append_nil, List.append_nil] at ho he
  rw [show w.lheads = heads from hheads]
  refine ⟨hwrote.size.trans (Nat.zero_add _), ho, he.trans ?_⟩
  rw [Encbuf.toBytesFrom, List.drop_length, List.append_nil]

/-! ## The outputs -/

theorem flatten_toWriterFrom {str : Bytes} : ∀ {heads : List Listhead} {strpos : Nat}, Ordered str strpos heads →
    (Encbuf.toWriterFrom str strpos heads).flatten = Encbuf.toBytesFrom str strpos heads := by
  intro heads
  induction heads with
  | nil =>
    intro strpos _
    rw [Encbuf.toWriterFrom, Encbuf.toBytesFrom]
    split
    · simp
    · next hend => rw [List.drop_eq_nil_of_le (Nat.le_of_not_lt hend), List.flatten_nil]
  | cons head heads ih =>
    intro strpos ho
    rw [Encbuf.toWriterFrom, Encbuf.toBytesFrom]
    split
    · rw [List.flatten_cons, List.flatten_cons, ih ho.2]
    · next hle =>
      have heq : strpos = head.offset := Nat.le_antisymm ho.1 (Nat.le_of_not_lt hle)
      rw [heq, List.flatten_cons, ih ho.2, Nat.sub_self, List.take_zero, List.nil_append]

namespace EncReader

def rest (r : EncReader) : Bytes :=
  match r.buf with
  | none => []
  | some buf => r.piece.getD [] ++ Encbuf.toBytesFrom buf.str r.strpos (buf.lheads.drop r.lhpos)

/-- A reader within a buffer; a piece that is left is not empty. -/
structure Valid (r : EncReader) : Prop where
  ordered : ∀ buf, r.buf = some buf → Ordered buf.str r.strpos (buf.lheads.drop r.lhpos)
  piece : r.piece ≠ some []
  size : r.rest.length ≤ r.buf.elim 0 (·.size)

variable {r : EncReader}

theorem rest_piece {buf : Encbuf} (h : r.buf = some buf) (piece : Bytes) :
    rest { r with piece := some piece } = piece ++ rest { r with piece := none } := by
  unfold rest
  simp [h]

theorem next_spec (hv : Valid r) :
    (r.next.1 = none ∧ r.rest = []) ∨
      ∃ buf piece r', r.buf = some buf ∧ r'.buf = some buf ∧ r.next = (some piece, r') ∧ piece ≠ [] ∧
        r.rest = piece ++ rest { r' with piece := none } ∧ Ordered buf.str r'.strpos (buf.lheads.drop r'.lhpos) := by
  obtain ⟨buf?, lhpos, strpos, piece?⟩ := r
  cases buf? with
  | none => exact .inl ⟨rfl, rfl⟩
  | some buf =>
    have ho : Ordered buf.str strpos (buf.lheads.drop lhpos) := hv.ordered buf rfl
    cases piece? with
    | some piece => exact .inr ⟨buf, piece, _, rfl, rfl, rfl, fun h => hv.piece (congrArg _ h), rfl, ho⟩
    | none =>
      simp only [next]
      cases hget : buf.lheads[lhpos]? with
      | some head =>
        obtain ⟨hlt, rfl⟩ := List.getElem?_eq_some_iff.1 hget
        have hdrop := List.drop_eq_getElem_cons hlt
        rw [hdrop] at ho
        have hle := ho.2.le_length
        dsimp only
        split
        · next hbefore =>
          refine .inr ⟨buf, _, _, rfl, rfl, rfl, fun hnil => ?_, ?_, ?_⟩
          · have hlen := congrArg List.length hnil
            simp only [List.length_take, List.length_drop, List.length_nil] at hlen
            omega
          · unfold rest
            dsimp only
            rw [hdrop, Encbuf.toBytesFrom, Encbuf.toBytesFrom, Nat.sub_self, List.take_zero]
            rfl
          · rw [hdrop]
            exact ⟨Nat.le_refl _, ho.2⟩
        · next hbefore =>
          have heq : strpos = buf.lheads[lhpos].offset := Nat.le_antisymm ho.1 (Nat.le_of_not_lt hbefore)
          refine .inr ⟨buf, _, _, rfl, rfl, rfl, puthead_ne_nil _ _ _, ?_, heq ▸ ho.2⟩
          unfold rest
          dsimp only
          rw [hdrop, Encbuf.toBytesFrom, ← heq, Nat.sub_self, List.take_zero]
          rfl
      | none =>
        have hnil : buf.lheads.drop lhpos = [] := List.drop_eq_nil_of_le (List.getElem?_eq_none_iff.1 hget)
        dsimp only
        split
        · next hbefore =>
          refine .inr ⟨buf, _, _, rfl, rfl, rfl, fun hempty => ?_, ?_, ?_⟩
          · exact absurd (List.drop_eq_nil_iff.1 hempty) (Nat.not_le_of_lt hbefore)
          · simp [rest, hnil, Encbuf.toBytesFrom]
          · rw [hnil]
            exact Nat.le_refl _
        · next hend =>
          refine .inl ⟨rfl, ?_⟩
          simp [rest, hnil, Encbuf.toBytesFrom, List.drop_eq_nil_of_le (Nat.le_of_not_lt hend)]

/-- What a read gives of the bytes that are left, and what it leaves. -/
def Reads (n : Nat) (b : Bytes) (s : Bytes × Bool × EncReader) : Prop :=
  s.1 = b.take n ∧ s.2.1 = decide (b.length ≤ n) ∧ Valid s.2.2 ∧ s.2.2.rest = b.drop n

theorem read_sat (hv : Valid r) (n : Nat) : (r.read n).Sat (Reads n r.rest) (fun _ => False) False := by
  -- what is in the slice and what is left to read are what there was to read
  refine iterate_sat (I := fun s => Valid s.1 ∧ s.2 ++ s.1.rest = r.rest ∧ s.2.length ≤ n) (μ := fun s => s.1.rest.length)
    (fun s hs => ?_) ⟨hv, rfl, Nat.zero_le n⟩ (Nat.lt_succ_of_le hv.size)
  obtain ⟨r₁, out⟩ := s
  obtain ⟨hv₁, hrest, hlen⟩ := hs
  dsimp only at hv₁ hrest hlen
  unfold readRound
  rcases next_spec hv₁ with ⟨hnone, hend⟩ | ⟨buf, piece, r₂, hbuf₁, hbuf, hnext, hne, hpiece, hordered⟩
  · rcases hnext : r₁.next with ⟨p, r₂⟩
    rw [hnext] at hnone
    cases hnone
    rw [hend, List.append_nil] at hrest
    subst hrest
    refine ⟨(List.take_of_length_le hlen).symm, (decide_eq_true hlen).symm, ⟨fun _ h => ?_, ?_, Nat.zero_le _⟩, ?_⟩
    · cases h
    · simp
    · exact (List.drop_eq_nil_of_le hlen).symm
  · have hfull : r₁.rest.length = piece.length + (rest { r₂ with piece := none }).length := by rw [hpiece, List.length_append]
    have hsize : r₁.rest.length ≤ r₂.buf.elim 0 (·.size) := by
      rw [hbuf, ← hbuf₁]
      exact hv₁.size
    rw [hnext, ← hrest, hpiece]
    dsimp only
    split
    · next hcut =>
      -- the slice ends within this piece
      have hnn : min (n - out.length) piece.length = n - out.length := by omega
      rw [hnn] at hcut ⊢
      have hleft : (rest { r₂ with piece := some (piece.drop (n - out.length)) }) =
          (out ++ (piece ++ rest { r₂ with piece := none })).drop n := by
        rw [rest_piece hbuf, List.drop_append, List.drop_eq_nil_of_le hlen, List.nil_append, List.drop_append_of_le_length hcut.le]
      refine ⟨?_, ?_, ⟨fun b hb => ?_, fun h => ?_, ?_⟩, hleft⟩
      · rw [List.take_append, List.take_of_length_le hlen, List.take_append_of_le_length hcut.le]
      · simp only [List.length_append]
        exact (decide_eq_false (by omega)).symm
      · cases hbuf.symm.trans hb
        exact hordered
      · exact absurd (List.drop_eq_nil_iff.1 (Option.some.inj h)) (Nat.not_le_of_lt hcut)
      · rw [hleft, List.length_drop]
        simp only [List.length_append]
        omega
    · next hall =>
      have hnn : min (n - out.length) piece.length = piece.length := by omega
      have hpos := List.length_pos_iff.2 hne
      rw [hnn, List.take_length]
      refine ⟨⟨⟨fun b hb => ?_, ?_, ?_⟩, ?_, ?_⟩, ?_⟩
      · cases hbuf.symm.trans hb
        exact hordered
      · simp
      · dsimp only
        omega
      · rw [List.append_assoc, ← hpiece, hrest]
      · rw [List.length_append]
        omega
      · dsimp only
        omega

theorem reads_eq : ∀ (sizes : List Nat) {r : EncReader}, Valid r → r.reads sizes = .ok (chunks r.rest sizes) := by
  intro sizes
  induction sizes with
  | nil => exact fun _ => rfl
  | cons n sizes ih =>
    intro r hv
    have hread := read_sat hv n
    unfold reads
    cases hr : r.read n with
    | ok s =>
      rw [hr] at hread
      obtain ⟨b, eof, r'⟩ := s
      obtain ⟨hb, heof, hv', hrest⟩ := hread
      dsimp only at hb heof hv' hrest
      rw [Result.ok_bind]
      dsimp only
      rw [ih hv', Result.ok_bind, hb, heof, hrest, chunks]
    | fault e => exact e.elim
    | unfinished =>
      rw [hr] at hread
      exact hread.elim

end EncReader

/-- `toBytes`, `toWriter` and the reader give the encoding of what was written,
whatever the sizes of the slices it is read with, and `size` is its length.
Lengths are within the `uint64` the headers are made of. -/
theorem outputs_agree (xs : List Item) (h : (encodeMany xs).length < 2 ^ 64) (w : Encbuf) (hw : writeItems xs .empty = w)
    (sizes : List Nat) :
    w.toBytes = encodeMany xs ∧ w.toWriter.flatten = encodeMany xs ∧ w.size = (encodeMany xs).length ∧
      (EncReader.new w).reads sizes = .ok (chunks (encodeMany xs) sizes) := by
  obtain ⟨hsize, hordered, hbytes⟩ := writeItems_spec h hw
  have hrest : (EncReader.new w).rest = encodeMany xs := hbytes
  have hvalid : (EncReader.new w).Valid := by
    refine ⟨fun _ hb => ?_, by simp [EncReader.new], ?_⟩
    · cases hb
      exact hordered
    · rw [hrest, ← hsize]
      exact Nat.le_refl _
  refine ⟨?_, (flatten_toWriterFrom hordered).trans hbytes, hsize, ?_⟩
  · simp [Encbuf.toBytes, hbytes, hsize]
  · rw [EncReader.reads_eq sizes hvalid, hrest]

/-- The list of a string and an empty list, read three bytes at a time. -/
theorem outputs_agree_nested :
    (EncReader.new (writeItems [.list [.bytes [1, 2], .list []]] .empty)).reads [3, 3] =
      .ok [([0xC4, 0x82, 1], false), ([2, 0xC0], true)] :=
  (outputs_agree [.list [.bytes [1, 2], .list []]] (by decide) _ rfl [3, 3]).2.2.2.trans (by decide)

/-- **Different values have different encodings**: the bytes of the buffer determine
the items that were written. -/
theorem toBytes_eq_iff (xs ys : List Item) (hx : (encodeMany xs).length < 2 ^ 64) (hy : (encodeMany ys).length < 2 ^ 64) :
    (writeItems xs .empty).toBytes = (writeItems ys .empty).toBytes ↔ xs = ys := by
  have hbytes : ∀ zs : List Item, (encodeMany zs).length < 2 ^ 64 → (writeItems zs .empty).toBytes = encodeMany zs := by
    intro zs hz
    obtain ⟨hsize, -, henc⟩ := writeItems_spec hz rfl
    simp [Encbuf.toBytes, henc, hsize]
  refine ⟨fun h => ?_, fun h => by rw [h]⟩
  rw [hbytes xs hx, hbytes ys hy] at h
  have hread := Lib.Rlp.decodeMany_encodeMany (encodeMany ys).length xs (h ▸ Nat.le_refl _) hx
  rw [h, Lib.Rlp.decodeMany_encodeMany _ ys (Nat.le_refl _) hy] at hread
  exact (Option.some.inj hread).symm

/-- A list of an empty list, and two empty lists. -/
theorem toBytes_eq_iff_nested : (writeItems [.list [.list []]] .empty).toBytes ≠ (writeItems [.list [], .list []] .empty).toBytes :=
  fun h => absurd ((toBytes_eq_iff _ _ (by decide) (by decide)).1 h) (by simp)

end NdnGeth.Rlp
