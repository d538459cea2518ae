/-
How packets are cut out of a byte stream (`tlvreader` of
`ndn/ndnsuit/readwrite.go`): a block is a type number, a length number and a
value, where a number takes one, three, five or nine bytes.

`tlv_framing`: however the connection delivers the bytes, `fill` returns the
blocks of the stream one by one and leaves the rest as it was; on no stream
does it go outside its buffer, and a block that is too large is refused.

A stream is the list of what the connection delivers at each read; what a
read does not take is there for the next one. The buffer of `fill` is as
long as its capacity, `MaxSize`, and it holds the bytes read so far: writing
`k` bytes at `n` panics unless `n + k ≤ MaxSize`.
-/
import NdnGeth.Lib.Rlp

namespace NdnGeth.Ndn

open Lib.Rlp (Bytes ofBytes)

def MaxSize : Nat := 1300

inductive FillError | eof | unexpectedEOF | oversize | panic
  deriving DecidableEq, Repr

/-- `io.ReadFull` into `n` bytes; `first` while nothing has been read. -/
def readFull (first : Bool) : Nat → List Bytes → Except FillError (Bytes × List Bytes)
  | 0, reads => .ok ([], reads)
  | _ + 1, [] => .error (if first then .eof else .unexpectedEOF)
  | n + 1, b :: reads =>
    if n + 1 ≤ b.length then .ok (b.take (n + 1), b.drop (n + 1) :: reads)
    else
      match readFull (first && b.isEmpty) (n + 1 - b.length) reads with
      | .error e => .error e
      | .ok (bs, reads) => .ok (b ++ bs, reads)

/-- The bytes of a number, by the first one. -/
def varNumSize (b : UInt8) : Nat := if b = 0xFF then 9 else if b = 0xFE then 5 else if b = 0xFD then 3 else 1

/-- `fillVarNum` at `n` in the buffer, with the bytes it reads. -/
def fillVarNum (n : Nat) (reads : List Bytes) : Except FillError (Bytes × List Bytes) :=
  if MaxSize < n + 1 then .error .panic
  else
    match readFull true 1 reads with
    | .error e => .error e
    | .ok (b, reads) =>
      let nn := varNumSize (b.headD 0)
      if MaxSize < n + nn then .error .panic
      else
        match readFull true (nn - 1) reads with
        | .error e => .error e
        | .ok (bs, reads) => .ok (b ++ bs, reads)

def readVarNum : Bytes → Nat
  | [] => 0
  | b :: bs => if varNumSize b = 1 then b.toNat else ofBytes (bs.take (varNumSize b - 1))

/-- `fill`, with what it leaves in the buffer up to the length it returns. -/
def fill (reads : List Bytes) : Except FillError (Bytes × List Bytes) :=
  match fillVarNum 0 reads with
  | .error e => .error e
  | .ok (typ, reads) =>
    match fillVarNum typ.length reads with
    | .error e => .error e
    | .ok (len, reads) =>
      let n := typ.length + len.length
      let l := readVarNum len
      if MaxSize - n < l then .error .oversize
      else if MaxSize < n + l then .error .panic
      else
        match readFull true l reads with
        | .error e => .error e
        | .ok (value, reads) => .ok (typ ++ len ++ value, reads)

/-! ## Reading -/

variable {reads : List Bytes} {n : Nat} {bs rest : Bytes}

theorem readFull_eq (first : Bool) (n : Nat) (reads : List Bytes) :
    (∃ reads', readFull first n reads = .ok (reads.flatten.take n, reads') ∧ reads'.flatten = reads.flatten.drop n ∧
      n ≤ reads.flatten.length) ∨
    (∃ e, readFull first n reads = .error e ∧ e ≠ .panic) ∧ reads.flatten.length < n := by
  induction reads generalizing first n with
  | nil =>
    cases n with
    | zero => exact .inl ⟨[], rfl, rfl, Nat.le_refl _⟩
    | succ n => exact .inr ⟨⟨_, rfl, by cases first <;> simp⟩, Nat.succ_pos n⟩
  | cons b reads ih =>
    cases n with
    | zero => exact .inl ⟨_, rfl, rfl, Nat.zero_le _⟩
    | succ n =>
      rw [readFull, List.flatten_cons]
      split
      · next hle =>
        refine .inl ⟨b.drop (n + 1) :: reads, ?_, ?_, by rw [List.length_append]; omega⟩
        · rw [List.take_append_of_le_length hle]
        · rw [List.flatten_cons, List.drop_append_of_le_length hle]
      · next hlt =>
        rw [List.length_append]
        obtain ⟨reads', heq, hrest, hle⟩ | ⟨⟨e, heq, he⟩, hlt'⟩ := ih (first && b.isEmpty) (n + 1 - b.length)
        · refine .inl ⟨reads', ?_, ?_, by omega⟩
          · rw [heq, List.take_append, List.take_of_length_le (Nat.le_of_not_le hlt)]
          · rw [hrest, List.drop_append, List.drop_eq_nil_of_le (Nat.le_of_not_le hlt), List.nil_append]
        · refine .inr ⟨⟨e, ?_, he⟩, by omega⟩
          rw [heq]

theorem readFull_append (first : Bool) (h : reads.flatten = bs ++ rest) :
    ∃ reads', readFull first bs.length reads = .ok (bs, reads') ∧ reads'.flatten = rest := by
  obtain ⟨reads', heq, hrest, -⟩ | ⟨-, hlt⟩ := readFull_eq first bs.length reads
  · rw [h, List.take_left] at heq
    rw [h, List.drop_left] at hrest
    exact ⟨reads', heq, hrest⟩
  · rw [h, List.length_append] at hlt
    omega

/-! ## Numbers -/

/-- The bytes of a number, in any of the four forms. -/
inductive VarNum : Bytes → Nat → Prop
  | one {b : UInt8} (h : varNumSize b = 1) : VarNum [b] b.toNat
  | more {b : UInt8} {bs : Bytes} (h : varNumSize b ≠ 1) (hlen : bs.length = varNumSize b - 1) : VarNum (b :: bs) (ofBytes bs)

theorem varNumSize_cases (b : UInt8) : varNumSize b = 1 ∨ varNumSize b = 3 ∨ varNumSize b = 5 ∨ varNumSize b = 9 := by
  unfold varNumSize
  split
  · simp
  · split
    · simp
    · split <;> simp

variable {typ len : Bytes} {v : Nat}

theorem VarNum.length (h : VarNum bs v) : bs ≠ [] ∧ bs.length = varNumSize (bs.headD 0) ∧ bs.length ≤ 9 := by
  cases h with
  | one h => exact ⟨by simp, h.symm, by simp⟩
  | @more b bs h hlen =>
    have := varNumSize_cases b
    refine ⟨by simp, ?_, ?_⟩
    · rw [List.length_cons, hlen, List.headD_cons]
      omega
    · rw [List.length_cons]
      omega

theorem VarNum.read (h : VarNum bs v) (rest : Bytes) : readVarNum (bs ++ rest) = v := by
  cases h with
  | one h => rw [List.cons_append, readVarNum, if_pos h]
  | @more b bs h hlen => rw [List.cons_append, readVarNum, if_neg h, ← hlen, List.take_left]

theorem VarNum.drop (h : VarNum bs v) (rest : Bytes) : (bs ++ rest).drop (varNumSize ((bs ++ rest).headD 0)) = rest := by
  obtain ⟨hne, hlen, -⟩ := h.length
  obtain ⟨b, tl, rfl⟩ := List.exists_cons_of_ne_nil hne
  exact List.drop_left' hlen

theorem fillVarNum_first {b : UInt8} {reads₁ : List Bytes} (hn : n ≤ 9) (h : readFull true 1 reads = .ok ([b], reads₁)) :
    fillVarNum n reads =
      match readFull true (varNumSize b - 1) reads₁ with
      | .error e => .error e
      | .ok (bs, reads) => .ok (b :: bs, reads) := by
  have hsize := varNumSize_cases b
  have hone : ¬MaxSize < n + 1 := by
    unfold MaxSize
    omega
  have hall : ¬MaxSize < n + varNumSize b := by
    unfold MaxSize
    omega
  simp only [fillVarNum, hone, if_false, h, List.headD_cons, hall, List.singleton_append]

theorem fillVarNum_append (h : VarNum bs v) (hn : n ≤ 9) (hreads : reads.flatten = bs ++ rest) :
    ∃ reads', fillVarNum n reads = .ok (bs, reads') ∧ reads'.flatten = rest := by
  obtain ⟨hne, hlen, hle⟩ := h.length
  obtain ⟨b, tl, rfl⟩ := List.exists_cons_of_ne_nil hne
  obtain ⟨reads₁, heq₁, hrest₁⟩ := readFull_append true (show reads.flatten = [b] ++ (tl ++ rest) from hreads)
  obtain ⟨reads₂, heq₂, hrest₂⟩ := readFull_append true hrest₁
  refine ⟨reads₂, ?_, hrest₂⟩
  have hnn : varNumSize b - 1 = tl.length := by
    rw [List.headD_cons, List.length_cons] at hlen
    omega
  rw [fillVarNum_first hn heq₁, hnn, heq₂]

theorem fillVarNum_cases (hn : n ≤ 9) (reads : List Bytes) :
    (∃ bs v reads', fillVarNum n reads = .ok (bs, reads') ∧ VarNum bs v) ∨
      ∃ e, fillVarNum n reads = .error e ∧ e ≠ .panic := by
  obtain ⟨reads₁, heq₁, -, hle⟩ | ⟨⟨e, heq, he⟩, -⟩ := readFull_eq true 1 reads
  · obtain ⟨b, tl, hb⟩ := List.exists_cons_of_length_pos (Nat.lt_of_lt_of_le Nat.zero_lt_one hle)
    rw [hb] at heq₁
    rw [fillVarNum_first hn heq₁]
    obtain ⟨reads₂, heq₂, -, hle₂⟩ | ⟨⟨e, heq, he⟩, -⟩ := readFull_eq true (varNumSize b - 1) reads₁
    · rw [heq₂]
      have hlen : (reads₁.flatten.take (varNumSize b - 1)).length = varNumSize b - 1 := List.length_take_of_le hle₂
      by_cases hone : varNumSize b = 1
      · refine .inl ⟨_, b.toNat, reads₂, rfl, ?_⟩
        rw [hone]
        exact .one hone
      · exact .inl ⟨_, _, reads₂, rfl, .more hone hlen⟩
    · rw [heq]
      exact .inr ⟨e, rfl, he⟩
  · refine .inr ⟨e, ?_, he⟩
    have hone : ¬MaxSize < n + 1 := by
      unfold MaxSize
      omega
    simp only [fillVarNum, hone, if_false, heq]

/-! ## Blocks -/

/-- A block: its type, its length and its value. -/
def IsBlock (bs : Bytes) : Prop :=
  ∃ typ len value t, VarNum typ t ∧ VarNum len value.length ∧ bs = typ ++ len ++ value

theorem VarNum.header_le {t l : Nat} (ht : VarNum typ t) (hl : VarNum len l) :
    typ.length + len.length ≤ MaxSize := by
  have ht9 := ht.length.2.2
  have hl9 := hl.length.2.2
  unfold MaxSize
  omega

theorem fill_header {t l : Nat} (ht : VarNum typ t) (hl : VarNum len l)
    (hreads : reads.flatten = typ ++ (len ++ rest)) :
    ∃ reads', reads'.flatten = rest ∧ fill reads =
      if MaxSize - (typ.length + len.length) < l then .error .oversize
      else
        match readFull true l reads' with
        | .error e => .error e
        | .ok (value, reads) => .ok (typ ++ len ++ value, reads) := by
  obtain ⟨reads₁, heq₁, hrest₁⟩ := fillVarNum_append ht (Nat.zero_le 9) hreads
  obtain ⟨reads₂, heq₂, hrest₂⟩ := fillVarNum_append hl ht.length.2.2 hrest₁
  refine ⟨reads₂, hrest₂, ?_⟩
  have hread : readVarNum len = l := List.append_nil len ▸ hl.read []
  have hle := ht.header_le hl
  simp only [fill, heq₁, heq₂, hread]
  split
  · rfl
  · rw [if_neg (by omega)]

theorem fill_block (hb : IsBlock bs) (hsize : bs.length ≤ MaxSize) (hreads : reads.flatten = bs ++ rest) :
    ∃ reads', fill reads = .ok (bs, reads') ∧ reads'.flatten = rest := by
  obtain ⟨typ, len, value, t, ht, hl, rfl⟩ := hb
  rw [List.append_assoc, List.append_assoc] at hreads
  obtain ⟨reads', hrest, heq⟩ := fill_header ht hl hreads
  obtain ⟨reads'', hread, hrest''⟩ := readFull_append true hrest
  rw [List.length_append, List.length_append] at hsize
  rw [if_neg (by omega), hread] at heq
  exact ⟨reads'', heq, hrest''⟩

theorem fill_ne_panic (reads : List Bytes) : fill reads ≠ .error .panic := by
  unfold fill
  obtain ⟨typ, t, reads₁, heq₁, ht⟩ | ⟨e, heq, he⟩ := fillVarNum_cases (Nat.zero_le 9) reads
  · simp only [heq₁]
    obtain ⟨len, l, reads₂, heq₂, hl⟩ | ⟨e, heq, he⟩ := fillVarNum_cases ht.length.2.2 reads₁
    · simp only [heq₂]
      have hle := ht.header_le hl
      split
      · simp
      · rw [if_neg (by omega)]
        obtain ⟨reads₃, heq₃, -⟩ | ⟨⟨e, heq, he⟩, -⟩ := readFull_eq true (readVarNum len) reads₂
        · simp [heq₃]
        · simp [heq, he]
    · simp [heq, he]
  · simp [heq, he]

/-- `fill` again and again, as often as there are blocks. -/
def fills : Nat → List Bytes → Except FillError (List Bytes × List Bytes)
  | 0, reads => .ok ([], reads)
  | n + 1, reads =>
    match fill reads with
    | .error e => .error e
    | .ok (b, reads) =>
      match fills n reads with
      | .error e => .error e
      | .ok (bs, reads) => .ok (b :: bs, reads)

theorem fills_blocks {blocks : List Bytes} (hblocks : ∀ b ∈ blocks, IsBlock b ∧ b.length ≤ MaxSize)
    (hreads : reads.flatten = blocks.flatten ++ rest) :
    ∃ reads', fills blocks.length reads = .ok (blocks, reads') ∧ reads'.flatten = rest := by
  induction blocks generalizing reads with
  | nil => exact ⟨reads, rfl, hreads⟩
  | cons b blocks ih =>
    obtain ⟨hb, hsize⟩ := hblocks b List.mem_cons_self
    rw [List.flatten_cons, List.append_assoc] at hreads
    obtain ⟨reads₁, heq₁, hrest₁⟩ := fill_block hb hsize hreads
    obtain ⟨reads₂, heq₂, hrest₂⟩ := ih (fun c hc => hblocks c (List.mem_cons_of_mem b hc)) hrest₁
    exact ⟨reads₂, by simp only [List.length_cons, fills, heq₁, heq₂], hrest₂⟩

theorem fill_oversize {t l : Nat} (ht : VarNum typ t) (hl : VarNum len l)
    (hbig : MaxSize < typ.length + len.length + l) (hreads : reads.flatten = typ ++ len ++ rest) :
    fill reads = .error .oversize := by
  rw [List.append_assoc] at hreads
  obtain ⟨reads', -, heq⟩ := fill_header ht hl hreads
  have hle := ht.header_le hl
  rw [heq, if_pos (by omega)]

/-- **Framing.** A stream that starts with blocks of at most `MaxSize` bytes
is read as these blocks, in order, and what follows them is left; on no
stream does `fill` go outside its buffer; and where the next block is larger
than the buffer, it says so. -/
theorem tlv_framing (reads : List Bytes) :
    (∀ blocks rest, (∀ b ∈ blocks, IsBlock b ∧ b.length ≤ MaxSize) → reads.flatten = blocks.flatten ++ rest →
      ∃ reads', fills blocks.length reads = .ok (blocks, reads') ∧ reads'.flatten = rest) ∧
    fill reads ≠ .error .panic ∧
    ∀ typ len rest t l, VarNum typ t → VarNum len l → MaxSize < typ.length + len.length + l →
      reads.flatten = typ ++ len ++ rest → fill reads = .error .oversize :=
  ⟨fun _ _ => fills_blocks, fill_ne_panic reads, fun _ _ _ _ _ => fill_oversize⟩

/-- Two blocks in three reads, the second with its length in three bytes. -/
example : fills 2 [[5, 1], [7, 6, 0xFD, 0], [1, 9, 4]] = .ok ([[5, 1, 7], [6, 0xFD, 0, 1, 9]], [[4]]) := by
  rfl

end NdnGeth.Ndn
