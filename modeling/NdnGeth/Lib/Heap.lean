/-
The binary heap of Go's `container/heap`, over a list: `up`, `down`,
`init`, `push` and `pop` as the package computes them, for any `less`.

The order comes from a key: `less` may be strict or not, as long as a true
answer says the first key is at most the second and a false one the
opposite (`Agrees`). The package asks for a strict order; with ties the two
kinds of `less` arrange the list differently, and both keep the heap.
-/
import Mathlib.Order.Lattice
import Mathlib.Data.List.Basic
import Mathlib.Data.List.Perm.Basic

namespace Lib.Heap

variable {α : Type*} [Inhabited α]

/-- The element at a position. -/
def get (l : List α) (i : Nat) : α := l.getD i default

/-- `h.Swap(i, j)`. -/
def swap (l : List α) (i j : Nat) : List α := (l.set i (get l j)).set j (get l i)

/-- The parent of a position; position 0 is its own. -/
def parent (j : Nat) : Nat := (j - 1) / 2

/-- `up`: exchange an element with its parent while it is less. -/
def up (less : α → α → Bool) : (fuel : Nat) → List α → Nat → List α
  | 0, l, _ => l
  | fuel + 1, l, j =>
    let i := parent j
    if i = j ∨ less (get l j) (get l i) = false then l else up less fuel (swap l i j) i

/-- The child `down` compares with: the right one where it exists and is less. -/
def child (less : α → α → Bool) (l : List α) (i n : Nat) : Nat :=
  if 2 * i + 2 < n ∧ less (get l (2 * i + 2)) (get l (2 * i + 1)) = true then 2 * i + 2 else 2 * i + 1

/-- `down`: exchange an element with its lesser child while that is less. -/
def down (less : α → α → Bool) : (fuel : Nat) → List α → Nat → Nat → List α
  | 0, l, _, _ => l
  | fuel + 1, l, i, n =>
    if n ≤ 2 * i + 1 then l
    else
      let j := child less l i n
      if less (get l j) (get l i) = false then l else down less fuel (swap l i j) j n

/-- The loop of `Init`, from position `i - 1` down to 0. -/
def initFrom (less : α → α → Bool) : Nat → List α → List α
  | 0, l => l
  | i + 1, l => initFrom less i (down less l.length l i l.length)

def init (less : α → α → Bool) (l : List α) : List α := initFrom less (l.length / 2) l

def push (less : α → α → Bool) (l : List α) (x : α) : List α := up less (l.length + 1) (l ++ [x]) l.length

/-- `heap.Pop`; on an empty heap the package panics. -/
def pop (less : α → α → Bool) (l : List α) : Option (α × List α) :=
  if l = [] then none
  else
    let n := l.length - 1
    let l' := down less n (swap l 0 n) 0 n
    some (get l' n, l'.take n)

/-- Whether `down` moves the element at a position. -/
def sinks (less : α → α → Bool) (l : List α) (i : Nat) : Bool :=
  decide (2 * i + 1 < l.length) && less (get l (child less l i l.length)) (get l i)

def fix (less : α → α → Bool) (l : List α) (i : Nat) : List α :=
  if sinks less l i then down less l.length l i l.length else up less (l.length + 1) l i

/-! ## Positions -/

@[simp] theorem length_swap (l : List α) (i j : Nat) : (swap l i j).length = l.length := by simp [swap]

variable {l : List α}

theorem get_swap {i j : Nat} (hi : i < l.length) (hj : j < l.length) (k : Nat) :
    get (swap l i j) k = if k = j then get l i else if k = i then get l j else get l k := by
  simp only [get, swap, List.getD_eq_getElem?_getD, List.getElem?_set, List.length_set]
  by_cases hkj : k = j
  · rw [if_pos hkj.symm, if_pos (by omega), if_pos hkj, Option.getD_some]
  · rw [if_neg (fun h => hkj h.symm), if_neg hkj]
    by_cases hki : k = i
    · rw [if_pos hki.symm, if_pos hi, if_pos hki, Option.getD_some]
    · rw [if_neg (fun h => hki h.symm), if_neg hki]

theorem swap_perm {i j : Nat} (hi : i < l.length) (hj : j < l.length) : (swap l i j).Perm l := by
  have hgi : get l i = l[i] := by simp [get, List.getD_eq_getElem?_getD, hi]
  have hgj : get l j = l[j] := by simp [get, List.getD_eq_getElem?_getD, hj]
  rw [swap, hgi, hgj]
  exact List.set_set_perm hi hj

theorem parent_lt {j : Nat} (h : 0 < j) : parent j < j := by unfold parent; omega

theorem child_spec (less : α → α → Bool) (l : List α) {i n : Nat} (h : 2 * i + 1 < n) :
    child less l i n < n ∧ parent (child less l i n) = i ∧ i < child less l i n := by
  unfold child parent
  split <;> omega

theorem up_perm (less : α → α → Bool) : ∀ (fuel : Nat) (l : List α) (j : Nat), j < l.length →
    (up less fuel l j).Perm l := by
  intro fuel
  induction fuel with
  | zero => intro l j _; exact List.Perm.refl l
  | succ fuel ih =>
    intro l j hj
    have hp : parent j ≤ j := by unfold parent; omega
    simp only [up]
    split
    · exact List.Perm.refl l
    · exact (ih _ _ (by simp; omega)).trans (swap_perm (by omega) hj)

theorem down_perm (less : α → α → Bool) : ∀ (fuel : Nat) (l : List α) (i n : Nat), n ≤ l.length →
    (down less fuel l i n).Perm l := by
  intro fuel
  induction fuel with
  | zero => intro l i n _; exact List.Perm.refl l
  | succ fuel ih =>
    intro l i n hn
    simp only [down]
    split
    · exact List.Perm.refl l
    · next hlt =>
      obtain ⟨hc, _, hic⟩ := child_spec less l (by omega : 2 * i + 1 < n)
      split
      · exact List.Perm.refl l
      · exact (ih _ _ _ (by simpa using hn)).trans (swap_perm (by omega) (by omega))

/-- `down` over the first `n` positions leaves the rest alone. -/
theorem get_down_ge (less : α → α → Bool) : ∀ (fuel : Nat) (l : List α) (i n k : Nat), n ≤ l.length → n ≤ k →
    get (down less fuel l i n) k = get l k := by
  intro fuel
  induction fuel with
  | zero => intros; rfl
  | succ fuel ih =>
    intro l i n k hn hk
    simp only [down]
    split
    · rfl
    · next hlt =>
      obtain ⟨hc, _, hic⟩ := child_spec less l (by omega : 2 * i + 1 < n)
      split
      · rfl
      · rw [ih _ _ _ _ (by simpa using hn) hk, get_swap (by omega) (by omega), if_neg (by omega), if_neg (by omega)]

/-! ## The order -/

variable {β : Type*} [LinearOrder β]

/-- `less` answers by `key`, ties either way. -/
structure Agrees (less : α → α → Bool) (key : α → β) : Prop where
  le_of_less : ∀ {a b}, less a b = true → key a ≤ key b
  le_of_not_less : ∀ {a b}, less a b = false → key b ≤ key a

/-- Among the first `n` positions, every child at or below position `i₀`'s
level (its parent is at least `i₀`) is at least its parent. -/
def OrderedFrom (key : α → β) (l : List α) (i₀ n : Nat) : Prop :=
  ∀ k, 0 < k → k < n → i₀ ≤ parent k → key (get l (parent k)) ≤ key (get l k)

/-- The whole list is a heap. -/
def IsHeap (key : α → β) (l : List α) : Prop := OrderedFrom key l 0 l.length

variable {less : α → α → Bool} {key : α → β}

/-- The root of a heap is a least element. -/
theorem IsHeap.root_le (h : IsHeap key l) : ∀ k, k < l.length → key (get l 0) ≤ key (get l k) := by
  intro k
  induction k using Nat.strongRecOn with
  | ind k ih =>
    intro hk
    rcases Nat.eq_zero_or_pos k with rfl | hpos
    · exact le_rfl
    · have hp := parent_lt hpos
      exact (ih _ hp (by omega)).trans (h k hpos hk (Nat.zero_le _))

/-- Ordered but for the edge into `j`, whose removal is harmless: the state
of `up` at `j`. -/
structure UpReady (key : α → β) (l : List α) (j : Nat) : Prop where
  except : ∀ k, 0 < k → k < l.length → k ≠ j → key (get l (parent k)) ≤ key (get l k)
  across : 0 < j → ∀ k, 0 < k → k < l.length → parent k = j → key (get l (parent j)) ≤ key (get l k)

theorem UpReady.swap {j : Nat} (h : UpReady key l j) (hj : j < l.length) (hpos : 0 < j)
    (hle : key (get l j) ≤ key (get l (parent j))) : UpReady key (swap l (parent j) j) (parent j) := by
  have hp := parent_lt hpos
  have hpl : parent j < l.length := by omega
  refine ⟨fun k hk hkl hne => ?_, fun hpp k hk hkl hkp => ?_⟩
  · rw [length_swap] at hkl
    rw [get_swap hpl hj, get_swap hpl hj]
    have hkk := parent_lt hk
    by_cases hkj : k = j
    · subst hkj
      rw [if_neg (by omega), if_pos rfl, if_pos rfl]
      exact hle
    · rw [if_neg hkj, if_neg hne]
      by_cases hpk : parent k = j
      · rw [if_pos hpk]
        exact h.across hpos k hk hkl hpk
      · rw [if_neg hpk]
        by_cases hpp : parent k = parent j
        · rw [if_pos hpp]
          exact hle.trans (hpp ▸ h.except k hk hkl hkj)
        · rw [if_neg hpp]
          exact h.except k hk hkl hkj
  · rw [length_swap] at hkl
    have hgrand := parent_lt hpp
    have hup := h.except (parent j) hpp hpl (by omega)
    have hkk := parent_lt hk
    rw [get_swap hpl hj, get_swap hpl hj, if_neg (by omega), if_neg (by omega)]
    by_cases hkj : k = j
    · rw [if_pos hkj]
      exact hup
    · rw [if_neg hkj, if_neg (by omega)]
      exact hup.trans (hkp ▸ h.except k hk hkl hkj)

theorem up_isHeap (ha : Agrees less key) : ∀ (fuel : Nat) (l : List α) (j : Nat), j < l.length → j < fuel →
    UpReady key l j → IsHeap key (up less fuel l j) := by
  intro fuel
  induction fuel with
  | zero => intro l j _ h; omega
  | succ fuel ih =>
    intro l j hj hf hr
    simp only [up]
    split
    · next hstop =>
      intro k hk hkl _
      by_cases hkj : k = j
      · subst hkj
        have := parent_lt hk
        exact ha.le_of_not_less (hstop.resolve_left (by omega))
      · exact hr.except k hk hkl hkj
    · next hgo =>
      have hpos : 0 < j := by
        rcases Nat.eq_zero_or_pos j with rfl | h
        · exact absurd (.inl rfl) hgo
        · exact h
      have hp := parent_lt hpos
      have hless : key (get l j) ≤ key (get l (parent j)) := ha.le_of_less (by
        by_contra h
        exact hgo (.inr (by simpa using h)))
      exact ih _ _ (by simp; omega) (by omega) (hr.swap hj hpos hless)

/-- Ordered from `i₀` but for the edges out of `i`: the state of `down` at `i`. -/
structure DownReady (key : α → β) (l : List α) (i₀ i n : Nat) : Prop where
  except : ∀ k, 0 < k → k < n → i₀ ≤ parent k → parent k ≠ i → key (get l (parent k)) ≤ key (get l k)
  across : 0 < i → i₀ ≤ parent i → ∀ k, 0 < k → k < n → parent k = i → key (get l (parent i)) ≤ key (get l k)

theorem child_le (ha : Agrees less key) (l : List α) {i n k : Nat} (hk : 0 < k) (hkn : k < n) (hp : parent k = i) :
    key (get l (child less l i n)) ≤ key (get l k) := by
  have : k = 2 * i + 1 ∨ k = 2 * i + 2 := by unfold parent at hp; omega
  unfold child
  split
  · next h =>
    rcases this with rfl | rfl
    · exact ha.le_of_less h.2
    · exact le_rfl
  · next h =>
    rcases this with rfl | rfl
    · exact le_rfl
    · exact ha.le_of_not_less (by
        by_contra hne
        exact h ⟨hkn, by simpa using hne⟩)

theorem DownReady.swap (ha : Agrees less key) {i₀ i n : Nat} (h : DownReady key l i₀ i n)
    (hn : n ≤ l.length) (hi : i₀ ≤ i) (hlt : 2 * i + 1 < n)
    (hle : key (get l (child less l i n)) ≤ key (get l i)) :
    DownReady key (swap l i (child less l i n)) i₀ (child less l i n) n := by
  obtain ⟨hc, hpc, hic⟩ := child_spec less l hlt
  have hmin := fun k hk hkn hp => child_le ha l (i := i) (n := n) (k := k) hk hkn hp
  generalize child less l i n = c at *
  have hil : i < l.length := by omega
  have hcl : c < l.length := by omega
  refine ⟨fun k hk hkn hki hne => ?_, fun hcpos hpi k hk hkn hkp => ?_⟩
  · have hkk := parent_lt hk
    rw [get_swap hil hcl, get_swap hil hcl, if_neg hne]
    by_cases hkc : k = c
    · subst hkc
      rw [if_pos hpc, if_pos rfl]
      exact hle
    · rw [if_neg hkc]
      by_cases hpk : parent k = i
      · rw [if_pos hpk, if_neg (by omega)]
        exact hmin k hk hkn hpk
      · rw [if_neg hpk]
        by_cases hkeq : k = i
        · subst hkeq
          rw [if_pos rfl]
          exact h.across hk hki c (by omega) hc hpc
        · rw [if_neg hkeq]
          exact h.except k hk hkn hki hpk
  · have hkk := parent_lt hk
    rw [get_swap hil hcl, get_swap hil hcl, hpc, if_neg (by omega), if_pos rfl, if_neg (by omega), if_neg (by omega)]
    exact hkp ▸ h.except k hk hkn (by omega) (by omega)

theorem down_ordered (ha : Agrees less key) : ∀ (fuel : Nat) (l : List α) (i₀ i n : Nat), n ≤ l.length →
    i₀ ≤ i → n ≤ i + fuel → DownReady key l i₀ i n → OrderedFrom key (down less fuel l i n) i₀ n := by
  intro fuel
  induction fuel with
  | zero =>
    intro l i₀ i n _ _ hf hr k hk hkn hki
    have := parent_lt hk
    exact hr.except k hk hkn hki (by omega)
  | succ fuel ih =>
    intro l i₀ i n hn hi hf hr
    simp only [down]
    split
    · next hlt =>
      intro k hk hkn hki
      exact hr.except k hk hkn hki (by unfold parent; omega)
    · next hlt =>
      obtain ⟨hc, hpc, hic⟩ := child_spec less l (by omega : 2 * i + 1 < n)
      split
      · next hstop =>
        intro k hk hkn hki
        by_cases hp : parent k = i
        · rw [hp]
          exact (ha.le_of_not_less hstop).trans (child_le ha l hk hkn hp)
        · exact hr.except k hk hkn hki hp
      · next hgo =>
        have hle := ha.le_of_less (by simpa using hgo)
        exact ih _ _ _ _ (by simpa using hn) (by omega) (by omega) (hr.swap ha hn hi (by omega) hle)

/-! ## The operations -/

theorem get_take {i n : Nat} (h : i < n) : get (l.take n) i = get l i := by
  simp [get, List.getD_eq_getElem?_getD, h]

/-- A list is its part before the last place and the element there. -/
theorem perm_cons_take {n : Nat} (h : l.length = n + 1) : l.Perm (get l n :: l.take n) := by
  have hsplit : l = l.take n ++ [get l n] := by
    conv_lhs => rw [← List.take_append_drop n l]
    congr 1
    rw [List.drop_eq_getElem_cons (by omega), List.drop_eq_nil_of_le (by omega)]
    simp [get, List.getD_eq_getElem?_getD, List.getElem?_eq_getElem (by omega : n < l.length)]
  conv_lhs => rw [hsplit]
  exact List.perm_append_singleton (get l n) (l.take n)

theorem initFrom_spec (ha : Agrees less key) : ∀ (i : Nat) (l : List α), OrderedFrom key l i l.length →
    (initFrom less i l).Perm l ∧ IsHeap key (initFrom less i l) := by
  intro i
  induction i with
  | zero => intro l h; exact ⟨List.Perm.refl l, h⟩
  | succ i ih =>
    intro l h
    have hperm := down_perm less l.length l i l.length (Nat.le_refl _)
    have hord := down_ordered ha l.length l i i l.length (Nat.le_refl _) (Nat.le_refl _) (by omega)
      ⟨fun k hk hkl hki hne => h k hk hkl (by omega), fun hi hle => absurd (parent_lt hi) (by omega)⟩
    obtain ⟨hp, hh⟩ := ih (down less l.length l i l.length) (by rw [hperm.length_eq]; exact hord)
    exact ⟨hp.trans hperm, hh⟩

/-- `Init` makes a heap of the same elements. -/
theorem init_spec (ha : Agrees less key) (l : List α) : (init less l).Perm l ∧ IsHeap key (init less l) :=
  initFrom_spec ha _ l fun k hk hkl hp => by unfold parent at hp; omega

/-- `Push` adds the element and keeps the heap. -/
theorem push_spec (ha : Agrees less key) (h : IsHeap key l) (x : α) :
    (push less l x).Perm (x :: l) ∧ IsHeap key (push less l x) := by
  have hget : ∀ k, k < l.length → get (l ++ [x]) k = get l k := fun k hk => by
    simp [get, List.getD_eq_getElem?_getD, List.getElem?_append_left hk]
  refine ⟨(up_perm less _ _ _ (by simp)).trans (List.perm_append_singleton x l),
    up_isHeap ha _ _ _ (by simp) (by omega) ⟨fun k hk hkl hne => ?_, fun _ k hk hkl hp => ?_⟩⟩
  · have hkk := parent_lt hk
    simp only [List.length_append, List.length_singleton] at hkl
    rw [hget _ (by omega), hget _ (by omega)]
    exact h k hk (by omega) (Nat.zero_le _)
  · have hkk := parent_lt hk
    simp only [List.length_append, List.length_singleton] at hkl
    omega

theorem length_of_pop {less : α → α → Bool} {l l' : List α} {x : α} (h : pop less l = some (x, l')) :
    l'.length < l.length := by
  simp only [pop, Option.ite_none_left_eq_some, Option.some.injEq, Prod.mk.injEq] at h
  obtain ⟨hne, -, rfl⟩ := h
  have := List.length_pos_iff.2 hne
  rw [List.length_take]
  omega

/-- `Pop` takes a least element out and keeps the heap. -/
theorem pop_spec (ha : Agrees less key) (h : IsHeap key l) (hne : l ≠ []) :
    ∃ x l', pop less l = some (x, l') ∧ l.Perm (x :: l') ∧ IsHeap key l' ∧ ∀ y ∈ l, key x ≤ key y := by
  have hlen : 0 < l.length := List.length_pos_iff.mpr hne
  generalize hn : l.length - 1 = n
  have hsw := swap_perm (l := l) (i := 0) (j := n) hlen (by omega)
  have hdp := down_perm less n (swap l 0 n) 0 n (by simp; omega)
  have hlast : get (down less n (swap l 0 n) 0 n) n = get l 0 := by
    rw [get_down_ge less _ _ _ _ _ (by simp; omega) (Nat.le_refl _), get_swap hlen (by omega), if_pos rfl]
  generalize hd : down less n (swap l 0 n) 0 n = d at hdp hlast
  have hdl : d.length = n + 1 := by rw [hdp.length_eq, length_swap]; omega
  refine ⟨get l 0, d.take n, by simp [pop, hne, hn, hd, hlast], ?_, ?_, ?_⟩
  · exact (hsw.symm.trans hdp.symm).trans (hlast ▸ perm_cons_take hdl)
  · have hord := down_ordered ha n (swap l 0 n) 0 0 n (by simp; omega) (Nat.le_refl _) (by omega)
      ⟨fun k hk hkn _ hp => ?_, fun h0 => absurd h0 (by omega)⟩
    · rw [hd] at hord
      intro k hk hkl _
      have hkk := parent_lt hk
      have hkn : k < n := by simp at hkl; omega
      rw [get_take (by omega), get_take hkn]
      exact hord k hk hkn (Nat.zero_le _)
    · have hkk := parent_lt hk
      rw [get_swap hlen (by omega), get_swap hlen (by omega), if_neg (by omega), if_neg hp, if_neg (by omega),
        if_neg (by omega)]
      exact h k hk (by omega) (Nat.zero_le _)
  · intro y hy
    obtain ⟨k, hk, rfl⟩ := List.getElem_of_mem hy
    have := h.root_le k hk
    simpa [get, List.getD_eq_getElem?_getD, hk] using this

/-- `Pop` returns the root. -/
theorem pop_fst {l l' : List α} {x : α} (h : pop less l = some (x, l')) : x = get l 0 := by
  simp only [pop, Option.ite_none_left_eq_some, Option.some.injEq, Prod.mk.injEq] at h
  obtain ⟨hne, rfl, -⟩ := h
  have hlen := List.length_pos_iff.2 hne
  rw [get_down_ge less _ _ _ _ _ (by simp) (Nat.le_refl _), get_swap hlen (by omega), if_pos rfl]

/-- `Fix` after one element was replaced. -/
theorem fix_spec (ha : Agrees less key) {l l' : List α} (h : IsHeap key l) {i : Nat} (hi : i < l.length)
    (hlen : l'.length = l.length) (hget : ∀ k, k ≠ i → get l' k = get l k) :
    (fix less l' i).Perm l' ∧ IsHeap key (fix less l' i) := by
  have hold : ∀ k, 0 < k → k < l'.length → k ≠ i → parent k ≠ i → key (get l' (parent k)) ≤ key (get l' k) := by
    intro k hk hkl hki hpi
    rw [hget _ hki, hget _ hpi]
    exact h k hk (by omega) (Nat.zero_le _)
  -- over the place that changed, from its parent to its children
  have hacross : 0 < i → ∀ k, 0 < k → k < l'.length → parent k = i → key (get l' (parent i)) ≤ key (get l' k) := by
    intro hpos k hk hkl hp
    have hpi := parent_lt hpos
    have hkk := parent_lt hk
    rw [hget _ (by omega), hget k (by omega)]
    refine (h i hpos hi (Nat.zero_le _)).trans ?_
    have hchild := h k hk (by omega) (Nat.zero_le _)
    rwa [hp] at hchild
  unfold fix
  split
  · next hsinks =>
    simp only [sinks, Bool.and_eq_true, decide_eq_true_eq] at hsinks
    have hperm := down_perm less l'.length l' i l'.length (Nat.le_refl _)
    have hord := down_ordered ha l'.length l' 0 i l'.length (Nat.le_refl _) (Nat.zero_le _) (by omega)
      ⟨fun k hk hkl _ hp => ?_, fun hpos _ => hacross hpos⟩
    · exact ⟨hperm, by unfold IsHeap; rw [hperm.length_eq]; exact hord⟩
    · by_cases hki : k = i
      · subst hki
        obtain ⟨hc, hpc, hic⟩ := child_spec less l' hsinks.1
        exact (hacross hk _ (by omega) hc hpc).trans (ha.le_of_less hsinks.2)
      · exact hold k hk hkl hki hp
  · next hsinks =>
    refine ⟨up_perm less _ _ _ (by omega), up_isHeap ha _ _ _ (by omega) (by omega) ⟨fun k hk hkl hki => ?_, hacross⟩⟩
    by_cases hp : parent k = i
    · have hlt : 2 * i + 1 < l'.length := by unfold parent at hp; omega
      have hless : less (get l' (child less l' i l'.length)) (get l' i) = false := by
        simpa [sinks, hlt] using hsinks
      rw [hp]
      exact (ha.le_of_not_less hless).trans (child_le ha l' hk hkl hp)
    · exact hold k hk hkl hki hp

/-- `Fix` after the root was replaced. -/
theorem fix_root_spec (ha : Agrees less key) {x y : α} (h : IsHeap key (x :: l)) :
    (fix less (y :: l) 0).Perm (y :: l) ∧ IsHeap key (fix less (y :: l) 0) := by
  refine fix_spec ha h (Nat.succ_pos _) rfl fun k hk => ?_
  obtain ⟨k, rfl⟩ := Nat.exists_eq_succ_of_ne_zero hk
  rfl

end Lib.Heap
