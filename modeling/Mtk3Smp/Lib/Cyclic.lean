import Mathlib.Data.Nat.ModEq
import Mathlib.Data.List.GetD

/-!
# Cyclic buffers

A buffer is a function on indices, of which the first `size` are used. `put` and `slice` copy
a list into and out of consecutive cells. `write` and `read` do so round the end: with one
`put` or `slice` up to `size` and another from 0 on. What a `write` stores is `read` back, and
a `read` of other cells does not see it.
-/

namespace Cyclic

variable {α : Type*}

/-- Copies `xs` to the cells from `pos` on. -/
def put (buf : Nat → α) (pos : Nat) (xs : List α) : Nat → α := fun j =>
  if h : pos ≤ j ∧ j - pos < xs.length then xs[j - pos] else buf j

/-- The `len` cells from `pos` on. -/
def slice (buf : Nat → α) (pos len : Nat) : List α := (List.range len).map fun i => buf (pos + i)

/-- Copies `xs` to the cells from `pos` on, and from 0 on when they end. -/
def write (size : Nat) (buf : Nat → α) (pos : Nat) (xs : List α) : Nat → α :=
  if size - pos < xs.length then
    put (put buf pos (xs.take (size - pos))) 0 (xs.drop (size - pos))
  else put buf pos xs

/-- The `len` cells from `pos` on, and from 0 on when they end. -/
def read (size : Nat) (buf : Nat → α) (pos len : Nat) : List α :=
  if size - pos < len then slice buf pos (size - pos) ++ slice buf 0 (len - (size - pos))
  else slice buf pos len

@[simp] theorem length_slice (buf : Nat → α) (pos len : Nat) : (slice buf pos len).length = len := by
  simp [slice]

theorem getElem_slice (buf : Nat → α) (pos len : Nat) {i : Nat} (h : i < (slice buf pos len).length) :
    (slice buf pos len)[i] = buf (pos + i) := by
  simp [slice]

theorem put_of_lt {buf : Nat → α} {pos j : Nat} {xs : List α} (h : j < pos) :
    put buf pos xs j = buf j := by
  unfold put
  rw [dif_neg]
  omega

theorem put_of_ge {buf : Nat → α} {pos j : Nat} {xs : List α} (h : pos + xs.length ≤ j) :
    put buf pos xs j = buf j := by
  unfold put
  rw [dif_neg]
  omega

theorem put_at {buf : Nat → α} {pos k : Nat} {xs : List α} (h : k < xs.length) :
    put buf pos xs (pos + k) = xs[k] := by
  unfold put
  rw [dif_pos (by omega)]
  simp

theorem put_nil (buf : Nat → α) (pos : Nat) : put buf pos [] = buf := by
  funext j
  simp [put]

theorem put_concat (buf : Nat → α) (pos : Nat) (xs : List α) (x : α) :
    put buf pos (xs ++ [x]) = Function.update (put buf pos xs) (pos + xs.length) x := by
  funext j
  by_cases hlast : j = pos + xs.length
  · subst hlast
    rw [put_at (by simp), Function.update_self]
    simp
  · rw [Function.update_of_ne hlast]
    unfold put
    by_cases hin : pos ≤ j ∧ j - pos < xs.length
    · rw [dif_pos hin, dif_pos ⟨hin.1, by rw [List.length_append]; omega⟩,
        List.getElem_append_left hin.2]
    · rw [dif_neg hin, dif_neg]
      rw [List.length_append, List.length_singleton]
      omega

theorem slice_add (buf : Nat → α) (pos m n : Nat) :
    slice buf pos (m + n) = slice buf pos m ++ slice buf (pos + m) n := by
  unfold slice
  rw [List.range_add, List.map_append, List.map_map]
  simp only [Function.comp_def, Nat.add_assoc]

theorem slice_put (buf : Nat → α) (pos : Nat) (xs : List α) :
    slice (put buf pos xs) pos xs.length = xs := by
  apply List.ext_getElem
  · simp
  · intro k _ hk
    rw [getElem_slice, put_at hk]

theorem slice_put_before (buf : Nat → α) {pos start len : Nat} (xs : List α)
    (h : start + len ≤ pos) : slice (put buf pos xs) start len = slice buf start len := by
  apply List.ext_getElem
  · simp
  · intro k hk _
    rw [length_slice] at hk
    rw [getElem_slice, getElem_slice, put_of_lt (by omega)]

/-! ## Positions -/

theorem mod_of_lt_double {x size : Nat} (h : size ≤ x) (h2 : x < size + size) :
    x % size = x - size := by
  rw [Nat.mod_eq_sub_mod h, Nat.mod_eq_of_lt (by omega)]

/-- Cell `k` from `pos` on, for `pos` inside the buffer. -/
theorem index_eq {size pos k : Nat} (hpos : pos < size) (hk : k < size) :
    (pos + k) % size = if pos + k < size then pos + k else pos + k - size := by
  split
  · exact Nat.mod_eq_of_lt (by assumption)
  · exact mod_of_lt_double (by omega) (by omega)

/-- What `write` leaves in cell `k` from `pos` on. -/
theorem write_at {size pos k : Nat} {buf : Nat → α} {xs : List α} (hpos : pos < size)
    (hlen : xs.length ≤ size) (hk : k < size) :
    write size buf pos xs ((pos + k) % size) =
      if h : k < xs.length then xs[k] else buf ((pos + k) % size) := by
  rw [index_eq hpos hk]
  unfold write
  by_cases wraps : size - pos < xs.length
  · rw [if_pos wraps]
    have htake : (xs.take (size - pos)).length = size - pos := by simp; omega
    have hdrop : (xs.drop (size - pos)).length = xs.length - (size - pos) := by simp
    by_cases first : pos + k < size
    · rw [if_pos first, put_of_ge (by omega), put_at (by omega), dif_pos (by omega)]
      simp
    · rw [if_neg first]
      have hj : pos + k - size = 0 + (k - (size - pos)) := by omega
      by_cases inside : k < xs.length
      · rw [dif_pos inside, hj, put_at (by omega), List.getElem_drop]
        congr 1
        omega
      · rw [dif_neg inside, put_of_ge (by omega), put_of_lt (by omega)]
  · rw [if_neg wraps]
    by_cases inside : k < xs.length
    · rw [dif_pos inside, if_pos (by omega), put_at inside]
    · rw [dif_neg inside]
      by_cases first : pos + k < size
      · rw [if_pos first, put_of_ge (by omega)]
      · rw [if_neg first, put_of_lt (by omega)]

@[simp] theorem length_read (size : Nat) (buf : Nat → α) (pos len : Nat) :
    (read size buf pos len).length = len := by
  unfold read
  split
  · simp
    omega
  · simp

theorem getElem_read {size pos len k : Nat} {buf : Nat → α} (hpos : pos < size)
    (hlen : len ≤ size) (hk : k < (read size buf pos len).length) :
    (read size buf pos len)[k] = buf ((pos + k) % size) := by
  have hk' : k < len := by simpa using hk
  rw [index_eq hpos (by omega)]
  by_cases wraps : size - pos < len
  · have hread : read size buf pos len =
        slice buf pos (size - pos) ++ slice buf 0 (len - (size - pos)) := by
      rw [read, if_pos wraps]
    by_cases first : pos + k < size
    · rw [if_pos first]
      simp only [hread]
      rw [List.getElem_append_left (by simp; omega), getElem_slice]
    · rw [if_neg first]
      simp only [hread]
      rw [List.getElem_append_right (by simp; omega), getElem_slice]
      congr 1
      simp
      omega
  · have hread : read size buf pos len = slice buf pos len := by rw [read, if_neg wraps]
    rw [if_pos (by omega)]
    simp only [hread]
    exact getElem_slice ..

/-- A `read` depends only on the cells it visits. -/
theorem read_congr {size pos len : Nat} {buf buf' : Nat → α} (hpos : pos < size)
    (hlen : len ≤ size) (h : ∀ k, k < len → buf ((pos + k) % size) = buf' ((pos + k) % size)) :
    read size buf pos len = read size buf' pos len := by
  apply List.ext_getElem
  · simp
  · intro k hk hk'
    rw [getElem_read hpos hlen, getElem_read hpos hlen]
    exact h k (by simpa using hk)

/-- What has been written is read back. -/
theorem read_write {size pos : Nat} {buf : Nat → α} {xs : List α} (hpos : pos < size)
    (hlen : xs.length ≤ size) : read size (write size buf pos xs) pos xs.length = xs := by
  apply List.ext_getElem
  · simp
  · intro k hk hk'
    rw [getElem_read hpos hlen, write_at hpos hlen (by omega), dif_pos hk']

/-- The cells before the written ones, going round from `base`, keep their values: `a` and `o`
are the distances of the cells read and of the cells written from `base`. -/
theorem read_write_before {size base a o len : Nat} {buf : Nat → α} {xs : List α}
    (hsize : 0 < size) (hle : a + len ≤ o) (hfit : o + xs.length ≤ size) :
    read size (write size buf ((base + o) % size) xs) ((base + a) % size) len =
      read size buf ((base + a) % size) len := by
  apply read_congr (Nat.mod_lt _ hsize) (by omega)
  intro k hk
  -- the cell is `d` cells after the first one written, going round
  obtain ⟨d, hd, hlt, hge⟩ : ∃ d, a + k + size = o + d ∧ d < size ∧ xs.length ≤ d :=
    ⟨a + k + size - o, by omega, by omega, by omega⟩
  have same : ((base + a) % size + k) % size = ((base + o) % size + d) % size := by
    rw [Nat.mod_add_mod, Nat.mod_add_mod, ← Nat.add_mod_right]
    congr 1
    omega
  rw [same, write_at (Nat.mod_lt _ hsize) (by omega) hlt, dif_neg (by omega)]

/-! ## One cell at a time -/

theorem read_zero (size : Nat) (buf : Nat → α) (pos : Nat) : read size buf pos 0 = [] :=
  List.length_eq_zero_iff.1 (length_read size buf pos 0)

/-- The first cell and those after it. -/
theorem read_cons {size pos len : Nat} {buf : Nat → α} (hpos : pos < size) (hlen : len < size) :
    read size buf pos (len + 1) = buf pos :: read size buf ((pos + 1) % size) len := by
  have hnext : (pos + 1) % size < size := Nat.mod_lt _ (by omega)
  apply List.ext_getElem
  · simp
  · intro k hk hk'
    rw [getElem_read hpos hlen]
    cases k with
    | zero => rw [List.getElem_cons_zero, Nat.add_zero, Nat.mod_eq_of_lt hpos]
    | succ k =>
      rw [List.getElem_cons_succ, getElem_read hnext (by omega), Nat.mod_add_mod]
      congr 2
      omega

/-- The cells before the last one, and the last one. -/
theorem read_concat {size pos len : Nat} {buf : Nat → α} (hpos : pos < size) (hlen : len < size) :
    read size buf pos (len + 1) = read size buf pos len ++ [buf ((pos + len) % size)] := by
  apply List.ext_getElem
  · simp
  · intro k hk hk'
    have hk1 : k < len + 1 := by simpa using hk
    rw [getElem_read hpos hlen]
    by_cases hlast : k < len
    · rw [List.getElem_append_left (by simpa using hlast), getElem_read hpos (by omega)]
    · obtain rfl : k = len := by omega
      rw [List.getElem_append_right (by simp)]
      simp

/-- A cell that is not read changes nothing. -/
theorem read_update {size pos len : Nat} {buf : Nat → α} {x : α} (hpos : pos < size)
    (hlen : len < size) : read size (Function.update buf ((pos + len) % size) x) pos len =
      read size buf pos len := by
  apply read_congr hpos (by omega)
  intro k hk
  apply Function.update_of_ne
  rw [index_eq hpos (by omega), index_eq hpos hlen]
  split <;> split <;> omega

end Cyclic
