import Mathlib.Data.List.Dedup

/-!
# Hash sets and slice chunks

The two pieces of `std` that the stale-transaction scan leans on.

A `HashSet` is the list of its elements in iteration order, each once: the order is the
hasher's and nothing below depends on it, but `intersection` walks one of its operands in
that order and the result is a list, so the order is kept rather than quotiented away.
`intersection` is transcribed from `std`: it iterates the smaller set and keeps what the
larger one contains.

`chunks` is `<[T]>::chunks`.  The library asserts that the chunk size is non-zero, so
`chunks 0` is the panic `none`; for a positive size it is `chunksOf`, and the lemmas of
this file are the ones a caller of `chunks` needs: the chunks put back together are the
slice, none is empty, none is longer than the size, and only the last can be shorter.
-/

namespace Bitkey

universe u

variable {α : Type u}

/-- A `std::collections::HashSet`: its elements in iteration order, each once. -/
structure HashSet (α : Type u) where
  /-- The elements, in the order `iter` yields them. -/
  elems : List α
  nodup : elems.Nodup

namespace HashSet

variable [DecidableEq α]

/-- `FromIterator`: one copy of each element of the source. -/
def ofList (l : List α) : HashSet α := ⟨l.dedup, l.nodup_dedup⟩

/-- `len`. -/
def len (s : HashSet α) : Nat := s.elems.length

/-- `contains`. -/
def contains (s : HashSet α) (a : α) : Bool := s.elems.contains a

/-- `intersection`, collected: the smaller set's elements that the other contains, in the
smaller set's order. -/
def intersection (s t : HashSet α) : List α :=
  if s.len ≤ t.len then s.elems.filter t.contains else t.elems.filter s.contains

@[simp] theorem mem_ofList {l : List α} {a : α} : a ∈ (ofList l).elems ↔ a ∈ l := List.mem_dedup

@[simp] theorem contains_iff {s : HashSet α} {a : α} : s.contains a = true ↔ a ∈ s.elems := by
  simp [contains]

theorem len_ofList_eq_zero {l : List α} : (ofList l).len = 0 ↔ l = [] := by
  rw [len, ofList, List.length_eq_zero, List.dedup_eq_nil]

/-- Whichever operand `intersection` walks, it keeps exactly the common elements. -/
@[simp] theorem mem_intersection {s t : HashSet α} {a : α} :
    a ∈ s.intersection t ↔ a ∈ s.elems ∧ a ∈ t.elems := by
  unfold intersection
  split <;> simp [and_comm]

end HashSet

/-- `<[T]>::chunks` for a positive size: runs of `size` consecutive elements, the last
possibly shorter. -/
def chunksOf (size : Nat) (l : List α) : List (List α) := go l.length l
where
  /-- At most `fuel` chunks; a slice of length `n` has at most `n`. -/
  go : Nat → List α → List (List α)
    | _, [] => []
    | 0, _ :: _ => []
    | fuel + 1, x :: xs => (x :: xs).take size :: go fuel ((x :: xs).drop size)

/-- `<[T]>::chunks`: the library asserts `chunk_size != 0`, and `none` is that panic. -/
def chunks (size : Nat) (l : List α) : Option (List (List α)) :=
  if 0 < size then some (chunksOf size l) else none

section chunksOf

variable {size : Nat}

@[simp] theorem chunksOf_nil : chunksOf size ([] : List α) = [] := rfl

theorem chunks_of_pos (hsize : 0 < size) (l : List α) : chunks size l = some (chunksOf size l) :=
  if_pos hsize

@[simp] theorem chunks_zero (l : List α) : chunks 0 l = none := rfl

theorem length_drop_le_of_pos (hsize : 0 < size) (x : α) (xs : List α) :
    ((x :: xs).drop size).length ≤ xs.length := by
  simp only [List.length_drop, List.length_cons]
  omega

theorem flatten_chunksOf_go (hsize : 0 < size) :
    ∀ (fuel : Nat) (l : List α), l.length ≤ fuel → (chunksOf.go size fuel l).flatten = l
  | _, [], _ => by simp [chunksOf.go]
  | 0, _ :: _, h => absurd h (by simp)
  | fuel + 1, x :: xs, h => by
    rw [chunksOf.go, List.flatten_cons, flatten_chunksOf_go hsize fuel _
      ((length_drop_le_of_pos hsize x xs).trans (by simpa using h)), List.take_append_drop]

/-- The chunks, put back together, are the slice. -/
@[simp] theorem flatten_chunksOf (hsize : 0 < size) (l : List α) : (chunksOf size l).flatten = l :=
  flatten_chunksOf_go hsize _ l le_rfl

@[simp] theorem chunksOf_eq_nil_iff {l : List α} : chunksOf size l = [] ↔ l = [] := by
  cases l with
  | nil => simp
  | cons x xs => simp [chunksOf, chunksOf.go]

theorem length_of_mem_chunksOf_go (hsize : 0 < size) :
    ∀ {fuel : Nat} {l c : List α}, c ∈ chunksOf.go size fuel l → 0 < c.length ∧ c.length ≤ size
  | _, [], _, hc | 0, _ :: _, _, hc => by simp [chunksOf.go] at hc
  | fuel + 1, x :: xs, c, hc => by
    rw [chunksOf.go, List.mem_cons] at hc
    rcases hc with rfl | hc
    · simp only [List.length_take, List.length_cons]
      omega
    · exact length_of_mem_chunksOf_go hsize hc

/-- Every chunk is non-empty and holds at most `size` elements. -/
theorem length_of_mem_chunksOf (hsize : 0 < size) {l c : List α} (hc : c ∈ chunksOf size l) :
    0 < c.length ∧ c.length ≤ size :=
  length_of_mem_chunksOf_go hsize hc

theorem length_of_mem_dropLast_chunksOf_go :
    ∀ {fuel : Nat} {l c : List α}, c ∈ (chunksOf.go size fuel l).dropLast → c.length = size
  | _, [], _, hc | 0, _ :: _, _, hc => by simp [chunksOf.go] at hc
  | fuel + 1, x :: xs, c, hc => by
    rw [chunksOf.go] at hc
    by_cases hrest : chunksOf.go size fuel ((x :: xs).drop size) = []
    · simp [hrest] at hc
    · rw [List.dropLast_cons_of_ne_nil hrest, List.mem_cons] at hc
      rcases hc with rfl | hc
      · have hdrop : (x :: xs).drop size ≠ [] := fun h ↦ hrest (by rw [h]; cases fuel <;> rfl)
        have : size < (x :: xs).length := by
          by_contra h
          exact hdrop (List.drop_eq_nil_of_le (by omega))
        simp only [List.length_take]
        omega
      · exact length_of_mem_dropLast_chunksOf_go hc

/-- Every chunk but the last holds exactly `size` elements. -/
theorem length_of_mem_dropLast_chunksOf {l c : List α} (hc : c ∈ (chunksOf size l).dropLast) :
    c.length = size :=
  length_of_mem_dropLast_chunksOf_go hc

theorem length_chunksOf_go (hsize : 0 < size) :
    ∀ (fuel : Nat) (l : List α), l.length ≤ fuel →
      (chunksOf.go size fuel l).length = (l.length + size - 1) / size
  | _, [], _ => by
    simp only [chunksOf.go, List.length_nil, Nat.zero_add]
    exact (Nat.div_eq_of_lt (by omega)).symm
  | 0, _ :: _, h => absurd h (by simp)
  | fuel + 1, x :: xs, h => by
    rw [chunksOf.go, List.length_cons, length_chunksOf_go hsize fuel _
      ((length_drop_le_of_pos hsize x xs).trans (by simpa using h)), List.length_drop,
      List.length_cons]
    by_cases hle : xs.length + 1 ≤ size
    · -- the slice fits in one chunk
      rw [Nat.sub_eq_zero_of_le hle, Nat.div_eq_of_lt (by omega),
        Nat.div_eq_of_lt_le (k := 1) (by omega) (by omega)]
    · rw [← Nat.add_div_right _ hsize]
      congr 1
      omega

/-- There are as many chunks as `size` goes into the slice's length, rounded up. -/
theorem length_chunksOf (hsize : 0 < size) (l : List α) :
    (chunksOf size l).length = (l.length + size - 1) / size :=
  length_chunksOf_go hsize _ l (Nat.le_refl _)

example : chunksOf 2 [1, 2, 3, 4, 5] = [[1, 2], [3, 4], [5]] := by decide

/-- Whatever `chunks` returns holds only elements of the slice. -/
theorem mem_of_mem_chunks {l c : List α} {x : α} (hc : c ∈ (chunks size l).getD [])
    (hx : x ∈ c) : x ∈ l := by
  unfold chunks at hc
  split at hc
  next hsize => simpa [flatten_chunksOf hsize] using List.mem_flatten_of_mem hc hx
  next => simp at hc

/-- Put back together, whatever `chunks` returns takes each element of the slice at most
once: all of it for a positive size, nothing for the panic. -/
theorem flatten_getD_chunks_sublist (size : Nat) (l : List α) :
    ((chunks size l).getD []).flatten.Sublist l := by
  unfold chunks
  split
  next hsize => simp [flatten_chunksOf hsize]
  next => simp

end chunksOf

end Bitkey
