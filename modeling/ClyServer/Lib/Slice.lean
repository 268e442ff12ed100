import Mathlib.Tactic.Common

/-!
# Windows of a list

A byte buffer is one array and two indices into it. What it means is the window
between them, so the facts a buffer needs are facts about windows: how a window
reads after a write in front of it, behind it or outside it, and how it splits.
-/

namespace ClyServer.Lib

variable {α : Type*}

/-- The window `[i, j)` of a list. -/
def slice (l : List α) (i j : Nat) : List α := (l.take j).drop i

/-- The list with `d` stored from position `i` on, the way `std::copy` stores
it: the length stays, as long as `d` fits. -/
def overwrite (l : List α) (i : Nat) (d : List α) : List α :=
  l.take i ++ d ++ l.drop (i + d.length)

/-- `vector::resize`: cut to `n` entries, or filled up with `fill`. -/
def resize (l : List α) (n : Nat) (fill : α) : List α :=
  l.take n ++ List.replicate (n - l.length) fill

/-! ## Lengths -/

theorem length_slice {l : List α} {i j : Nat} (h : j ≤ l.length) :
    (slice l i j).length = j - i := by
  rw [slice, List.length_drop, List.length_take, Nat.min_eq_left h]

theorem length_overwrite {l d : List α} {i : Nat} (h : i + d.length ≤ l.length) :
    (overwrite l i d).length = l.length := by
  simp only [overwrite, List.length_append, List.length_take, List.length_drop]
  omega

@[simp] theorem length_resize (l : List α) (n : Nat) (fill : α) :
    (resize l n fill).length = n := by
  simp only [resize, List.length_append, List.length_take, List.length_replicate]
  omega

/-! ## Splitting a window -/

@[simp] theorem slice_self (l : List α) (i : Nat) : slice l i i = [] := by
  rw [slice, List.drop_eq_nil_iff, List.length_take]
  omega

/-- A window read in two pieces. -/
theorem slice_append {l : List α} {i j k : Nat} (hij : i ≤ j) (hjk : j ≤ k) :
    slice l i j ++ slice l j k = slice l i k := by
  have htake : l.take k = l.take j ++ (l.take k).drop j := by
    conv_lhs => rw [← List.take_append_drop j (l.take k)]
    rw [List.take_take, Nat.min_eq_left hjk]
  unfold slice
  conv_rhs => rw [htake]
  by_cases hj : j ≤ l.length
  · rw [List.drop_append_of_le_length (by rw [List.length_take]; omega)]
  · have hend : (l.take k).drop j = [] := by
      rw [List.drop_eq_nil_iff, List.length_take]; omega
    rw [hend, List.append_nil, List.append_nil]

/-- Moving the lower end up drops from the front. -/
theorem slice_drop (l : List α) (i j n : Nat) :
    slice l (i + n) j = (slice l i j).drop n := by
  rw [slice, slice, List.drop_drop]

/-- Moving the upper end down drops from the back. -/
theorem slice_take {l : List α} {i j k : Nat} (hjk : j ≤ k) :
    slice l i j = (slice l i k).take (j - i) := by
  unfold slice
  by_cases hij : i ≤ j
  · rw [List.take_drop, List.take_take]
    congr 2
    omega
  · have hempty : (l.take j).drop i = [] := by
      rw [List.drop_eq_nil_iff, List.length_take]; omega
    rw [hempty, Nat.sub_eq_zero_of_le (by omega), List.take_zero]

/-! ## Windows after a write -/

/-- A write at or behind the upper end is not seen. -/
theorem slice_overwrite_of_le {l d : List α} {i j k : Nat} (h : j ≤ k)
    (hk : k ≤ l.length) : slice (overwrite l k d) i j = slice l i j := by
  unfold slice overwrite
  rw [List.append_assoc, List.take_append_of_le_length (by rw [List.length_take]; omega),
    List.take_take, Nat.min_eq_left h]

/-- The window that was just written reads what was written. -/
theorem slice_overwrite_self {l d : List α} {k : Nat} (hk : k ≤ l.length) :
    slice (overwrite l k d) k (k + d.length) = d := by
  have hlen : (l.take k).length = k := by rw [List.length_take]; omega
  unfold slice overwrite
  rw [List.drop_take, List.append_assoc, List.drop_left' hlen, Nat.add_sub_cancel_left,
    List.take_left]

/-- A write below the lower end is not seen. -/
theorem slice_overwrite_of_ge {l d : List α} {i j k : Nat} (h : k + d.length ≤ i)
    (hk : k + d.length ≤ l.length) : slice (overwrite l k d) i j = slice l i j := by
  have hlen : (l.take k ++ d).length = k + d.length := by
    rw [List.length_append, List.length_take]; omega
  unfold slice overwrite
  rw [List.drop_take, List.drop_take,
    show i = (l.take k ++ d).length + (i - (k + d.length)) by omega,
    List.drop_length_add_append, List.drop_drop]
  congr 2
  omega

/-- Storing at the upper end and moving it behind what was stored appends. -/
theorem slice_overwrite_append {l d : List α} {i j : Nat} (hij : i ≤ j)
    (hj : j ≤ l.length) :
    slice (overwrite l j d) i (j + d.length) = slice l i j ++ d := by
  rw [← slice_append hij (Nat.le_add_right j d.length),
    slice_overwrite_of_le (Nat.le_refl j) hj, slice_overwrite_self hj]

/-- Storing right below the lower end and moving it down prepends. -/
theorem slice_overwrite_prepend {l d : List α} {i j : Nat} (hd : d.length ≤ i)
    (hij : i ≤ j) (hi : i ≤ l.length) :
    slice (overwrite l (i - d.length) d) (i - d.length) j = d ++ slice l i j := by
  have hsum : i - d.length + d.length = i := Nat.sub_add_cancel hd
  rw [← slice_append (Nat.sub_le i d.length) hij]
  have hself := slice_overwrite_self (l := l) (d := d) (k := i - d.length) (by omega)
  rw [hsum] at hself
  rw [hself, slice_overwrite_of_ge (by omega) (by omega)]

/-- Growing the list leaves the windows inside it alone. -/
theorem slice_resize {l : List α} {i j n : Nat} {fill : α} (hj : j ≤ l.length)
    (hn : j ≤ n) : slice (resize l n fill) i j = slice l i j := by
  unfold slice resize
  rw [List.take_append_of_le_length (by rw [List.length_take]; omega), List.take_take,
    Nat.min_eq_left hn]

/-! ## Writes after writes -/

/-- One entry set is one entry written. -/
theorem set_eq_overwrite {l : List α} {i : Nat} (h : i < l.length) (a : α) :
    l.set i a = overwrite l i [a] := by
  rw [overwrite, List.set_eq_take_append_cons_drop, if_pos h, List.append_assoc,
    List.singleton_append, List.length_singleton]

/-- A write right behind a write is one write. -/
theorem overwrite_overwrite_append {l d e : List α} {i : Nat} (hi : i + d.length ≤ l.length) :
    overwrite (overwrite l i d) (i + d.length) e = overwrite l i (d ++ e) := by
  have hlen : (l.take i ++ d).length = i + d.length := by
    rw [List.length_append, List.length_take]
    omega
  unfold overwrite
  rw [List.take_left' hlen, List.drop_append, hlen, List.length_append, List.drop_drop,
    List.drop_eq_nil_of_le (by omega), List.nil_append, List.append_assoc (l.take i)]
  congr 2
  omega

/-- A write over the front of a write. -/
theorem overwrite_overwrite_front {l d d' e : List α} {i : Nat} (hlen : d'.length = d.length)
    (hi : i ≤ l.length) :
    overwrite (overwrite l i (d ++ e)) i d' = overwrite l i (d' ++ e) := by
  have htake : (l.take i).length = i := by
    rw [List.length_take]
    omega
  have hfront : (l.take i ++ d).length = i + d'.length := by
    rw [List.length_append, htake, hlen]
  unfold overwrite
  rw [← List.append_assoc, List.append_assoc (l.take i ++ d), List.drop_left' hfront,
    List.append_assoc (l.take i) d, List.append_assoc (l.take i), List.take_left' htake,
    List.length_append, List.length_append, hlen]
  simp only [List.append_assoc]

end ClyServer.Lib
