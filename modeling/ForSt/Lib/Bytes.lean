import Mathlib.Tactic
/-!
Little-endian fixed-width byte encodings of natural numbers, and byte-string slicing.

`leBytes k v` is the `k` low bytes of `v`, least significant first; `ofLeBytes` reads them back. Results:
- `ofLeBytes_leBytes`: reading back gives `v` modulo `256 ^ k` (the width truncates);
- `leBytes_ofLeBytes`: every byte string is the encoding of the number it denotes;
- `ofBeBytes`: the number a byte string denotes most significant byte first;
- `slice` lemmas: the bytes of a file between two offsets, and how a prefix of the file sees them;
- `splice_append_left`, `splice_append_right`: bytes spliced into a concatenation land in the part that holds the
  point.
-/

namespace ForSt.Bytes

/-! ## Fixed-width encoding -/

/-- the `k` low bytes of `v`, least significant first -/
def leBytes : ℕ → ℕ → List UInt8
  | 0, _ => []
  | k + 1, v => UInt8.ofNat v :: leBytes k (v / 256)

/-- the number whose little-endian bytes are `bs` -/
def ofLeBytes : List UInt8 → ℕ
  | [] => 0
  | b :: bs => b.toNat + 256 * ofLeBytes bs

@[simp] theorem length_leBytes (k v : ℕ) : (leBytes k v).length = k := by
  induction k generalizing v with
  | zero => rfl
  | succ k ih => simp [leBytes, ih]

theorem ofLeBytes_leBytes (k v : ℕ) : ofLeBytes (leBytes k v) = v % 256 ^ k := by
  induction k generalizing v with
  | zero => simp [leBytes, ofLeBytes, Nat.mod_one]
  | succ k ih =>
    have hbyte : (UInt8.ofNat v).toNat = v % 256 := by simp
    simp only [leBytes, ofLeBytes, ih, hbyte]
    rw [pow_succ', Nat.mod_mul]

theorem leBytes_ofLeBytes (bs : List UInt8) : leBytes bs.length (ofLeBytes bs) = bs := by
  induction bs with
  | nil => rfl
  | cons b bs ih =>
    have hb := b.toNat_lt
    have hdiv : (b.toNat + 256 * ofLeBytes bs) / 256 = ofLeBytes bs := by omega
    have hmod : UInt8.ofNat (b.toNat + 256 * ofLeBytes bs) = b := by
      apply UInt8.toNat_inj.1
      simp only [UInt8.toNat_ofNat']
      omega
    simp only [List.length_cons, leBytes, ofLeBytes, hdiv, ih, hmod]

/-- a number below `256 ^ k` survives the round trip unchanged -/
theorem ofLeBytes_leBytes_of_lt {k v : ℕ} (h : v < 256 ^ k) : ofLeBytes (leBytes k v) = v := by
  rw [ofLeBytes_leBytes, Nat.mod_eq_of_lt h]

/-- the encoding keeps only the low `k` bytes of the number -/
theorem leBytes_mod (k v : ℕ) : leBytes k (v % 256 ^ k) = leBytes k v := by
  have h := leBytes_ofLeBytes (leBytes k v)
  rwa [length_leBytes, ofLeBytes_leBytes] at h

/-! ## Big-endian reading -/

/-- the number whose big-endian bytes are `bs` -/
def ofBeBytes (bs : List UInt8) : ℕ := bs.foldl (fun acc b => acc * 256 + b.toNat) 0

@[simp] theorem ofBeBytes_nil : ofBeBytes [] = 0 := rfl

theorem ofBeBytes_append_singleton (bs : List UInt8) (b : UInt8) :
    ofBeBytes (bs ++ [b]) = ofBeBytes bs * 256 + b.toNat := by
  simp [ofBeBytes, List.foldl_append]

theorem ofBeBytes_lt (bs : List UInt8) : ofBeBytes bs < 256 ^ bs.length := by
  induction bs using List.reverseRecOn with
  | nil => simp
  | append_singleton bs b ih =>
    have hb := b.toNat_lt
    rw [ofBeBytes_append_singleton, List.length_append, List.length_singleton, pow_succ]
    omega

/-! ## Slices of a byte string -/

/-- the bytes of `f` from offset `p` (inclusive) to offset `e` (exclusive) -/
def slice (f : List UInt8) (p e : ℕ) : List UInt8 := (f.drop p).take (e - p)

@[simp] theorem length_slice (f : List UInt8) (p e : ℕ) : (slice f p e).length = min (e - p) (f.length - p) := by
  simp [slice]

theorem slice_self (f : List UInt8) (p : ℕ) : slice f p p = [] := by simp [slice]

/-- a slice that ends at the end of `f` is the rest of `f` -/
theorem slice_of_length_le {f : List UInt8} {p e : ℕ} (h : f.length ≤ e) : slice f p e = f.drop p := by
  unfold slice
  apply List.take_of_length_le
  simp only [List.length_drop]
  omega

/-- a string the file holds at `p`, ending by `e`, is the front of the slice from `p` to `e` -/
theorem slice_eq_append {f w : List UInt8} {p e : ℕ} (hw : w <+: f.drop p) (he : p + w.length ≤ e) :
    slice f p e = w ++ slice f (p + w.length) e := by
  obtain ⟨t, ht⟩ := hw
  have hd : f.drop (p + w.length) = t := by
    rw [← List.drop_drop, ← ht, List.drop_left]
  unfold slice
  rw [← ht, hd, List.take_append, List.take_of_length_le (by omega)]
  congr 2
  omega

/-! ## Prefixes of a file -/

section prefixes

variable {α : Type*}

/-- what follows `a` in a file that starts with `a ++ b` starts with `b` -/
theorem prefix_drop_of_append_prefix {a b f : List α} (h : a ++ b <+: f) : b <+: f.drop a.length := by
  obtain ⟨t, rfl⟩ := h
  rw [List.append_assoc, List.drop_left]
  exact List.prefix_append _ _

/-- a file cut inside `a ++ b`, after `a`, holds a prefix of `b` after `a` -/
theorem drop_prefix_of_prefix_append {a b f : List α} (h : f <+: a ++ b) (hl : a.length ≤ f.length) :
    f.drop a.length <+: b := by
  obtain ⟨t, ht⟩ := h
  refine ⟨t, ?_⟩
  have := congrArg (List.drop a.length) ht
  rwa [List.drop_append_of_le_length hl, List.drop_left] at this

/-- a prefix of a run of `x`, no longer than the run, is a run of `x` -/
theorem eq_replicate_of_prefix {l r : List α} {n : ℕ} {x : α} (h : l <+: List.replicate n x ++ r)
    (hl : l.length ≤ n) : l = List.replicate l.length x := by
  conv_lhs => rw [List.prefix_iff_eq_take.mp h]
  rw [List.take_append_of_le_length (by simpa using hl), List.take_replicate, min_eq_left hl]

/-- splicing `z` in at a point of `a` -/
theorem splice_append_left {a b z : List α} {u : ℕ} (h : u ≤ a.length) :
    (a ++ b).take u ++ z ++ (a ++ b).drop u = a.take u ++ z ++ a.drop u ++ b := by
  rw [List.take_append_of_le_length h, List.drop_append_of_le_length h]
  simp only [List.append_assoc]

/-- splicing `z` in at a point of `b` -/
theorem splice_append_right {a b z : List α} {u : ℕ} (h : a.length ≤ u) :
    (a ++ b).take u ++ z ++ (a ++ b).drop u = a ++ (b.take (u - a.length) ++ z ++ b.drop (u - a.length)) := by
  rw [List.take_append, List.drop_append, List.take_of_length_le h, List.drop_eq_nil_of_le h, List.nil_append]
  simp only [List.append_assoc]

/-- the last `k` elements of a list that ends in `b`, `k` long -/
theorem drop_length_sub_append {a b : List α} {k : ℕ} (h : b.length = k) : (a ++ b).drop ((a ++ b).length - k) = b :=
  List.drop_left' (by rw [List.length_append]; omega)

end prefixes

end ForSt.Bytes
