import Mathlib.Data.List.Basic
import Mathlib.Data.Nat.Digits.Lemmas

set_option autoImplicit false

/-!
# Readers of bytes

A reader takes bytes from the front of its input and gives a value or fails; what is left of the
input is known in both cases. `Reads` says that a reader takes exactly the bytes that a writer
gave, whatever follows them. Such facts compose along the sequence of the reads, so that a round
trip is proved one field at a time.

## Main definitions

* `Lib.Reader` — readers.
* `Lib.Reads` — a reader takes the given bytes for the given value.
* `Lib.times` — a number of items, one after another.
* `Lib.Forward` — what a reader leaves is an end of its input.
* `Lib.bigEndian`, `Lib.ofBigEndian` — numbers as bytes, the highest byte first.
* `Lib.littleEndian`, `Lib.ofLittleEndian` — numbers as bytes, the lowest byte first.

## Main results

* `Lib.Reads.bind`, `Lib.Reads.times` — reads, one after the other.
* `Lib.Leaves.bind` — what two reads leave.
* `Lib.ofBigEndian_bigEndian`, `Lib.ofLittleEndian_littleEndian` — a number is read
  back.
-/

namespace Veda.Lib

/-- A reader that fails with `ε`. -/
abbrev Reader (ε α : Type) := EStateM ε (List UInt8) α

section Reads

variable {ε α β : Type}

/-- The reader takes the bytes `w` for the value `a`, whatever follows. -/
def Reads (x : Reader ε α) (w : List UInt8) (a : α) : Prop :=
  ∀ rest, x.run (w ++ rest) = .ok a rest

theorem Reads.pure (a : α) : Reads (ε := ε) (Pure.pure a) [] a := fun _ => rfl

theorem Reads.bind {x : Reader ε α} {f : α → Reader ε β} {w w' : List UInt8} {a : α} {b : β}
    (hx : Reads x w a) (hf : Reads (f a) w' b) : Reads (x >>= f) (w ++ w') b := by
  intro rest
  rw [EStateM.run_bind, List.append_assoc, hx]
  exact hf rest

theorem Reads.map {x : Reader ε α} {w : List UInt8} {a : α} (f : α → β) (hx : Reads x w a) :
    Reads (f <$> x) w (f a) := by
  have h := hx.bind (f := fun a => Pure.pure (f a)) (Reads.pure (f a))
  rwa [List.append_nil, ← map_eq_pure_bind] at h

/-- Read a number of items, one after another. -/
def times (x : Reader ε α) : ℕ → Reader ε (List α)
  | 0 => return []
  | n + 1 => do
    let a ← x
    let as ← times x n
    return a :: as

theorem Reads.times {x : Reader ε α} {w : β → List UInt8} {a : β → α} (l : List β)
    (h : ∀ b ∈ l, Reads x (w b) (a b)) :
    Reads (Lib.times x l.length) (l.flatMap w) (l.map a) := by
  induction l with
  | nil => exact Reads.pure []
  | cons b l ih =>
    rw [List.length_cons, List.flatMap_cons, List.map_cons, Lib.times]
    refine (h b List.mem_cons_self).bind ?_
    have hrest := (ih fun b' hb' => h b' (List.mem_cons_of_mem _ hb')).map (a b :: ·)
    rwa [map_eq_pure_bind] at hrest

end Reads

/-- Run a reader and give its error as a value. -/
def attempt {ε ε' α : Type} (x : Reader ε α) : Reader ε' (Except ε α) := fun s =>
  match x.run s with
  | .ok a s => .ok (.ok a) s
  | .error e s => .ok (.error e) s

theorem run_attempt {ε ε' α : Type} (x : Reader ε α) (s : List UInt8) :
    (attempt x : Reader ε' (Except ε α)).run s =
      match x.run s with
      | .ok a s => .ok (.ok a) s
      | .error e s => .ok (.error e) s := rfl

/-! ## What readers leave -/

section Forward

variable {ε ε' α β : Type} {b s : List UInt8}

/-- What a read leaves is an end of some bytes, also when it fails. -/
def Leaves (b : List UInt8) : EStateM.Result ε (List UInt8) α → Prop
  | .ok _ s => s <:+ b
  | .error _ s => s <:+ b

/-- What a reader leaves is an end of its input. -/
def Forward (x : Reader ε α) : Prop := ∀ s, Leaves s (x.run s)

theorem Leaves.mono {b' : List UInt8} {r : EStateM.Result ε (List UInt8) α} (h : Leaves b r)
    (hb : b <:+ b') : Leaves b' r := by
  cases r with
  | ok a s => exact List.IsSuffix.trans h hb
  | error e s => exact List.IsSuffix.trans h hb

theorem Leaves.bind {x : Reader ε α} {f : α → Reader ε β} (hx : Leaves b (x.run s))
    (hf : ∀ a, Forward (f a)) : Leaves b ((x >>= f).run s) := by
  rw [EStateM.run_bind]
  cases hrun : x.run s with
  | error e s' =>
    rw [hrun] at hx
    exact hx
  | ok a s' =>
    rw [hrun] at hx
    have hrest := hf a s'
    dsimp only
    cases hrun' : (f a).run s' with
    | error e s'' =>
      rw [hrun'] at hrest
      exact List.IsSuffix.trans hrest hx
    | ok a' s'' =>
      rw [hrun'] at hrest
      exact List.IsSuffix.trans hrest hx

theorem Leaves.attempt {x : Reader ε α} (hx : Leaves b (x.run s)) :
    Leaves b ((Lib.attempt x : Reader ε' (Except ε α)).run s) := by
  rw [run_attempt]
  cases hrun : x.run s with
  | error e s' =>
    rw [hrun] at hx
    exact hx
  | ok a s' =>
    rw [hrun] at hx
    exact hx

namespace Forward

theorem pure (a : α) : Forward (Pure.pure a : Reader ε α) := fun _ => List.suffix_rfl

theorem throw (e : ε) : Forward (MonadExcept.throw e : Reader ε α) := fun _ => List.suffix_rfl

theorem bind {x : Reader ε α} {f : α → Reader ε β} (hx : Forward x) (hf : ∀ a, Forward (f a)) :
    Forward (x >>= f) := fun s => (hx s).bind hf

theorem map {x : Reader ε α} (f : α → β) (hx : Forward x) : Forward (f <$> x) := by
  rw [map_eq_pure_bind]
  exact hx.bind fun a => pure (f a)

end Forward

end Forward

/-! ## Numbers -/

/-- The last `k` bytes of a number, the highest byte first. -/
def bigEndian : ℕ → ℕ → List UInt8
  | 0, _ => []
  | k + 1, n => bigEndian k (n / 256) ++ [UInt8.ofNat n]

/-- The number with the given bytes, the highest byte first. -/
def ofBigEndian (bytes : List UInt8) : ℕ := bytes.foldl (fun n b => n * 256 + b.toNat) 0

@[simp] theorem length_bigEndian (k n : ℕ) : (bigEndian k n).length = k := by
  induction k generalizing n with
  | zero => rfl
  | succ k ih => rw [bigEndian, List.length_append, ih, List.length_singleton]

theorem ofBigEndian_bigEndian (k n : ℕ) (h : n < 256 ^ k) : ofBigEndian (bigEndian k n) = n := by
  induction k generalizing n with
  | zero =>
    rw [pow_zero, Nat.lt_one_iff] at h
    rw [h]
    rfl
  | succ k ih =>
    have hdiv : n / 256 < 256 ^ k := by
      rw [Nat.div_lt_iff_lt_mul (by omega), ← pow_succ]
      exact h
    have hq := ih (n / 256) hdiv
    unfold ofBigEndian at hq ⊢
    rw [bigEndian, List.foldl_append, hq, List.foldl_cons, List.foldl_nil, UInt8.toNat_ofNat']
    omega

theorem bigEndian_mod (k n : ℕ) : bigEndian k (n % 256 ^ k) = bigEndian k n := by
  induction k generalizing n with
  | zero => rfl
  | succ k ih =>
    have hdiv : n % 256 ^ (k + 1) / 256 = n / 256 % 256 ^ k := by
      rw [pow_succ', Nat.mod_mul_right_div_self]
    have hlast : UInt8.ofNat (n % 256 ^ (k + 1)) = UInt8.ofNat n := by
      apply UInt8.toNat_inj.mp
      rw [UInt8.toNat_ofNat', UInt8.toNat_ofNat', pow_succ']
      exact Nat.mod_mul_right_mod n 256 (256 ^ k)
    rw [bigEndian, bigEndian, hdiv, hlast, ih]

theorem ofBigEndian_lt (bytes : List UInt8) : ofBigEndian bytes < 256 ^ bytes.length := by
  induction bytes using List.reverseRecOn with
  | nil => decide
  | append_singleton bytes b ih =>
    have hstep : ofBigEndian (bytes ++ [b]) = ofBigEndian bytes * 256 + b.toNat := by
      rw [ofBigEndian, ofBigEndian, List.foldl_append]
      rfl
    have hb := b.toNat_lt
    rw [hstep, List.length_append, List.length_singleton, pow_succ]
    omega

/-- The last `k` bytes of a number, the lowest byte first. -/
def littleEndian (k n : ℕ) : List UInt8 := (bigEndian k n).reverse

/-- The number with the given bytes, the lowest byte first. -/
def ofLittleEndian (bytes : List UInt8) : ℕ := ofBigEndian bytes.reverse

@[simp] theorem length_littleEndian (k n : ℕ) : (littleEndian k n).length = k := by
  rw [littleEndian, List.length_reverse, length_bigEndian]

theorem ofLittleEndian_littleEndian (k n : ℕ) :
    ofLittleEndian (littleEndian k n) = n % 256 ^ k := by
  rw [ofLittleEndian, littleEndian, List.reverse_reverse, ← bigEndian_mod]
  exact ofBigEndian_bigEndian k _ (Nat.mod_lt _ (by positivity))

end Veda.Lib
