import Mathlib.Tactic.Ring
import Mathlib.Tactic.NormNum
import Mathlib.Data.List.Basic

/-!
# Little-endian words in a byte list

A word of `w` bytes is written least significant byte first (`encode`) and read back by `decode`.
`decode_encode` says that reading back what was written gives the value modulo `256^w`, so that a
value survives exactly when it fits its field. A file of equally wide words is `encodeAll`, read
back by `decodeAll`.
-/

namespace LittleEndian

/-- The `w` low bytes of `n`, least significant first; what does not fit is dropped. -/
def encode : ℕ → ℕ → List UInt8
  | 0, _ => []
  | w + 1, n => UInt8.ofNat n :: encode w (n / 256)

/-- The number whose bytes, least significant first, are the list. -/
def decode : List UInt8 → ℕ
  | [] => 0
  | b :: bs => b.toNat + 256 * decode bs

@[simp] theorem encode_length (w n : ℕ) : (encode w n).length = w := by
  induction w generalizing n with
  | zero => rfl
  | succ w ih => simp [encode, ih]

@[simp] theorem decode_nil : decode [] = 0 := rfl

theorem decode_cons (b : UInt8) (bs : List UInt8) : decode (b :: bs) = b.toNat + 256 * decode bs :=
  rfl

/-- A word read back is the value written, modulo the size of its field. -/
theorem decode_encode (w n : ℕ) : decode (encode w n) = n % 256^w := by
  induction w generalizing n with
  | zero => simp [encode, Nat.mod_one]
  | succ w ih =>
    have hb : (UInt8.ofNat n).toNat = n % 256 := by simp
    rw [encode, decode_cons, ih, hb, pow_succ', Nat.mod_mul]

/-- A value that fits its field is read back unchanged. -/
theorem decode_encode_of_lt {w n : ℕ} (h : n < 256^w) : decode (encode w n) = n := by
  rw [decode_encode, Nat.mod_eq_of_lt h]

/-- A word of `w` bytes is below `256^w`. -/
theorem decode_lt (bs : List UInt8) : decode bs < 256^bs.length := by
  induction bs with
  | nil => simp
  | cons b bs ih =>
    have hb : b.toNat < 256 := b.toNat_lt
    rw [decode_cons, List.length_cons, pow_succ']
    omega

/-- Writing back a word that was read gives its bytes. -/
theorem encode_decode (bs : List UInt8) : encode bs.length (decode bs) = bs := by
  induction bs with
  | nil => rfl
  | cons b bs ih =>
    have hb : b.toNat < 256 := b.toNat_lt
    have hhead : UInt8.ofNat (b.toNat + 256 * decode bs) = b := by
      apply UInt8.toNat_inj.mp
      rw [UInt8.toNat_ofNat']
      omega
    have htail : (b.toNat + 256 * decode bs) / 256 = decode bs := by omega
    rw [List.length_cons, decode_cons, encode, hhead, htail, ih]

/-- The words of a list of values, one after the other, each of `w` bytes. -/
def encodeAll (w : ℕ) (ns : List ℕ) : List UInt8 := ns.flatMap (encode w)

@[simp] theorem encodeAll_nil (w : ℕ) : encodeAll w [] = [] := rfl

@[simp] theorem encodeAll_cons (w n : ℕ) (ns : List ℕ) :
    encodeAll w (n :: ns) = encode w n ++ encodeAll w ns := by
  simp [encodeAll]

theorem encodeAll_append (w : ℕ) (ms ns : List ℕ) :
    encodeAll w (ms ++ ns) = encodeAll w ms ++ encodeAll w ns := by
  simp [encodeAll]

theorem encodeAll_length (w : ℕ) (ns : List ℕ) : (encodeAll w ns).length = w * ns.length := by
  induction ns with
  | nil => simp
  | cons n ns ih => simp [ih, Nat.mul_succ, Nat.add_comm]

/-- Reads consecutive words of `w` bytes; bytes past the last whole word are left out. -/
def decodeAll (w : ℕ) : ℕ → List UInt8 → List ℕ
  | 0, _ => []
  | k + 1, bs => decode (bs.take w) :: decodeAll w k (bs.drop w)

/-- As many words are decoded as were asked for. -/
@[simp] theorem decodeAll_length (w n : ℕ) (bs : List UInt8) : (decodeAll w n bs).length = n := by
  induction n generalizing bs with
  | zero => rfl
  | succ n ih => exact congrArg (· + 1) (ih (bs.drop w))

/-- The first words, decoded. -/
theorem decodeAll_take (w m : ℕ) : ∀ (n : ℕ) (bs : List UInt8),
    (decodeAll w n bs).take m = decodeAll w (min m n) bs := by
  induction m with
  | zero => exact fun n bs => by rw [Nat.zero_min, List.take_zero, decodeAll]
  | succ m ih =>
    intro n bs
    cases n with
    | zero => rfl
    | succ n =>
      rw [Nat.succ_min_succ, decodeAll, decodeAll, List.take_succ_cons, ih]

/-- The words behind the first ones, decoded. -/
theorem decodeAll_drop (w m : ℕ) : ∀ (n : ℕ) (bs : List UInt8),
    (decodeAll w n bs).drop m = decodeAll w (n - m) (bs.drop (w * m)) := by
  induction m with
  | zero => exact fun n bs => by rw [Nat.mul_zero, List.drop_zero, List.drop_zero, Nat.sub_zero]
  | succ m ih =>
    intro n bs
    cases n with
    | zero => rw [Nat.zero_sub, decodeAll, decodeAll, List.drop_nil]
    | succ n =>
      rw [decodeAll, List.drop_succ_cons, ih, List.drop_drop, Nat.succ_sub_succ, Nat.mul_succ,
        Nat.add_comm w]

/-- Words are decoded from their bytes alone. -/
theorem decodeAll_of_take {w n m : ℕ} (h : w * n ≤ m) (bs : List UInt8) :
    decodeAll w n (bs.take m) = decodeAll w n bs := by
  induction n generalizing m bs with
  | zero => rfl
  | succ n ih =>
    rw [Nat.mul_succ] at h
    rw [decodeAll, decodeAll, List.take_take, Nat.min_eq_left (by omega), List.drop_take,
      ih (by omega)]

/-- Values that fit their fields are read back from their words, whatever follows. -/
theorem decodeAll_encodeAll (w : ℕ) (ns : List ℕ) (post : List UInt8) (h : ∀ n ∈ ns, n < 256^w) :
    decodeAll w ns.length (encodeAll w ns ++ post) = ns := by
  induction ns with
  | nil => rfl
  | cons n ns ih =>
    have hn : n < 256^w := h n List.mem_cons_self
    have hns := ih fun m hm => h m (List.mem_cons_of_mem n hm)
    rw [List.length_cons, decodeAll, encodeAll_cons, List.append_assoc,
      List.take_left' (encode_length w n), List.drop_left' (encode_length w n),
      decode_encode_of_lt hn, hns]

end LittleEndian
