import Mathlib.Algebra.Ring.Nat
import MqttBroker.Packets.Wire

/-!
# Remaining lengths

`encodeLength` writes a length in base 128 and `decodeLength` reads at most four digits. The loop
is followed digit by digit: after `j` rounds `multiplier` is `7 * j` and `rLength` is below
`128 ^ j`, so the digit of the next round lands above what is there. From this come the lengths
that survive, the bound on what is read from any stream, and what is made of a length that the
end of the stream cuts off.
-/

namespace MqttBroker

/-! ## Bytes with a continuation bit -/

theorem toNat_and_127 (b : UInt8) : (b &&& 127).toNat = b.toNat % 128 := by
  rw [UInt8.toNat_and]
  exact Nat.and_two_pow_sub_one_eq_mod b.toNat 7

theorem toNat_or_128 {d : ℕ} (h : d < 128) : (UInt8.ofNat d ||| 0x80).toNat = d + 128 := by
  have hbyte : (UInt8.ofNat d).toNat = d := by
    rw [UInt8.toNat_ofNat']
    omega
  have hor := Nat.two_pow_add_eq_or_of_lt (i := 7) h 1
  rw [UInt8.toNat_or, hbyte, Nat.or_comm]
  show 2 ^ 7 * 1 ||| d = d + 128
  omega

theorem and_128_eq_zero_iff (b : UInt8) : b &&& 128 = 0 ↔ b.toNat < 128 := by
  have hbits : ∀ i : Fin 256, (i.val &&& 128 = 0 ↔ i.val < 128) := by decide +kernel
  rw [← UInt8.toNat_inj, UInt8.toNat_and]
  exact hbits ⟨b.toNat, b.toNat_lt⟩

/-- The digit goes above what has been read. -/
theorem toNat_accumulate (rLength : UInt32) (b : UInt8) {j : ℕ} (hj : j < 4)
    (h : rLength.toNat < 128 ^ j) :
    (rLength ||| (b &&& 127).toUInt32 <<< UInt32.ofNat (7 * j)).toNat =
      rLength.toNat + b.toNat % 128 * 128 ^ j := by
  have hpow : (128 : ℕ) ^ j = 2 ^ (7 * j) := by rw [Nat.pow_mul]
  have hle : (128 : ℕ) ^ j ≤ 128 ^ 3 := Nat.pow_le_pow_right (by omega) (by omega)
  have hshift : (UInt32.ofNat (7 * j)).toNat % 32 = 7 * j := by
    rw [UInt32.toNat_ofNat']
    omega
  have hfits : b.toNat % 128 * 128 ^ j < 2 ^ 32 := by
    have hmul := Nat.mul_le_mul (show b.toNat % 128 ≤ 127 by omega) hle
    omega
  rw [UInt32.toNat_or, UInt32.toNat_shiftLeft, UInt8.toNat_toUInt32, toNat_and_127, hshift,
    Nat.shiftLeft_eq, ← hpow, Nat.mod_eq_of_lt hfits, Nat.or_comm, Nat.mul_comm, hpow,
    ← Nat.two_pow_add_eq_or_of_lt (hpow ▸ h)]
  omega

/-! ## A round of the loop -/

section Round

variable {ρ : Type} {R : IoReader ρ}

/-- Four rounds at most. -/
theorem decodeLengthLoop_four (rLength : UInt32) (b : UInt8) (r : ρ) :
    decodeLengthLoop R rLength (7 * 4) b r = (rLength.toNat, r) := by
  rw [decodeLengthLoop, if_neg (by omega)]

/-- A round, with the byte that it finds in its buffer. -/
theorem decodeLengthLoop_round (rLength : UInt32) {j : ℕ} (hj : j < 4) (b : UInt8) (r : ρ)
    (h : rLength.toNat < 128 ^ j) :
    ∃ rLength' : UInt32,
      rLength'.toNat =
        rLength.toNat + ((R.readFull 1 r).1.1.headD b).toNat % 128 * 128 ^ j ∧
      decodeLengthLoop R rLength (7 * j) b r =
        if ((R.readFull 1 r).1.1.headD b).toNat < 128 then (rLength'.toNat, (R.readFull 1 r).2)
        else decodeLengthLoop R rLength' (7 * (j + 1)) ((R.readFull 1 r).1.1.headD b)
          (R.readFull 1 r).2 := by
  refine ⟨_, toNat_accumulate rLength _ hj h, ?_⟩
  rw [decodeLengthLoop, if_pos (by omega)]
  have hnext : 7 * j + 7 = 7 * (j + 1) := by omega
  rw [hnext]
  by_cases hlast : ((R.readFull 1 r).1.1.headD b).toNat < 128
  · rw [if_pos hlast]
    exact if_pos ((and_128_eq_zero_iff _).mpr hlast)
  · rw [if_neg hlast]
    exact if_neg fun hzero => hlast ((and_128_eq_zero_iff _).mp hzero)

/-- What is below a digit and the digit are below the next power. -/
theorem add_digit_lt {x d j : ℕ} (hx : x < 128 ^ j) (hd : d < 128) :
    x + d * 128 ^ j < 128 ^ (j + 1) := by
  have hmul := Nat.mul_le_mul_right (128 ^ j) (show d + 1 ≤ 128 by omega)
  have hpow : (128 : ℕ) ^ (j + 1) = 128 * 128 ^ j := by rw [Nat.pow_succ, Nat.mul_comm]
  have hsucc : (d + 1) * 128 ^ j = d * 128 ^ j + 128 ^ j := Nat.succ_mul d _
  omega

/-- Whatever the reader returns, the length is below `2 ^ 28`. -/
theorem decodeLengthLoop_lt (k : ℕ) : ∀ (rLength : UInt32) (j : ℕ) (b : UInt8) (r : ρ),
    j + k = 4 → rLength.toNat < 128 ^ j →
      (decodeLengthLoop R rLength (7 * j) b r).1 < 128 ^ 4 := by
  induction k with
  | zero =>
    intro rLength j b r hj hlt
    obtain rfl : j = 4 := hj
    rw [decodeLengthLoop_four]
    exact hlt
  | succ k ih =>
    intro rLength j b r hj hlt
    obtain ⟨rLength', hvalue, hround⟩ :=
      decodeLengthLoop_round (R := R) rLength (show j < 4 by omega) b r hlt
    have hlt' : rLength'.toNat < 128 ^ (j + 1) := by
      rw [hvalue]
      exact add_digit_lt hlt (Nat.mod_lt _ (by omega))
    rw [hround]
    split
    · have hle : (128 : ℕ) ^ (j + 1) ≤ 128 ^ 4 := Nat.pow_le_pow_right (by omega) (by omega)
      show rLength'.toNat < 128 ^ 4
      omega
    · exact ih rLength' (j + 1) _ _ (by omega) hlt'

theorem decodeLength_lt (r : ρ) : (decodeLength R r).1 < 2 ^ 28 :=
  decodeLengthLoop_lt 4 0 0 0 r rfl (by decide)

end Round

/-! ## Reading a length from a stream -/

/-- The first digit, and whether others follow. -/
theorem encodeLength_eq (n : ℕ) : encodeLength n =
    if n < 128 then [UInt8.ofNat n]
    else (UInt8.ofNat (n % 128) ||| 0x80) :: encodeLength (n / 128) := by
  rw [encodeLength]
  by_cases hn : n < 128
  · rw [if_pos hn, if_neg (by omega), Nat.mod_eq_of_lt hn]
  · rw [if_neg hn, if_pos (by omega)]

/-- A round that finds a byte on the stream. -/
theorem decodeLengthLoop_cons (rLength : UInt32) {j : ℕ} (hj : j < 4) (b digit : UInt8)
    (rest : GoString) (err : GoError) (h : rLength.toNat < 128 ^ j) :
    ∃ rLength' : UInt32, rLength'.toNat = rLength.toNat + digit.toNat % 128 * 128 ^ j ∧
      decodeLengthLoop ByteStream.reader rLength (7 * j) b ⟨digit :: rest, err⟩ =
        if digit.toNat < 128 then (rLength'.toNat, ⟨rest, err⟩)
        else decodeLengthLoop ByteStream.reader rLength' (7 * (j + 1)) digit ⟨rest, err⟩ := by
  have hround := decodeLengthLoop_round (R := ByteStream.reader) rLength hj b
    ⟨digit :: rest, err⟩ h
  rw [ByteStream.reader_readFull, ByteStream.readFull_cons] at hround
  exact hround

/-- By induction on the rounds that are left, which are as many as the digits may be. -/
theorem decodeLengthLoop_encodeLength (k : ℕ) :
    ∀ (rLength : UInt32) (j : ℕ) (b : UInt8) (n : ℕ) (rest : GoString) (err : GoError),
      j + (k + 1) = 4 → rLength.toNat < 128 ^ j → n < 128 ^ (k + 1) →
        decodeLengthLoop ByteStream.reader rLength (7 * j) b ⟨encodeLength n ++ rest, err⟩ =
          (rLength.toNat + n * 128 ^ j, ⟨rest, err⟩) := by
  induction k with
  | zero =>
    intro rLength j b n rest err hj hlt hn
    have hsmall : n < 128 := by omega
    have hbyte : (UInt8.ofNat n).toNat = n := by
      rw [UInt8.toNat_ofNat']
      omega
    rw [encodeLength_eq, if_pos hsmall, List.singleton_append]
    obtain ⟨rLength', hvalue, hround⟩ :=
      decodeLengthLoop_cons rLength (show j < 4 by omega) b (UInt8.ofNat n) rest err hlt
    rw [hround, if_pos (by omega), hvalue, hbyte, Nat.mod_eq_of_lt hsmall]
  | succ k ih =>
    intro rLength j b n rest err hj hlt hn
    rw [encodeLength_eq]
    by_cases hsmall : n < 128
    · have hbyte : (UInt8.ofNat n).toNat = n := by
        rw [UInt8.toNat_ofNat']
        omega
      rw [if_pos hsmall, List.singleton_append]
      obtain ⟨rLength', hvalue, hround⟩ :=
        decodeLengthLoop_cons rLength (show j < 4 by omega) b (UInt8.ofNat n) rest err hlt
      rw [hround, if_pos (by omega), hvalue, hbyte, Nat.mod_eq_of_lt hsmall]
    · have hbyte := toNat_or_128 (show n % 128 < 128 by omega)
      have hdigit : (UInt8.ofNat (n % 128) ||| 0x80).toNat % 128 = n % 128 := by omega
      rw [if_neg hsmall, List.cons_append]
      obtain ⟨rLength', hvalue, hround⟩ := decodeLengthLoop_cons rLength (show j < 4 by omega) b
        (UInt8.ofNat (n % 128) ||| 0x80) (encodeLength (n / 128) ++ rest) err hlt
      rw [hdigit] at hvalue
      have hlt' : rLength'.toNat < 128 ^ (j + 1) := by
        rw [hvalue]
        exact add_digit_lt hlt (by omega)
      have hn' : n / 128 < 128 ^ (k + 1) := by
        rw [Nat.div_lt_iff_lt_mul (by omega), ← Nat.pow_succ]
        exact hn
      rw [hround, if_neg (by omega), ih rLength' (j + 1) _ (n / 128) rest err (by omega) hlt' hn',
        hvalue]
      have hsplit : n * 128 ^ j = n % 128 * 128 ^ j + n / 128 * 128 ^ (j + 1) := by
        rw [Nat.pow_succ, Nat.mul_comm (128 ^ j), ← Nat.mul_assoc, ← Nat.add_mul]
        congr 1
        omega
      rw [hsplit, Nat.add_assoc]

/-- A length below `2 ^ 28` is read back, and what follows it is left. -/
theorem decodeLength_encodeLength {n : ℕ} (h : n < 2 ^ 28) (rest : GoString) (err : GoError) :
    decodeLength ByteStream.reader ⟨encodeLength n ++ rest, err⟩ = (n, ⟨rest, err⟩) := by
  unfold decodeLength
  have hloop := decodeLengthLoop_encodeLength 3 0 0 0 n rest err rfl (by decide)
    (show n < 128 ^ (3 + 1) by omega)
  rw [show 7 * 0 = 0 from rfl] at hloop
  rw [hloop]
  congr 1
  show 0 + n * 1 = n
  omega

/-- Only the lengths below `2 ^ 28` are read back. -/
theorem decodeLength_encodeLength_iff (n : ℕ) :
    (∀ rest err, decodeLength ByteStream.reader ⟨encodeLength n ++ rest, err⟩ = (n, ⟨rest, err⟩)) ↔
      n < 2 ^ 28 := by
  constructor
  · intro h
    have hlt := decodeLength_lt (R := ByteStream.reader) ⟨encodeLength n ++ [], errEof⟩
    rw [h] at hlt
    exact hlt
  · exact fun h rest err => decodeLength_encodeLength h rest err

/-- A digit for each power of 128. -/
theorem length_encodeLength_le (k : ℕ) : ∀ n, n < 128 ^ (k + 1) →
    (encodeLength n).length ≤ k + 1 := by
  induction k with
  | zero =>
    intro n hn
    rw [encodeLength_eq, if_pos (by omega)]
    exact Nat.le_refl 1
  | succ k ih =>
    intro n hn
    rw [encodeLength_eq]
    split
    · exact Nat.succ_le_succ (Nat.zero_le _)
    · have hn' : n / 128 < 128 ^ (k + 1) := by
        rw [Nat.div_lt_iff_lt_mul (by omega), ← Nat.pow_succ]
        exact hn
      have hlength := ih (n / 128) hn'
      rw [List.length_cons]
      omega

/-! ## What a length takes from a stream -/

/-- Each round takes a byte, if there is one. -/
theorem decodeLengthLoop_drop (k : ℕ) : ∀ (rLength : UInt32) (j : ℕ) (b : UInt8) (s : ByteStream),
    j + k = 4 → rLength.toNat < 128 ^ j → ∃ c, c ≤ k ∧
      (decodeLengthLoop ByteStream.reader rLength (7 * j) b s).2 = ⟨s.bytes.drop c, s.err⟩ := by
  induction k with
  | zero =>
    intro rLength j b s hj _
    obtain rfl : j = 4 := hj
    refine ⟨0, Nat.le_refl 0, ?_⟩
    rw [decodeLengthLoop_four]
    rfl
  | succ k ih =>
    intro rLength j b s hj hlt
    obtain ⟨rLength', hvalue, hround⟩ := decodeLengthLoop_round (R := ByteStream.reader) rLength
      (show j < 4 by omega) b s hlt
    rw [hround]
    split
    · exact ⟨1, by omega, rfl⟩
    · have hlt' : rLength'.toNat < 128 ^ (j + 1) := by
        rw [hvalue]
        exact add_digit_lt hlt (by omega)
      obtain ⟨c, hc, hdrop⟩ :=
        ih rLength' (j + 1) _ (ByteStream.reader.readFull 1 s).2 (by omega) hlt'
      refine ⟨1 + c, by omega, ?_⟩
      rw [hdrop]
      show (⟨(s.bytes.drop 1).drop c, s.err⟩ : ByteStream) = _
      rw [List.drop_drop]

theorem decodeLength_drop (s : ByteStream) :
    ∃ c, c ≤ 4 ∧ (decodeLength ByteStream.reader s).2 = ⟨s.bytes.drop c, s.err⟩ :=
  decodeLengthLoop_drop 4 0 0 0 s rfl (by decide)

/-! ## A length that the end of the stream cuts off -/

/-- At the end of the stream each round reads the byte of the round before again. -/
theorem decodeLengthLoop_nil (k : ℕ) :
    ∀ (rLength : UInt32) (j : ℕ) (b : UInt8) (err : GoError), j + k = 4 →
      rLength.toNat < 128 ^ j →
        (decodeLengthLoop ByteStream.reader rLength (7 * j) b ⟨[], err⟩).2 = ⟨[], err⟩ ∧
          ((decodeLengthLoop ByteStream.reader rLength (7 * j) b ⟨[], err⟩).1 = 0 ↔
            rLength.toNat = 0 ∧ (0 < k → b.toNat % 128 = 0)) := by
  induction k with
  | zero =>
    intro rLength j b err hj _
    obtain rfl : j = 4 := hj
    rw [decodeLengthLoop_four]
    refine ⟨rfl, ?_⟩
    show rLength.toNat = 0 ↔ _
    omega
  | succ k ih =>
    intro rLength j b err hj hlt
    obtain ⟨rLength', hvalue, hround⟩ := decodeLengthLoop_round (R := ByteStream.reader) rLength
      (show j < 4 by omega) b ⟨[], err⟩ hlt
    rw [ByteStream.reader_readFull, ByteStream.readFull_nil] at hvalue hround
    have hvalue : rLength'.toNat = rLength.toNat + b.toNat % 128 * 128 ^ j := hvalue
    have hzero : rLength'.toNat = 0 ↔ rLength.toNat = 0 ∧ b.toNat % 128 = 0 := by
      have hpos : 0 < 128 ^ j := Nat.pow_pos (by omega)
      rw [hvalue, Nat.add_eq_zero_iff, Nat.mul_eq_zero]
      omega
    rw [hround]
    split
    · refine ⟨rfl, ?_⟩
      show rLength'.toNat = 0 ↔ _
      omega
    · have hlt' : rLength'.toNat < 128 ^ (j + 1) := by
        rw [hvalue]
        exact add_digit_lt hlt (by omega)
      obtain ⟨hrest, hiff⟩ := ih rLength' (j + 1) b err (by omega) hlt'
      refine ⟨hrest, hiff.trans ?_⟩
      omega

/-- Of a length whose digits are cut off after the first `i`, nothing is left if and only if these
digits are zeros. -/
theorem decodeLengthLoop_take (i : ℕ) :
    ∀ (k : ℕ) (rLength : UInt32) (j : ℕ) (b : UInt8) (n : ℕ) (err : GoError),
      i + 1 < (encodeLength n).length → j + k = 4 → i < k → rLength.toNat < 128 ^ j →
        (decodeLengthLoop ByteStream.reader rLength (7 * j) b
            ⟨(encodeLength n).take (i + 1), err⟩).2 = ⟨[], err⟩ ∧
          ((decodeLengthLoop ByteStream.reader rLength (7 * j) b
            ⟨(encodeLength n).take (i + 1), err⟩).1 = 0 ↔
              rLength.toNat = 0 ∧ 128 ^ (i + 1) ∣ n) := by
  induction i with
  | zero =>
    intro k rLength j b n err hcut hj hk hlt
    rw [encodeLength_eq] at hcut ⊢
    by_cases hsmall : n < 128
    · rw [if_pos hsmall] at hcut
      exact absurd hcut (by simp)
    · have hbyte := toNat_or_128 (show n % 128 < 128 by omega)
      rw [if_neg hsmall, List.take_succ_cons, List.take_zero]
      obtain ⟨rLength', hvalue, hround⟩ := decodeLengthLoop_cons rLength (show j < 4 by omega) b
        (UInt8.ofNat (n % 128) ||| 0x80) [] err hlt
      have hlt' : rLength'.toNat < 128 ^ (j + 1) := by
        rw [hvalue]
        exact add_digit_lt hlt (by omega)
      obtain ⟨hrest, hiff⟩ := decodeLengthLoop_nil (k - 1) rLength' (j + 1)
        (UInt8.ofNat (n % 128) ||| 0x80) err (by omega) hlt'
      rw [hround, if_neg (by omega)]
      refine ⟨hrest, hiff.trans ?_⟩
      have hpos : 0 < 128 ^ j := Nat.pow_pos (by omega)
      rw [hvalue, Nat.add_eq_zero_iff, Nat.mul_eq_zero]
      omega
  | succ i ih =>
    intro k rLength j b n err hcut hj hk hlt
    rw [encodeLength_eq] at hcut ⊢
    by_cases hsmall : n < 128
    · rw [if_pos hsmall] at hcut
      exact absurd hcut (by simp)
    · have hbyte := toNat_or_128 (show n % 128 < 128 by omega)
      rw [if_neg hsmall, List.length_cons] at hcut
      rw [if_neg hsmall, List.take_succ_cons]
      obtain ⟨rLength', hvalue, hround⟩ := decodeLengthLoop_cons rLength (show j < 4 by omega) b
        (UInt8.ofNat (n % 128) ||| 0x80) ((encodeLength (n / 128)).take (i + 1)) err hlt
      have hlt' : rLength'.toNat < 128 ^ (j + 1) := by
        rw [hvalue]
        exact add_digit_lt hlt (by omega)
      obtain ⟨hrest, hiff⟩ := ih (k - 1) rLength' (j + 1) (UInt8.ofNat (n % 128) ||| 0x80)
        (n / 128) err (by omega) (by omega) (by omega) hlt'
      rw [hround, if_neg (by omega)]
      refine ⟨hrest, hiff.trans ?_⟩
      have hpos : 0 < 128 ^ j := Nat.pow_pos (by omega)
      have hdvd : 128 ^ (i + 1 + 1) ∣ n ↔ n % 128 = 0 ∧ 128 ^ (i + 1) ∣ n / 128 := by
        constructor
        · intro h
          have hfirst : 128 ∣ n := Nat.dvd_trans (Nat.dvd_mul_left 128 (128 ^ (i + 1))) h
          exact ⟨Nat.mod_eq_zero_of_dvd hfirst,
            (Nat.dvd_div_iff_mul_dvd hfirst).mpr ((Nat.pow_succ' ..) ▸ h)⟩
        · rintro ⟨hfirst, h⟩
          rw [Nat.pow_succ']
          exact (Nat.dvd_div_iff_mul_dvd (Nat.dvd_of_mod_eq_zero hfirst)).mp h
      rw [hvalue, hdvd, Nat.add_eq_zero_iff, Nat.mul_eq_zero]
      have hdigit : (UInt8.ofNat (n % 128) ||| 0x80).toNat % 128 = n % 128 := by omega
      rw [hdigit]
      constructor
      · rintro ⟨⟨hzero, hfirst | hpow⟩, h⟩
        · exact ⟨hzero, hfirst, h⟩
        · omega
      · rintro ⟨hzero, hfirst, h⟩
        exact ⟨⟨hzero, .inl hfirst⟩, h⟩

/-- A length that is cut off: nothing of the stream is left, and what is read is zero if and only
if no digit before the cut is another one. -/
theorem decodeLength_take {n i : ℕ} (h : n < 2 ^ 28) (hcut : i < (encodeLength n).length)
    (err : GoError) :
    (decodeLength ByteStream.reader ⟨(encodeLength n).take i, err⟩).2 = ⟨[], err⟩ ∧
      ((decodeLength ByteStream.reader ⟨(encodeLength n).take i, err⟩).1 = 0 ↔ 128 ^ i ∣ n) := by
  have hlength := length_encodeLength_le 3 n (show n < 128 ^ (3 + 1) by omega)
  cases i with
  | zero =>
    obtain ⟨hrest, hiff⟩ := decodeLengthLoop_nil 4 0 0 0 err rfl (by decide)
    refine ⟨hrest, hiff.trans ?_⟩
    exact iff_of_true ⟨rfl, fun _ => rfl⟩ (Nat.one_dvd n)
  | succ i =>
    obtain ⟨hrest, hiff⟩ := decodeLengthLoop_take i 4 0 0 0 n err hcut rfl (by omega) (by decide)
    refine ⟨hrest, hiff.trans ?_⟩
    exact and_iff_right rfl

end MqttBroker
