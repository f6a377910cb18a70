import Mathlib.Data.List.Basic

/- Modified UTF-8: every UTF-16 code unit on its own, as one to three bytes none of which
   is zero. Surrogates are coded like any other unit, U+0000 as C0 80. -/
namespace ModifiedUtf8

def encodeUnit (u : UInt16) : List UInt8 :=
  let n := u.toNat
  if n = 0 then [0xC0, 0x80]
  else if n < 0x80 then [.ofNat n]
  else if n < 0x800 then [.ofNat (0xC0 + n / 64), .ofNat (0x80 + n % 64)]
  else [.ofNat (0xE0 + n / 4096), .ofNat (0x80 + n / 64 % 64), .ofNat (0x80 + n % 64)]

def encode (s : List UInt16) : List UInt8 := s.flatMap encodeUnit

def isContinuation (b : UInt8) : Bool := 0x80 ≤ b.toNat && b.toNat < 0xC0

def decode : List UInt8 → Option (List UInt16)
  | [] => some []
  | a :: rest =>
    if a.toNat = 0 then none
    else if a.toNat < 0x80 then (decode rest).map (.ofNat a.toNat :: ·)
    else if a.toNat < 0xC0 then none
    else if a.toNat < 0xE0 then
      match rest with
      | b :: rest =>
        if isContinuation b then
          (decode rest).map (.ofNat (a.toNat % 32 * 64 + b.toNat % 64) :: ·)
        else none
      | [] => none
    else if a.toNat < 0xF0 then
      match rest with
      | b :: c :: rest =>
        if isContinuation b && isContinuation c then
          (decode rest).map
            (.ofNat (a.toNat % 16 * 4096 + b.toNat % 64 * 64 + c.toNat % 64) :: ·)
        else none
      | _ => none
    else none

theorem decode_ascii {a : UInt8} (positive : a.toNat ≠ 0) (ascii : a.toNat < 0x80)
    (rest : List UInt8) : decode (a :: rest) = (decode rest).map (.ofNat a.toNat :: ·) := by
  rw [decode.eq_def]
  exact (if_neg positive).trans (if_pos ascii)

theorem decode_two {a b : UInt8} (low : 0xC0 ≤ a.toNat) (high : a.toNat < 0xE0)
    (second : isContinuation b = true) (rest : List UInt8) :
    decode (a :: b :: rest) =
      (decode rest).map (.ofNat (a.toNat % 32 * 64 + b.toNat % 64) :: ·) := by
  rw [decode, if_neg (by omega), if_neg (by omega), if_neg (by omega), if_pos high]
  simp [second]

theorem decode_three {a b c : UInt8} (low : 0xE0 ≤ a.toNat) (high : a.toNat < 0xF0)
    (second : isContinuation b = true) (third : isContinuation c = true) (rest : List UInt8) :
    decode (a :: b :: c :: rest) = (decode rest).map
      (.ofNat (a.toNat % 16 * 4096 + b.toNat % 64 * 64 + c.toNat % 64) :: ·) := by
  rw [decode, if_neg (by omega), if_neg (by omega), if_neg (by omega), if_neg (by omega),
    if_pos high]
  simp [second, third]

theorem decode_four {a : UInt8} (high : 0xF0 ≤ a.toNat) (rest : List UInt8) :
    decode (a :: rest) = none := by
  rw [decode.eq_def]
  dsimp only
  rw [if_neg (by omega), if_neg (by omega), if_neg (by omega), if_neg (by omega),
    if_neg (by omega)]

theorem isContinuation_of_lt {n : Nat} (small : n < 64) :
    isContinuation (.ofNat (0x80 + n)) = true := by
  have same : (UInt8.ofNat (0x80 + n)).toNat = 0x80 + n := by
    rw [UInt8.toNat_ofNat']
    omega
  simp only [isContinuation, same, Bool.and_eq_true, decide_eq_true_eq]
  omega

theorem toNat_byte {n : Nat} (small : n < 256) : (UInt8.ofNat n).toNat = n := by
  rw [UInt8.toNat_ofNat']
  omega

theorem decode_encodeUnit (u : UInt16) (rest : List UInt8) :
    decode (encodeUnit u ++ rest) = (decode rest).map (u :: ·) := by
  have bound : u.toNat < 65536 := u.toNat_lt
  unfold encodeUnit
  dsimp only
  split
  next zero =>
    have same : u = 0 := UInt16.toNat.inj zero
    subst same
    exact decode_two (by decide) (by decide) (by decide) rest
  split
  next positive ascii =>
    have byte : (UInt8.ofNat u.toNat).toNat = u.toNat := toNat_byte (by omega)
    rw [List.singleton_append, decode_ascii (by omega) (by omega), byte, UInt16.ofNat_toNat]
  split
  next positive wide short =>
    have lead : (UInt8.ofNat (0xC0 + u.toNat / 64)).toNat = 0xC0 + u.toNat / 64 :=
      toNat_byte (by omega)
    have tail : (UInt8.ofNat (0x80 + u.toNat % 64)).toNat = 0x80 + u.toNat % 64 :=
      toNat_byte (by omega)
    have unit : (0xC0 + u.toNat / 64) % 32 * 64 + (0x80 + u.toNat % 64) % 64 = u.toNat := by omega
    simp only [List.cons_append, List.nil_append]
    rw [decode_two (by omega) (by omega) (isContinuation_of_lt (Nat.mod_lt _ (by omega))), lead,
      tail, unit, UInt16.ofNat_toNat]
  next positive wide long =>
    have lead : (UInt8.ofNat (0xE0 + u.toNat / 4096)).toNat = 0xE0 + u.toNat / 4096 :=
      toNat_byte (by omega)
    have middle : (UInt8.ofNat (0x80 + u.toNat / 64 % 64)).toNat = 0x80 + u.toNat / 64 % 64 :=
      toNat_byte (by omega)
    have tail : (UInt8.ofNat (0x80 + u.toNat % 64)).toNat = 0x80 + u.toNat % 64 :=
      toNat_byte (by omega)
    have unit : (0xE0 + u.toNat / 4096) % 16 * 4096 + (0x80 + u.toNat / 64 % 64) % 64 * 64 +
        (0x80 + u.toNat % 64) % 64 = u.toNat := by omega
    simp only [List.cons_append, List.nil_append]
    rw [decode_three (by omega) (by omega) (isContinuation_of_lt (Nat.mod_lt _ (by omega)))
      (isContinuation_of_lt (Nat.mod_lt _ (by omega))), lead, middle, tail, unit,
      UInt16.ofNat_toNat]

theorem encode_cons (u : UInt16) (s : List UInt16) :
    encode (u :: s) = encodeUnit u ++ encode s := rfl

theorem decode_encode (s : List UInt16) : decode (encode s) = some s := by
  induction s with
  | nil => rfl
  | cons u s ih => rw [encode_cons, decode_encodeUnit, ih, Option.map_some]

theorem encode_nonzero (s : List UInt16) : ∀ b ∈ encode s, b ≠ 0 := by
  intro b member
  obtain ⟨u, -, within⟩ := List.mem_flatMap.1 member
  have bound : u.toNat < 65536 := u.toNat_lt
  have positive : ∀ n, 0 < n → n < 256 → UInt8.ofNat n ≠ 0 := by
    intro n low high zero
    have same := toNat_byte high
    rw [zero] at same
    simp at same
    omega
  unfold encodeUnit at within
  dsimp only at within
  split at within
  · rcases List.mem_pair.1 within with rfl | rfl <;> decide
  split at within
  · rw [List.mem_singleton.1 within]
    exact positive _ (by omega) (by omega)
  split at within
  · rcases List.mem_pair.1 within with rfl | rfl
    · exact positive _ (by omega) (by omega)
    · exact positive _ (by omega) (by omega)
  · simp only [List.mem_cons, List.not_mem_nil, or_false] at within
    rcases within with rfl | rfl | rfl
    · exact positive _ (by omega) (by omega)
    · exact positive _ (by omega) (by omega)
    · exact positive _ (by omega) (by omega)

end ModifiedUtf8
