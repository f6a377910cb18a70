import QuickJSBridge.BridgeMachine

/- Text across the border and back. Java hands modified UTF-8 to a reader of UTF-8 and takes
   UTF-8 for modified UTF-8. Both code a unit on its own alike, except U+0000 and the two
   halves of a pair. -/
namespace QuickJSBridge
open HostProgram ReentrantMachine ModifiedUtf8

section Reading

/-- What `JS_NewStringLen` makes of the two bytes of U+0000. -/
def patched (u : UInt16) : UInt16 := if u = 0 then 0xFFFD else u

theorem utf8Tail_byte {n c l : Nat} {p : List UInt8} (small : n < 64) :
    utf8Tail (l + 1) c (.ofNat (0x80 + n) :: p) = utf8Tail l (c * 64 + n) p := by
  have byte : (UInt8.ofNat (0x80 + n)).toNat = 0x80 + n := toNat_byte (by omega)
  have low : (0x80 + n) % 64 = n := by omega
  simp only [utf8Tail, byte, low]
  rw [if_neg (by omega)]

theorem unicodeFromUtf8_unit {u : UInt16} (coded : 0x80 ≤ u.toNat) (rest : List UInt8) :
    unicodeFromUtf8 (encodeUnit u ++ rest) = some (u.toNat, rest) := by
  have bound : u.toNat < 65536 := u.toNat_lt
  unfold encodeUnit
  dsimp only
  rw [if_neg (by omega), if_neg (by omega)]
  split
  next short =>
    have lead : (UInt8.ofNat (0xC0 + u.toNat / 64)).toNat = 0xC0 + u.toNat / 64 :=
      toNat_byte (by omega)
    have head : utf8Head (0xC0 + u.toNat / 64) = some (1, u.toNat / 64, 0x80) := by
      have bits : (0xC0 + u.toNat / 64) % 32 = u.toNat / 64 := by omega
      rw [utf8Head, if_neg (by omega), if_pos (by omega), bits]
    have unit : u.toNat / 64 * 64 + u.toNat % 64 = u.toNat := by omega
    simp only [List.cons_append, List.nil_append, unicodeFromUtf8, lead]
    rw [if_neg (by omega), head]
    dsimp only
    rw [utf8Tail_byte (Nat.mod_lt _ (by omega)), unit]
    simp only [utf8Tail]
    rw [if_neg (by omega)]
  next long =>
    have lead : (UInt8.ofNat (0xE0 + u.toNat / 4096)).toNat = 0xE0 + u.toNat / 4096 :=
      toNat_byte (by omega)
    have head : utf8Head (0xE0 + u.toNat / 4096) = some (2, u.toNat / 4096, 0x800) := by
      have bits : (0xE0 + u.toNat / 4096) % 16 = u.toNat / 4096 := by omega
      rw [utf8Head, if_neg (by omega), if_neg (by omega), if_pos (by omega), bits]
    have unit : (u.toNat / 4096 * 64 + u.toNat / 64 % 64) * 64 + u.toNat % 64 = u.toNat := by omega
    simp only [List.cons_append, List.nil_append, unicodeFromUtf8, lead]
    rw [if_neg (by omega), head]
    dsimp only
    rw [utf8Tail_byte (Nat.mod_lt _ (by omega)), utf8Tail_byte (Nat.mod_lt _ (by omega)), unit]
    simp only [utf8Tail]
    rw [if_neg (by omega)]

theorem encodeUnit_ascii {u : UInt16} (positive : u ≠ 0) (ascii : u.toNat < 0x80) :
    encodeUnit u = [.ofNat u.toNat] := by
  have nonzero : u.toNat ≠ 0 := fun zero => positive (UInt16.toNat.inj zero)
  unfold encodeUnit
  dsimp only
  rw [if_neg nonzero, if_pos ascii]

theorem encodeUnit_lead {u : UInt16} (coded : u = 0 ∨ 0x80 ≤ u.toNat) :
    ∃ a tail, encodeUnit u = a :: tail ∧ 0xC0 ≤ a.toNat := by
  have bound : u.toNat < 65536 := u.toNat_lt
  unfold encodeUnit
  dsimp only
  split
  · exact ⟨_, _, rfl, by decide⟩
  next nonzero =>
    have high : 0x80 ≤ u.toNat := by
      rcases coded with rfl | high
      · exact absurd rfl nonzero
      · exact high
    rw [if_neg (by omega)]
    split
    · refine ⟨_, _, rfl, ?_⟩
      rw [toNat_byte (by omega)]
      omega
    · refine ⟨_, _, rfl, ?_⟩
      rw [toNat_byte (by omega)]
      omega

theorem unit_cases (u : UInt16) : u = 0 ∨ (u ≠ 0 ∧ u.toNat < 0x80) ∨ 0x80 ≤ u.toNat := by
  by_cases zero : u = 0
  · exact Or.inl zero
  · rcases Nat.lt_or_ge u.toNat 0x80 with small | large
    · exact Or.inr (Or.inl ⟨zero, small⟩)
    · exact Or.inr (Or.inr large)

theorem dropWhile_encode (s : JavaString) : (encode s).dropWhile isContinuation = encode s := by
  cases s with
  | nil => rfl
  | cons u s =>
    rw [encode_cons]
    rcases unit_cases u with zero | ⟨positive, ascii⟩ | large
    · obtain ⟨a, tail, same, high⟩ := encodeUnit_lead (Or.inl zero)
      have lead : isContinuation a = false := by simp [isContinuation]; omega
      rw [same, List.cons_append, List.dropWhile_cons_of_neg (by simp [lead])]
    · have byte : (UInt8.ofNat u.toNat).toNat = u.toNat := toNat_byte (by omega)
      have lead : isContinuation (.ofNat u.toNat) = false := by
        unfold isContinuation
        rw [byte, decide_eq_false (by omega)]
        rfl
      rw [encodeUnit_ascii positive ascii, List.singleton_append,
        List.dropWhile_cons_of_neg (by rw [lead]; exact Bool.false_ne_true)]
    · obtain ⟨a, tail, same, high⟩ := encodeUnit_lead (Or.inr large)
      have lead : isContinuation a = false := by simp [isContinuation]; omega
      rw [same, List.cons_append, List.dropWhile_cons_of_neg (by simp [lead])]

theorem utf8Units_encode (s : JavaString) (fuel : Nat) (enough : (encode s).length ≤ fuel) :
    utf8Units fuel (encode s) = s.map patched := by
  induction s generalizing fuel with
  | nil => cases fuel <;> rfl
  | cons u s ih =>
    rw [encode_cons] at enough ⊢
    rw [List.length_append] at enough
    rcases unit_cases u with rfl | ⟨positive, ascii⟩ | large
    · have two : encodeUnit 0 = [0xC0, 0x80] := rfl
      rw [two] at enough ⊢
      cases fuel with
      | zero => simp at enough
      | succ fuel =>
        have skips : skipInvalid (0xC0 :: 0x80 :: encode s) = encode s := by
          have lead : isContinuation 0xC0 = false := by decide
          have second : isContinuation 0x80 = true := by decide
          unfold skipInvalid
          rw [List.dropWhile_cons_of_neg (by simp [lead])]
          dsimp only
          rw [List.dropWhile_cons_of_pos second, dropWhile_encode]
        have overlong : unicodeFromUtf8 (0xC0 :: 0x80 :: encode s) = none := rfl
        have rest : (encode s).length ≤ fuel := by
          simp at enough
          omega
        simp only [List.cons_append, List.nil_append, utf8Units]
        rw [if_neg (by decide), overlong]
        dsimp only
        rw [skips, ih fuel rest]
        rfl
    · have byte : (UInt8.ofNat u.toNat).toNat = u.toNat := toNat_byte (by omega)
      rw [encodeUnit_ascii positive ascii] at enough ⊢
      cases fuel with
      | zero => simp at enough
      | succ fuel =>
        have rest : (encode s).length ≤ fuel := by
          simp at enough
          omega
        simp only [List.singleton_append, utf8Units, byte]
        rw [if_pos (by omega), ih fuel rest, UInt16.ofNat_toNat, List.map_cons, patched,
          if_neg positive]
    · obtain ⟨a, tail, same, high⟩ := encodeUnit_lead (Or.inr large)
      have sequence := unicodeFromUtf8_unit large (encode s)
      have bound : u.toNat < 65536 := u.toNat_lt
      have positive : u ≠ 0 := by
        rintro rfl
        simp at large
      rw [same] at enough sequence ⊢
      cases fuel with
      | zero => simp at enough
      | succ fuel =>
        have rest : (encode s).length ≤ fuel := by
          simp at enough
          omega
        rw [List.cons_append] at sequence ⊢
        simp only [utf8Units, sequence]
        rw [if_neg (by omega), if_pos bound, ih fuel rest, UInt16.ofNat_toNat, List.map_cons,
          patched, if_neg positive]

theorem ascii_of_bytes {s : JavaString} (ascii : ∀ b ∈ encode s, b.toNat < 128) :
    ∀ u ∈ s, u ≠ 0 ∧ u.toNat < 0x80 := by
  intro u member
  have within : ∀ b ∈ encodeUnit u, b ∈ encode s := fun b group =>
    List.mem_flatMap.2 ⟨u, member, group⟩
  rcases unit_cases u with zero | small | large
  · obtain ⟨a, tail, same, high⟩ := encodeUnit_lead (Or.inl zero)
    have low := ascii a (within a (by rw [same]; exact List.mem_cons_self))
    omega
  · exact small
  · obtain ⟨a, tail, same, high⟩ := encodeUnit_lead (Or.inr large)
    have low := ascii a (within a (by rw [same]; exact List.mem_cons_self))
    omega

theorem encode_ascii {s : JavaString} (ascii : ∀ u ∈ s, u ≠ 0 ∧ u.toNat < 0x80) :
    encode s = s.map fun u => .ofNat u.toNat := by
  induction s with
  | nil => rfl
  | cons u s ih =>
    obtain ⟨positive, small⟩ := ascii u List.mem_cons_self
    rw [encode_cons, encodeUnit_ascii positive small, ih fun v member =>
      ascii v (List.mem_cons_of_mem _ member)]
    rfl

theorem asciiLength_eq_iff (bytes : List UInt8) :
    asciiLength bytes = bytes.length ↔ ∀ b ∈ bytes, b.toNat < 128 := by
  unfold asciiLength
  induction bytes with
  | nil => simp
  | cons b bytes ih =>
    by_cases small : b.toNat < 128
    · rw [List.takeWhile_cons_of_pos (by simpa using small)]
      simp [ih, small]
    · rw [List.takeWhile_cons_of_neg (by simpa using small)]
      simp [small]

theorem newStringLen_encode {s : JavaString} {string : JSString}
    (made : newStringLen (encode s) = some string) : string = .ofUnits (s.map patched) := by
  unfold newStringLen at made
  split at made
  · cases made
  split at made
  next all =>
    cases made
    have ascii := ascii_of_bytes ((asciiLength_eq_iff _).1 all)
    rw [encode_ascii ascii, List.map_map]
    congr 1
    apply List.map_congr_left
    intro u member
    obtain ⟨positive, small⟩ := ascii u member
    have byte : (UInt8.ofNat u.toNat).toNat = u.toNat := toNat_byte (by omega)
    simp only [Function.comp_apply, byte, UInt16.ofNat_toNat, patched, if_neg positive]
  split at made
  · cases made
  dsimp only at made
  split at made
  · cases made
  · cases made
    rw [utf8Units_encode s _ (Nat.le_refl _)]

end Reading

section Sizes
variable {s : JavaString}

def NoNul (s : JavaString) : Prop := ∀ u ∈ s, u ≠ 0

theorem map_patched (noNul : NoNul s) : s.map patched = s := by
  have same : s.map patched = s.map id :=
    List.map_congr_left fun u member => if_neg (noNul u member)
  rw [same, List.map_id]

theorem isWide_ofUnits : (JSString.ofUnits s).isWide = true ↔ ∃ u ∈ s, 0x100 ≤ u.toNat := by
  unfold JSString.ofUnits
  split
  next fits =>
    constructor
    · intro wide
      cases wide
    · rintro ⟨u, member, wide⟩
      have narrow : u.toNat < 0x100 := of_decide_eq_true (List.all_eq_true.1 fits u member)
      omega
  next wide =>
    apply iff_of_true rfl
    simpa using wide

theorem ascii_iff (noNul : NoNul s) :
    asciiLength (encode s) = (encode s).length ↔ ¬ ∃ u ∈ s, 0x80 ≤ u.toNat := by
  rw [asciiLength_eq_iff]
  constructor
  · rintro ascii ⟨u, member, coded⟩
    have small := (ascii_of_bytes ascii u member).2
    omega
  · intro plain
    have ascii : ∀ u ∈ s, u ≠ 0 ∧ u.toNat < 0x80 := by
      intro u member
      refine ⟨noNul u member, ?_⟩
      by_contra large
      exact plain ⟨u, member, by omega⟩
    rw [encode_ascii ascii]
    intro b member
    obtain ⟨u, there, rfl⟩ := List.mem_map.1 member
    have small := (ascii u there).2
    rw [toNat_byte (by omega)]
    omega

theorem newStringLen_iff (noNul : NoNul s) :
    newStringLen (encode s) = some (.ofUnits s) ↔
      asciiLength (encode s) ≤ maxStringLength ∧
      ((∃ u ∈ s, 0x80 ≤ u.toNat) → (encode s).length ≤ maxInt) ∧
      ((∃ u ∈ s, 0x100 ≤ u.toNat) → 2 * (encode s).length ≤ maxInt) := by
  have made : ∀ string, newStringLen (encode s) = some string → string = .ofUnits s := by
    intro string there
    rw [newStringLen_encode there, map_patched noNul]
  have coded_of_wide : (∃ u ∈ s, 0x100 ≤ u.toNat) → ∃ u ∈ s, 0x80 ≤ u.toNat := by
    rintro ⟨u, member, wide⟩
    exact ⟨u, member, by omega⟩
  unfold newStringLen at made ⊢
  by_cases start : maxStringLength < asciiLength (encode s)
  · rw [if_pos start]
    exact iff_of_false nofun fun fits => absurd fits.1 (by omega)
  rw [if_neg start] at made ⊢
  by_cases coded : ∃ u ∈ s, 0x80 ≤ u.toNat
  · have mixed : ¬ asciiLength (encode s) = (encode s).length := fun all =>
      (ascii_iff noNul).1 all coded
    rw [if_neg mixed] at made ⊢
    by_cases long : maxInt < (encode s).length
    · rw [if_pos long]
      exact iff_of_false nofun fun fits => absurd (fits.2.1 coded) (by omega)
    rw [if_neg long] at made ⊢
    rw [utf8Units_encode s _ (Nat.le_refl _), map_patched noNul] at made ⊢
    dsimp only at made ⊢
    by_cases wide : ∃ u ∈ s, 0x100 ≤ u.toNat
    · have isWide := isWide_ofUnits.2 wide
      by_cases large : maxInt < 2 * (encode s).length
      · rw [if_pos ⟨isWide, large⟩]
        exact iff_of_false nofun fun fits => absurd (fits.2.2 wide) (by omega)
      · rw [if_neg fun bad => large bad.2]
        exact iff_of_true rfl ⟨by omega, fun _ => by omega, fun _ => by omega⟩
    · have narrow : ¬ (JSString.ofUnits s).isWide = true := fun bad => wide (isWide_ofUnits.1 bad)
      rw [if_neg fun bad => narrow bad.1]
      exact iff_of_true rfl ⟨by omega, fun _ => by omega, fun bad => absurd bad wide⟩
  · have all := (ascii_iff noNul).2 coded
    rw [if_pos all] at made ⊢
    have plain : ¬ ∃ u ∈ s, 0x100 ≤ u.toNat := fun wide => coded (coded_of_wide wide)
    refine iff_of_true (congrArg some (made _ rfl)) ⟨by omega, fun bad => absurd bad coded, ?_⟩
    exact fun bad => absurd bad plain

end Sizes

section Writing
variable {s : JavaString}

def hasPair : JavaString → Bool
  | c :: c1 :: rest => isHighSurrogate c && isLowSurrogate c1 || hasPair (c1 :: rest)
  | _ => false

theorem unicodeToUtf8_unit {u : UInt16} (positive : u ≠ 0) :
    unicodeToUtf8 u.toNat = encodeUnit u := by
  have bound : u.toNat < 65536 := u.toNat_lt
  have nonzero : u.toNat ≠ 0 := fun zero => positive (UInt16.toNat.inj zero)
  unfold unicodeToUtf8 encodeUnit
  dsimp only
  rw [if_neg nonzero]
  split
  · rfl
  split
  · rfl
  · rfl

theorem unicodeToUtf8_pair (c c1 : Nat) :
    ∃ a tail, unicodeToUtf8 (c % 1024 * 1024 + c1 % 1024 + 0x10000) = a :: tail ∧
      0xF0 ≤ a.toNat ∧ ∀ b ∈ a :: tail, b ≠ 0 := by
  generalize scalar : c % 1024 * 1024 + c1 % 1024 + 0x10000 = n
  have low : 0x10000 ≤ n := by omega
  have high : n < 0x110000 := by omega
  have positive : ∀ k, 0 < k → k < 256 → UInt8.ofNat k ≠ 0 := by
    intro k low high zero
    have same := toNat_byte high
    rw [zero] at same
    simp at same
    omega
  unfold unicodeToUtf8
  rw [if_neg (by omega), if_neg (by omega), if_neg (by omega), if_pos (by omega)]
  refine ⟨_, _, rfl, ?_, ?_⟩
  · rw [toNat_byte (by omega)]
    omega
  · intro b member
    simp only [List.mem_cons, List.not_mem_nil, or_false] at member
    rcases member with rfl | rfl | rfl | rfl <;> exact positive _ (by omega) (by omega)

theorem utf16ToUtf8_encode (noNul : NoNul s) (noPair : hasPair s = false) :
    utf16ToUtf8 s = encode s := by
  induction s using utf16ToUtf8.induct with
  | case1 => rfl
  | case2 c =>
    rw [utf16ToUtf8, unicodeToUtf8_unit (noNul c List.mem_cons_self), encode_cons]
    exact (List.append_nil _).symm
  | case3 c c1 rest pair ih =>
    rw [hasPair, pair] at noPair
    cases noPair
  | case4 c c1 rest apart ih =>
    have rest' : hasPair (c1 :: rest) = false := by
      rw [hasPair, Bool.or_eq_false_iff] at noPair
      exact noPair.2
    rw [utf16ToUtf8, if_neg apart, unicodeToUtf8_unit (noNul c List.mem_cons_self),
      ih (fun u member => noNul u (List.mem_cons_of_mem _ member)) rest',
      encode_cons c]

theorem utf16ToUtf8_nonzero (noNul : NoNul s) : ∀ b ∈ utf16ToUtf8 s, b ≠ 0 := by
  have unit : ∀ u : UInt16, u ≠ 0 → ∀ b ∈ unicodeToUtf8 u.toNat, b ≠ 0 := by
    intro u positive b member
    rw [unicodeToUtf8_unit positive] at member
    exact encode_nonzero [u] b (by simpa [encode] using member)
  induction s using utf16ToUtf8.induct with
  | case1 => exact fun b member => nomatch member
  | case2 c => exact unit c (noNul c List.mem_cons_self)
  | case3 c c1 rest pair ih =>
    obtain ⟨a, tail, same, -, positive⟩ := unicodeToUtf8_pair c.toNat c1.toNat
    rw [utf16ToUtf8, if_pos pair, same]
    intro b member
    rcases List.mem_append.1 member with here | later
    · exact positive b here
    · exact ih (fun u there => noNul u (List.mem_cons_of_mem _ (List.mem_cons_of_mem _ there))) b later
  | case4 c c1 rest apart ih =>
    rw [utf16ToUtf8, if_neg apart]
    intro b member
    rcases List.mem_append.1 member with here | later
    · exact unit c (noNul c List.mem_cons_self) b here
    · exact ih (fun u there => noNul u (List.mem_cons_of_mem _ there)) b later

theorem decode_pair (noNul : NoNul s) (pair : hasPair s = true) : decode (utf16ToUtf8 s) = none := by
  induction s using utf16ToUtf8.induct with
  | case1 => cases pair
  | case2 c => cases pair
  | case3 c c1 rest joined ih =>
    obtain ⟨a, tail, same, high, -⟩ := unicodeToUtf8_pair c.toNat c1.toNat
    rw [utf16ToUtf8, if_pos joined, same, List.cons_append]
    exact decode_four high _
  | case4 c c1 rest apart ih =>
    rw [hasPair, Bool.eq_false_iff.2 apart, Bool.false_or] at pair
    rw [utf16ToUtf8, if_neg apart, unicodeToUtf8_unit (noNul c List.mem_cons_self),
      decode_encodeUnit, ih (fun u there => noNul u (List.mem_cons_of_mem _ there)) pair]
    rfl

theorem cString_nonzero {bytes : List UInt8} (nonzero : ∀ b ∈ bytes, b ≠ 0) :
    cString bytes = bytes := by
  unfold cString
  rw [List.takeWhile_eq_self_iff]
  intro b member
  simpa using nonzero b member

theorem narrow_encode (noNul : NoNul s) (narrow : ∀ u ∈ s, u.toNat < 0x100) :
    (s.flatMap fun u => if u.toNat < 0x80 then [UInt8.ofNat u.toNat]
      else [.ofNat (0xC0 + u.toNat / 64), .ofNat (0x80 + u.toNat % 64)]) = encode s := by
  apply List.flatMap_congr
  intro u member
  have small := narrow u member
  have nonzero : u.toNat ≠ 0 := fun zero => noNul u member (UInt16.toNat.inj zero)
  unfold encodeUnit
  dsimp only
  rw [if_neg nonzero]
  split
  · rfl
  · rw [if_pos (by omega)]

theorem length_encode (noNul : NoNul s) (narrow : ∀ u ∈ s, u.toNat < 0x100) :
    (encode s).length = s.length + (s.filter fun u => 0x80 ≤ u.toNat).length := by
  induction s with
  | nil => rfl
  | cons u s ih =>
    have rest := ih (fun v there => noNul v (List.mem_cons_of_mem _ there))
      fun v there => narrow v (List.mem_cons_of_mem _ there)
    have small := narrow u List.mem_cons_self
    have nonzero : u.toNat ≠ 0 := fun zero =>
      noNul u List.mem_cons_self (UInt16.toNat.inj zero)
    rw [encode_cons, List.length_append, rest]
    by_cases ascii : u.toNat < 0x80
    · rw [List.filter_cons_of_neg (by simpa using ascii)]
      simp [encodeUnit, nonzero, ascii]
      omega
    · rw [List.filter_cons_of_pos (by simpa using ascii)]
      have short : u.toNat < 0x800 := by omega
      simp [encodeUnit, nonzero, ascii, short]
      omega

/-- What any JVM makes of a JS string that comes back. -/
def Readable (string : JSString) (s : JavaString) : Prop :=
  ∃ bytes, stringToCString string = some bytes ∧
    ∀ jvm : List UInt8 → JavaString, (decode (cString bytes)).getD (jvm (cString bytes)) = s

theorem readable_bytes {bytes : List UInt8} {string : JSString}
    (written : stringToCString string = some bytes) (nonzero : ∀ b ∈ bytes, b ≠ 0) :
    Readable string s ↔ decode bytes = some s := by
  unfold Readable
  simp only [written, Option.some.injEq, exists_eq_left', cString_nonzero nonzero]
  cases decode bytes with
  | some units => simp
  | none =>
    refine iff_of_false (fun all => ?_) nofun
    -- two JVMs that disagree
    have first : [] = s := all fun _ => []
    have second : [0] = s := all fun _ => [0]
    cases first.trans second.symm

theorem narrow_noPair (narrow : ∀ u ∈ s, u.toNat < 0x100) : hasPair s = false := by
  induction s with
  | nil => rfl
  | cons c s ih =>
    cases s with
    | nil => rfl
    | cons c1 rest =>
      have small := narrow c List.mem_cons_self
      have low : isHighSurrogate c = false := by
        unfold isHighSurrogate
        rw [decide_eq_false (by omega), Bool.false_and]
      rw [hasPair, low, Bool.false_and, Bool.false_or]
      exact ih fun u member => narrow u (List.mem_cons_of_mem _ member)

theorem readable_wide (noNul : NoNul s) (wide : ∃ u ∈ s, 0x100 ≤ u.toNat) :
    Readable (.ofUnits s) s ↔ hasPair s = false ∧ 3 * s.length ≤ maxInt := by
  have isWide : (JSString.ofUnits s).isWide = true := isWide_ofUnits.2 wide
  by_cases long : maxInt < s.length * 3
  · have null : stringToCString (.ofUnits s) = none := by
      unfold stringToCString
      rw [if_pos isWide, units_ofUnits, if_pos long]
    refine iff_of_false ?_ fun fits => by omega
    rintro ⟨bytes, written, -⟩
    cases null.symm.trans written
  · have written : stringToCString (.ofUnits s) = some (utf16ToUtf8 s) := by
      unfold stringToCString
      rw [if_pos isWide, units_ofUnits, if_neg long]
    rw [readable_bytes written (utf16ToUtf8_nonzero noNul)]
    cases pair : hasPair s with
    | true =>
      rw [decode_pair noNul pair]
      apply iff_of_false
      · intro same
        cases same
      · rintro ⟨unpaired, -⟩
        cases unpaired
    | false =>
      rw [utf16ToUtf8_encode noNul pair]
      exact iff_of_true (decode_encode s) ⟨rfl, by omega⟩

theorem readable_narrow (noNul : NoNul s) (narrow : ¬ ∃ u ∈ s, 0x100 ≤ u.toNat) :
    Readable (.ofUnits s) s ↔
      hasPair s = false ∧ ((∃ u ∈ s, 0x80 ≤ u.toNat) → (encode s).length ≤ maxInt) := by
  have small : ∀ u ∈ s, u.toNat < 0x100 := by
    intro u member
    by_contra large
    exact narrow ⟨u, member, by omega⟩
  have oneByte : ¬ (JSString.ofUnits s).isWide = true := fun bad => narrow (isWide_ofUnits.1 bad)
  have reads : ∀ bytes, stringToCString (.ofUnits s) = some bytes → bytes = encode s →
      Readable (.ofUnits s) s := by
    rintro bytes written rfl
    exact (readable_bytes written (encode_nonzero s)).2 (decode_encode s)
  have size := length_encode noNul small
  generalize count : (s.filter fun u => 0x80 ≤ u.toNat).length = n at size
  have none_iff : n = 0 ↔ ¬ ∃ u ∈ s, 0x80 ≤ u.toNat := by
    rw [← count, List.length_eq_zero_iff, List.filter_eq_nil_iff]
    simp
  by_cases coded : ∃ u ∈ s, 0x80 ≤ u.toNat
  · have positive : ¬ n = 0 := fun zero => none_iff.1 zero coded
    by_cases long : maxInt < s.length + n
    · have null : stringToCString (.ofUnits s) = none := by
        unfold stringToCString
        rw [if_neg oneByte, units_ofUnits]
        dsimp only
        rw [count, if_neg positive, if_pos long]
      refine iff_of_false ?_ fun fits => absurd (fits.2 coded) (by omega)
      rintro ⟨bytes, written, -⟩
      cases null.symm.trans written
    · refine iff_of_true (reads _ ?_ (narrow_encode noNul small)) ⟨narrow_noPair small, ?_⟩
      · unfold stringToCString
        rw [if_neg oneByte, units_ofUnits]
        dsimp only
        rw [count, if_neg positive, if_neg long]
      · exact fun _ => by omega
  · have ascii : ∀ u ∈ s, u ≠ 0 ∧ u.toNat < 0x80 := by
      intro u member
      refine ⟨noNul u member, ?_⟩
      by_contra large
      exact coded ⟨u, member, by omega⟩
    refine iff_of_true (reads _ ?_ (encode_ascii ascii).symm) ⟨narrow_noPair small, ?_⟩
    · unfold stringToCString
      rw [if_neg oneByte, units_ofUnits]
      dsimp only
      rw [count, if_pos (none_iff.2 coded)]
    · exact fun bad => absurd bad coded

end Writing

section RoundTrip

/-- The strings that survive: no U+0000, no surrogate pair, and an encoding whose size fits
    the arithmetic of the engine's buffers. -/
structure Portable (s : JavaString) : Prop where
  noNul : NoNul s
  noPair : hasPair s = false
  start : asciiLength (encode s) ≤ maxStringLength
  coded : (∃ u ∈ s, 0x80 ≤ u.toNat) → (encode s).length ≤ maxInt
  wide : (∃ u ∈ s, 0x100 ≤ u.toNat) →
    2 * (encode s).length ≤ maxInt ∧ 3 * s.length ≤ maxInt

theorem noNul_of_patched {s : JavaString} (same : s.map patched = s) : NoNul s := by
  intro u member zero
  subst zero
  obtain ⟨i, at_i⟩ := List.getElem?_of_mem member
  have there : (s.map patched)[i]? = some (patched 0) := by
    rw [List.getElem?_map, at_i]
    rfl
  rw [same, at_i] at there
  exact absurd (Option.some.inj there) (by decide)

def Carried (s : JavaString) : Prop :=
  ∃ string, newStringLen (encode s) = some string ∧ string.units = s ∧ Readable string s

theorem carried_iff (s : JavaString) : Carried s ↔ Portable s := by
  have split : NoNul s → (Carried s ↔
      newStringLen (encode s) = some (.ofUnits s) ∧ Readable (.ofUnits s) s) := by
    intro noNul
    constructor
    · rintro ⟨string, made, -, readable⟩
      have same := newStringLen_encode made
      rw [map_patched noNul] at same
      subst same
      exact ⟨made, readable⟩
    · rintro ⟨made, readable⟩
      exact ⟨_, made, units_ofUnits s, readable⟩
  constructor
  · intro carried
    have noNul : NoNul s := by
      obtain ⟨string, made, same, -⟩ := carried
      rw [newStringLen_encode made, units_ofUnits] at same
      exact noNul_of_patched same
    obtain ⟨made, readable⟩ := (split noNul).1 carried
    obtain ⟨start, coded, double⟩ := (newStringLen_iff noNul).1 made
    by_cases wide : ∃ u ∈ s, 0x100 ≤ u.toNat
    · obtain ⟨noPair, triple⟩ := (readable_wide noNul wide).1 readable
      exact ⟨noNul, noPair, start, coded, fun _ => ⟨double wide, triple⟩⟩
    · obtain ⟨noPair, -⟩ := (readable_narrow noNul wide).1 readable
      exact ⟨noNul, noPair, start, coded, fun bad => absurd bad wide⟩
  · intro portable
    have noNul := portable.noNul
    refine (split noNul).2 ⟨(newStringLen_iff noNul).2 ⟨portable.start, portable.coded, ?_⟩, ?_⟩
    · exact fun wide => (portable.wide wide).1
    · by_cases wide : ∃ u ∈ s, 0x100 ≤ u.toNat
      · exact (readable_wide noNul wide).2 ⟨portable.noPair, (portable.wide wide).2⟩
      · exact (readable_narrow noNul wide).2 ⟨portable.noPair, portable.coded⟩

end RoundTrip

section Border
variable {w w' : World} {env : JNIEnv} {s : JavaString} {string : JSString} {p : Addr}
  {trace : List (Item World Prim ForeignCall Answer)}

theorem deliver_newString {a : Answer} {bytes : List UInt8}
    (answers : deliver (.engine (.newString bytes)) a w = some w') :
    (∃ p string, newStringLen bytes = some string ∧ a = .value (.string p string)) ∨
    (newStringLen bytes = none ∧ a = .value .exception) := by
  cases a with
  | value v =>
    cases v with
    | string p string =>
      replace answers : (if newStringLen bytes = some string then w.give (.string p string) else none) =
        some w' := answers
      exact Or.inl ⟨p, string, (Option.ite_none_right_eq_some.1 answers).1, rfl⟩
    | exception =>
      replace answers : (if newStringLen bytes = none then some w else none) = some w' := answers
      exact Or.inr ⟨(Option.ite_none_right_eq_some.1 answers).1, rfl⟩
    | _ => cases answers
  | _ => cases answers

theorem deliver_toCString {a : Answer}
    (answers : deliver (.engine (.toCString (.string p string))) a w = some w') :
    a = .text (stringToCString string) := by
  cases a with
  | text bytes =>
    replace answers : (if bytes = stringToCString string then some w else none) = some w' := answers
    rw [(Option.ite_none_right_eq_some.1 answers).1]
  | _ => cases answers

theorem toJSValue_string {out : Outcome JSValue}
    (run : Exec bridge.meaning (toJSValue env (some (.string s))) w trace out w') :
    (∃ p string, newStringLen (encode s) = some string ∧ out = .returned (.string p string)) ∨
    (newStringLen (encode s) = none ∧ out = .returned .exception) := by
  obtain ⟨a, w₁, rest, acts, tail, rfl⟩ := exec_prim run
  have text : exec (.getStringUTFChars env s) w = some (a, w₁) := acts
  cases text
  obtain ⟨b, w₂, rest', ⟨u, v, labels, -, -, back⟩, last, rfl⟩ := exec_enter tail
  obtain ⟨-, rfl, -⟩ := exec_ret last
  have answers : deliver (.engine (.newString (encode s))) b v = some w₂ := back
  rcases deliver_newString answers with ⟨p, string, made, rfl⟩ | ⟨failed, rfl⟩
  · exact Or.inl ⟨p, string, made, rfl⟩
  · exact Or.inr ⟨failed, rfl⟩

theorem toJavaObject_string {thisObj : JSValue} {out : Outcome (Option JavaObject)}
    (run : Exec bridge.meaning (toJavaObject env thisObj (.string p string) true) w trace out w') :
    (stringToCString string = none ∧ out = .crashed) ∨
    ∃ bytes, ∃ jvm : List UInt8 → JavaString, stringToCString string = some bytes ∧
      out = .returned (some (.string ((decode (cString bytes)).getD (jvm (cString bytes))))) := by
  obtain ⟨a, w₁, rest, ⟨u, v, labels, -, -, back⟩, tail, rfl⟩ := exec_enter run
  have answers : deliver (.engine (.toCString (.string p string))) a v = some w₁ := back
  have text := deliver_toCString answers
  subst text
  cases written : stringToCString string with
  | none =>
    rw [written] at tail
    obtain ⟨-, rfl, -⟩ := exec_crash tail
    exact Or.inl ⟨rfl, rfl⟩
  | some bytes =>
    rw [written] at tail
    obtain ⟨b, w₂, rest', made, last, rfl⟩ := exec_prim tail
    have java : exec (.newStringUTF env bytes) w₁ = some (b, w₂) := made
    cases java
    -- JS_FreeValue of the string
    obtain ⟨c, w₃, rest'', -, done, rfl⟩ := exec_enter last
    obtain ⟨-, rfl, -⟩ := exec_ret done
    exact Or.inr ⟨bytes, w₁.jvm, rfl, rfl⟩

theorem toJSValue_runs (env : JNIEnv) (s : JavaString) :
    ∃ w trace out w', Exec bridge.meaning (toJSValue env (some (.string s))) w trace out w' := by
  let w := World.fresh 1 fun _ => []
  have depart : bridge.depart (.engine (.newString (encode s))) w = some w := rfl
  cases made : newStringLen (encode s) with
  | none =>
    have back : bridge.deliver (.engine (.newString (encode s))) (.value .exception) w = some w := by
      change (if newStringLen (encode s) = none then some w else none) = some w
      rw [if_pos made]
    have reply : bridge.Reply (.engine (.newString (encode s))) w (.value .exception) w :=
      ⟨w, w, [], depart, rfl, back⟩
    exact ⟨w, _, _, _, .prim rfl (.enter reply (.ret _ _))⟩
  | some string =>
    let held : World := { w.setCell 2 (some ⟨1, none, 1, 1, none⟩) with nextSerial := 2 }
    have back : bridge.deliver (.engine (.newString (encode s))) (.value (.string 2 string)) held =
        some (held.setCell 2 (some ⟨1, none, 1, 0, none⟩)) := by
      change (if newStringLen (encode s) = some string then held.give (.string 2 string) else none) = _
      rw [if_pos made]
      rfl
    have reply : bridge.Reply (.engine (.newString (encode s))) w (.value (.string 2 string)) _ :=
      ⟨w, held, [.event (.engine (.alloc 2 none))], depart, rfl, back⟩
    exact ⟨w, _, _, _, .prim rfl (.enter reply (.ret _ _))⟩

theorem toJavaObject_runs (env : JNIEnv) (thisObj : JSValue) (p : Addr) (string : JSString)
    (jvm : List UInt8 → JavaString) :
    ∃ w trace out w', Exec bridge.meaning (toJavaObject env thisObj (.string p string) true) w trace out w' ∧
      ∀ bytes, stringToCString string = some bytes →
        out = .returned (some (.string ((decode (cString bytes)).getD (jvm (cString bytes))))) := by
  let w : World := { World.fresh (p + 1) jvm with
    heap := Function.update (fun _ => none) p (some ⟨1, none, 1, 0, none⟩) }
  have alive : w.alive (.string p string) = true := by simp [World.alive, JSValue.addr?, w]
  have depart : bridge.depart (.engine (.toCString (.string p string))) w = some w := by
    change (if [JSValue.string p string].all w.alive then some w else none) = some w
    rw [if_pos (by simp [alive])]
  have back : bridge.deliver (.engine (.toCString (.string p string))) (.text (stringToCString string)) w =
      some w := by
    change (if stringToCString string = stringToCString string then some w else none) = some w
    rw [if_pos rfl]
  have reply : bridge.Reply (.engine (.toCString (.string p string))) w (.text (stringToCString string)) w :=
    ⟨w, w, [], depart, rfl, back⟩
  have freed : bridge.depart (.engine (.freeValue (.string p string))) w = some (w.setCell p none) := by
    change (if [JSValue.string p string].all w.alive then w.release p else none) = _
    rw [if_pos (by simp [alive])]
    simp [World.release, World.jsFuncCallbackFinalizer, w]
  have free : bridge.Reply (.engine (.freeValue (.string p string))) w .unit (w.setCell p none) :=
    ⟨_, _, [], freed, rfl, rfl⟩
  cases written : stringToCString string with
  | none =>
    rw [written] at reply
    exact ⟨w, _, _, _, .enter reply (.crash _), nofun⟩
  | some bytes =>
    rw [written] at reply
    refine ⟨w, _, _, _, .enter reply (.prim rfl (.enter free (.ret _ _))), ?_⟩
    intro other same
    cases same
    rfl

/-- The string comes over with its code units, and what comes back of it is the same string. -/
def RoundTrips (s : JavaString) : Prop :=
  ∀ env w trace out w', Exec bridge.meaning (toJSValue env (some (.string s))) w trace out w' →
    ∃ p string, out = .returned (.string p string) ∧ string.units = s ∧
      ∀ env' thisObj u trace' out' u',
        Exec bridge.meaning (toJavaObject env' thisObj (.string p string) true) u trace' out' u' →
        out' = .returned (some (.string s))

theorem roundTrips_iff (s : JavaString) : RoundTrips s ↔ Portable s := by
  rw [← carried_iff]
  constructor
  · intro survives
    obtain ⟨w, trace, out, w', run⟩ := toJSValue_runs .saved s
    obtain ⟨p, string, rfl, units, back⟩ := survives _ _ _ _ _ run
    rcases toJSValue_string run with ⟨p', string', made, same⟩ | ⟨-, same⟩
    · cases same
      refine ⟨string, made, units, ?_⟩
      cases written : stringToCString string with
      | none =>
        obtain ⟨u, trace', out', u', read, -⟩ := toJavaObject_runs .saved .undefined p string fun _ => []
        have same := back _ _ _ _ _ _ read
        rcases toJavaObject_string read with ⟨-, dead⟩ | ⟨bytes, -, there, -⟩
        · cases same.symm.trans dead
        · cases written.symm.trans there
      | some bytes =>
        refine ⟨bytes, written, fun jvm => ?_⟩
        obtain ⟨u, trace', out', u', read, result⟩ := toJavaObject_runs .saved .undefined p string jvm
        have same := (result bytes written).symm.trans (back _ _ _ _ _ _ read)
        simpa using same
    · cases same
  · rintro ⟨string, made, units, bytes, written, reads⟩ env w trace out w' run
    rcases toJSValue_string run with ⟨p, string', made', rfl⟩ | ⟨failed, -⟩
    · cases made.symm.trans made'
      refine ⟨p, string, rfl, units, ?_⟩
      intro env' thisObj u trace' out' u' read
      rcases toJavaObject_string read with ⟨null, -⟩ | ⟨bytes', jvm, there, rfl⟩
      · cases null.symm.trans written
      · cases written.symm.trans there
        rw [reads jvm]
    · cases made.symm.trans failed

/-- The string of the one unit U+0000 comes over as U+FFFD. -/
theorem nul_lost : ¬ ∀ s, RoundTrips s := by
  intro all
  obtain ⟨w, trace, out, w', run⟩ := toJSValue_runs .saved [0]
  obtain ⟨p, string, rfl, units, -⟩ := all [0] _ _ _ _ _ run
  have made : newStringLen (encode [0]) = some (.ofUnits [0xFFFD]) := by decide
  rcases toJSValue_string run with ⟨p', string', there, same⟩ | ⟨failed, -⟩
  · cases same
    cases made.symm.trans there
    exact absurd units (by decide)
  · cases made.symm.trans failed

end Border
end QuickJSBridge
