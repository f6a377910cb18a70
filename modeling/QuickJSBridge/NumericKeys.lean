import QuickJSBridge.AtomTable

/- The texts that `is_num_string` takes for numbers are the ones `%u` prints, so a number below
   2^32 has one text only. -/
namespace QuickJSBridge.Atoms

section Digits
variable {u : UInt16} {d n m : Nat} {units : List UInt16} {p : JSString}

theorem isNum_eq : isNum u = some d ↔ d < 10 ∧ u = .ofNat (48 + d) := by
  have range := u.toNat_lt
  unfold isNum
  split
  · next digit =>
    rw [Option.some.injEq]
    constructor
    · intro same
      refine ⟨by omega, UInt16.toNat_inj.1 ?_⟩
      rw [UInt16.toNat_ofNat']
      omega
    · rintro ⟨small, rfl⟩
      rw [UInt16.toNat_ofNat']
      omega
  · next other =>
    simp only [reduceCtorEq, false_iff, not_and]
    rintro small rfl
    rw [UInt16.toNat_ofNat'] at other
    omega

/-- The loop of `is_num_string` reads digits into a number as long as that fits. -/
theorem foldlM_isNum (small : m < 2 ^ 32) :
    units.foldlM (fun n c => do
      let d ← isNum c
      if n * 10 + d < 2 ^ 32 then some (n * 10 + d) else none) m = some n ↔
    n < 2 ^ 32 ∧ ∃ ds : List Nat, (∀ d ∈ ds, d < 10) ∧
      units = ds.map (fun d => .ofNat (48 + d)) ∧ n = ds.foldl (fun n d => n * 10 + d) m := by
  induction units generalizing m with
  | nil =>
    rw [List.foldlM_nil, Option.pure_def, Option.some.injEq]
    constructor
    · rintro rfl
      exact ⟨small, [], by simp⟩
    · rintro ⟨-, ds, -, empty, value⟩
      rw [List.map_eq_nil_iff.1 empty.symm] at value
      exact value.symm
  | cons c rest ih =>
    rw [List.foldlM_cons]
    cases digit : isNum c with
    | none =>
      simp only [Option.bind_eq_bind, Option.bind_none, reduceCtorEq, false_iff]
      rintro ⟨-, ds, within, units, -⟩
      cases ds with
      | nil => cases units
      | cons d ds =>
        rw [List.map_cons, List.cons.injEq] at units
        rw [isNum_eq.2 ⟨within d List.mem_cons_self, units.1⟩] at digit
        cases digit
    | some d =>
      obtain ⟨isDigit, rfl⟩ := isNum_eq.1 digit
      simp only [Option.bind_eq_bind, Option.bind_some]
      by_cases fits : m * 10 + d < 2 ^ 32
      · rw [if_pos fits, Option.bind_some]
        refine (ih fits).trans (and_congr_right fun _ => ⟨?_, ?_⟩)
        · rintro ⟨ds, within, rfl, value⟩
          refine ⟨d :: ds, fun x there => ?_, rfl, value⟩
          rcases List.mem_cons.1 there with rfl | there
          · exact isDigit
          · exact within x there
        · rintro ⟨ds, within, units, value⟩
          cases ds with
          | nil => cases units
          | cons d' ds =>
            rw [List.map_cons, List.cons.injEq] at units
            have same := isNum_eq.2 ⟨within d' List.mem_cons_self, units.1⟩
            rw [digit, Option.some.injEq] at same
            subst same
            exact ⟨ds, fun x there => within x (List.mem_cons_of_mem d there), units.2, value⟩
      · rw [if_neg fits, Option.bind_none]
        simp only [reduceCtorEq, false_iff]
        rintro ⟨bound, ds, within, units, value⟩
        cases ds with
        | nil => cases units
        | cons d' ds =>
          rw [List.map_cons, List.cons.injEq] at units
          have same := isNum_eq.2 ⟨within d' List.mem_cons_self, units.1⟩
          rw [digit, Option.some.injEq] at same
          subst same
          rw [List.foldl_cons] at value
          -- a number only grows by further digits
          have grows : ∀ (ds : List Nat) m, m ≤ ds.foldl (fun n d => n * 10 + d) m := by
            intro ds
            induction ds with
            | nil => exact fun m => Nat.le_refl m
            | cons d ds ih => exact fun m => Nat.le_trans (by omega) (ih (m * 10 + d))
          have least := grows ds (m * 10 + d)
          omega

theorem foldl_digits (ds : List Nat) :
    ds.foldl (fun n d => n * 10 + d) 0 = Nat.ofDigits 10 ds.reverse := by
  rw [Nat.ofDigits_eq_foldr, List.foldr_reverse]
  congr
  funext n d
  rw [Nat.cast_id]
  omega

theorem isNumString_iff : isNumString p = some n ↔ n < 2 ^ 32 ∧ p.units = decimalUnits n := by
  unfold isNumString decimalUnits
  constructor
  · intro known
    split at known
    · cases known
    · split at known
      · cases known
      · next c rest units =>
        cases digit : isNum c with
        | none => simp [digit] at known
        | some first =>
          obtain ⟨isDigit, rfl⟩ := isNum_eq.1 digit
          simp only [digit, Option.bind_eq_bind, Option.bind_some] at known
          by_cases zero : first = 0
          · subst zero
            rw [if_pos rfl] at known
            split at known
            · next single =>
              cases known
              rw [units, List.length_cons, Nat.add_eq_right, List.length_eq_zero_iff] at single
              rw [units, single]
              simp
            · cases known
          · rw [if_neg zero] at known
            obtain ⟨fits, ds, within, rfl, value⟩ := (foldlM_isNum (by omega)).1 known
            have value' : n = Nat.ofDigits 10 (first :: ds).reverse := by
              rw [← foldl_digits, value, List.foldl_cons, Nat.zero_mul, Nat.zero_add]
            have digits : Nat.digits 10 n = (first :: ds).reverse := by
              rw [value']
              refine Nat.digits_ofDigits 10 (by omega) _ (fun d there => ?_) fun nonempty => ?_
              · rcases List.mem_cons.1 (List.mem_reverse.1 there) with rfl | there
                · exact isDigit
                · exact within d there
              · rw [List.getLast_reverse]
                exact zero
            have positive : n ≠ 0 := by
              rintro rfl
              simp at digits
            refine ⟨fits, ?_⟩
            rw [if_neg positive, digits, List.reverse_reverse, units]
            rfl
  · rintro ⟨fits, units⟩
    by_cases zero : n = 0
    · subst zero
      rw [if_pos rfl] at units
      rw [units]
      rfl
    · rw [if_neg zero] at units
      have short : (Nat.digits 10 n).length ≤ 10 := by
        rw [Nat.digits_length_le_iff (by omega)]
        omega
      have nonempty : Nat.digits 10 n ≠ [] := Nat.digits_ne_nil_iff_ne_zero.2 zero
      obtain ⟨first, ds, digits⟩ : ∃ first ds, (Nat.digits 10 n).reverse = first :: ds := by
        cases shape : (Nat.digits 10 n).reverse with
        | nil => exact absurd (List.reverse_eq_nil_iff.1 shape) nonempty
        | cons first ds => exact ⟨first, ds, rfl⟩
      have within : ∀ d ∈ first :: ds, d < 10 := by
        rw [← digits]
        exact fun d there => Nat.digits_lt_base (by omega) (List.mem_reverse.1 there)
      have leading : first ≠ 0 := by
        have last := Nat.getLast_digit_ne_zero 10 zero
        have same : (Nat.digits 10 n).getLast nonempty = first := by
          rw [List.getLast_eq_head_reverse]
          simp only [digits, List.head_cons]
        rwa [same] at last
      have value : n = (first :: ds).foldl (fun n d => n * 10 + d) 0 := by
        rw [foldl_digits, ← digits, List.reverse_reverse, Nat.ofDigits_digits]
      have lengths : p.units.length = (Nat.digits 10 n).length := by
        rw [units, List.length_map, List.length_reverse]
      have cons : p.units = .ofNat (48 + first) :: ds.map fun d => .ofNat (48 + d) := by
        rw [units, digits, List.map_cons]
      rw [if_neg (by
        have positive := List.length_pos_of_ne_nil nonempty
        omega)]
      rw [cons]
      have digit := isNum_eq.2 ⟨within first List.mem_cons_self, rfl⟩
      simp only [digit, Option.bind_eq_bind, Option.bind_some, if_neg leading]
      refine (foldlM_isNum (by
        have small := within first List.mem_cons_self
        omega)).2 ⟨fits, ds, fun d there => within d (List.mem_cons_of_mem _ there), rfl, ?_⟩
      rw [value, List.foldl_cons, Nat.zero_mul, Nat.zero_add]

end Digits
end QuickJSBridge.Atoms
