import UsageGraph.Version.Basic

/-! # Numbers and their digits

* `eq_padded`: digits are those of their value, with zeros in front.
* `number?_eq_some`, `number?_padded`: the numbers that are read with zeros in front.
* `versionNumber?_eq_some`: a number of a version is read from its shortest digits alone.
* `VersionNumeral`: the texts of such numbers.
-/

namespace UsageGraph
open Text
set_option autoImplicit false

/-! ## Digits -/

variable {s : List Char} {n : Nat}

theorem isAsciiDigit_eq (c : Char) : isAsciiDigit c = c.isDigit := rfl

theorem digitChar_digitValue {c : Char} (h : c.isDigit = true) :
    digitValue c < 10 ∧ Nat.digitChar (digitValue c) = c := by
  have hrange : 48 ≤ c.toNat ∧ c.toNat ≤ 57 := by
    rw [Char.isDigit, Bool.and_eq_true, decide_eq_true_iff, decide_eq_true_iff] at h
    exact h
  have hlt : digitValue c < 10 := by
    rw [digitValue]
    omega
  refine ⟨hlt, Char.toNat_inj.mp ?_⟩
  rw [Nat.toNat_digitChar_of_lt_ten hlt, digitValue]
  omega

/-- Digits behind a number that is not zero go on with it. -/
theorem toDigits_append (hs : ∀ c ∈ s, c.isDigit = true) (hn : 0 < n) :
    Nat.toDigits 10 n ++ s = Nat.toDigits 10 (Nat.ofDigitChars 10 s n) := by
  induction s generalizing n with
  | nil => exact List.append_nil _
  | cons c s ih =>
    obtain ⟨hlt, hchar⟩ := digitChar_digitValue (hs c List.mem_cons_self)
    have hpos : 0 < 10 * n + digitValue c := by omega
    have hnext := ih (fun d hd => hs d (List.mem_cons_of_mem _ hd)) hpos
    rw [Nat.ofDigitChars_cons]
    refine Eq.trans ?_ hnext
    rw [← Nat.toDigits_append_toDigits (by decide) hn hlt, Nat.toDigits_of_lt_base hlt, hchar,
      List.append_assoc, List.singleton_append]

theorem notMem_toDigits {c : Char} (h : c.isDigit = false) (n : Nat) :
    c ∉ Nat.toDigits 10 n := by
  intro hc
  rw [Nat.isDigit_of_mem_toDigits (by decide) (by decide) hc] at h
  cases h

theorem toDigits_injective {m n : Nat} (h : Nat.toDigits 10 m = Nat.toDigits 10 n) : m = n := by
  have hvalue := congrArg (fun digits => Nat.ofDigitChars 10 digits 0) h
  simp only [Nat.ofDigitChars_toDigits (b := 10) (by decide) (by decide)] at hvalue
  exact hvalue

theorem length_padded (width n : Nat) :
    (Duration.padded width n).length = max width (Nat.toDigits 10 n).length := by
  rw [Duration.padded, List.length_append, List.length_replicate]
  omega

theorem padded_of_le {width : Nat} (h : width ≤ (Nat.toDigits 10 n).length) :
    Duration.padded width n = Nat.toDigits 10 n := by
  rw [Duration.padded, Nat.sub_eq_zero_of_le h]
  rfl

theorem padded_succ {width : Nat} (h : (Nat.toDigits 10 n).length ≤ width) :
    Duration.padded (width + 1) n = '0' :: Duration.padded width n := by
  rw [Duration.padded, Duration.padded, Nat.sub_add_comm h, List.replicate_succ, List.cons_append]

/-- Digits are those of their value, with zeros in front up to their number. -/
theorem eq_padded (hne : s ≠ []) (hs : ∀ c ∈ s, c.isDigit = true) :
    s = Duration.padded s.length (Nat.ofDigitChars 10 s 0) := by
  induction s with
  | nil => exact absurd rfl hne
  | cons c s ih =>
    have hrest : ∀ d ∈ s, d.isDigit = true := fun d hd => hs d (List.mem_cons_of_mem _ hd)
    obtain ⟨hlt, hchar⟩ := digitChar_digitValue (hs c List.mem_cons_self)
    have hvalue : Nat.ofDigitChars 10 (c :: s) 0 = Nat.ofDigitChars 10 s (digitValue c) := by
      rw [Nat.ofDigitChars_cons, Nat.mul_zero, Nat.zero_add]
      rfl
    rw [hvalue]
    rcases Nat.eq_zero_or_pos (digitValue c) with hzero | hpos
    · have hc : c = '0' := by rw [← hchar, hzero]; rfl
      rw [hzero, hc]
      cases s with
      | nil => rfl
      | cons d s =>
        have hlater := ih (List.cons_ne_nil _ _) hrest
        have hlength := congrArg List.length hlater
        rw [length_padded] at hlength
        rw [List.length_cons, padded_succ (by omega), ← hlater]
    · have hdigits := toDigits_append hrest hpos
      rw [Nat.toDigits_of_lt_base hlt, hchar, List.singleton_append] at hdigits
      rw [padded_of_le (Nat.le_of_eq (congrArg List.length hdigits)), hdigits]

theorem isDigit_padded {width : Nat} : ∀ c ∈ Duration.padded width n, c.isDigit = true := by
  intro c hc
  rcases List.mem_append.mp hc with hc | hc
  · rw [List.eq_of_mem_replicate hc]
    rfl
  · exact Nat.isDigit_of_mem_toDigits (by decide) (by decide) hc

theorem ofDigitChars_padded (width n : Nat) :
    Nat.ofDigitChars 10 (Duration.padded width n) 0 = n := by
  have hzeros : ∀ k, Nat.ofDigitChars 10 (List.replicate k '0') 0 = 0 := by
    intro k
    induction k with
    | zero => rfl
    | succ k ih =>
      rw [List.replicate_succ, Nat.ofDigitChars_cons]
      exact ih
  rw [Duration.padded, Nat.ofDigitChars_append, hzeros,
    Nat.ofDigitChars_toDigits (by decide) (by decide)]

theorem number?_eq_some : number? s = some n ↔
    s ≠ [] ∧ (∀ c ∈ s, c.isDigit = true) ∧ Nat.ofDigitChars 10 s 0 = n := by
  rw [number?]
  by_cases hs : s = [] ∨ s.any (fun c => !isAsciiDigit c) = true
  · rw [if_pos hs]
    refine iff_of_false nofun fun ⟨hne, hdigits, _⟩ => ?_
    obtain ⟨c, hc, hother⟩ := List.any_eq_true.mp (hs.resolve_left hne)
    rw [isAsciiDigit_eq, hdigits c hc] at hother
    cases hother
  · rw [if_neg hs, Option.some_inj]
    rw [not_or, List.any_eq_true, not_exists] at hs
    have hdigits : ∀ c ∈ s, c.isDigit = true := by
      intro c hc
      have hnot := hs.2 c
      rw [not_and, Bool.not_eq_true, Bool.not_eq_false'] at hnot
      exact hnot hc
    rw [and_iff_right hs.1, and_iff_right hdigits]
    rfl

theorem number?_padded (width n : Nat) : number? (Duration.padded width n) = some n := by
  refine number?_eq_some.mpr ⟨?_, isDigit_padded, ofDigitChars_padded width n⟩
  have hpos : 0 < (Nat.toDigits 10 n).length := Nat.length_toDigits_pos
  rw [← List.length_pos_iff, length_padded]
  omega

theorem number?_eq_none (hne : s ≠ []) : number? s = none ↔ ∃ c ∈ s, c.isDigit = false := by
  cases hall : s.all Char.isDigit with
  | true =>
    have hdigits := List.all_eq_true.mp hall
    rw [number?_eq_some.mpr ⟨hne, hdigits, rfl⟩]
    refine iff_of_false nofun fun ⟨c, hc, hother⟩ => ?_
    rw [hdigits c hc] at hother
    cases hother
  | false =>
    obtain ⟨c, hc, hother⟩ := List.all_eq_false.mp hall
    refine iff_of_true (Option.eq_none_iff_forall_ne_some.mpr fun n hn => ?_)
      ⟨c, hc, Bool.not_eq_true _ ▸ hother⟩
    exact hother ((number?_eq_some.mp hn).2.1 c hc)

theorem hasSpareZero_eq_true : hasSpareZero s = true ↔ ∃ t, t ≠ [] ∧ s = '0' :: t := by
  constructor
  · intro h
    unfold hasSpareZero at h
    split at h
    · next d t => exact ⟨d :: t, List.cons_ne_nil _ _, rfl⟩
    · cases h
  · rintro ⟨t, ht, rfl⟩
    obtain ⟨d, t, rfl⟩ := List.exists_cons_of_ne_nil ht
    rfl

/-- A number has no digits with a zero too many among those without one. -/
theorem hasSpareZero_toDigits (n : Nat) : hasSpareZero (Nat.toDigits 10 n) = false := by
  rw [Bool.eq_false_iff]
  intro h
  obtain ⟨t, ht, hdigits⟩ := hasSpareZero_eq_true.mp h
  have ht' : ∀ c ∈ t, c.isDigit = true := fun c hc =>
    Nat.isDigit_of_mem_toDigits (by decide) (by decide) (hdigits ▸ List.mem_cons_of_mem _ hc)
  have hvalue : Nat.ofDigitChars 10 t 0 = n := by
    rw [← @Nat.ofDigitChars_toDigits 10 n (by decide) (by decide), hdigits, Nat.ofDigitChars_cons]
    rfl
  have hlength := congrArg List.length (eq_padded ht ht')
  rw [length_padded, hvalue, hdigits, List.length_cons] at hlength
  omega

theorem versionNumber?_eq_some : versionNumber? s = some n ↔
    n ≤ maxNumber ∧ s = Nat.toDigits 10 n := by
  rw [versionNumber?]
  constructor
  · intro h
    split at h
    · cases h
    · next hspare =>
      obtain ⟨hnumber, hle⟩ := Option.filter_eq_some_iff.mp h
      refine ⟨of_decide_eq_true hle, ?_⟩
      obtain ⟨hne, hdigits, hvalue⟩ := number?_eq_some.mp hnumber
      have hs := eq_padded hne hdigits
      rw [hvalue] at hs
      rcases Nat.lt_or_ge (Nat.toDigits 10 n).length s.length with hlt | hge
      · -- A padded number has a zero in front of its digits.
        obtain ⟨k, hk⟩ : ∃ k, s.length = k + 1 := ⟨s.length - 1, by omega⟩
        rw [hk, padded_succ (by omega)] at hs
        refine absurd (hasSpareZero_eq_true.mpr ⟨_, ?_, hs⟩) hspare
        have hpos : 0 < (Nat.toDigits 10 n).length := Nat.length_toDigits_pos
        rw [← List.length_pos_iff, length_padded]
        omega
      · rwa [padded_of_le hge] at hs
  · rintro ⟨hle, rfl⟩
    have hnumber : number? (Nat.toDigits 10 n) = some n := by
      have h := number?_padded 0 n
      rwa [padded_of_le (Nat.zero_le _)] at h
    rw [hasSpareZero_toDigits, if_neg Bool.false_ne_true, hnumber]
    exact Option.filter_eq_some_iff.mpr ⟨rfl, decide_eq_true hle⟩

theorem isDigit_of_head? (n : Nat) (rest : List Char) :
    ∀ c ∈ (Nat.toDigits 10 n ++ rest).head?, c.isDigit = true := by
  intro c hc
  have hne : Nat.toDigits 10 n ≠ [] := Nat.toDigits_ne_nil
  rw [List.head?_append, List.head?_eq_some_head hne, Option.some_or, Option.mem_some] at hc
  rw [← hc]
  exact Nat.isDigit_of_mem_toDigits (by decide) (by decide) (List.head_mem hne)

theorem isDigit_of_getLast? (n : Nat) (front : List Char) :
    ∀ c ∈ (front ++ Nat.toDigits 10 n).getLast?, c.isDigit = true := by
  intro c hc
  have hne : Nat.toDigits 10 n ≠ [] := Nat.toDigits_ne_nil
  rw [List.getLast?_append, List.getLast?_eq_some_getLast hne, Option.some_or,
    Option.mem_some] at hc
  rw [← hc]
  exact Nat.isDigit_of_mem_toDigits (by decide) (by decide) (List.getLast_mem hne)

/-! ## Numerals -/

/-- A decimal number without a superfluous zero in front that fits 64 bits. -/
structure VersionNumeral (s : List Char) : Prop where
  ne_nil : s ≠ []
  digits : ∀ c ∈ s, c.isDigit = true
  shortest : ∀ t, s = '0' :: t → t = []
  lt_size : Nat.ofDigitChars 10 s 0 < UInt64.size

theorem versionNumeral_iff : VersionNumeral s ↔ ∃ n, n ≤ maxNumber ∧ s = Nat.toDigits 10 n := by
  constructor
  · intro h
    refine ⟨Nat.ofDigitChars 10 s 0, versionNumber?_eq_some.mp ?_⟩
    have hspare : ¬hasSpareZero s = true := by
      rw [hasSpareZero_eq_true]
      rintro ⟨t, ht, hs⟩
      exact ht (h.shortest t hs)
    rw [versionNumber?, if_neg hspare, number?_eq_some.mpr ⟨h.ne_nil, h.digits, rfl⟩]
    exact Option.filter_eq_some_iff.mpr ⟨rfl, decide_eq_true (Nat.le_sub_one_of_lt h.lt_size)⟩
  · rintro ⟨n, hn, rfl⟩
    have hdigits : ∀ c ∈ Nat.toDigits 10 n, c.isDigit = true := fun c =>
      Nat.isDigit_of_mem_toDigits (by decide) (by decide)
    refine ⟨Nat.toDigits_ne_nil, hdigits, ?_, ?_⟩
    · intro t ht
      by_cases hnil : t = []
      · exact hnil
      · have hspare := hasSpareZero_eq_true.mpr ⟨t, hnil, ht⟩
        rw [hasSpareZero_toDigits] at hspare
        cases hspare
    · rw [Nat.ofDigitChars_toDigits (by decide) (by decide)]
      exact Nat.lt_of_le_sub_one (by decide) hn

end UsageGraph
