import LiteralFill.Text.Blank
import LiteralFill.Text.Decimal
import Mathlib.Data.List.DropRight

namespace LiteralFill.Text

theorem trim_eq_self {s : String} (hfirst : s.toList.head?.any isBlank = false)
    (hlast : s.toList.getLast?.any isBlank = false) : trim s = s := by
  have hstart : s.toList.dropWhile isBlank = s.toList := by
    refine List.dropWhile_eq_self_iff.2 fun hl => ?_
    simpa [List.head?_eq_getElem?, List.getElem?_eq_getElem hl] using hfirst
  have hend : s.toList.rdropWhile isBlank = s.toList := by
    refine List.rdropWhile_eq_self_iff.2 fun hl => ?_
    simpa [List.getLast?_eq_some_getLast hl] using hlast
  rw [trim, hstart]
  change String.ofList (s.toList.rdropWhile isBlank) = s
  rw [hend, String.ofList_toList]

theorem isBlank_eq_false_of_isDigit {c : Char} (h : c.isDigit) : isBlank c = false := by
  have hc : 48 ≤ c.toNat ∧ c.toNat ≤ 57 := by
    simpa [Char.isDigit, UInt32.le_iff_toNat_le] using h
  have hruns : ∀ run ∈ blankRuns, run.2 < 48 ∨ 57 < run.1 := by decide
  refine List.any_eq_false.2 fun run hrun => ?_
  have := hruns run hrun
  simp only [Bool.and_eq_true, decide_eq_true_eq]
  omega

theorem toList_toString (n : Nat) : (toString n).toList = Nat.toDigits 10 n := by
  rw [Nat.toString_eq_repr, Nat.repr_eq_ofList_toDigits, String.toList_ofList]

theorem isDigit_of_mem_toString {n : Nat} {c : Char} (h : c ∈ (toString n).toList) : c.isDigit :=
  Nat.isDigit_of_mem_toDigits (by decide) (by decide) (toList_toString n ▸ h)

theorem trim_toString (n : Nat) : trim (toString n) = toString n := by
  refine trim_eq_self ((Option.any_eq_false ..).2 fun c hc => ?_)
    ((Option.any_eq_false ..).2 fun c hc => ?_)
  · exact isBlank_eq_false_of_isDigit (isDigit_of_mem_toString (List.mem_of_mem_head? hc))
  · exact isBlank_eq_false_of_isDigit (isDigit_of_mem_toString (List.mem_of_mem_getLast? hc))

theorem mapM_digit? {cs : List Char} (h : ∀ c ∈ cs, c.isDigit) :
    cs.mapM digit? = some (cs.map fun c => c.toNat - '0'.toNat) := by
  induction cs with
  | nil => rfl
  | cons c cs ih =>
    have hc : digit? c = some (c.toNat - '0'.toNat) := if_pos (h c (by simp))
    have hcs := ih fun d hd => h d (by simp [hd])
    simp [List.mapM_cons, hc, hcs]

theorem digitsValue?_toString (n : Nat) : digitsValue? (toString n).toList = some n := by
  have hne : (toString n).toList ≠ [] := toList_toString n ▸ Nat.toDigits_ne_nil
  rw [digitsValue?.eq_2 _ hne, mapM_digit? fun _ => isDigit_of_mem_toString, Option.map_some,
    List.foldl_map, ← Nat.ofDigitChars_eq_foldl, toList_toString, Nat.ofDigitChars_ten_toDigits]

/-- A number that fits is read back from its decimal digits. -/
theorem readNat?_toString {bits n : Nat} (h : n < Nat.pow 2 bits) :
    readNat? bits (toString n) = some n := by
  rw [readNat?]
  split
  · rename_i hplus
    have hdigit : '+'.isDigit := isDigit_of_mem_toString (hplus ▸ List.mem_cons_self)
    cases hdigit
  · rw [digitsValue?_toString]
    simpa [Option.filter] using h

/-- The number `n` in decimal digits, after at most one plus sign. -/
def IsDecimal (s : String) (n : Nat) : Prop :=
  ∃ digits, (s.toList = digits ∨ s.toList = '+' :: digits) ∧ digits ≠ [] ∧
    (∀ c ∈ digits, c.isDigit) ∧ n = Nat.ofDigitChars 10 digits 0

theorem isDigit_of_mapM_digit? {cs : List Char} {ds : List Nat} (h : cs.mapM digit? = some ds) :
    ∀ c ∈ cs, c.isDigit := by
  induction cs generalizing ds with
  | nil => nofun
  | cons c cs ih =>
    rw [List.mapM_cons] at h
    obtain ⟨d, hd, h⟩ := Option.bind_eq_some_iff.1 h
    obtain ⟨rest, hrest, -⟩ := Option.bind_eq_some_iff.1 h
    refine List.forall_mem_cons.2 ⟨?_, ih hrest⟩
    by_contra hc
    rw [digit?, if_neg hc] at hd
    cases hd

theorem digitsValue?_eq_some_iff {cs : List Char} {n : Nat} :
    digitsValue? cs = some n ↔
      cs ≠ [] ∧ (∀ c ∈ cs, c.isDigit) ∧ n = Nat.ofDigitChars 10 cs 0 := by
  cases cs with
  | nil => simp [digitsValue?]
  | cons c cs =>
    rw [digitsValue?.eq_2 _ (List.cons_ne_nil c cs)]
    constructor
    · intro h
      obtain ⟨ds, hds, h⟩ := Option.map_eq_some_iff.1 h
      have hdigits := isDigit_of_mapM_digit? hds
      rw [mapM_digit? hdigits] at hds
      cases hds
      refine ⟨List.cons_ne_nil c cs, hdigits, ?_⟩
      rw [← h, List.foldl_map, Nat.ofDigitChars_eq_foldl]
    · rintro ⟨-, hdigits, rfl⟩
      rw [mapM_digit? hdigits, Option.map_some, List.foldl_map, ← Nat.ofDigitChars_eq_foldl]

theorem plus_notMem_of_isDigit {digits : List Char} (h : ∀ c ∈ digits, c.isDigit) : '+' ∉ digits :=
  fun hplus => absurd (h '+' hplus) (by decide)

/-- Reading accepts the decimal numbers that fit. -/
theorem readNat?_eq_some_iff {bits n : Nat} {s : String} :
    readNat? bits s = some n ↔ IsDecimal s n ∧ n < Nat.pow 2 bits := by
  unfold readNat?
  rw [Option.filter_eq_some_iff, decide_eq_true_eq]
  refine and_congr_left fun _ => ?_
  rw [digitsValue?_eq_some_iff]
  constructor
  · intro h
    split at h
    · rename_i cs hcs
      exact ⟨cs, .inr hcs, h⟩
    · exact ⟨s.toList, .inl rfl, h⟩
  · rintro ⟨digits, hs, hne, hdigits, rfl⟩
    have hplus := plus_notMem_of_isDigit hdigits
    rcases hs with hs | hs
    · rw [hs]
      split
      · simp at hplus
      · exact ⟨hne, hdigits, rfl⟩
    · rw [hs]
      exact ⟨hne, hdigits, rfl⟩

theorem IsDecimal.unique {s : String} {n n' : Nat} (h : IsDecimal s n) (h' : IsDecimal s n') : n = n' := by
  have hn : n < Nat.pow 2 (n + n') := Nat.lt_of_lt_of_le Nat.lt_two_pow_self
    (Nat.pow_le_pow_right (by decide) (Nat.le_add_right n n'))
  have hn' : n' < Nat.pow 2 (n + n') := Nat.lt_of_lt_of_le Nat.lt_two_pow_self
    (Nat.pow_le_pow_right (by decide) (Nat.le_add_left n' n))
  have hread := readNat?_eq_some_iff.2 ⟨h, hn⟩
  rw [readNat?_eq_some_iff.2 ⟨h', hn'⟩] at hread
  exact (Option.some.inj hread).symm

end LiteralFill.Text
