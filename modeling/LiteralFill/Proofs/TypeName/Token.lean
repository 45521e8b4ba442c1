import LiteralFill.Proofs.Printer.Spelling
import LiteralFill.Proofs.Text.Decimal

namespace LiteralFill

/-- What a written type is made of: lexemes, and whole numbers in decimal digits. -/
inductive TypeToken where
  | lexeme (t : Lexeme)
  | number (digits : String)
  deriving DecidableEq

namespace TypeToken

abbrev word (name : String) : TypeToken := .lexeme (.word name)

abbrev symbol (op : String) : TypeToken := .lexeme (.symbol op)

end TypeToken

namespace Alphabet

variable (A : Alphabet)

/-- Splits a line without comments into tokens, each the longest it can go on with. Of literals it takes
whole numbers only. -/
inductive Tokenizes : List Char → List TypeToken → Prop where
  | nil : Tokenizes [] []
  | blank {c : Char} {s : List Char} {ts : List TypeToken} :
    c = ' ' ∨ c = '\t' → Tokenizes s ts → Tokenizes (c :: s) ts
  | lexeme {t : Lexeme} {s : List Char} {ts : List TypeToken} :
    A.IsNext t → t ≠ .symbol "//" → t ≠ .symbol "/*" → A.IsLongest t s → Tokenizes s ts →
      Tokenizes (t.text ++ s) (.lexeme t :: ts)
  | number {digits : String} {s : List Char} {ts : List TypeToken} :
    digits.toList ≠ [] → (∀ c ∈ digits.toList, c.isDigit) →
      (∀ c ∈ s.head?, A.inWord c = false ∧ c ≠ '.') → Tokenizes s ts →
      Tokenizes (digits.toList ++ s) (.number digits :: ts)

theorem isDigit_ascii_lt {c : Char} (h : c.isDigit) : c.toNat < 128 := by
  have hc : 48 ≤ c.toNat ∧ c.toNat ≤ 57 := by simpa [Char.isDigit, UInt32.le_iff_toNat_le] using h
  omega

theorem inWord_of_isDigit {c : Char} (h : c.isDigit) : A.inWord c = true := by
  rw [A.inWord_ascii (isDigit_ascii_lt h), h, Bool.or_true]

theorem not_isLetter_of_isDigit {c : Char} (h : c.isDigit) : A.isLetter c = false := by
  have hc : 48 ≤ c.toNat ∧ c.toNat ≤ 57 := by simpa [Char.isDigit, UInt32.le_iff_toNat_le] using h
  rw [A.isLetter_ascii c (by omega), Bool.or_eq_false_iff]
  constructor
  · change (decide (65 ≤ c.toNat ∧ c.toNat ≤ 90) || (decide (97 ≤ c.toNat) && decide (c.toNat ≤ 122))) = false
    simp only [Bool.or_eq_false_iff, Bool.and_eq_false_iff, decide_eq_false_iff_not]
    omega
  · refine beq_eq_false_iff_ne.2 ?_
    rintro rfl
    cases h

/-- No lexeme starts with a digit. -/
theorem IsNext.isDigit_eq_false {t : Lexeme} (h : A.IsNext t) {c : Char} {rest : List Char}
    (htext : t.text = c :: rest) : c.isDigit = false := by
  cases t with
  | word name =>
    obtain ⟨d, others, hname, hletter, -⟩ := h
    obtain rfl : d = c := (List.cons.inj (hname.symm.trans htext)).1
    refine Bool.eq_false_iff.2 fun hdigit => ?_
    rw [A.not_isLetter_of_isDigit hdigit] at hletter
    cases hletter
  | symbol op =>
    have hop : c ∈ op.toList := (show op.toList = _ from htext) ▸ List.mem_cons_self
    refine Bool.eq_false_iff.2 fun hdigit => ?_
    have hword := (A.of_mem_mark h hop).1
    rw [A.inWord_of_isDigit hdigit] at hword
    cases hword

namespace Tokenizes

variable {A} {s : List Char} {ts us : List TypeToken}

theorem of_nil (h : A.Tokenizes [] us) : us = [] := by
  generalize hs : [] = text at h
  cases h with
  | nil => rfl
  | blank => cases hs
  | lexeme hnext =>
    obtain ⟨c, rest, ht, -⟩ := hnext.exists_cons
    rw [ht] at hs
    cases hs
  | number hne => exact absurd (List.append_eq_nil_iff.1 hs.symm).1 hne

theorem of_blank {c : Char} (hc : c = ' ' ∨ c = '\t') (h : A.Tokenizes (c :: s) us) :
    A.Tokenizes s us := by
  generalize hs : c :: s = text at h
  cases h with
  | nil => cases hs
  | blank _ h =>
    cases hs
    exact h
  | lexeme hnext =>
    obtain ⟨d, rest, ht, hd, -⟩ := hnext.exists_cons
    rw [ht] at hs
    cases hs
    exact absurd hc hd
  | number hne hdigits =>
    obtain ⟨d, rest, ht⟩ := List.exists_cons_of_ne_nil hne
    rw [ht] at hs hdigits
    cases hs
    rcases hc with rfl | rfl <;> cases hdigits _ List.mem_cons_self

theorem of_lexeme {t : Lexeme} (hnext : A.IsNext t) (hlongest : A.IsLongest t s)
    (h : A.Tokenizes (t.text ++ s) us) : ∃ rest, us = .lexeme t :: rest ∧ A.Tokenizes s rest := by
  obtain ⟨c, rest, ht, hc, -⟩ := hnext.exists_cons
  generalize hs : t.text ++ s = text at h
  cases h with
  | nil =>
    rw [ht] at hs
    cases hs
  | blank hblank _ =>
    rw [ht] at hs
    cases hs
    exact absurd hblank hc
  | lexeme hnext' _ _ hlongest' h =>
    obtain ⟨rfl, rfl⟩ := IsLongest.unique hnext hnext' hlongest hlongest' hs
    exact ⟨_, rfl, h⟩
  | number hne hdigits =>
    obtain ⟨d, others, hd⟩ := List.exists_cons_of_ne_nil hne
    rw [ht, hd] at hs
    obtain rfl : c = d := (List.cons.inj hs).1
    have hdigit := hdigits c (hd ▸ List.mem_cons_self)
    rw [hnext.isDigit_eq_false A ht] at hdigit
    cases hdigit

/-- A number goes on as long as there are digits. -/
theorem takeWhile_number {digits : List Char} (hdigits : ∀ c ∈ digits, c.isDigit)
    (hs : ∀ c ∈ s.head?, A.inWord c = false ∧ c ≠ '.') : (digits ++ s).takeWhile Char.isDigit = digits := by
  rw [List.takeWhile_append_of_pos hdigits]
  cases s with
  | nil => rw [List.takeWhile_nil, List.append_nil]
  | cons c rest =>
    have hc : ¬c.isDigit := fun hc => by
      have hword := (hs c rfl).1
      rw [A.inWord_of_isDigit hc] at hword
      cases hword
    rw [List.takeWhile_cons_of_neg hc, List.append_nil]

theorem of_number {digits : String} (hne : digits.toList ≠ []) (hdigits : ∀ c ∈ digits.toList, c.isDigit)
    (hs : ∀ c ∈ s.head?, A.inWord c = false ∧ c ≠ '.') (h : A.Tokenizes (digits.toList ++ s) us) :
    ∃ rest, us = .number digits :: rest ∧ A.Tokenizes s rest := by
  obtain ⟨d, others, hd⟩ := List.exists_cons_of_ne_nil hne
  have hdigit : d.isDigit := hdigits d (hd ▸ List.mem_cons_self)
  generalize htext : digits.toList ++ s = text at h
  cases h with
  | nil => exact absurd (List.append_eq_nil_iff.1 htext).1 hne
  | blank hblank _ =>
    rw [hd] at htext
    obtain rfl := (List.cons.inj htext).1
    rcases hblank with rfl | rfl <;> cases hdigit
  | lexeme hnext =>
    obtain ⟨c, rest, ht, -⟩ := hnext.exists_cons
    rw [hd, ht] at htext
    obtain rfl := (List.cons.inj htext).1
    rw [hnext.isDigit_eq_false A ht] at hdigit
    cases hdigit
  | number _ hdigits' hs' h =>
    have hsame := congrArg (List.takeWhile Char.isDigit) htext
    rw [takeWhile_number hdigits hs, takeWhile_number hdigits' hs'] at hsame
    obtain rfl := String.toList_inj.1 hsame
    obtain rfl := List.append_cancel_left htext
    exact ⟨_, rfl, h⟩

/-- There is at most one way to split a line. -/
theorem unique (h : A.Tokenizes s ts) (h' : A.Tokenizes s us) : ts = us := by
  induction h generalizing us with
  | nil => exact h'.of_nil.symm
  | blank hc _ ih => exact ih (h'.of_blank hc)
  | lexeme hnext _ _ hlongest _ ih =>
    obtain ⟨rest, rfl, hrest⟩ := h'.of_lexeme hnext hlongest
    exact congrArg _ (ih hrest)
  | number hne hdigits hs _ ih =>
    obtain ⟨rest, rfl, hrest⟩ := h'.of_number hne hdigits hs
    exact congrArg _ (ih hrest)

end Tokenizes

/-- A text that splits like this before everything that does not go on with a word. -/
def Lexes (text : List Char) (ts : List TypeToken) : Prop :=
  ∀ s us, (∀ c ∈ s.head?, A.inWord c = false) → A.Tokenizes s us → A.Tokenizes (text ++ s) (ts ++ us)

namespace Lexes

variable {A} {s t : List Char} {ts us : List TypeToken}

theorem tokenizes (h : A.Lexes s ts) : A.Tokenizes s ts := by
  simpa only [List.append_nil] using h [] [] nofun .nil

theorem nil : A.Lexes [] [] := fun _ _ _ h => h

theorem word {name : String} (h : A.IsWord name.toList) : A.Lexes name.toList [.word name] :=
  fun _ _ hs h' => .lexeme (t := .word name) h nofun nofun (IsLongest.word h hs) h'

theorem blank (h : A.Lexes t ts) : A.Lexes (' ' :: t) ts :=
  fun s us hs h' => .blank (.inl rfl) (h s us hs h')

theorem append (h : A.Lexes s ts) (h' : A.Lexes t us) (ht : StartsWith (A.inWord · = false) t) :
    A.Lexes (s ++ t) (ts ++ us) := by
  intro s' us' hs' htokens
  rw [List.append_assoc, List.append_assoc]
  exact h _ _ (ht.append s').head? (h' s' us' hs' htokens)

theorem symbol_cons {op : String} (hop : op ∈ operators) {s : List Char}
    (hs : ∀ c ∈ s.head?, runsOn op c = false) (h : A.Tokenizes s ts) :
    A.Tokenizes (op.toList ++ s) (.symbol op :: ts) :=
  have hmark := List.mem_append_left _ hop
  .lexeme (t := .symbol op) hmark (Splits.ne_comment hop).1 (Splits.ne_comment hop).2
    (IsLongest.symbol hmark hs) h

theorem symbol {op : String} (hop : op ∈ operators) (h : A.Lexes t ts)
    (ht : StartsWith (runsOn op · = false) t) : A.Lexes (op.toList ++ t) (.symbol op :: ts) := by
  intro s us hs htokens
  rw [List.append_assoc]
  exact symbol_cons hop (ht.append s).head? (h s us hs htokens)

/-- Symbols that may stand before everything. -/
def separators : List String := ["(", ")", "[", "]", "\x7b", "\x7d", ",", ";", "..."]

theorem runsOn_separator {op : String} (h : op ∈ separators) (c : Char) : runsOn op c = false := by
  have honly : ∀ op ∈ separators, ∀ m ∈ marks, op.toList <+: m.toList → m = op := by decide +kernel
  exact runsOn_of_only (honly op h) c

theorem mem_operators {op : String} (h : op ∈ separators) : op ∈ operators := by
  have hall : ∀ op ∈ separators, op ∈ operators := by decide +kernel
  exact hall op h

theorem separator {op : String} (hop : op ∈ separators) (h : A.Lexes t ts) :
    A.Lexes (op.toList ++ t) (.symbol op :: ts) := by
  intro s us hs htokens
  rw [List.append_assoc]
  exact symbol_cons (mem_operators hop) (fun c _ => runsOn_separator hop c) (h s us hs htokens)

/-- A text before a symbol that may stand anywhere. -/
theorem before {op : String} (hop : op ∈ separators) (h : A.Lexes s us) (h' : A.Lexes t ts) :
    A.Lexes (s ++ (op.toList ++ t)) (us ++ .symbol op :: ts) :=
  h.append (separator hop h') ((Spells.startsWith_symbol (mem_operators hop)).append t)

theorem number {n : Nat} (h : A.Lexes t ts) (ht : StartsWith (fun c => A.inWord c = false ∧ c ≠ '.') t) :
    A.Lexes ((toString n).toList ++ t) (.number (toString n) :: ts) := by
  intro s us hs htokens
  rw [List.append_assoc]
  refine .number ?_ (fun c => Text.isDigit_of_mem_toString) (ht.append s).head? (h s us hs htokens)
  rw [Text.toList_toString]
  exact Nat.toDigits_ne_nil

/-- What goes on after a lexeme has tokens of its own. -/
theorem of_lexeme {x : Lexeme} (hnext : A.IsNext x)
    (hlongest : ∀ s, (∀ c ∈ s.head?, A.inWord c = false) → A.IsLongest x (t ++ s))
    (h : A.Lexes (x.text ++ t) (.lexeme x :: ts)) : A.Lexes t ts := by
  intro s us hs htokens
  have hall := h s us hs htokens
  rw [List.append_assoc] at hall
  obtain ⟨rest, hrest, h⟩ := hall.of_lexeme hnext (hlongest s hs)
  have hsame : ts ++ us = rest := (List.cons.inj hrest).2
  rwa [hsame]

theorem of_word {name : String} (hname : A.IsWord name.toList) (ht : StartsWith (A.inWord · = false) t)
    (h : A.Lexes (name.toList ++ t) (.word name :: ts)) : A.Lexes t ts :=
  of_lexeme (x := .word name) hname (fun s _ => IsLongest.word hname (ht.append s).head?) h

theorem of_separator {op : String} (hop : op ∈ separators)
    (h : A.Lexes (op.toList ++ t) (.symbol op :: ts)) : A.Lexes t ts :=
  have hmark := List.mem_append_left _ (mem_operators hop)
  of_lexeme (x := .symbol op) hmark
    (fun _ _ => IsLongest.symbol hmark fun c _ => runsOn_separator hop c) h

/-- After a word, a symbol starts a token of its own. -/
theorem startsWith_symbol {op : String} (hop : op ∈ operators) (rest : List Char) :
    StartsWith (A.inWord · = false) (op.toList ++ rest) :=
  (Spells.startsWith_symbol hop).append rest

end Lexes

end Alphabet

end LiteralFill
