import Mathlib.Data.List.Infix

namespace LiteralFill

/-- The letters and digits of identifiers. Below 128 they are those of ASCII, and the underscore. -/
structure Alphabet where
  isLetter : Char → Bool
  isDigit : Char → Bool
  isLetter_ascii (c : Char) : c.toNat < 128 → isLetter c = (c.isAlpha || c == '_')
  isDigit_ascii (c : Char) : c.toNat < 128 → isDigit c = c.isDigit

def Alphabet.ascii : Alphabet :=
  ⟨fun c => c.isAlpha || c == '_', Char.isDigit, fun _ _ => rfl, fun _ _ => rfl⟩

def keywords : List String :=
  ["break", "case", "chan", "const", "continue", "default", "defer", "else", "fallthrough", "for",
    "func", "go", "goto", "if", "import", "interface", "map", "package", "range", "return", "select",
    "struct", "switch", "type", "var"]

/-- Operators and punctuation. -/
def operators : List String :=
  ["+", "&", "+=", "&=", "&&", "==", "!=", "(", ")", "-", "|", "-=", "|=", "||", "<", "<=", "[", "]",
    "*", "^", "*=", "^=", "<-", ">", ">=", "\x7b", "\x7d", "/", "<<", "/=", "<<=", "++", "=", ":=",
    ",", ";", "%", ">>", "%=", ">>=", "--", "!", "...", ".", ":", "&^", "&^=", "~"]

/-- The symbols that a line can go on with. Two of them start a comment. -/
def marks : List String := operators ++ ["//", "/*"]

/-- Whether a symbol, with this character after it, is the beginning of a longer one. -/
def runsOn (op : String) (c : Char) : Bool := marks.any (op.toList ++ [c] <+: ·.toList)

inductive Lexeme where
  | word (name : String)
  | symbol (op : String)
  deriving DecidableEq

def Lexeme.text : Lexeme → List Char
  | word name => name.toList
  | symbol op => op.toList

namespace Alphabet

variable (A : Alphabet)

def inWord (c : Char) : Bool := A.isLetter c || A.isDigit c

def IsWord (s : List Char) : Prop :=
  ∃ c rest, s = c :: rest ∧ A.isLetter c ∧ ∀ d ∈ rest, A.inWord d

def IsIdentifier (name : String) : Prop := A.IsWord name.toList ∧ name ∉ keywords

instance : (s : List Char) → Decidable (A.IsWord s)
  | [] => isFalse nofun
  | c :: rest => decidable_of_iff (A.isLetter c ∧ rest.all A.inWord)
    ⟨fun h => ⟨c, rest, rfl, h.1, List.all_eq_true.1 h.2⟩,
      fun ⟨_, _, hs, hc, h⟩ => by cases hs; exact ⟨hc, List.all_eq_true.2 h⟩⟩

instance (name : String) : Decidable (A.IsIdentifier name) := inferInstanceAs (Decidable (_ ∧ _))

/-- What a line can go on with, literals left out. -/
def IsNext : Lexeme → Prop
  | .word name => A.IsWord name.toList
  | .symbol op => op ∈ marks

/-- Splits a line without literals and comments into lexemes, each the longest it can go on with. -/
inductive Splits : List Char → List Lexeme → Prop where
  | nil : Splits [] []
  | blank {c : Char} {s : List Char} {ts : List Lexeme} :
    c = ' ' ∨ c = '\t' → Splits s ts → Splits (c :: s) ts
  | lexeme {t : Lexeme} {s : List Char} {ts : List Lexeme} :
    A.IsNext t → t ≠ .symbol "//" → t ≠ .symbol "/*" →
      (∀ u, A.IsNext u → u.text <+: t.text ++ s → u.text.length ≤ t.text.length) → Splits s ts →
      Splits (t.text ++ s) (t :: ts)

theorem inWord_ascii {c : Char} (h : c.toNat < 128) :
    A.inWord c = (c.isAlpha || c == '_' || c.isDigit) := by
  rw [inWord, A.isLetter_ascii c h, A.isDigit_ascii c h]

theorem inWord_blank {c : Char} (h : c = ' ' ∨ c = '\t') : A.inWord c = false := by
  rcases h with rfl | rfl <;> exact A.inWord_ascii (by decide)

theorem IsWord.inWord {s : List Char} (h : A.IsWord s) : ∀ c ∈ s, A.inWord c := by
  obtain ⟨c, rest, rfl, hc, hrest⟩ := h
  refine List.forall_mem_cons.2 ⟨?_, hrest⟩
  rw [Alphabet.inWord, hc, Bool.true_or]

/-- Words of ASCII are words over every alphabet. -/
theorem isWord_of_ascii {s : List Char} (h : ascii.IsWord s) (hs : s.all (·.toNat < 128)) :
    A.IsWord s := by
  obtain ⟨c, rest, rfl, hc, hrest⟩ := h
  obtain ⟨hlt, hrestLt⟩ := List.forall_mem_cons.1 fun d hd => of_decide_eq_true (List.all_eq_true.1 hs d hd)
  refine ⟨c, rest, rfl, (A.isLetter_ascii c hlt).trans hc, fun d hd => ?_⟩
  rw [A.inWord_ascii (hrestLt d hd), ← ascii.inWord_ascii (hrestLt d hd)]
  exact hrest d hd

/-- The characters of words do not occur in marks, and blanks in neither. -/
theorem of_mem_mark {m : String} (hm : m ∈ marks) {c : Char} (hc : c ∈ m.toList) :
    A.inWord c = false ∧ ¬(c = ' ' ∨ c = '\t') := by
  have hascii : ∀ m ∈ marks, m.toList.all fun c => c.toNat < 128 ∧
      (c.isAlpha || c == '_' || c.isDigit) = false ∧ ¬(c = ' ' ∨ c = '\t') := by decide +kernel
  obtain ⟨hlt, hword, hblank⟩ := of_decide_eq_true (List.all_eq_true.1 (hascii m hm) c hc)
  exact ⟨(A.inWord_ascii hlt).trans hword, hblank⟩

namespace IsNext

variable {A} {t u : Lexeme}

theorem exists_cons (h : A.IsNext t) :
    ∃ c rest, t.text = c :: rest ∧ ¬(c = ' ' ∨ c = '\t') ∧
      (A.inWord c = true ↔ ∃ name, t = .word name) := by
  cases t with
  | word name =>
    obtain ⟨c, rest, hname, -⟩ := id h
    have hc : A.inWord c = true := IsWord.inWord A h c (hname ▸ List.mem_cons_self)
    refine ⟨c, rest, hname, fun hblank => ?_, fun _ => ⟨name, rfl⟩, fun _ => hc⟩
    rw [A.inWord_blank hblank] at hc
    cases hc
  | symbol op =>
    have hne : ∀ m ∈ marks, m.toList ≠ [] := by decide +kernel
    obtain ⟨c, rest, hop⟩ := List.exists_cons_of_ne_nil (hne op h)
    obtain ⟨hword, hblank⟩ := A.of_mem_mark h (hop ▸ List.mem_cons_self)
    refine ⟨c, rest, hop, hblank, fun hc => ?_, nofun⟩
    rw [hword] at hc
    cases hc

theorem eq_of_text_eq (h : A.IsNext t) (h' : A.IsNext u) (htext : t.text = u.text) : t = u := by
  obtain ⟨c, rest, ht, -, hc⟩ := h.exists_cons
  obtain ⟨d, others, hu, -, hd⟩ := h'.exists_cons
  rw [ht, hu] at htext
  cases htext
  cases t with
  | word name =>
    obtain ⟨name', rfl⟩ := hd.1 (hc.2 ⟨name, rfl⟩)
    exact congrArg _ (String.toList_inj.1 (ht.trans hu.symm))
  | symbol op =>
    cases u with
    | word name =>
      obtain ⟨_, h⟩ := hc.1 (hd.2 ⟨name, rfl⟩)
      cases h
    | symbol op' => exact congrArg _ (String.toList_inj.1 (ht.trans hu.symm))

end IsNext

/-- Whether no lexeme is longer, of those that the text begins with. -/
def IsLongest (t : Lexeme) (s : List Char) : Prop :=
  ∀ u, A.IsNext u → u.text <+: t.text ++ s → u.text.length ≤ t.text.length

namespace IsLongest

variable {A} {t u : Lexeme} {s : List Char}

/-- Of two longest lexemes neither is longer than the other. -/
theorem unique {s' : List Char} (hnext : A.IsNext t) (hnext' : A.IsNext u) (h : A.IsLongest t s)
    (h' : A.IsLongest u s') (htext : t.text ++ s = u.text ++ s') : t = u ∧ s = s' := by
  have hlength : t.text.length = u.text.length :=
    Nat.le_antisymm (h' t hnext ⟨s, htext⟩) (h u hnext' ⟨s', htext.symm⟩)
  obtain ⟨htext, hrest⟩ := List.append_inj htext hlength
  exact ⟨hnext.eq_of_text_eq hnext' htext, hrest⟩

/-- A lexeme is the longest one if no longer one goes on with the character after it. -/
theorem of_stops (h : ∀ c ∈ s.head?, ∀ rest, ∀ u, A.IsNext u → u.text ≠ t.text ++ c :: rest) :
    A.IsLongest t s := by
  intro u hu hbegins
  by_contra hlonger
  obtain ⟨more, hmore⟩ := List.prefix_of_prefix_length_le (List.prefix_append t.text s) hbegins
    (Nat.le_of_not_le hlonger)
  cases more with
  | nil =>
    rw [← hmore, List.append_nil] at hlonger
    exact hlonger (Nat.le_refl _)
  | cons c rest =>
    rw [← hmore, List.prefix_append_right_inj] at hbegins
    obtain ⟨others, rfl⟩ := hbegins
    exact h c rfl rest u hu hmore.symm

theorem word {name : String} (hname : A.IsWord name.toList)
    (hs : ∀ c ∈ s.head?, A.inWord c = false) : A.IsLongest (.word name) s := by
  refine of_stops fun c hc rest u hu htext => ?_
  obtain ⟨d, others, hd, -, hfirst⟩ := IsNext.exists_cons (t := .word name) hname
  obtain ⟨d', others', hd', -, hfirst'⟩ := hu.exists_cons
  obtain rfl : d' = d := by
    rw [hd', hd] at htext
    exact (List.cons.inj htext).1
  obtain ⟨name', rfl⟩ := hfirst'.1 (hfirst.2 ⟨name, rfl⟩)
  have hlonger : name'.toList = name.toList ++ c :: rest := htext
  have hmem := IsWord.inWord A hu c (by simp [hlonger])
  rw [hs c hc] at hmem
  cases hmem

theorem symbol {op : String} (hop : op ∈ marks) (hs : ∀ c ∈ s.head?, runsOn op c = false) :
    A.IsLongest (.symbol op) s := by
  have hnext : A.IsNext (.symbol op) := hop
  refine of_stops fun c hc rest u hu htext => ?_
  obtain ⟨d, others, hd, -, hfirst⟩ := hnext.exists_cons
  obtain ⟨d', others', hd', -, hfirst'⟩ := hu.exists_cons
  obtain rfl : d' = d := by
    rw [hd', hd] at htext
    exact (List.cons.inj htext).1
  cases u with
  | word name =>
    obtain ⟨_, h⟩ := hfirst.1 (hfirst'.2 ⟨name, rfl⟩)
    cases h
  | symbol m =>
    have hlonger : m.toList = (op.toList ++ [c]) ++ rest := by
      rw [List.append_assoc]
      exact htext
    have hruns : runsOn op c = true :=
      List.any_eq_true.2 ⟨m, hu, decide_eq_true ⟨rest, hlonger.symm⟩⟩
    rw [hs c hc] at hruns
    cases hruns

end IsLongest

namespace Splits

variable {A}

theorem of_blank {c : Char} {s : List Char} {ts : List Lexeme} (hc : c = ' ' ∨ c = '\t')
    (h : A.Splits (c :: s) ts) : A.Splits s ts := by
  generalize hs : c :: s = text at h
  cases h with
  | nil => cases hs
  | blank _ h =>
    cases hs
    exact h
  | lexeme hnext _ _ _ _ =>
    obtain ⟨d, rest, ht, hd, -⟩ := hnext.exists_cons
    rw [ht] at hs
    cases hs
    exact absurd hc hd

theorem of_lexeme {t : Lexeme} {s : List Char} {us : List Lexeme} (hnext : A.IsNext t)
    (hlongest : ∀ u, A.IsNext u → u.text <+: t.text ++ s → u.text.length ≤ t.text.length)
    (h : A.Splits (t.text ++ s) us) : ∃ rest, us = t :: rest ∧ A.Splits s rest := by
  obtain ⟨c, rest, ht, hc, -⟩ := hnext.exists_cons
  generalize hs : t.text ++ s = text at h
  cases h with
  | nil =>
    rw [ht] at hs
    cases hs
  | blank hblank _ =>
    rw [ht] at hs
    cases hs
    exact absurd hblank hc
  | lexeme hnext' _ _ hlongest' h =>
    obtain ⟨rfl, rfl⟩ := IsLongest.unique hnext hnext' hlongest hlongest' hs
    exact ⟨_, rfl, h⟩

/-- There is at most one way to split a line. -/
theorem unique {s : List Char} {ts us : List Lexeme} (h : A.Splits s ts) (h' : A.Splits s us) :
    ts = us := by
  induction h generalizing us with
  | nil =>
    generalize hs : [] = text at h'
    cases h' with
    | nil => rfl
    | blank => cases hs
    | lexeme hnext _ _ _ _ =>
      obtain ⟨c, rest, ht, -⟩ := hnext.exists_cons
      rw [ht] at hs
      cases hs
  | blank hc _ ih => exact ih (h'.of_blank hc)
  | lexeme hnext _ _ hlongest _ ih =>
    obtain ⟨rest, rfl, hrest⟩ := h'.of_lexeme hnext hlongest
    exact congrArg _ (ih hrest)

theorem word {name : String} {s : List Char} {ts : List Lexeme} (hname : A.IsWord name.toList)
    (hs : ∀ c ∈ s.head?, A.inWord c = false) (h : A.Splits s ts) :
    A.Splits (name.toList ++ s) (.word name :: ts) :=
  .lexeme (t := .word name) hname nofun nofun (IsLongest.word hname hs) h

/-- The beginnings of comments are no operators. -/
theorem ne_comment {op : String} (hop : op ∈ operators) :
    Lexeme.symbol op ≠ .symbol "//" ∧ Lexeme.symbol op ≠ .symbol "/*" := by
  have hcomment : "//" ∉ operators ∧ "/*" ∉ operators := by decide +kernel
  constructor
  · rintro ⟨⟩
    exact hcomment.1 hop
  · rintro ⟨⟩
    exact hcomment.2 hop

theorem symbol {op : String} {s : List Char} {ts : List Lexeme} (hop : op ∈ operators)
    (hs : ∀ c ∈ s.head?, runsOn op c = false) (h : A.Splits s ts) :
    A.Splits (op.toList ++ s) (.symbol op :: ts) :=
  have hmark := List.mem_append_left _ hop
  .lexeme (t := .symbol op) hmark (ne_comment hop).1 (ne_comment hop).2 (IsLongest.symbol hmark hs) h

end Splits

end Alphabet

end LiteralFill
