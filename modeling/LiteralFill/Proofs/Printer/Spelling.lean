import LiteralFill.Printer.Spacing
import LiteralFill.Proofs.Grammar.Lexeme

namespace LiteralFill

open Lexeme (symbol word)

/-- A text whose first character is like this. -/
def StartsWith (p : Char → Prop) (s : List Char) : Prop := ∃ c rest, s = c :: rest ∧ p c

theorem StartsWith.append {p : Char → Prop} {s : List Char} (h : StartsWith p s) (t : List Char) :
    StartsWith p (s ++ t) := by
  obtain ⟨c, rest, rfl, hc⟩ := h
  exact ⟨c, rest ++ t, rfl, hc⟩

theorem StartsWith.imp {p q : Char → Prop} {s : List Char} (h : StartsWith p s) (hpq : ∀ c, p c → q c) :
    StartsWith q s := by
  obtain ⟨c, rest, hs, hc⟩ := h
  exact ⟨c, rest, hs, hpq c hc⟩

theorem StartsWith.head? {p : Char → Prop} {s : List Char} (h : StartsWith p s) : ∀ c ∈ s.head?, p c := by
  obtain ⟨c, rest, rfl, hc⟩ := h
  rintro _ ⟨⟩
  exact hc

theorem runsOn_eq_false {op : String} {c : Char} (h : ∀ m ∈ marks, ¬op.toList ++ [c] <+: m.toList) :
    runsOn op c = false := by
  rw [runsOn, List.any_eq_false]
  intro m hm hbegins
  exact h m hm (of_decide_eq_true hbegins)

theorem runsOn_blank (op : String) : runsOn op ' ' = false := by
  have hblank : ∀ m ∈ marks, ' ' ∉ m.toList := by decide +kernel
  exact runsOn_eq_false fun m hm hbegins => hblank m hm (hbegins.subset (by simp))

/-- A symbol that no other symbol begins with may stand before everything. -/
theorem runsOn_of_only {op : String} (h : ∀ m ∈ marks, op.toList <+: m.toList → m = op) (c : Char) :
    runsOn op c = false := by
  refine runsOn_eq_false fun m hm hbegins => ?_
  obtain rfl := h m hm ((List.prefix_append _ _).trans hbegins)
  have hlength := hbegins.length_le
  rw [List.length_append, List.length_singleton] at hlength
  omega

theorem runsOn_bracket {op : String} (h : op ∈ ["(", ")", "[", "]", ","]) (c : Char) :
    runsOn op c = false := by
  have honly : ∀ op ∈ ["(", ")", "[", "]", ","], ∀ m ∈ marks, op.toList <+: m.toList → m = op := by
    decide +kernel
  exact runsOn_of_only (honly op h) c

namespace Alphabet

variable (A : Alphabet)

theorem runsOn_inWord (op : String) {c : Char} (h : A.inWord c = true) : runsOn op c = false := by
  refine runsOn_eq_false fun m hm hbegins => ?_
  have hc := (A.of_mem_mark hm (hbegins.subset (List.mem_append_right _ List.mem_cons_self))).1
  rw [h] at hc
  cases hc

/-- What an operand can start with. -/
def StartsOperand (c : Char) : Prop :=
  A.isLetter c = true ∨ c ∈ ['(', '+', '-', '!', '^', '&', '<', '*']

/-- Symbols that may stand directly before an operand. -/
def beforeOperand : List String :=
  ["+", "-", "*", "/", "%", "&", "|", "^", "&^", "<<", ">>", "&&", "||", "==", "!=", "<", "<=", ">",
    ">=", "!", "<-", ":"]

/-- Only before an operand that they may combine with, symbols could become longer ones. -/
theorem StartsOperand.runsOn_eq_false {c : Char} (h : A.StartsOperand c) {op : String}
    (hop : op ∈ beforeOperand) (hcombine : mayCombine op (some c) = false) : runsOn op c = false := by
  rcases h with hletter | hc
  · exact A.runsOn_inWord op (by rw [inWord, hletter, Bool.true_or])
  · have hall : ∀ op ∈ beforeOperand, ['(', '+', '-', '!', '^', '&', '<', '*'].all fun c =>
        mayCombine op (some c) = false → runsOn op c = false := by decide +kernel
    exact of_decide_eq_true (List.all_eq_true.1 (hall op hop) c hc) hcombine

/-- A text that splits like this before everything that does not go on with a word. -/
def Spells (text : List Char) (ts : List Lexeme) : Prop :=
  ∀ s us, (∀ c ∈ s.head?, A.inWord c = false) → A.Splits s us → A.Splits (text ++ s) (ts ++ us)

namespace Spells

variable {A} {s t : List Char} {ts us : List Lexeme}

theorem splits (h : A.Spells s ts) : A.Splits s ts := by
  simpa only [List.append_nil] using h [] [] nofun .nil

theorem word {name : String} (h : A.IsWord name.toList) : A.Spells name.toList [word name] :=
  fun _ _ hs h' => .word h hs h'

theorem blank (h : A.Spells t ts) : A.Spells (' ' :: t) ts :=
  fun s us hs h' => .blank (.inl rfl) (h s us hs h')

theorem append (h : A.Spells s ts) (h' : A.Spells t us) (ht : StartsWith (A.inWord · = false) t) :
    A.Spells (s ++ t) (ts ++ us) := by
  intro s' us' hs' hsplits
  rw [List.append_assoc, List.append_assoc]
  exact h _ _ (ht.append s').head? (h' s' us' hs' hsplits)

theorem symbol {op : String} (hop : op ∈ operators) (h : A.Spells t ts)
    (ht : StartsWith (runsOn op · = false) t) : A.Spells (op.toList ++ t) (symbol op :: ts) := by
  intro s us hs hsplits
  rw [List.append_assoc]
  exact .symbol hop (ht.append s).head? (h s us hs hsplits)

/-- A bracket or a comma may stand before everything. -/
theorem bracket {op : String} (hop : op ∈ ["(", ")", "[", "]", ","]) (h : A.Spells t ts) :
    A.Spells (op.toList ++ t) (Lexeme.symbol op :: ts) := by
  have hmem : ∀ op ∈ ["(", ")", "[", "]", ","], op ∈ operators := by decide +kernel
  intro s us hs hsplits
  rw [List.append_assoc]
  exact .symbol (hmem op hop) (fun c _ => runsOn_bracket hop c) (h s us hs hsplits)

theorem nil : A.Spells [] [] := fun _ _ _ h => h

theorem closing {op : String} (hop : op ∈ ["(", ")", "[", "]", ","]) :
    A.Spells op.toList [Lexeme.symbol op] := by
  simpa only [List.append_nil] using bracket hop nil

/-- After a word, a symbol starts a lexeme of its own. -/
theorem startsWith_symbol {op : String} (hop : op ∈ operators) :
    StartsWith (A.inWord · = false) op.toList := by
  obtain ⟨c, rest, hc, -, hword⟩ := IsNext.exists_cons (t := .symbol op) (List.mem_append_left _ hop)
  refine ⟨c, rest, hc, Bool.eq_false_iff.2 fun h => ?_⟩
  obtain ⟨_, h⟩ := hword.1 h
  cases h

/-- An operator before its operand, with a blank between them where they would combine. -/
theorem glue {op right : String} (hop : op ∈ operators) (hbefore : op ∈ beforeOperand)
    (h : A.Spells right.toList ts) (hright : StartsWith A.StartsOperand right.toList) :
    A.Spells (glue op right).toList (Lexeme.symbol op :: ts) := by
  obtain ⟨c, rest, hc, hstart⟩ := hright
  -- the blank stands where two symbols would be read as one
  rw [LiteralFill.glue, hc, List.head?_cons]
  cases hcombine : mayCombine op (some c) with
  | true =>
    rw [if_pos rfl, String.toList_append, String.toList_append, List.append_assoc]
    exact symbol hop h.blank ⟨' ', _, rfl, runsOn_blank op⟩
  | false =>
    rw [if_neg Bool.false_ne_true, String.append_empty, String.toList_append]
    exact symbol hop h ⟨c, rest, hc, hstart.runsOn_eq_false A hbefore hcombine⟩

theorem operator {op right : String} (hop : op ∈ operators) (hbefore : op ∈ beforeOperand)
    (h : A.Spells right.toList ts) (hright : StartsWith A.StartsOperand right.toList) (spaced : Prop)
    [Decidable spaced] :
    A.Spells (if spaced then " " ++ op ++ " " ++ right else LiteralFill.glue op right).toList
      (Lexeme.symbol op :: ts) := by
  split
  · have hblank : A.Spells (op.toList ++ ' ' :: right.toList) (Lexeme.symbol op :: ts) :=
      symbol hop h.blank ⟨' ', _, rfl, runsOn_blank op⟩
    simp only [String.toList_append, List.append_assoc]
    exact hblank.blank
  · exact glue hop hbefore h hright

theorem startsWith_operator {op : String} (hop : op ∈ operators) (right : String) (spaced : Prop)
    [Decidable spaced] : StartsWith (A.inWord · = false)
      (if spaced then " " ++ op ++ " " ++ right else LiteralFill.glue op right).toList := by
  split
  · simp only [String.toList_append, List.append_assoc]
    exact ⟨' ', _, rfl, A.inWord_blank (.inl rfl)⟩
  · rw [LiteralFill.glue, String.append_assoc, String.toList_append]
    exact (startsWith_symbol hop).append _

end Spells

end Alphabet

end LiteralFill
