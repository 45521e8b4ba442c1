import LiteralFill.Proofs.Layout.Tokens

namespace LiteralFill

/-- The characters that may stand between the tokens of a line. -/
def isFiller (c : Char) : Bool := c ∈ [' ', ',', '.', ':', '(', ')', '[', ']']

/-- A text that shows tokens from the line `l` on and ends on the line `l'`. A token stands on the
line of its position. It starts that line, behind its tabs, exactly if it is marked as opening. -/
inductive Prints : Nat → List Token → List Char → Nat → Prop where
  | nil (l : Nat) : Prints l [] [] l
  | filler {l l' : Nat} {ts : List Token} {s : List Char} {c : Char} :
    isFiller c → Prints l ts s l' → Prints l ts (c :: s) l'
  | token {l l' : Nat} {t : Token} {ts : List Token} {s : List Char} :
    t.pos = l → t.opens = false → Prints l ts s l' → Prints l (t :: ts) (t.text.toList ++ s) l'
  | line {l l' : Nat} {t : Token} {ts : List Token} {s : List Char} :
    t.opens = false → Prints (l + 1) (t :: ts) s l' →
      Prints l (t.opened :: ts) ('\n' :: List.replicate t.depth '\t' ++ s) l'

namespace Prints

variable {l m n : Nat} {ts us : List Token} {s r : List Char}

theorem append (h : Prints l ts s m) (h' : Prints m us r n) : Prints l (ts ++ us) (s ++ r) n := by
  induction h with
  | nil => exact h'
  | filler hc _ ih => exact filler hc (ih h')
  | token hpos hopens _ ih =>
    rw [List.cons_append, List.append_assoc]
    exact token hpos hopens (ih h')
  | line hopens _ ih =>
    rw [List.cons_append, List.append_assoc]
    exact line hopens (ih h')

theorem fillers {fs : List Char} (hfs : fs.all isFiller = true) (l : Nat) : Prints l [] fs l := by
  induction fs with
  | nil => exact nil l
  | cons c fs ih =>
    rw [List.all_cons, Bool.and_eq_true] at hfs
    exact filler hfs.1 (ih hfs.2)

/-- Fillers before a text belong to the line that it goes on with. -/
theorem after {fs : List Char} (hfs : fs.all isFiller = true) (h : Prints l ts s m) :
    Prints l ts (fs ++ s) m := (fillers hfs l).append h

theorem before {fs : List Char} (hfs : fs.all isFiller = true) (h : Prints l ts s m) :
    Prints l ts (s ++ fs) m := by
  simpa only [List.append_nil] using h.append (fillers hfs m)

theorem mark (depth : Nat) (text : String) (l : Nat) :
    Prints l [.mark depth text l] text.toList l := by
  have h := token (t := .mark depth text l) rfl rfl (nil l)
  rwa [List.append_nil] at h

theorem le (h : Prints l ts s m) : l ≤ m := by
  induction h with
  | nil => exact Nat.le_refl _
  | filler _ _ ih => exact ih
  | token _ _ _ ih => exact ih
  | line _ _ ih => exact Nat.le_of_succ_le ih

theorem le_pos (h : Prints l ts s m) : ∀ t ∈ ts, l ≤ t.pos := by
  induction h with
  | nil => nofun
  | filler _ _ ih => exact ih
  | token hpos _ _ ih =>
    intro t ht
    rcases List.mem_cons.1 ht with rfl | ht
    · exact Nat.le_of_eq hpos.symm
    · exact ih t ht
  | @line _ _ t _ _ _ _ ih =>
    intro u hu
    rcases List.mem_cons.1 hu with rfl | hu
    · exact Nat.le_of_succ_le (ih t List.mem_cons_self)
    · exact Nat.le_of_succ_le (ih u (List.mem_cons_of_mem _ hu))

/-- A text that does not begin with a line of its own goes on with the line before it. -/
theorem pos_eq_of_opens_eq_false {t : Token} (h : Prints l (t :: ts) s m) (ht : t.opens = false) :
    t.pos = l := by
  generalize hus : t :: ts = us at h
  induction h with
  | nil => cases hus
  | filler _ _ ih => exact ih hus
  | token hpos _ _ _ =>
    cases hus
    exact hpos
  | line _ _ _ =>
    cases hus
    cases ht

end Prints

/-- The texts in their order, with nothing but fillers around them. -/
inductive Interleaves : List (List Char) → List Char → Prop where
  | nil : Interleaves [] []
  | filler {texts : List (List Char)} {line : List Char} {c : Char} :
    isFiller c → Interleaves texts line → Interleaves texts (c :: line)
  | text {texts : List (List Char)} {line : List Char} (text : List Char) :
    Interleaves texts line → Interleaves (text :: texts) (text ++ line)

/-- A line that shows the tokens `ts`, behind as many tabs as the first of them has literals around it.
Only the first may open a line, and does so if `opens`. -/
def ShowsLine (opens : Bool) (ts : List Token) (line : List Char) : Prop :=
  ∃ first others, ts = first :: others ∧ first.opens = opens ∧ (∀ t ∈ others, t.opens = false) ∧
    ∃ body, line = List.replicate first.depth '\t' ++ body ∧
      Interleaves (ts.map (·.text.toList)) body

theorem splitOn_append_of_notMem {text s first : List Char} {rest : List (List Char)}
    (ht : '\n' ∉ text) (hs : s.splitOn '\n' = first :: rest) :
    (text ++ s).splitOn '\n' = (text ++ first) :: rest := by
  induction text with
  | nil => exact hs
  | cons c text ih =>
    have hc : (c == '\n') = false := beq_false_of_ne fun hc => ht (hc ▸ List.mem_cons_self)
    have ht : '\n' ∉ text := fun h => ht (List.mem_cons_of_mem c h)
    rw [List.cons_append, List.splitOn_cons_eq_if_modifyHead, hc, ih ht]
    rfl

/-- The lines of a text show the tokens with their positions, line by line. -/
theorem Prints.exists_splitOn {l m : Nat} {ts : List Token} {s : List Char} (h : Prints l ts s m)
    (hts : ∀ t ∈ ts, '\n' ∉ t.text.toList) :
    ∃ first rest, s.splitOn '\n' = first :: rest ∧ m = l + rest.length ∧
      (∀ t ∈ ts.filter (·.pos = l), t.opens = false) ∧
      Interleaves ((ts.filter (·.pos = l)).map (·.text.toList)) first ∧
      ∀ i (hi : i < rest.length), ShowsLine true (ts.filter (·.pos = l + 1 + i)) rest[i] := by
  -- the first line goes on with what stands before the text, so only the later ones show how they open
  induction h with
  | nil l => exact ⟨[], [], rfl, rfl, nofun, .nil, nofun⟩
  | @filler l m ts s c hc _ ih =>
    obtain ⟨first, rest, hs, hm, hopens, hfirst, hrest⟩ := ih hts
    have hnl : '\n' ∉ [c] := by
      rintro h
      cases List.mem_singleton.1 h
      cases hc
    exact ⟨c :: first, rest, splitOn_append_of_notMem hnl hs, hm, hopens, .filler hc hfirst, hrest⟩
  | @token l m t ts s hpos hopens' _ ih =>
    obtain ⟨first, rest, hs, hm, hopens, hfirst, hrest⟩ :=
      ih fun t ht => hts t (List.mem_cons_of_mem _ ht)
    have hl : (t :: ts).filter (·.pos = l) = t :: ts.filter (·.pos = l) :=
      List.filter_cons_of_pos (decide_eq_true hpos)
    refine ⟨t.text.toList ++ first, rest,
      splitOn_append_of_notMem (hts t List.mem_cons_self) hs, hm, ?_, ?_, fun i hi => ?_⟩
    · rw [hl]
      intro u hu
      rcases List.mem_cons.1 hu with rfl | hu
      · exact hopens'
      · exact hopens u hu
    · rw [hl]
      exact .text t.text.toList hfirst
    · rw [List.filter_cons_of_neg (by simp only [hpos, decide_eq_true_eq]; omega)]
      exact hrest i hi
  | @line l m t ts s hopens' h ih =>
    have hpos : t.pos = l + 1 := h.pos_eq_of_opens_eq_false hopens'
    have hle := h.le_pos
    obtain ⟨first, rest, hs, hm, hopens, hfirst, hrest⟩ := ih fun u hu => by
      rcases List.mem_cons.1 hu with rfl | hu
      · exact hts u.opened List.mem_cons_self
      · exact hts u (List.mem_cons_of_mem _ hu)
    have hnl : '\n' ∉ List.replicate t.depth '\t' := fun h => by
      cases List.eq_of_mem_replicate h
    -- the line that ends here shows nothing, since all tokens to come stand on later ones
    have hbelow : (t.opened :: ts).filter (·.pos = l) = [] := by
      refine List.filter_eq_nil_iff.2 fun u hu => ?_
      rcases List.mem_cons.1 hu with rfl | hu
      · simp only [Token.pos_opened, hpos, decide_eq_true_eq]
        omega
      · have hu := hle u (List.mem_cons_of_mem _ hu)
        simp only [decide_eq_true_eq]
        omega
    have hgroup : (t :: ts).filter (·.pos = l + 1) = t :: ts.filter (·.pos = l + 1) :=
      List.filter_cons_of_pos (decide_eq_true hpos)
    have hgroup' : (t.opened :: ts).filter (·.pos = l + 1) = t.opened :: ts.filter (·.pos = l + 1) :=
      List.filter_cons_of_pos (decide_eq_true hpos)
    have hlines : ('\n' :: List.replicate t.depth '\t' ++ s).splitOn '\n' =
        [] :: (List.replicate t.depth '\t' ++ first) :: rest := by
      rw [List.cons_append, List.splitOn_cons_eq_if_modifyHead,
        splitOn_append_of_notMem hnl hs]
      rfl
    refine ⟨[], _, hlines, ?_, ?_, ?_, ?_⟩
    · rw [hm, List.length_cons]
      omega
    · rw [hbelow]
      nofun
    · rw [hbelow]
      exact .nil
    · intro i hi
      cases i with
      | zero =>
        rw [hgroup] at hopens hfirst
        rw [Nat.add_zero, hgroup']
        exact ⟨t.opened, _, rfl, rfl, fun u hu => hopens u (List.mem_cons_of_mem _ hu), first, rfl,
          hfirst⟩
      | succ i =>
        have hi : i < rest.length := Nat.lt_of_succ_lt_succ hi
        have hi' := hrest i hi
        rw [List.filter_cons_of_neg (by simp only [hpos, decide_eq_true_eq]; omega)] at hi'
        rw [List.filter_cons_of_neg (by simp only [Token.pos_opened, hpos, decide_eq_true_eq]; omega),
          show l + 1 + (i + 1) = l + 1 + 1 + i by omega]
        exact hi'

end LiteralFill
