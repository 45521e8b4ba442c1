import LiteralFill.Json.Read
import LiteralFill.Json.Render
import LiteralFill.Proofs.Text.Decimal

namespace LiteralFill.Json

mutual

/-- Numbers are natural, and strings are texts. -/
def IsPlain : Json → Prop
  | .number _ | .garbled => False
  | .arr items => ItemsPlain items
  | .obj members => MembersPlain members
  | _ => True

def ItemsPlain : List Json → Prop
  | [] => True
  | j :: rest => j.IsPlain ∧ ItemsPlain rest

def MembersPlain : List (String × Json) → Prop
  | [] => True
  | (_, j) :: rest => j.IsPlain ∧ MembersPlain rest

end

variable {c : Char} {cs rest : List Char} {fuel : Nat}

theorem skipSpace_cons (h : isSpace c = false) : skipSpace (c :: cs) = c :: cs := by
  rw [skipSpace, List.dropWhile_cons_of_neg (by simp [h])]

theorem hexValue?_hexDigit {n : Nat} (h : n < 16) : hexValue? (hexDigit n) = some n := by
  have hall : ∀ n < 16, hexValue? (hexDigit n) = some n := by decide
  exact hall n h

theorem readCodePoint?_control (h : c.toNat < 0x20) :
    readCodePoint? ('0' :: '0' :: hexDigit (c.toNat / 16) :: hexDigit (c.toNat % 16) :: rest) =
      some (some c, rest) := by
  have hhigh := hexValue?_hexDigit (show c.toNat / 16 < 16 by omega)
  have hlow := hexValue?_hexDigit (show c.toNat % 16 < 16 by omega)
  have hzero : hexValue? '0' = some 0 := by decide
  have hcode : 16 * (c.toNat / 16) + c.toNat % 16 = c.toNat := by omega
  have hplane : c.toNat < 0xd800 := by omega
  simp [readCodePoint?, readHex4?, hhigh, hlow, hzero, hcode, hplane]

/-- An escaped character is read as itself. -/
theorem readString?_escapeChar (c : Char) :
    readString? (fuel + 1) (escapeChar c ++ rest) =
      (readString? fuel rest).map fun (cs, rest) => (some c :: cs, rest) := by
  have hescape (e : Char) (more : List Char) (he : readEscape? (e :: more) = some (some c, rest)) :
      readString? (fuel + 1) ('\\' :: e :: more) =
        (readString? fuel rest).map fun (cs, rest) => (some c :: cs, rest) := by
    cases hrest : readString? fuel rest <;> simp [readString?, he, hrest]
  rw [escapeChar]
  repeat' split
  iterate 7 exact hescape _ _ (by simp [readEscape?, *])
  · exact hescape _ _ (readCodePoint?_control ‹_›)
  · cases hrest : readString? fuel rest <;> simp [readString?, *]

theorem readString?_flatMap_escapeChar (h : (cs.flatMap escapeChar).length < fuel) :
    readString? fuel (cs.flatMap escapeChar ++ '"' :: rest) = some (cs.map some, rest) := by
  induction cs generalizing fuel with
  | nil =>
    obtain ⟨n, rfl⟩ := Nat.exists_eq_add_of_lt h
    simp [readString?]
  | cons c cs ih =>
    have hpos : 0 < (escapeChar c).length := by
      rw [escapeChar]
      repeat' split
      all_goals exact Nat.succ_pos _
    rw [List.flatMap_cons, List.length_append] at h
    obtain ⟨n, rfl⟩ : ∃ n, fuel = n + 1 := ⟨fuel - 1, by omega⟩
    rw [List.flatMap_cons, List.append_assoc, readString?_escapeChar, ih (by omega)]
    rfl

theorem textOf?_map_some (s : String) : textOf? (s.toList.map some) = some s := by
  have hchars (cs : List Char) : (cs.map some).mapM id = some cs := by
    induction cs with
    | nil => rfl
    | cons c cs ih => rw [List.map_cons, List.mapM_cons, ih]; rfl
  rw [textOf?, hchars, Option.map_some, String.ofList_toList]

theorem toList_quote (s : String) : (quote s).toList = '"' :: (s.toList.flatMap escapeChar ++ ['"']) := by
  simp [quote]

/-- A text goes on with what ends a number: nothing, or what follows an item or a member. -/
def EndsNumber (rest : List Char) : Prop := ∀ c ∈ rest.head?, c = ',' ∨ c = ']' ∨ c = '\x7d'

theorem EndsNumber.takeWhile (h : EndsNumber rest) : rest.takeWhile Char.isDigit = [] := by
  cases rest with
  | nil => rfl
  | cons c rest => obtain rfl | rfl | rfl := h c rfl <;> rfl

theorem EndsNumber.dropWhile (h : EndsNumber rest) : rest.dropWhile Char.isDigit = rest := by
  cases rest with
  | nil => rfl
  | cons c rest => obtain rfl | rfl | rfl := h c rfl <;> rfl

theorem EndsNumber.takeFraction? (h : EndsNumber rest) : Json.takeFraction? rest = some ([], rest) := by
  cases rest with
  | nil => rfl
  | cons c rest => obtain rfl | rfl | rfl := h c rfl <;> rfl

theorem EndsNumber.takeExponent? (h : EndsNumber rest) : Json.takeExponent? rest = some ([], rest) := by
  cases rest with
  | nil => rfl
  | cons c rest => obtain rfl | rfl | rfl := h c rfl <;> rfl

/-- Only zero starts with a zero. -/
theorem of_toDigits_eq_zero_cons {n : Nat} (h : Nat.toDigits 10 n = '0' :: cs) : n = 0 ∧ cs = [] := by
  induction n using Nat.strong_induction_on generalizing cs with
  | _ n ih =>
    rw [Nat.toDigits_eq_if (by decide)] at h
    split at h
    · rename_i hlt
      obtain ⟨hdigit, hcs⟩ := List.cons.inj h
      have hall : ∀ m < 10, m.digitChar = '0' → m = 0 := by decide
      exact ⟨hall n hlt hdigit, hcs.symm⟩
    · rename_i hge
      obtain ⟨hnil, -⟩ | ⟨ds, hds, -⟩ := List.append_eq_cons_iff.1 h
      · exact absurd hnil Nat.toDigits_ne_nil
      · have := (ih (n / 10) (by omega) hds).1
        omega

theorem takeWhole?_toString (n : Nat) (h : EndsNumber rest) :
    takeWhole? ((toString n).toList ++ rest) = some ((toString n).toList, rest) := by
  have hdigits : ∀ c ∈ (toString n).toList, c.isDigit := fun _ => Text.isDigit_of_mem_toString
  rw [takeWhole?.eq_def]
  split
  · rename_i more heq
    obtain ⟨hnil, -⟩ | ⟨ds, hds, rfl⟩ := List.append_eq_cons_iff.1 heq
    · exact absurd (Text.toList_toString n ▸ hnil) Nat.toDigits_ne_nil
    · obtain ⟨rfl, rfl⟩ := of_toDigits_eq_zero_cons (Text.toList_toString n ▸ hds)
      rfl
  · have htake : ((toString n).toList ++ rest).takeWhile Char.isDigit = (toString n).toList := by
      rw [List.takeWhile_append_of_pos hdigits, h.takeWhile, List.append_nil]
    have hdrop : ((toString n).toList ++ rest).dropWhile Char.isDigit = rest := by
      rw [List.dropWhile_append_of_pos hdigits, h.dropWhile]
    rw [takeDigits?, htake, hdrop]
    split
    · rename_i hnil
      exact absurd (Text.toList_toString n ▸ hnil) Nat.toDigits_ne_nil
    · rfl

theorem readNumber?_toString (n : Nat) (h : EndsNumber rest) :
    readNumber? ((toString n).toList ++ rest) = some (.nat n, rest) := by
  have hsign (more : List Char) : (toString n).toList ++ rest ≠ '-' :: more := by
    intro heq
    obtain ⟨hnil, -⟩ | ⟨ds, hds, -⟩ := List.append_eq_cons_iff.1 heq
    · exact absurd (Text.toList_toString n ▸ hnil) Nat.toDigits_ne_nil
    · cases Text.isDigit_of_mem_toString (hds ▸ List.mem_cons_self)
  rw [readNumber?.eq_2 _ hsign, takeWhole?_toString n h]
  simp only [Option.bind_eq_bind, Option.bind_some, h.takeFraction?, h.takeExponent?,
    Text.digitsValue?_toString, Option.pure_def]

/-- A text starts with a character that is neither a blank nor a bracket that ends what is around it. -/
def Starts (cs : List Char) : Prop := ∃ c more, cs = c :: more ∧ isSpace c = false ∧ c ≠ ']' ∧ c ≠ '\x7d'

theorem ne_of_isDigit {d : Char} (hc : c.isDigit) (hd : d.isDigit = false) : c ≠ d := by
  rintro rfl
  rw [hc] at hd
  cases hd

theorem isSpace_of_isDigit (hc : c.isDigit) : isSpace c = false := by
  simp [isSpace, ne_of_isDigit hc (d := ' ') rfl, ne_of_isDigit hc (d := '\n') rfl,
    ne_of_isDigit hc (d := '\t') rfl, ne_of_isDigit hc (d := '\r') rfl]

theorem exists_toString_eq_cons (n : Nat) : ∃ c cs, (toString n).toList = c :: cs ∧ c.isDigit := by
  have hne : (toString n).toList ≠ [] := Text.toList_toString n ▸ Nat.toDigits_ne_nil
  obtain ⟨c, cs, hcs⟩ := List.exists_cons_of_ne_nil hne
  exact ⟨c, cs, hcs, Text.isDigit_of_mem_toString (hcs ▸ List.mem_cons_self)⟩

theorem readValue?_of_isDigit (hc : c.isDigit) :
    readValue? (fuel + 1) (c :: cs) = readNumber? (c :: cs) := by
  rw [readValue?, skipSpace_cons (isSpace_of_isDigit hc)]
  split
  iterate 6
    rename_i heq
    cases heq
    cases hc
  rfl

/-- A document is read from its text, and what follows the text is left. -/
structure ReadsBack (j : Json) : Prop where
  starts : Starts j.render.toList
  reads : ∀ (fuel : Nat) (rest : List Char), j.render.toList.length ≤ fuel → EndsNumber rest →
    readValue? fuel (j.render.toList ++ rest) = some (j, rest)

theorem readsBack_null : ReadsBack .null where
  starts := ⟨_, _, rfl, rfl, by decide, by decide⟩
  reads fuel rest h _ := by
    obtain ⟨n, rfl⟩ := Nat.exists_eq_add_of_le' h
    simp [render, readValue?, skipSpace_cons, isSpace, expect?]

theorem readsBack_bool (b : Bool) : ReadsBack (.bool b) where
  starts := by
    cases b <;> exact ⟨_, _, rfl, rfl, by decide, by decide⟩
  reads fuel rest h _ := by
    cases b <;> obtain ⟨n, rfl⟩ := Nat.exists_eq_add_of_le' h <;>
      simp [render, readValue?, skipSpace_cons, isSpace, expect?]

theorem readsBack_nat (n : Nat) : ReadsBack (.nat n) where
  starts := by
    obtain ⟨c, cs, hcs, hc⟩ := exists_toString_eq_cons n
    exact ⟨c, cs, hcs, isSpace_of_isDigit hc, ne_of_isDigit hc rfl, ne_of_isDigit hc rfl⟩
  reads fuel rest h hrest := by
    obtain ⟨c, cs, hcs, hc⟩ := exists_toString_eq_cons n
    have hread := readNumber?_toString n hrest
    rw [render] at h ⊢
    rw [hcs] at h hread ⊢
    obtain ⟨m, rfl⟩ := Nat.exists_eq_add_of_le' (Nat.le_trans (Nat.succ_pos _) h)
    exact (readValue?_of_isDigit hc).trans hread

theorem readsBack_str (s : String) : ReadsBack (.str s) where
  starts := ⟨_, _, toList_quote s, rfl, by decide, by decide⟩
  reads fuel rest h _ := by
    rw [render, toList_quote] at h ⊢
    rw [List.length_cons, List.length_append] at h
    obtain ⟨m, rfl⟩ := Nat.exists_eq_add_of_le' (Nat.le_trans (Nat.succ_pos _) h)
    have hread : readString? m (s.toList.flatMap escapeChar ++ '"' :: rest) =
        some (s.toList.map some, rest) :=
      readString?_flatMap_escapeChar (by simp only [List.length_singleton] at h; omega)
    simp [readValue?, skipSpace_cons, isSpace, hread, ofString, textOf?_map_some]

/-- The items of an array are read up to its bracket. -/
theorem readItems?_render {j : Json} {items : List Json} (h : ∀ item ∈ j :: items, ReadsBack item)
    (hfuel : (",".intercalate (renderItems (j :: items))).toList.length < fuel) :
    readItems? fuel ((",".intercalate (renderItems (j :: items))).toList ++ ']' :: rest) =
      some (j :: items, rest) := by
  induction items generalizing j fuel with
  | nil =>
    obtain ⟨hj, -⟩ := List.forall_mem_cons.1 h
    obtain ⟨m, rfl⟩ := Nat.exists_eq_add_of_lt hfuel
    rw [renderItems, renderItems, String.intercalate_singleton] at hfuel ⊢
    rw [readItems?, hj.reads _ _ (by omega) (by simp [EndsNumber])]
    rfl
  | cons j' items ih =>
    obtain ⟨hj, hitems⟩ := List.forall_mem_cons.1 h
    obtain ⟨m, rfl⟩ : ∃ m, fuel = m + 1 := ⟨fuel - 1, by omega⟩
    have htext : (",".intercalate (renderItems (j :: j' :: items))).toList =
        j.render.toList ++ ',' :: (",".intercalate (renderItems (j' :: items))).toList := by
      simp [renderItems, String.intercalate_cons_cons]
    rw [htext, List.length_append, List.length_cons] at hfuel
    have hmore := ih hitems (show _ < m by omega)
    rw [htext, List.append_assoc, List.cons_append, readItems?,
      hj.reads _ _ (by omega) (by simp [EndsNumber])]
    change (readItems? m _ >>= _) = _
    rw [hmore]
    rfl

theorem toList_member (name : String) (j : Json) :
    (quote name ++ ":" ++ j.render).toList =
      '"' :: (name.toList.flatMap escapeChar ++ '"' :: ':' :: j.render.toList) := by
  simp [toList_quote]

/-- A member is read up to what follows its value. -/
theorem readMembers?_member {name : String} {j : Json} (hj : ReadsBack j) {more : List Char}
    (hmore : EndsNumber more) (hfuel : (quote name ++ ":" ++ j.render).toList.length ≤ fuel) :
    readMembers? (fuel + 1) ((quote name ++ ":" ++ j.render).toList ++ more) =
      match skipSpace more with
      | ',' :: rest => do
        let (members, rest) ← readMembers? fuel rest
        return ((some name, j) :: members, rest)
      | '\x7d' :: rest => some ([(some name, j)], rest)
      | _ => none := by
  rw [toList_member] at hfuel ⊢
  simp only [List.length_append, List.length_cons] at hfuel
  have hname : readString? fuel (name.toList.flatMap escapeChar ++ '"' :: ':' :: (j.render.toList ++ more)) =
      some (name.toList.map some, ':' :: (j.render.toList ++ more)) :=
    readString?_flatMap_escapeChar (by omega)
  have hvalue := hj.reads fuel more (by omega) hmore
  simp only [List.cons_append, List.append_assoc, readMembers?,
    skipSpace_cons (show isSpace '"' = false from rfl), skipSpace_cons (show isSpace ':' = false from rfl),
    hname, hvalue, textOf?_map_some, Option.bind_eq_bind, Option.bind_some]
  rfl

/-- The members of an object are read up to its brace. -/
theorem readMembers?_render {member : String × Json} {members : List (String × Json)}
    (h : ∀ m ∈ member :: members, ReadsBack m.2)
    (hfuel : (",".intercalate (renderMembers (member :: members))).toList.length < fuel) :
    readMembers? fuel ((",".intercalate (renderMembers (member :: members))).toList ++ '\x7d' :: rest) =
      some ((member :: members).map fun m => (some m.1, m.2), rest) := by
  induction members generalizing member fuel with
  | nil =>
    obtain ⟨hj, -⟩ := List.forall_mem_cons.1 h
    obtain ⟨m, rfl⟩ := Nat.exists_eq_add_of_lt hfuel
    rw [renderMembers, renderMembers, String.intercalate_singleton] at hfuel ⊢
    rw [readMembers?_member hj (by simp [EndsNumber]) (by omega)]
    rfl
  | cons member' members ih =>
    obtain ⟨hj, hmembers⟩ := List.forall_mem_cons.1 h
    obtain ⟨m, rfl⟩ : ∃ m, fuel = m + 1 := ⟨fuel - 1, by omega⟩
    have htext : (",".intercalate (renderMembers (member :: member' :: members))).toList =
        (quote member.1 ++ ":" ++ member.2.render).toList ++
          ',' :: (",".intercalate (renderMembers (member' :: members))).toList := by
      rw [renderMembers, renderMembers, String.intercalate_cons_cons, String.toList_append,
        String.toList_append, List.append_assoc]
      rfl
    rw [htext, List.length_append, List.length_cons] at hfuel
    have hmore := ih hmembers (show _ < m by omega)
    rw [htext, List.append_assoc, List.cons_append,
      readMembers?_member hj (by simp [EndsNumber]) (by omega)]
    change (readMembers? m _ >>= _) = _
    rw [hmore]
    rfl

theorem readValue?_bracket {items : List Json} (h : readItems? fuel cs = some (items, rest))
    (hcs : Starts cs) : readValue? (fuel + 1) ('[' :: cs) = some (.arr items, rest) := by
  obtain ⟨c, more, rfl, hspace, hne, -⟩ := hcs
  rw [readValue?, skipSpace_cons rfl]
  simp only [skipSpace_cons hspace]
  split
  · rename_i heq
    exact absurd (List.cons.inj heq).1 hne
  · rw [h]
    rfl

theorem readValue?_brace {members : List (Option String × Json)}
    (h : readMembers? fuel cs = some (members, rest)) (hcs : Starts cs) :
    readValue? (fuel + 1) ('\x7b' :: cs) = some (ofMembers members, rest) := by
  obtain ⟨c, more, rfl, hspace, -, hne⟩ := hcs
  rw [readValue?, skipSpace_cons rfl]
  simp only [skipSpace_cons hspace]
  split
  · rename_i heq
    exact absurd (List.cons.inj heq).1 hne
  · rw [h]
    rfl

theorem starts_renderItems {j : Json} {items : List Json} (h : ReadsBack j) :
    Starts ((",".intercalate (renderItems (j :: items))).toList ++ rest) := by
  obtain ⟨c, more, hcs, hc⟩ := h.starts
  cases items with
  | nil =>
    rw [renderItems, renderItems, String.intercalate_singleton, hcs]
    exact ⟨c, _, rfl, hc⟩
  | cons j' items =>
    rw [renderItems, renderItems, String.intercalate_cons_cons, String.toList_append,
      String.toList_append, hcs]
    exact ⟨c, _, rfl, hc⟩

theorem starts_renderMembers {member : String × Json} {members : List (String × Json)} :
    Starts ((",".intercalate (renderMembers (member :: members))).toList ++ rest) := by
  cases members with
  | nil =>
    rw [renderMembers, renderMembers, String.intercalate_singleton, toList_member]
    exact ⟨_, _, rfl, rfl, by decide, by decide⟩
  | cons member' members =>
    rw [renderMembers, renderMembers, String.intercalate_cons_cons, String.toList_append,
      String.toList_append, toList_member]
    exact ⟨_, _, rfl, rfl, by decide, by decide⟩

theorem ofMembers_map_some (members : List (String × Json)) :
    ofMembers (members.map fun m => (some m.1, m.2)) = .obj members := by
  have hmembers : (members.map fun m => (some m.1, m.2)).mapM namedMember? = some members := by
    induction members with
    | nil => rfl
    | cons m members ih => rw [List.map_cons, List.mapM_cons, ih]; rfl
  rw [ofMembers, hmembers]
  rfl

theorem readsBack_arr {items : List Json} (h : ∀ item ∈ items, ReadsBack item) : ReadsBack (.arr items) where
  starts := ⟨_, _, by rw [render, String.toList_append, String.toList_append]; rfl, rfl, by decide, by decide⟩
  reads fuel rest hfuel _ := by
    cases items with
    | nil =>
      obtain ⟨m, rfl⟩ := Nat.exists_eq_add_of_le' hfuel
      simp [render, renderItems, readValue?, skipSpace_cons, isSpace]
    | cons j items =>
      have htext : (Json.arr (j :: items)).render.toList =
          '[' :: ((",".intercalate (renderItems (j :: items))).toList ++ [']']) := by
        rw [render, String.toList_append, String.toList_append]
        rfl
      rw [htext, List.length_cons, List.length_append, List.length_singleton] at hfuel
      obtain ⟨m, rfl⟩ : ∃ m, fuel = m + 1 := ⟨fuel - 1, by omega⟩
      rw [htext, List.cons_append, List.append_assoc]
      exact readValue?_bracket (readItems?_render h (by omega)) (starts_renderItems (h j List.mem_cons_self))

theorem readsBack_obj {members : List (String × Json)} (h : ∀ m ∈ members, ReadsBack m.2) :
    ReadsBack (.obj members) where
  starts := ⟨_, _, by rw [render, String.toList_append, String.toList_append]; rfl, rfl, by decide, by decide⟩
  reads fuel rest hfuel _ := by
    cases members with
    | nil =>
      obtain ⟨m, rfl⟩ := Nat.exists_eq_add_of_le' hfuel
      simp [render, renderMembers, readValue?, skipSpace_cons, isSpace]
    | cons member members =>
      have htext : (Json.obj (member :: members)).render.toList =
          '\x7b' :: ((",".intercalate (renderMembers (member :: members))).toList ++ ['\x7d']) := by
        rw [render, String.toList_append, String.toList_append]
        rfl
      rw [htext, List.length_cons, List.length_append, List.length_singleton] at hfuel
      obtain ⟨m, rfl⟩ : ∃ m, fuel = m + 1 := ⟨fuel - 1, by omega⟩
      rw [htext, List.cons_append, List.append_assoc, ← ofMembers_map_some]
      exact readValue?_brace (readMembers?_render h (by omega)) starts_renderMembers

mutual

theorem IsPlain.readsBack : ∀ j : Json, j.IsPlain → ReadsBack j
  | .null, _ => readsBack_null
  | .bool b, _ => readsBack_bool b
  | .nat n, _ => readsBack_nat n
  | .number _, h => h.elim
  | .str s, _ => readsBack_str s
  | .garbled, h => h.elim
  | .arr items, h => readsBack_arr (ItemsPlain.readsBack items h)
  | .obj members, h => readsBack_obj (MembersPlain.readsBack members h)

theorem ItemsPlain.readsBack : ∀ items : List Json, ItemsPlain items → ∀ item ∈ items, ReadsBack item
  | [], _ => nofun
  | j :: rest, h => List.forall_mem_cons.2 ⟨IsPlain.readsBack j h.1, ItemsPlain.readsBack rest h.2⟩

theorem MembersPlain.readsBack : ∀ members : List (String × Json), MembersPlain members →
    ∀ m ∈ members, ReadsBack m.2
  | [], _ => nofun
  | (_, j) :: rest, h => List.forall_mem_cons.2 ⟨IsPlain.readsBack j h.1, MembersPlain.readsBack rest h.2⟩

end

/-- A document is read back from its text. -/
theorem read?_render {j : Json} (h : j.IsPlain) : read? j.render = some j := by
  have hread := (IsPlain.readsBack j h).reads (2 * j.render.toList.length + 2) [] (by omega) nofun
  rw [List.append_nil] at hread
  simp only [read?, hread, Option.bind_eq_bind, Option.bind_some]
  rfl

end LiteralFill.Json
