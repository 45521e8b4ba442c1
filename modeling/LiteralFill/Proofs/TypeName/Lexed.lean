import LiteralFill.Proofs.TypeName.Tokens

namespace LiteralFill

open TypeToken (word symbol number)
open Alphabet (Lexes)
open Alphabet.Lexes (separators mem_operators startsWith_symbol)

variable {A : Alphabet} {v : Viewpoint}

/-- What a written type can start with. -/
def Alphabet.StartsType (A : Alphabet) (c : Char) : Prop := A.isLetter c = true ∨ c ∈ ['[', '*', '<']

theorem Alphabet.StartsType.runsOn_star {c : Char} (h : A.StartsType c) : runsOn "*" c = false := by
  rcases h with h | h
  · exact A.runsOn_inWord "*" (by rw [inWord, h, Bool.true_or])
  · have hall : ['[', '*', '<'].all (runsOn "*" · = false) := by decide +kernel
    exact of_decide_eq_true (List.all_eq_true.1 hall c h)

theorem Alphabet.IsWord.startsWith {s : List Char} (h : A.IsWord s) : StartsWith (A.isLetter · = true) s := by
  obtain ⟨c, rest, hs, hc, -⟩ := h
  exact ⟨c, rest, hs, hc⟩

theorem listTokens_singleton (sep : String) (item : List TypeToken) : listTokens sep [item] = item := by
  simp [listTokens]

theorem listTokens_cons_cons (sep : String) (item item' : List TypeToken) (more : List (List TypeToken)) :
    listTokens sep (item :: item' :: more) = item ++ symbol sep :: listTokens sep (item' :: more) := by
  simp [listTokens]

/-- Parts that are written one after the other, with a symbol and a blank between them. -/
theorem lexes_list {sep : String} (hsep : sep ∈ separators) {texts : List String}
    {items : List (List TypeToken)} (h : List.Forall₂ (fun text ts => A.Lexes text.toList ts) texts items) :
    A.Lexes ((sep ++ " ").intercalate texts).toList (listTokens sep items) := by
  induction h with
  | nil => exact Lexes.nil
  | cons hx hrest ih =>
    cases hrest with
    | nil => rwa [String.intercalate_singleton, listTokens_singleton]
    | cons hx' hrest =>
      have hrest := hx.before hsep ih.blank
      rw [String.intercalate_cons_cons, listTokens_cons_cons, String.toList_append, String.toList_append,
        String.toList_append, List.append_assoc, List.append_assoc]
      exact hrest

theorem lexes_enclosed (left sep right : String) (hleft : left ∈ separators) (hsep : sep ∈ separators)
    (hright : right ∈ separators) {texts : List String} {items : List (List TypeToken)}
    (h : List.Forall₂ (fun text ts => A.Lexes text.toList ts) texts items) {t : List Char}
    {ts : List TypeToken} (ht : A.Lexes t ts) :
    A.Lexes (left.toList ++ (((sep ++ " ").intercalate texts).toList ++ (right.toList ++ t)))
      (enclosed left sep right items ++ ts) := by
  rw [enclosed, List.cons_append, List.append_assoc]
  exact .separator hleft ((lexes_list hsep h).before hright ht)

theorem lexes_results {texts : List String} {items : List (List TypeToken)}
    (h : List.Forall₂ (fun text ts => A.Lexes text.toList ts) texts items) :
    A.Lexes (match texts with
      | [] => ""
      | [result] => " " ++ result
      | _ => " (" ++ ", ".intercalate texts ++ ")").toList (resultTokens items) := by
  have henclosed := (lexes_enclosed "(" "," ")" (by decide) (by decide) (by decide) h .nil).blank
  cases h with
  | nil => exact .nil
  | cons hx hrest =>
    cases hrest with
    | nil =>
      change A.Lexes (" " ++ _).toList _
      rw [String.toList_append]
      exact hx.blank
    | cons hx' hrest =>
      have hleft : " (".toList = ' ' :: "(".toList := by decide
      simp only [List.append_nil] at henclosed
      simp only [String.toList_append, List.append_assoc, hleft]
      exact henclosed

theorem lexes_func {params results : List String} {paramItems resultItems : List (List TypeToken)}
    (hparams : List.Forall₂ (fun text ts => A.Lexes text.toList ts) params paramItems)
    (hresults : List.Forall₂ (fun text ts => A.Lexes text.toList ts) results resultItems) :
    A.Lexes (spellFunc params results).toList
      (enclosed "(" "," ")" paramItems ++ resultTokens resultItems) := by
  have h := lexes_enclosed "(" "," ")" (by decide) (by decide) (by decide) hparams (lexes_results hresults)
  unfold spellFunc
  simp only [String.toList_append, List.append_assoc]
  exact h

section Names

theorem Alphabet.inWord_dot (A : Alphabet) : A.inWord '.' = false := A.inWord_ascii (by decide)

theorem Alphabet.IsWord.ne_dot {s : List Char} (h : A.IsWord s) : ∀ c ∈ s, c ≠ '.' := by
  intro c hc hdot
  have hword := h.inWord A c hc
  rw [hdot, A.inWord_dot] at hword
  cases hword

theorem nameTokens_word {name : String} (h : A.IsWord name.toList) : nameTokens name = [word name] := by
  have hdrop : name.toList.dropWhile (· ≠ '.') = [] := by
    simpa using h.ne_dot
  rw [nameTokens, hdrop]

theorem nameTokens_dotted {lead : String} (h : A.IsWord lead.toList) (rest : String) :
    nameTokens (lead ++ "." ++ rest) = [word lead, symbol ".", word rest] := by
  have htext : (lead ++ "." ++ rest).toList = lead.toList ++ '.' :: rest.toList := by
    simp [String.toList_append]
  have hlead : ∀ c ∈ lead.toList, decide (c ≠ '.') = true := by simpa using h.ne_dot
  have hdrop : (lead ++ "." ++ rest).toList.dropWhile (· ≠ '.') = '.' :: rest.toList := by
    rw [htext, List.dropWhile_append_of_pos hlead]
    rfl
  have htake : (lead ++ "." ++ rest).toList.takeWhile (· ≠ '.') = lead.toList := by
    rw [htext, List.takeWhile_append_of_pos hlead]
    simp
  rw [nameTokens, hdrop]
  simp only [htake, String.ofList_toList]

theorem Alphabet.IsTypeName.lexes {name : String} (h : A.IsTypeName name) :
    A.Lexes name.toList (nameTokens name) ∧ StartsWith (A.isLetter · = true) name.toList := by
  rcases h with h | ⟨lead, rest, rfl, hlead, hrest⟩
  · rw [nameTokens_word h.1]
    exact ⟨.word h.1, h.1.startsWith⟩
  · rw [nameTokens_dotted hlead.1]
    have hdot : StartsWith (runsOn "." · = false) rest.toList :=
      hrest.1.startsWith.imp fun c hc => A.runsOn_inWord "." (by rw [Alphabet.inWord, hc, Bool.true_or])
    have hdotted : A.Lexes (".".toList ++ rest.toList) [symbol ".", word rest] :=
      .symbol (by decide) (.word hrest.1) hdot
    rw [String.append_assoc, String.toList_append, String.toList_append]
    exact ⟨(Lexes.word hlead.1).append hdotted (startsWith_symbol (by decide) _),
      hlead.1.startsWith.append _⟩

theorem Alphabet.isIdentifier_of_ascii {name : String} (h : Alphabet.ascii.IsIdentifier name)
    (hascii : name.toList.all (·.toNat < 128)) : A.IsIdentifier name :=
  ⟨A.isWord_of_ascii h.1 hascii, h.2⟩

/-- A basic type is named like a declared one. -/
theorem BasicKind.isTypeName {kind : BasicKind} (h : kind.isTyped = true) : A.IsTypeName kind.name := by
  have hident {name : String} (h : Alphabet.ascii.IsIdentifier name ∧ name.toList.all (·.toNat < 128)) :
      A.IsIdentifier name := Alphabet.isIdentifier_of_ascii h.1 h.2
  cases kind with
  | untyped _ | invalid => cases h
  | unsafePointer => exact .inr ⟨"unsafe", "Pointer", rfl, hident (by decide), hident (by decide)⟩
  | integer bits sign => exact .inl (hident (by cases bits <;> cases sign <;> decide))
  | float size | complex size => exact .inl (hident (by cases size <;> decide))
  | bool | byte | rune | uintptr | string => exact .inl (hident (by decide))

end Names

/-- A text that splits into the tokens of a type. -/
structure LexesAs (A : Alphabet) (v : Viewpoint) (ty : Ty) (text : String) : Prop where
  lexes : A.Lexes text.toList (ty.tokens v)
  starts : StartsWith A.StartsType text.toList

theorem forall₂_lexes {α : Type} {f : α → List TypeToken} {r : α → String → Prop} {xs : List α}
    {texts : List String} (h : List.Forall₂ r xs texts)
    (hf : ∀ x ∈ xs, ∀ text, r x text → A.Lexes text.toList (f x)) :
    List.Forall₂ (fun text ts => A.Lexes text.toList ts) texts (xs.map f) := by
  induction h with
  | nil => exact .nil
  | cons hx _ ih =>
    obtain ⟨hfirst, hrest⟩ := List.forall_mem_cons.1 hf
    exact .cons (hfirst _ hx) (ih hrest)

theorem isWord_keyword {name : String} (h : name ∈ keywords) : A.IsWord name.toList := by
  have hall : ∀ name ∈ keywords, Alphabet.ascii.IsWord name.toList ∧ name.toList.all (·.toNat < 128) := by
    decide +kernel
  exact A.isWord_of_ascii (hall name h).1 (hall name h).2

theorem startsWith_blank (t : List Char) : StartsWith (A.inWord · = false) (' ' :: t) :=
  ⟨' ', t, rfl, A.inWord_blank (.inl rfl)⟩

namespace LexesAs

variable {ty elem key value : Ty} {text keyText valueText : String} {t : List Char} {ts : List TypeToken}

/-- A type that is written with a keyword first. -/
theorem of_keyword (name : String) (hname : name ∈ keywords) (htext : text.toList = name.toList ++ t)
    (htokens : ty.tokens v = word name :: ts) (h : A.Lexes t ts)
    (ht : StartsWith (A.inWord · = false) t) : LexesAs A v ty text where
  lexes := by
    rw [htext, htokens]
    exact (Lexes.word (isWord_keyword hname)).append h ht
  starts := by
    rw [htext]
    exact ((isWord_keyword hname).startsWith.append t).imp fun _ => .inl

/-- A type that is written with a bracket first. -/
theorem of_bracket (htext : text.toList = "[".toList ++ t) (htokens : ty.tokens v = symbol "[" :: ts)
    (h : A.Lexes t ts) : LexesAs A v ty text where
  lexes := by
    rw [htext, htokens]
    exact .separator (by decide) h
  starts := by
    rw [htext]
    exact ⟨'[', t, rfl, .inr (by decide)⟩

theorem chan {dir : ChanDir} (h : LexesAs A v elem text) :
    LexesAs A v (.chan dir elem) (spellChan dir elem text) := by
  cases dir with
  | both =>
    cases hrecv : elem.isReceiveOnly with
    | true =>
      have htext : (spellChan .both elem text).toList =
          "chan".toList ++ ' ' :: ("(".toList ++ (text.toList ++ (")".toList ++ []))) := by
        simp [spellChan, hrecv, ChanDir.spelling]
      exact of_keyword "chan" (by decide) htext (by rw [Ty.tokens, hrecv]; rfl)
        (.blank (.separator (by decide) (h.lexes.before (by decide) .nil))) (startsWith_blank _)
    | false =>
      have htext : (spellChan .both elem text).toList = "chan".toList ++ ' ' :: text.toList := by
        simp [spellChan, hrecv, ChanDir.spelling]
      exact of_keyword "chan" (by decide) htext (by rw [Ty.tokens, hrecv]; rfl) h.lexes.blank
        (startsWith_blank _)
  | send =>
    have htext : (spellChan .send elem text).toList =
        "chan".toList ++ ("<-".toList ++ ' ' :: text.toList) := by
      simp [spellChan, ChanDir.spelling]
    exact of_keyword "chan" (by decide) htext (by rw [Ty.tokens]; rfl)
      (.symbol (by decide) h.lexes.blank ⟨' ', _, rfl, runsOn_blank "<-"⟩) (startsWith_symbol (by decide) _)
  | recv =>
    have htext : (spellChan .recv elem text).toList =
        "<-".toList ++ ("chan".toList ++ ' ' :: text.toList) := by
      simp [spellChan, ChanDir.spelling]
    have hchan : A.IsWord "chan".toList := isWord_keyword (by decide)
    have hword := (Lexes.word hchan).append h.lexes.blank
      (startsWith_blank _)
    constructor
    · rw [htext, Ty.tokens]
      refine .symbol (by decide) hword ⟨'c', _, rfl, A.runsOn_inWord "<-" (A.inWord_ascii (by decide))⟩
    · rw [htext]
      exact ⟨'<', _, rfl, .inr (by decide)⟩

theorem slice (h : LexesAs A v elem text) : LexesAs A v (.slice elem) ("[]" ++ text) := by
  have htext : ("[]" ++ text).toList = "[".toList ++ ("]".toList ++ text.toList) := by simp
  exact of_bracket htext (by rw [Ty.tokens]) (.separator (by decide) h.lexes)

theorem array (len : Nat) (h : LexesAs A v elem text) :
    LexesAs A v (.array len elem) ("[" ++ toString len ++ "]" ++ text) := by
  have htext : ("[" ++ toString len ++ "]" ++ text).toList =
      "[".toList ++ ((toString len).toList ++ ("]".toList ++ text.toList)) := by simp
  refine of_bracket htext (by rw [Ty.tokens]) (.number (.separator (by decide) h.lexes) ?_)
  exact ⟨']', _, rfl, A.inWord_ascii (by decide), by decide⟩

theorem map (hkey : LexesAs A v key keyText) (hvalue : LexesAs A v value valueText) :
    LexesAs A v (.map key value) ("map[" ++ keyText ++ "]" ++ valueText) := by
  have htext : ("map[" ++ keyText ++ "]" ++ valueText).toList =
      "map".toList ++ ("[".toList ++ (keyText.toList ++ ("]".toList ++ valueText.toList))) := by simp
  exact of_keyword "map" (by decide) htext (by rw [Ty.tokens])
    (.separator (by decide) (hkey.lexes.before (by decide) hvalue.lexes)) (startsWith_symbol (by decide) _)

theorem pointer (h : LexesAs A v elem text) : LexesAs A v (.pointer elem) ("*" ++ text) where
  lexes := by
    rw [String.toList_append, Ty.tokens]
    exact .symbol (by decide) h.lexes (h.starts.imp fun _ hc => hc.runsOn_star)
  starts := ⟨'*', text.toList, by simp, .inr (by decide)⟩

/-- A parameter that is written by its elements starts with dots instead of brackets. -/
theorem item {p : Bool × Ty} (h : ∀ t, (Ty.ofItem p).spell v = .ok t → LexesAs A v (Ty.ofItem p) t)
    (hspell : p.2.spell v = .ok text) :
    A.Lexes (if p.1 then "..." ++ text else text).toList (itemTokens v p) := by
  obtain ⟨byElements, ty⟩ := p
  cases byElements with
  | false => exact (h text hspell).lexes
  | true =>
    have hslice : (Ty.slice ty).spell v = .ok ("[]" ++ text) := by
      rw [Ty.spell, show ty.spell v = .ok text from hspell]
      rfl
    have hlexes := (h _ hslice).lexes
    rw [show ("[]" ++ text).toList = "[".toList ++ ("]".toList ++ text.toList) by simp] at hlexes
    have helems : A.Lexes text.toList (ty.tokens v) :=
      .of_separator (by decide) (.of_separator (by decide) hlexes)
    change A.Lexes ("..." ++ text).toList (symbol "..." :: ty.tokens v)
    rw [String.toList_append]
    exact .separator (by decide) helems

/-- A method is written like a function type, with its name for the keyword. -/
theorem method {m : Method} (hname : A.IsIdentifier m.name)
    (h : ∀ t, (Ty.func m.signature).spell v = .ok t → LexesAs A v (.func m.signature) t)
    (hspell : m.signature.spell v = .ok text) : A.Lexes (m.name ++ text).toList (m.tokens v) := by
  have hfunc : (Ty.func m.signature).spell v = .ok ("func" ++ text) := by rw [Ty.spell, hspell]; rfl
  have hlexes := (h _ hfunc).lexes
  have hparen : StartsWith (A.inWord · = false) text.toList := by
    obtain ⟨name, params, results, variadic⟩ := m
    obtain ⟨ps, -, hspell⟩ := bind_eq_ok hspell
    obtain ⟨rs, -, hspell⟩ := bind_eq_ok hspell
    cases hspell
    exact ⟨'(', _, by simp only [spellFunc, String.toList_append]; rfl, A.inWord_ascii (by decide)⟩
  rw [String.toList_append, Ty.tokens] at hlexes
  have hsignature := Lexes.of_word (isWord_keyword (by decide)) hparen hlexes
  rw [String.toList_append]
  exact (Lexes.word hname.1).append hsignature hparen

theorem field {f : Field} (hname : f.embedded = false → A.IsIdentifier f.name) (h : LexesAs A v f.ty text) :
    A.Lexes (if f.embedded then text else f.name ++ " " ++ text).toList (f.tokens v) := by
  unfold Field.tokens
  cases hembedded : f.embedded with
  | true => exact h.lexes
  | false =>
    have htext : (f.name ++ " " ++ text).toList = f.name.toList ++ ' ' :: text.toList := by simp
    change A.Lexes (f.name ++ " " ++ text).toList _
    rw [htext]
    exact (Lexes.word (hname hembedded).1).append h.lexes.blank (startsWith_blank _)

/-- Methods or fields in braces. -/
theorem members (name : String) (hname : name ∈ keywords) {texts : List String}
    {items : List (List TypeToken)}
    (h : List.Forall₂ (fun text ts => A.Lexes text.toList ts) texts items)
    (htext : text = name ++ "\x7b" ++ "; ".intercalate texts ++ "\x7d")
    (htokens : ty.tokens v = word name :: enclosed "\x7b" ";" "\x7d" items) : LexesAs A v ty text := by
  have hinside := lexes_enclosed "\x7b" ";" "\x7d" (by decide) (by decide) (by decide) h .nil
  simp only [List.append_nil] at hinside
  refine of_keyword name hname ?_ htokens hinside (startsWith_symbol (by decide) _)
  rw [htext]
  simp only [String.toList_append, List.append_assoc]
  rfl

end LexesAs

/-- Types that can be named are written as their tokens tell. -/
theorem Ty.WellFormed.lexes (hnames : ∀ decl name, v.spellDecl decl = .ok name → A.IsTypeName name)
    {ty : Ty} (h : ty.WellFormed A) {text : String} (hspell : ty.spell v = .ok text) :
    LexesAs A v ty text := by
  induction h generalizing text with
  | basic hkind =>
    cases hspell
    obtain ⟨hlexes, hstarts⟩ := (BasicKind.isTypeName hkind).lexes
    exact ⟨hlexes, hstarts.imp fun _ => .inl⟩
  | @func params results variadic _ _ _ ihparams ihresults =>
    obtain ⟨t, ht, hspell⟩ := bind_eq_ok hspell
    cases hspell
    obtain ⟨ptexts, hparams, ht⟩ := bind_eq_ok ht
    obtain ⟨rtexts, hresults, ht⟩ := bind_eq_ok ht
    cases ht
    have hparams := forall₂_spellParams hparams
    have hitems := forall₂_lexes (A := A) (f := itemTokens v) hparams fun p hp text hp' => by
      obtain ⟨t, ht, rfl⟩ := hp'
      have hmem : Ty.ofItem p ∈ params :=
        map_ofItem_paramItems variadic params ▸ List.mem_map_of_mem hp
      exact LexesAs.item (fun t => ihparams _ hmem) ht
    have hresults := forall₂_lexes (f := Ty.tokens v) (forall₂_spellTypes hresults) fun ty hty text htext =>
      (ihresults ty hty htext).lexes
    rw [← paramTokens_eq_map] at hitems
    rw [← tyTokens_eq_map] at hresults
    exact .of_keyword "func" (by decide) (String.toList_append ..) (by rw [Ty.tokens, Signature.tokens])
      (lexes_func hitems hresults)
      ⟨'(', _, by simp only [spellFunc, String.toList_append]; rfl, A.inWord_ascii (by decide)⟩
  | interface hidents _ ih =>
    obtain ⟨texts, htexts, hspell⟩ := bind_eq_ok hspell
    cases hspell
    have htexts := forall₂_spellMethods htexts
    have hmethods := forall₂_lexes (f := Method.tokens v) htexts fun m hm text htext => by
      obtain ⟨t, ht, rfl⟩ := htext
      exact LexesAs.method (hidents m hm) (fun t => ih m hm) ht
    rw [← methodTokens_eq_map] at hmethods
    exact .members "interface" (by decide) hmethods rfl (by rw [Ty.tokens])
  | struct hfields _ ih =>
    obtain ⟨_, -, hspell⟩ := bind_eq_ok hspell
    obtain ⟨texts, htexts, hspell⟩ := bind_eq_ok hspell
    cases hspell
    have hlexes := forall₂_lexes (f := Field.tokens v) (forall₂_spellFields htexts) fun f hf text htext => by
      obtain ⟨t, ht, rfl⟩ := htext
      exact LexesAs.field (fun hembedded => by simpa [hembedded] using hfields f hf) (ih f hf ht)
    rw [← fieldTokens_eq_map] at hlexes
    exact .members "struct" (by decide) hlexes rfl (by rw [Ty.tokens])
  | map _ _ ihkey ihvalue =>
    obtain ⟨keyText, hkey, hspell⟩ := bind_eq_ok hspell
    obtain ⟨valueText, hvalue, hspell⟩ := bind_eq_ok hspell
    cases hspell
    exact (ihkey hkey).map (ihvalue hvalue)
  | @named decl =>
    obtain ⟨hlexes, hstarts⟩ := (hnames decl text hspell).lexes
    refine ⟨?_, hstarts.imp fun _ => .inl⟩
    have hspell : v.spellDecl decl = .ok text := hspell
    rwa [Ty.tokens, Viewpoint.declTokens, hspell]
  | chan _ ih =>
    obtain ⟨t, ht, hspell⟩ := bind_eq_ok hspell
    cases hspell
    exact (ih ht).chan
  | slice _ ih =>
    obtain ⟨t, ht, hspell⟩ := bind_eq_ok hspell
    cases hspell
    exact (ih ht).slice
  | @array len _ _ ih =>
    obtain ⟨t, ht, hspell⟩ := bind_eq_ok hspell
    cases hspell
    exact (ih ht).array len
  | pointer _ ih =>
    obtain ⟨t, ht, hspell⟩ := bind_eq_ok hspell
    cases hspell
    exact (ih ht).pointer

end LiteralFill
