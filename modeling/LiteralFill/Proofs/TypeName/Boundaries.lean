import LiteralFill.Proofs.TypeName.Lexed

namespace LiteralFill

open TypeToken (word symbol number)

/-- The names of declarations are told apart, also from those of the basic types. -/
structure Viewpoint.NamesApart (v : Viewpoint) (A : Alphabet) : Prop where
  isTypeName (decl : Nat) (name : String) : v.spellDecl decl = .ok name → A.IsTypeName name
  injective (decl decl' : Nat) (name : String) :
    v.spellDecl decl = .ok name → v.spellDecl decl' = .ok name → decl = decl'
  notBasic (decl : Nat) (kind : BasicKind) : v.spellDecl decl ≠ .ok kind.name

/-- What the first token of a type tells of it. -/
inductive Opening where
  | name | chan | func | interface | map | struct | arrow | bracket | star
  deriving DecidableEq

def TypeToken.opening? : TypeToken → Option Opening
  | .number _ => some .name
  | .lexeme (.word "chan") => some .chan
  | .lexeme (.word "func") => some .func
  | .lexeme (.word "interface") => some .interface
  | .lexeme (.word "map") => some .map
  | .lexeme (.word "struct") => some .struct
  | .lexeme (.word _) => some .name
  | .lexeme (.symbol "<-") => some .arrow
  | .lexeme (.symbol "[") => some .bracket
  | .lexeme (.symbol "*") => some .star
  | .lexeme (.symbol _) => none

def Ty.opening : Ty → Opening
  | .basic _ | .named _ | .tuple _ => .name
  | .chan .recv _ => .arrow
  | .chan _ _ => .chan
  | .func _ => .func
  | .slice _ | .array _ _ => .bracket
  | .interface _ => .interface
  | .map _ _ => .map
  | .struct _ => .struct
  | .pointer _ => .star

/-- What may follow a type. -/
def typeClosers : List TypeToken := [symbol ",", symbol ")", symbol "]", symbol ";", symbol "\x7d"]

def Closes (ts : List TypeToken) : Prop := ∀ t ∈ ts.head?, t ∈ typeClosers

def Opens (ts : List TypeToken) : Prop := ∃ t rest, ts = t :: rest ∧ t ∉ typeClosers

theorem opening?_word {name : String} (h : name ∉ keywords) : (word name).opening? = some .name := by
  have hne {k : String} (hk : k ∈ keywords) : name ≠ k := fun heq => h (heq ▸ hk)
  unfold TypeToken.opening?
  split
  · rfl
  · next heq => cases heq; exact absurd rfl (hne (by decide))
  · next heq => cases heq; exact absurd rfl (hne (by decide))
  · next heq => cases heq; exact absurd rfl (hne (by decide))
  · next heq => cases heq; exact absurd rfl (hne (by decide))
  · next heq => cases heq; exact absurd rfl (hne (by decide))
  · rfl
  all_goals next heq => cases heq

theorem opening?_of_mem_typeClosers {t : TypeToken} (h : t ∈ typeClosers) : t.opening? = none := by
  revert h; revert t; decide

theorem Opens.append {ts : List TypeToken} (h : Opens ts) (r : List TypeToken) : Opens (ts ++ r) := by
  obtain ⟨t, rest, rfl, ht⟩ := h
  exact ⟨t, rest ++ r, rfl, ht⟩

theorem Opens.not_closes {ts : List TypeToken} (h : Opens ts) : ¬Closes ts := by
  obtain ⟨t, rest, rfl, ht⟩ := h
  exact fun hclose => ht (hclose t rfl)

theorem closes_cons {op : String} (h : symbol op ∈ typeClosers) (r : List TypeToken) :
    Closes (symbol op :: r) := by
  rintro t ⟨⟩
  exact h

section Lists

variable {α β : Type} {f : α → List TypeToken} {g : α → β}

/-- Before what may follow, `x` and `y` are written alike only if they look alike. -/
def ReadAlike (f : α → List TypeToken) (g : α → β) (x y : α) : Prop :=
  ∀ r r', Closes r → Closes r' → f x ++ r = f y ++ r' → g x = g y ∧ r = r'

/-- What follows the first of the items in a list that `right` ends. -/
def afterItem (sep right : String) (r : List TypeToken) : List (List TypeToken) → List TypeToken
  | [] => symbol right :: r
  | items => symbol sep :: (listTokens sep items ++ symbol right :: r)

theorem listTokens_cons_append (sep right : String) (item : List TypeToken) (items : List (List TypeToken))
    (r : List TypeToken) : listTokens sep (item :: items) ++ symbol right :: r =
      item ++ afterItem sep right r items := by
  cases items with
  | nil => rw [listTokens_singleton, afterItem]
  | cons item' more => rw [listTokens_cons_cons, List.append_assoc, List.cons_append, afterItem]; exact nofun

theorem closes_afterItem {sep right : String} (hsep : symbol sep ∈ typeClosers)
    (hright : symbol right ∈ typeClosers) (r : List TypeToken) (items : List (List TypeToken)) :
    Closes (afterItem sep right r items) := by
  cases items with
  | nil => exact closes_cons hright r
  | cons item more => exact closes_cons hsep _

/-- A list is read item by item. -/
theorem listTokens_unique {sep right : String} (hsep : symbol sep ∈ typeClosers)
    (hright : symbol right ∈ typeClosers) (hne : sep ≠ right) {xs ys : List α}
    (hxs : ∀ x ∈ xs, Opens (f x)) (hys : ∀ y ∈ ys, Opens (f y))
    (h : ∀ x ∈ xs, ∀ y ∈ ys, ReadAlike f g x y) {r r' : List TypeToken}
    (heq : listTokens sep (xs.map f) ++ symbol right :: r = listTokens sep (ys.map f) ++ symbol right :: r') :
    xs.map g = ys.map g ∧ r = r' := by
  induction xs generalizing ys with
  | nil =>
    cases ys with
    | nil => exact ⟨rfl, (List.cons.inj heq).2⟩
    | cons y more =>
      rw [List.map_cons, listTokens_cons_append] at heq
      have hopens := (hys y List.mem_cons_self).append (afterItem sep right r' (more.map f))
      exact absurd (closes_cons hright r) (heq ▸ hopens).not_closes
  | cons x rest ih =>
    cases ys with
    | nil =>
      rw [List.map_cons, listTokens_cons_append] at heq
      have hopens := (hxs x List.mem_cons_self).append (afterItem sep right r (rest.map f))
      exact absurd (closes_cons hright r') (heq ▸ hopens).not_closes
    | cons y more =>
      rw [List.map_cons, List.map_cons, listTokens_cons_append, listTokens_cons_append] at heq
      obtain ⟨hxy, hafter⟩ := h x List.mem_cons_self y List.mem_cons_self _ _
        (closes_afterItem hsep hright r _) (closes_afterItem hsep hright r' _) heq
      have hrest := List.forall_mem_cons.1 hxs
      have hmore := List.forall_mem_cons.1 hys
      have hnext := fun x hx y hy => h x (List.mem_cons_of_mem _ hx) y (List.mem_cons_of_mem _ hy)
      rw [List.map_cons, List.map_cons, hxy]
      cases rest with
      | nil =>
        cases more with
        | nil => exact ⟨rfl, (List.cons.inj hafter).2⟩
        | cons y' more =>
          cases (List.cons.inj hafter).1
          exact absurd rfl hne
      | cons x' rest =>
        cases more with
        | nil =>
          cases (List.cons.inj hafter).1
          exact absurd rfl hne
        | cons y' more =>
          obtain ⟨hrest, hr⟩ := ih hrest.2 hmore.2 hnext (List.cons.inj hafter).2
          exact ⟨congrArg _ hrest, hr⟩

theorem enclosed_unique {left sep right : String} (hsep : symbol sep ∈ typeClosers)
    (hright : symbol right ∈ typeClosers) (hne : sep ≠ right) {xs ys : List α}
    (hxs : ∀ x ∈ xs, Opens (f x)) (hys : ∀ y ∈ ys, Opens (f y))
    (h : ∀ x ∈ xs, ∀ y ∈ ys, ReadAlike f g x y) {r r' : List TypeToken}
    (heq : enclosed left sep right (xs.map f) ++ r = enclosed left sep right (ys.map f) ++ r') :
    xs.map g = ys.map g ∧ r = r' := by
  simp only [enclosed, List.cons_append, List.append_assoc, List.nil_append] at heq
  exact listTokens_unique hsep hright hne hxs hys h (List.cons.inj heq).2

end Lists

variable {A : Alphabet} {v : Viewpoint}

theorem opens_word (name : String) (rest : List TypeToken) : Opens (word name :: rest) :=
  ⟨_, rest, rfl, by simp [typeClosers]⟩

/-- The text of a name can be put together from its tokens. -/
theorem nameTokens_cases (name : String) : nameTokens name = [word name] ∨
    ∃ lead rest, nameTokens name = [word lead, symbol ".", word rest] ∧ name = lead ++ "." ++ rest := by
  rw [nameTokens]
  cases hdrop : name.toList.dropWhile (· ≠ '.') with
  | nil => exact .inl rfl
  | cons c rest =>
    refine .inr ⟨_, _, rfl, String.toList_inj.1 ?_⟩
    have hdot : c = '.' := by
      have hc := List.head?_dropWhile_not (fun c => decide (c ≠ '.')) name.toList
      rw [hdrop] at hc
      simpa using hc
    have htext := List.takeWhile_append_dropWhile (p := fun c => decide (c ≠ '.')) (l := name.toList)
    rw [hdrop, hdot] at htext
    simpa [String.toList_append] using htext.symm

theorem not_closes_dot (r : List TypeToken) : ¬Closes (symbol "." :: r) := fun h =>
  absurd (h _ rfl) (by decide)

theorem nameTokens_unique {name name' : String} {r r' : List TypeToken} (hr : Closes r) (hr' : Closes r')
    (h : nameTokens name ++ r = nameTokens name' ++ r') : name = name' ∧ r = r' := by
  obtain hname | ⟨lead, rest, hname, htext⟩ := nameTokens_cases name
  · obtain hname' | ⟨lead', rest', hname', htext'⟩ := nameTokens_cases name'
    · rw [hname, hname'] at h
      cases h
      exact ⟨rfl, rfl⟩
    · rw [hname, hname'] at h
      cases h
      exact absurd hr (not_closes_dot _)
  · obtain hname' | ⟨lead', rest', hname', htext'⟩ := nameTokens_cases name'
    · rw [hname, hname'] at h
      cases h
      exact absurd hr' (not_closes_dot _)
    · rw [hname, hname'] at h
      cases h
      exact ⟨htext.trans htext'.symm, rfl⟩

theorem Alphabet.IsTypeName.opening {name : String} (h : A.IsTypeName name) :
    ∃ t rest, nameTokens name = t :: rest ∧ t.opening? = some .name := by
  rcases h with h | ⟨lead, rest, rfl, hlead, -⟩
  · exact ⟨_, _, nameTokens_word h.1, opening?_word h.2⟩
  · exact ⟨_, _, nameTokens_dotted hlead.1 rest, opening?_word hlead.2⟩

/-- The first token of a type. -/
theorem Ty.WellFormed.opening (hv : v.NamesApart A) {ty : Ty} (h : ty.WellFormed A) :
    ∃ t rest, ty.tokens v = t :: rest ∧ t.opening? = some ty.opening := by
  cases h with
  | basic hkind => exact (BasicKind.isTypeName (A := A) hkind).opening
  | @named decl =>
    rw [Ty.tokens, Viewpoint.declTokens]
    cases hname : v.spellDecl decl with
    | ok name => exact (hv.isTypeName decl name hname).opening
    | error e => exact ⟨_, _, rfl, rfl⟩
  | @chan dir elem _ =>
    rw [Ty.tokens]
    cases dir with
    | both => cases elem.isReceiveOnly <;> exact ⟨_, _, rfl, rfl⟩
    | send | recv => exact ⟨_, _, rfl, rfl⟩
  | func | slice | interface | array | map | struct | pointer =>
    rw [Ty.tokens]
    exact ⟨_, _, rfl, rfl⟩

theorem Ty.WellFormed.opens (hv : v.NamesApart A) {ty : Ty} (h : ty.WellFormed A) : Opens (ty.tokens v) := by
  obtain ⟨t, rest, htokens, ht⟩ := h.opening hv
  refine ⟨t, rest, htokens, fun hmem => ?_⟩
  rw [opening?_of_mem_typeClosers hmem] at ht
  cases ht

theorem opening_eq (hv : v.NamesApart A) {ty ty' : Ty} (h : ty.WellFormed A) (h' : ty'.WellFormed A)
    {r r' : List TypeToken} (heq : ty.tokens v ++ r = ty'.tokens v ++ r') : ty.opening = ty'.opening := by
  obtain ⟨t, rest, htokens, ht⟩ := h.opening hv
  obtain ⟨t', rest', htokens', ht'⟩ := h'.opening hv
  rw [htokens, htokens'] at heq
  obtain rfl : t = t' := (List.cons.inj heq).1
  exact Option.some.inj (ht.symm.trans ht')

/-- No type starts with such a symbol. -/
theorem Ty.WellFormed.ne_symbol (hv : v.NamesApart A) {ty : Ty} (h : ty.WellFormed A) {op : String}
    (hop : (symbol op).opening? = none) (r r' : List TypeToken) : symbol op :: r ≠ ty.tokens v ++ r' := by
  obtain ⟨t, rest, htokens, ht⟩ := h.opening hv
  rw [htokens]
  rintro ⟨⟩
  rw [hop] at ht
  cases ht

theorem toString_injective {n m : Nat} (h : toString n = toString m) : n = m :=
  Option.some.inj ((Text.digitsValue?_toString n).symm.trans (h ▸ Text.digitsValue?_toString m))

/-- The kinds that have a type. -/
def typedKinds : List BasicKind :=
  [.bool, .integer .bits8 .signed, .integer .bits16 .signed, .integer .bits32 .signed,
    .integer .bits64 .signed, .integer .native .signed, .integer .bits8 .unsigned,
    .integer .bits16 .unsigned, .integer .bits32 .unsigned, .integer .bits64 .unsigned,
    .integer .native .unsigned, .byte, .rune, .uintptr, .unsafePointer, .float .bits32, .float .bits64,
    .complex .bits32, .complex .bits64, .string]

theorem BasicKind.mem_typedKinds {kind : BasicKind} (h : kind.isTyped = true) : kind ∈ typedKinds := by
  cases kind with
  | untyped _ | invalid => cases h
  | integer bits sign => cases bits <;> cases sign <;> decide
  | float size | complex size => cases size <;> decide
  | bool | byte | rune | uintptr | unsafePointer | string => decide

theorem BasicKind.eq_of_name_eq {kind kind' : BasicKind} (h : kind.isTyped = true)
    (h' : kind'.isTyped = true) (hname : kind.name = kind'.name) : kind = kind' := by
  have hall : ∀ k ∈ typedKinds, ∀ k' ∈ typedKinds, k.name = k'.name → k = k' := by decide +kernel
  exact hall kind (mem_typedKinds h) kind' (mem_typedKinds h') hname

theorem declTokens_of_ok {decl : Nat} {name : String} (h : v.spellDecl decl = .ok name) :
    v.declTokens decl = nameTokens name := by
  rw [Viewpoint.declTokens, h]

theorem declTokens_of_error {decl : Nat} {e : SpellError} (h : v.spellDecl decl = .error e) :
    v.declTokens decl = [number (toString decl)] := by
  rw [Viewpoint.declTokens, h]

theorem nameTokens_ne_number (name digits : String) (r r' : List TypeToken) :
    nameTokens name ++ r ≠ number digits :: r' := by
  obtain h | ⟨lead, rest, h, -⟩ := nameTokens_cases name
  · rw [h]
    nofun
  · rw [h]
    nofun

theorem declTokens_unique (hv : v.NamesApart A) {decl decl' : Nat} {r r' : List TypeToken} (hr : Closes r)
    (hr' : Closes r') (h : v.declTokens decl ++ r = v.declTokens decl' ++ r') : decl = decl' ∧ r = r' := by
  cases hname : v.spellDecl decl with
  | ok name =>
    rw [declTokens_of_ok hname] at h
    cases hname' : v.spellDecl decl' with
    | ok name' =>
      rw [declTokens_of_ok hname'] at h
      obtain ⟨rfl, hrest⟩ := nameTokens_unique hr hr' h
      exact ⟨hv.injective decl decl' name hname hname', hrest⟩
    | error e =>
      rw [declTokens_of_error hname'] at h
      exact absurd h (nameTokens_ne_number name _ r r')
  | error e =>
    rw [declTokens_of_error hname] at h
    cases hname' : v.spellDecl decl' with
    | ok name' =>
      rw [declTokens_of_ok hname'] at h
      exact absurd h.symm (nameTokens_ne_number name' _ r' r)
    | error e' =>
      rw [declTokens_of_error hname'] at h
      obtain ⟨hnumber, hrest⟩ := List.cons.inj h
      exact ⟨toString_injective (TypeToken.number.inj hnumber), hrest⟩

theorem nameTokens_ne_declTokens (hv : v.NamesApart A) {kind : BasicKind} {decl : Nat}
    {r r' : List TypeToken} (hr : Closes r) (hr' : Closes r') :
    nameTokens kind.name ++ r ≠ v.declTokens decl ++ r' := by
  intro h
  cases hname : v.spellDecl decl with
  | ok name =>
    rw [declTokens_of_ok hname] at h
    exact hv.notBasic decl kind ((nameTokens_unique hr hr' h).1 ▸ hname)
  | error e =>
    rw [declTokens_of_error hname] at h
    exact nameTokens_ne_number kind.name _ r r' h

end LiteralFill
