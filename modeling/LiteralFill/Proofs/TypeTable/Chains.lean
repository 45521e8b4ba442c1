import LiteralFill.Proofs.TypeTable.NameChain

namespace LiteralFill.TypeTable

/-- From a declaration on, so many definitions that are names lead to one that is none. -/
inductive ChainEnds (t : TypeTable) : Nat → Nat → Ty → Prop
  | stop {decl : Nat} {ty : Ty} :
    t.definition? decl = some ty → ty.isNamed = false → ChainEnds t decl 0 ty
  | link {decl next links : Nat} {ty : Ty} :
    t.definition? decl = some (.named next) → ChainEnds t next links ty →
      ChainEnds t decl (links + 1) ty

/-- A chain of names ends after no more than so many links. -/
def EndsWithin (t : TypeTable) (n decl : Nat) : Prop := ∃ links ty, links ≤ n ∧ t.ChainEnds decl links ty

variable {t : TypeTable}

theorem ChainEnds.isNamed {decl links : Nat} {ty : Ty} (h : t.ChainEnds decl links ty) :
    ty.isNamed = false := by
  induction h with
  | stop _ hty => exact hty
  | link _ _ ih => exact ih

theorem ChainEnds.unique {decl links links' : Nat} {ty ty' : Ty} (h : t.ChainEnds decl links ty)
    (h' : t.ChainEnds decl links' ty') : links = links' ∧ ty = ty' := by
  induction h generalizing links' with
  | stop hd hty =>
    cases h' with
    | stop hd' _ => exact ⟨rfl, Option.some.inj (hd.symm.trans hd')⟩
    | link hd' _ =>
      obtain rfl := Option.some.inj (hd.symm.trans hd')
      cases hty
  | link hd _ ih =>
    cases h' with
    | stop hd' hty =>
      obtain rfl := Option.some.inj (hd.symm.trans hd')
      cases hty
    | link hd' h' =>
      obtain ⟨⟩ := Option.some.inj (hd.symm.trans hd')
      obtain ⟨rfl, rfl⟩ := ih h'
      exact ⟨rfl, rfl⟩

theorem ChainEnds.length_nameChain {decl links : Nat} {ty : Ty} (h : t.ChainEnds decl links ty)
    (n : Nat) : (t.nameChain n decl).length = min n links := by
  induction h generalizing n with
  | stop hd hty =>
    cases n with
    | zero => rfl
    | succ n => rw [nameChain_succ_of_isNamed_eq_false hd hty, Nat.min_zero, List.length_nil]
  | link hd _ ih =>
    cases n with
    | zero => rw [Nat.zero_min]; rfl
    | succ n => rw [nameChain_succ_of_named hd, List.length_cons, ih n, Nat.add_min_add_right]

/-- A search that meets fewer names than it may look at has come to the end of the chain. -/
theorem Closed.exists_chainEnds (h : t.Closed) {n decl : Nat} (hdecl : decl < t.size)
    (hn : (t.nameChain n decl).length < n) : ∃ links ty, links < n ∧ t.ChainEnds decl links ty := by
  induction n generalizing decl with
  | zero => omega
  | succ n ih =>
    cases hd : t.definition? decl with
    | none =>
      have := definition?_eq_none_iff.1 hd
      omega
    | some ty =>
      by_cases hty : ty.isNamed = true
      · obtain ⟨next, rfl⟩ := Ty.isNamed_iff.1 hty
        have hnext : next < t.size := hasRefs_named_iff.1 (h.definition hd)
        rw [nameChain_succ_of_named hd, List.length_cons] at hn
        obtain ⟨links, ty, hlinks, hends⟩ := ih hnext (by omega)
        exact ⟨links + 1, ty, by omega, .link hd hends⟩
      · exact ⟨0, ty, by omega, .stop hd (by simpa using hty)⟩

theorem Closed.length_nameChain_le_iff (h : t.Closed) {n decl : Nat} (hdecl : decl < t.size) :
    (t.nameChain (n + 1) decl).length ≤ n ↔ t.EndsWithin n decl := by
  constructor
  · intro hlength
    obtain ⟨links, ty, hlinks, hends⟩ := h.exists_chainEnds hdecl (Nat.lt_succ_of_le hlength)
    exact ⟨links, ty, Nat.le_of_lt_succ hlinks, hends⟩
  · rintro ⟨links, ty, hlinks, hends⟩
    rw [hends.length_nameChain]
    omega

/-- A valid table is closed, and each of its declarations comes to an end within `maxLinks` links. -/
theorem validate_eq_ok_iff : t.validate = .ok () ↔
    t.Closed ∧ ∀ decl < t.size, ∃ links ty, links ≤ maxLinks ∧ t.ChainEnds decl links ty := by
  have hchains : (∀ x ∈ t.decls.toList.zipIdx, t.chainError? x.2 x.1.name = none) ↔
      ∀ decl < t.size, (t.nameChain (maxLinks + 1) decl).length ≤ maxLinks := by
    constructor
    · intro h decl hdecl
      have hdecl : decl < t.decls.toList.length := by rwa [Array.length_toList]
      have hmem : (t.decls.toList[decl], decl) ∈ t.decls.toList.zipIdx :=
        List.mk_mem_zipIdx_iff_getElem?.2 (List.getElem?_eq_getElem hdecl)
      exact chainError?_eq_none_iff.1 (h _ hmem)
    · rintro h ⟨d, decl⟩ hmem
      have hdecl := List.snd_lt_of_mem_zipIdx hmem
      rw [Array.length_toList] at hdecl
      exact chainError?_eq_none_iff.2 (h decl hdecl)
  have hclosed : (∀ d ∈ t.decls.toList, t.refError? d.underlying = none) ↔ t.Closed := by
    simp only [refError?_eq_none_iff, Closed]
  rw [validate, elim_eq_ok_iff, error?, Option.orElse_eq_none, List.findSome?_eq_none_iff,
    List.findSome?_eq_none_iff, hclosed, hchains]
  exact and_congr_right fun hc => forall₂_congr fun decl hdecl => hc.length_nameChain_le_iff hdecl

/-- Following a name looks at the name, at each link and at the type behind them. -/
theorem ChainEnds.follow {decl links : Nat} {ty : Ty} (h : t.ChainEnds decl links ty) {node : Node}
    (hnode : node.ty = .named decl) (n : Nat) :
    (·.ty) <$> t.follow n node = if links + 1 < n then .ok ty else .error .endlessChain := by
  induction h generalizing node n with
  | @stop decl ty hd hty =>
    match n with
    | 0 | 1 => simp [TypeTable.follow, hnode, hd, Functor.map, Except.map]
    | n + 2 =>
      rw [TypeTable.follow]
      simp only [hnode, hd]
      rw [TypeTable.follow]
      cases ty with
      | named next => cases hty
      | _ => simp [Functor.map, Except.map]
  | @link decl next links ty hd _ ih =>
    cases n with
    | zero => simp [TypeTable.follow, Functor.map, Except.map]
    | succ n =>
      rw [TypeTable.follow]
      simp only [hnode, hd]
      rw [ih rfl]
      simp only [Nat.add_lt_add_iff_right]

theorem underlying_of_not_named {ty : Ty} (h : ty.isNamed = false) : t.underlying ty = .ok ty := by
  have hroot : (Node.root ty).ty.isNamed = false := h
  rw [underlying, underlyingNode_of_not_named t hroot]
  rfl

theorem ChainEnds.underlying {decl links : Nat} {ty : Ty} (h : t.ChainEnds decl links ty) :
    t.underlying (.named decl) = if links < maxLinks then .ok ty else .error .endlessChain := by
  have hroot : (Node.root (.named decl)).ty = .named decl := rfl
  rw [TypeTable.underlying, underlyingNode, h.follow hroot]
  simp only [Nat.add_lt_add_iff_right]

/-- A table whose first declaration is so many links away from `int`. -/
def chainTable (links : Nat) : TypeTable :=
  ⟨Array.ofFn fun i : Fin (links + 1) =>
    .predeclared "T" (if i.val < links then .named (i.val + 1) else .basic .int)⟩

theorem definition?_chainTable {links decl : Nat} (h : decl ≤ links) :
    (chainTable links).definition? decl =
      some (if decl < links then .named (decl + 1) else .basic .int) := by
  have hlt : decl < links + 1 := by omega
  simp [definition?, get?, chainTable, hlt, TypeDecl.predeclared]

theorem chainEnds_chainTable {links decl : Nat} (h : decl ≤ links) :
    (chainTable links).ChainEnds decl (links - decl) (.basic .int) := by
  induction hn : links - decl generalizing decl with
  | zero =>
    have hd : (chainTable links).definition? decl = some (.basic .int) := by
      rw [definition?_chainTable h, if_neg (by omega)]
    exact .stop hd rfl
  | succ n ih =>
    have hd : (chainTable links).definition? decl = some (.named (decl + 1)) := by
      rw [definition?_chainTable h, if_pos (by omega)]
    exact .link hd (ih (by omega) (by omega))

theorem closed_chainTable (links : Nat) : (chainTable links).Closed := by
  intro d hd
  obtain ⟨i, rfl⟩ := Array.mem_ofFn.1 (Array.mem_toList_iff.1 hd)
  simp only [TypeDecl.predeclared]
  split
  · rw [hasRefs_named_iff]
    simp only [size, chainTable, Array.size_ofFn]
    omega
  · intro decl hdecl
    cases hdecl

theorem validate_chainTable {links : Nat} (h : links ≤ maxLinks) :
    (chainTable links).validate = .ok () := by
  refine validate_eq_ok_iff.2 ⟨closed_chainTable links, fun decl hdecl => ?_⟩
  have hle : decl ≤ links := by
    simp only [size, chainTable, Array.size_ofFn] at hdecl
    omega
  exact ⟨links - decl, .basic .int, by omega, chainEnds_chainTable hle⟩

theorem validateType_chainTable (links : Nat) :
    (chainTable links).validateType (.named 0) = .ok () := by
  rw [validateType_eq_ok_iff, hasRefs_named_iff]
  simp [size, chainTable]

/-- In a valid table every type leads to one that is no name. It is found unless as many links lead to
it as validation lets through at most: a search that starts at the declaration itself has room for
one link more than one that starts at its name. -/
theorem underlying_of_validate {ty : Ty} (ht : t.validate = .ok ()) (hty : t.validateType ty = .ok ()) :
    (ty.isNamed = false ∧ t.underlying ty = .ok ty) ∨
      ∃ decl links target, ty = .named decl ∧ t.ChainEnds decl links target ∧
        target.isNamed = false ∧ links ≤ maxLinks ∧
        t.underlying ty = if links < maxLinks then .ok target else .error .endlessChain := by
  by_cases hnamed : ty.isNamed = true
  · obtain ⟨decl, rfl⟩ := Ty.isNamed_iff.1 hnamed
    have hdecl : decl < t.size := hasRefs_named_iff.1 (validateType_eq_ok_iff.1 hty)
    obtain ⟨links, target, hlinks, hends⟩ := (validate_eq_ok_iff.1 ht).2 decl hdecl
    exact .inr ⟨decl, links, target, rfl, hends, hends.isNamed, hlinks, hends.underlying⟩
  · have hnamed : ty.isNamed = false := by simpa using hnamed
    exact .inl ⟨hnamed, underlying_of_not_named hnamed⟩

/-- The longest chain that is followed to its end. -/
theorem underlying_of_validate_longest :
    (chainTable 1023).validate = .ok () ∧ (chainTable 1023).validateType (.named 0) = .ok () ∧
      (chainTable 1023).underlying (.named 0) = .ok (.basic .int) := by
  have ht : (chainTable 1023).validate = .ok () := validate_chainTable (by decide)
  have hty := validateType_chainTable 1023
  rcases underlying_of_validate ht hty with ⟨⟨⟩, -⟩ | ⟨decl, links, target, ⟨⟩, hends, -, -, h⟩
  obtain ⟨rfl, rfl⟩ := hends.unique (chainEnds_chainTable (Nat.zero_le 1023))
  exact ⟨ht, hty, h.trans (if_pos (by decide))⟩

/-- A chain of as many links as validation accepts, which is one too many when it is entered by name. -/
theorem underlying_maxLinks : (chainTable 1024).validate = .ok () ∧
    (chainTable 1024).validateType (.named 0) = .ok () ∧
      (chainTable 1024).underlying (.named 0) = .error .endlessChain := by
  refine ⟨validate_chainTable (by decide), validateType_chainTable 1024, ?_⟩
  rw [(chainEnds_chainTable (Nat.zero_le 1024)).underlying]
  exact if_neg (by decide)

end LiteralFill.TypeTable
