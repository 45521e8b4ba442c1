import LiteralFill.Proofs.Fill.Outermost
import LiteralFill.Proofs.TypeName.References
import LiteralFill.Proofs.TypeTable.Chains

namespace LiteralFill

variable {v : Viewpoint} {decl : Nat}

theorem TypeTable.HasRefs.nameOf_ne_dangling {ty : Ty} (h : v.table.HasRefs ty) :
    v.nameOf ty ≠ .error (.fault (.dangling decl)) := by
  intro hn
  obtain ⟨e, hspell, he⟩ := mapError_eq_error.1 hn
  cases e with
  | hidden name => cases he
  | dangling d =>
    cases he
    exact h.spell_ne_dangling hspell

theorem TypeTable.HasRefs.describe_ne_dangling {ty : Ty} (h : v.table.HasRefs ty) :
    v.describe ty ≠ .error (.fault (.dangling decl)) := by
  unfold Viewpoint.describe
  split
  · nofun
  · nofun
  · rename_i d hspell
    exact absurd hspell h.spell_ne_dangling

/-- An error among the entries is the error of a field's value. -/
theorem exists_of_bareEntries_eq_error {valueOf : Nat → Field → Attempt Expr} {entries : Entries}
    {i : Nat} {fields : List Field} {e : FillError}
    (h : (bareEntries v valueOf entries i fields).outcome = .error e) :
    ∃ j, ∃ f ∈ fields, (valueOf j f).outcome = .error e := by
  induction fields generalizing entries i with
  | nil => cases h
  | cons f rest ih =>
    have hrest {entries : Entries} {i : Nat}
        (h : (bareEntries v valueOf entries i rest).outcome = .error e) :
        ∃ j, ∃ g ∈ f :: rest, (valueOf j g).outcome = .error e := by
      obtain ⟨j, g, hg, hj⟩ := ih h
      exact ⟨j, g, List.mem_cons_of_mem f hg, hj⟩
    rw [bareEntries] at h
    split at h
    · exact hrest (Attempt.bind_pure_eq_error_iff.1 h)
    · split at h
      · rcases Attempt.bind_eq_error_iff.1 h with h | ⟨value?, -, h⟩
        · exact ⟨i, f, List.mem_cons_self, (Attempt.orOmit_eq_error_iff.1 h).1⟩
        · exact hrest (Attempt.bind_pure_eq_error_iff.1 h)
      · exact hrest h

/-- A struct literal asks for no missing declaration if neither its name nor its fields do. -/
theorem bareStructLiteral_ne_dangling {style : Style} {path : List Place} {place : Place}
    {entries : Entries} {fields : List Field} {valueOf : Nat → Field → Attempt Expr}
    (hname : v.table.HasRefs (style.decl?.elim (.struct fields) .named))
    (hvalue : ∀ i, ∀ f ∈ fields, (valueOf i f).outcome ≠ .error (.fault (.dangling decl))) :
    (bareLiteral style (structTypeAt v style · fields)
      (bareStructEntries v path place entries fields valueOf)).outcome ≠
        .error (.fault (.dangling decl)) := by
  intro h
  rcases bareLiteral_eq_error_iff.1 h with ⟨-, h⟩ | ⟨-, h⟩
  · exact hname.nameOf_ne_dangling (of_structTypeAt_eq_error h)
  · unfold bareStructEntries at h
    split at h
    · cases h
    · obtain ⟨i, f, hf, h⟩ := exists_of_bareEntries_eq_error h
      exact hvalue i f hf h

/-- The search for a zero value never leaves a closed table. -/
theorem bareZero_ne_dangling (ht : v.table.Closed) {depth : Nat} {path : List Place} {style : Style}
    {node : Node} (hstyle : ∀ d, style.decl? = some d → d < v.table.size)
    (hnode : v.table.HasRefs node.ty) :
    (bareZero v depth path style node).outcome ≠ .error (.fault (.dangling decl)) := by
  induction depth generalizing path style node with
  | zero => nofun
  | succ depth ih =>
    have hplain {path : List Place} {n : Node} {elided : Bool} (hn : v.table.HasRefs n.ty) :
        (bareZero v depth path ⟨none, elided, false⟩ n).outcome ≠
          .error (.fault (.dangling decl)) := ih nofun hn
    intro h
    rw [bareZero] at h
    cases hty : node.ty with
    | basic kind =>
      simp only [hty] at h
      cases eq_of_bareBasic_eq_error h
    | chan _ _ | func _ | slice _ | interface _ =>
      simp only [hty] at h
      cases h
    | array len elem =>
      simp only [hty] at h
      rw [hty, TypeTable.hasRefs_array_iff] at hnode
      rcases bareLiteral_eq_error_iff.1 h with ⟨-, h⟩ | ⟨-, h⟩
      · exact hnode.nameOf_ne_dangling (of_arrayTypeAt_eq_error h)
      · exact hplain hnode (Attempt.copies_eq_error_iff.1 h).2
    | map key value =>
      simp only [hty] at h
      rw [hty, TypeTable.hasRefs_map_iff] at hnode
      obtain ⟨hkey, hvalue⟩ := hnode
      rcases bareLiteral_eq_error_iff.1 h with ⟨-, h⟩ | ⟨-, h⟩
      · rcases of_mapTypeAt_eq_error h with h | h
        · exact hkey.nameOf_ne_dangling h
        · exact hvalue.nameOf_ne_dangling h
      · rcases bareMapEntry_eq_error_iff.1 h with h | ⟨k, -, h⟩
        · exact hplain hkey h
        · exact hplain hvalue h
    | struct fields =>
      simp only [hty] at h
      rw [hty] at hnode
      refine bareStructLiteral_ne_dangling ?_ (fun i f hf => ?_) h
      · cases hdecl : style.decl? with
        | none => exact hnode
        | some d => exact TypeTable.hasRefs_named_iff.2 (hstyle d hdecl)
      · exact hplain (TypeTable.hasRefs_struct_iff.1 hnode f hf)
    | named start =>
      simp only [hty] at h
      have hstart : start < v.table.size := by
        rwa [hty, TypeTable.hasRefs_named_iff] at hnode
      obtain ⟨hfault, htarget⟩ := ht.follow (n := TypeTable.maxLinks + 1) hnode
      rcases Attempt.bind_eq_error_iff.1 h with h | ⟨target, hreached, h⟩
      · obtain ⟨fault, h, ⟨⟩⟩ := mapError_eq_error.1 h
        exact hfault decl h
      · refine ih (fun d hd => ?_) (htarget target (mapError_eq_ok.1 hreached)) h
        dsimp only at hd
        split at hd
        · obtain rfl := Option.some.inj hd
          exact hstart
        · cases hd
    | pointer elem =>
      simp only [hty] at h
      rw [hty, TypeTable.hasRefs_pointer_iff] at hnode
      rcases Attempt.bind_eq_error_iff.1 h with h | ⟨target, -, h⟩
      · obtain ⟨fault, h, ⟨⟩⟩ := mapError_eq_error.1 h
        obtain ⟨rfl, hsize⟩ := ht.underlying_dangling_iff.1 h
        have := TypeTable.hasRefs_named_iff.1 hnode
        omega
      · split at h
        · refine ih ?_ hnode h
          exact hstyle
        · cases h
    | tuple elems =>
      simp only [hty, Attempt.outcome_ofExcept] at h
      rw [hty] at hnode
      rcases bind_eq_error h with h | ⟨name, -, h⟩
      · exact hnode.describe_ne_dangling h
      · cases h

theorem Entries.ofElement_ne_fault (fields : List Field) (i : Nat) (e : Expr) (fault : Fault) :
    Entries.ofElement fields i e ≠ .error (.fault fault) := by
  unfold ofElement
  split
  · nofun
  · nofun
  · split <;> nofun

theorem Entries.ofElements_ne_fault (fields : List Field) (elts : List Expr) (fault : Fault) :
    Entries.ofElements fields elts ≠ .error (.fault fault) := by
  intro h
  obtain ⟨x, -, hx⟩ := exists_of_mapM_eq_error h
  exact ofElement_ne_fault fields x.2 x.1 fault hx

section Fillable

variable {lit : Literal} {ty : Ty} {target : Node} {fields : List Field} {entries : Entries}

theorem Fillable.hasRefs_name (h : Fillable v lit ty target fields entries) :
    v.table.HasRefs (ty.decl?.elim (.struct fields) .named) := by
  rw [h.name_eq]
  exact TypeTable.validateType_eq_ok_iff.1 h.type_valid

theorem bareOutermost_ne_dangling (h : Fillable v lit ty target fields entries) (depth : Nat)
    (omitType : Bool) :
    (bareOutermost v depth ty omitType target fields entries).outcome ≠
      .error (.fault (.dangling decl)) := by
  have ht : v.table.Closed := (TypeTable.validate_eq_ok_iff.1 h.table_valid).1
  have hroot : v.table.HasRefs (Node.root ty).ty := TypeTable.validateType_eq_ok_iff.1 h.type_valid
  have htarget := (ht.follow hroot).2 target h.reaches
  rw [h.is_struct, TypeTable.hasRefs_struct_iff] at htarget
  exact bareStructLiteral_ne_dangling h.hasRefs_name fun i f hf =>
    bareZero_ne_dangling ht nofun (htarget f hf)

theorem Fillable.fill_ne_dangling (h : Fillable v lit ty target fields entries) (depth : Nat)
    (omitType : Bool) : fill depth v lit ty omitType ≠ .error (.fault (.dangling decl)) := by
  by_cases hlt : depth < ty.stepsToFields
  · rw [fill_of_lt_stepsToFields h hlt]
    nofun
  · obtain ⟨n, rfl⟩ : ∃ n, depth = n + ty.stepsToFields := ⟨depth - ty.stepsToFields, by omega⟩
    rw [fill_eq h]
    cases ha : (bareOutermost v n ty omitType target fields entries).outcome with
    | error e =>
      rintro ⟨⟩
      exact bareOutermost_ne_dangling h n omitType ha
    | ok e => nofun

end Fillable

theorem TypeTable.structFields?_eq_error {t : TypeTable} {ty : Ty} {fault : Fault}
    (h : t.structFields? ty = .error fault) : t.underlying ty = .error fault := by
  unfold structFields? at h
  cases hu : t.underlying ty with
  | error e => rw [hu] at h; cases h; rfl
  | ok target => rw [hu] at h; cases h

/-- Filling looks at nothing before both the table and the type have been found to be in order, and
then at no declaration that is not there. -/
theorem fill_ne_dangling (depth : Nat) (v : Viewpoint) (lit : Literal) (ty : Ty) (omitType : Bool)
    (decl : Nat) : fill depth v lit ty omitType ≠ .error (.fault (.dangling decl)) := by
  intro hfill
  have h := hfill
  unfold fill at h
  rcases bind_eq_error h with h | ⟨_, htable, h⟩
  · obtain ⟨e, -, ⟨⟩⟩ := mapError_eq_error.1 h
  rcases bind_eq_error h with h | ⟨_, htype, h⟩
  · obtain ⟨e, -, ⟨⟩⟩ := mapError_eq_error.1 h
  have htable : v.table.validate = .ok () := mapError_eq_ok.1 htable
  have htype : v.table.validateType ty = .ok () := mapError_eq_ok.1 htype
  have hty : v.table.HasRefs ty := TypeTable.validateType_eq_ok_iff.1 htype
  rcases bind_eq_error h with h | ⟨fields?, hfields, h⟩
  · obtain ⟨fault, h, ⟨⟩⟩ := mapError_eq_error.1 h
    have ht : v.table.Closed := (TypeTable.validate_eq_ok_iff.1 htable).1
    obtain ⟨rfl, hsize⟩ := ht.underlying_dangling_iff.1 (TypeTable.structFields?_eq_error h)
    have := TypeTable.hasRefs_named_iff.1 hty
    omega
  · split at h
    · rename_i fields
      obtain ⟨target, hreaches, hstruct⟩ :=
        TypeTable.structFields?_eq_some_iff.1 (mapError_eq_ok.1 hfields)
      rcases bind_eq_error h with h | ⟨entries, hwritten, -⟩
      · exact Entries.ofElements_ne_fault fields lit.elts _ h
      · have hf : Fillable v lit ty target fields entries :=
          ⟨htable, htype, hreaches, hstruct, hwritten⟩
        exact hf.fill_ne_dangling depth omitType hfill
    · rcases bind_eq_error h with h | ⟨name, -, h⟩
      · exact hty.describe_ne_dangling h
      · cases h

end LiteralFill
