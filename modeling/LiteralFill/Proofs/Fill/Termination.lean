import LiteralFill.Proofs.Fill.Cycles

namespace LiteralFill

open Relation (ReflTransGen TransGen)

/-- A call made while no further struct is entered: for an element of an array, a key or a value of a
map, what a name stands for, or what a pointer points to. -/
def CallsInline (v : Viewpoint) (c c' : Call) : Prop := Calls v c c' ∧ c'.path = c.path

/-- The calls for the fields of the outermost struct, which filling a literal starts with. -/
inductive FillCalls (v : Viewpoint) (lit : Literal) (ty : Ty) (omitType : Bool) : Call → Prop
  | intro {target : Node} {fields : List Field} {entries : Entries} {c : Call} :
    Fillable v lit ty target fields entries →
      omitType = true ∨ v.CanName (ty.decl?.elim (.struct fields) .named) →
      FieldCalled v [target.place] target entries fields c → FillCalls v lit ty omitType c

variable {v : Viewpoint} {lit : Literal} {ty : Ty} {omitType : Bool}

theorem Calls.length_path_le {c c' : Call} (h : Calls v c c') : c.path.length ≤ c'.path.length := by
  rcases h.inversion with ⟨n, -, rfl | rfl | ⟨-, rfl⟩⟩ | ⟨target, -, rfl⟩
  · exact Nat.le_refl _
  · exact Nat.le_refl _
  · exact Nat.le_succ _
  · exact Nat.le_refl _

theorem Calls.inline_of_length_le {c c' : Call} (h : Calls v c c')
    (hle : c'.path.length ≤ c.path.length) : CallsInline v c c' := by
  refine ⟨h, ?_⟩
  rcases h.inversion with ⟨n, -, rfl | rfl | ⟨-, rfl⟩⟩ | ⟨target, -, rfl⟩
  · rfl
  · rfl
  · exact absurd hle (Nat.not_succ_le_self _)
  · rfl

/-- A row of calls that ends inside as many structs as it starts in has entered none on the way. -/
theorem inline_of_transGen {c c' : Call} (h : TransGen (Calls v) c c') :
    c.path.length ≤ c'.path.length ∧
      (c'.path.length ≤ c.path.length → TransGen (CallsInline v) c c') := by
  induction h with
  | single h => exact ⟨h.length_path_le, fun hle => .single (h.inline_of_length_le hle)⟩
  | tail _ hlast ih =>
    obtain ⟨hle, ih⟩ := ih
    have hlast' := hlast.length_path_le
    exact ⟨hle.trans hlast', fun h =>
      (ih (hlast'.trans h)).tail (hlast.inline_of_length_le (h.trans hle))⟩

theorem transGen_inline_iff {c : Call} : TransGen (CallsInline v) c c ↔ TransGen (Calls v) c c :=
  ⟨fun h => h.lift id fun _ _ h => h.1, fun h => (inline_of_transGen h).2 (Nat.le_refl _)⟩

/-- A call comes to an end exactly if no call it leads to comes back to itself. -/
theorem Call.Within.ends_iff {node : Node} {c : Call} (h : c.Within v node) :
    c.Ends v ↔ ∀ c', ReflTransGen (Calls v) c c' → ¬TransGen (CallsInline v) c' c' := by
  simp only [transGen_inline_iff]
  rw [Call.ends_iff_acc]
  -- only finitely many calls are within reach, so that a row without end has to come back
  constructor
  · exact fun hacc c' hc' => not_transGen_of_acc (acc_of_reflTransGen hacc hc')
  · refine acc_of_finite ((Call.finite_within v node).subset fun c' hc' => ?_)
    induction hc' with
    | refl => exact h
    | tail _ hstep ih => exact ih.calls hstep

theorem Fillable.unique {target target' : Node} {fields fields' : List Field}
    {entries entries' : Entries} (h : Fillable v lit ty target fields entries)
    (h' : Fillable v lit ty target' fields' entries') :
    target = target' ∧ fields = fields' ∧ entries = entries' := by
  obtain rfl : target = target' := Except.ok.inj (h.reaches.symm.trans h'.reaches)
  obtain rfl : fields = fields' := Ty.struct.inj (h.is_struct.symm.trans h'.is_struct)
  exact ⟨rfl, rfl, Except.ok.inj (h.written.symm.trans h'.written)⟩

section Fillable

variable {target : Node} {fields : List Field} {entries : Entries}

theorem bareOutermost_tooDeep_iff (h : Fillable v lit ty target fields entries) (depth : Nat) :
    (bareOutermost v depth ty omitType target fields entries).outcome = .error .tooDeep ↔
      ∃ c, FillCalls v lit ty omitType c ∧ (c.attempt v depth).outcome = .error .tooDeep := by
  have hplace : target.place ∉ ([] : List Place) := nofun
  rw [bareOutermost, bareStructEntries, if_neg hplace, bareLiteral_eq_error_iff,
    bareEntries_tooDeep_iff, exists_structTypeAt_iff]
  constructor
  · rintro (⟨-, ht⟩ | ⟨hname, c, hc, ht⟩)
    · exact absurd ht (structTypeAt_ne_of SpellError.toFillError_ne_tooDeep _ _ _)
    · exact ⟨c, .intro h hname hc, ht⟩
  · rintro ⟨c, ⟨h', hname, hc⟩, ht⟩
    obtain ⟨rfl, rfl, rfl⟩ := h.unique h'
    exact .inr ⟨hname, c, hc, ht⟩

theorem fill_tooDeep_iff (h : Fillable v lit ty target fields entries) (depth : Nat) :
    fill (depth + ty.stepsToFields) v lit ty omitType = .error .tooDeep ↔
      ∃ c, FillCalls v lit ty omitType c ∧ (c.attempt v depth).outcome = .error .tooDeep := by
  rw [fill_eq_error_iff h, bareOutermost_tooDeep_iff h]

theorem FillCalls.exists_eq (h : Fillable v lit ty target fields entries) {c : Call}
    (hc : FillCalls v lit ty omitType c) : ∃ n ∈ target.parts, c = ⟨[target.place], .plain, n⟩ := by
  obtain ⟨h', -, hc⟩ := hc
  obtain ⟨rfl, rfl, rfl⟩ := h.unique h'
  exact hc.exists_eq h.is_struct

theorem FillCalls.within (h : Fillable v lit ty target fields entries) {c : Call}
    (hc : FillCalls v lit ty omitType c) : c.Within v target := by
  obtain ⟨n, hn, rfl⟩ := hc.exists_eq h
  refine ⟨TypeTable.nodesFrom_of_parts TypeTable.self_mem_nodesFrom hn, .inl rfl,
    List.nodup_singleton _, fun p hp => ?_⟩
  obtain rfl := List.mem_singleton.1 hp
  exact ⟨target, TypeTable.self_mem_nodesFrom, rfl⟩

end Fillable

/-- Filling comes to an end exactly if the calls do that it starts with. -/
theorem exists_fill_iff_ends :
    (∃ depth, fill depth v lit ty omitType ≠ .error .tooDeep) ↔
      ∀ c, FillCalls v lit ty omitType c → c.Ends v := by
  rcases fillable_or_fails v lit ty omitType with ⟨target, fields, entries, h⟩ | ⟨e, hne, he⟩
  · constructor
    · rintro ⟨depth, hd⟩ c hc
      have hle : ty.stepsToFields ≤ depth := by
        by_contra hlt
        exact hd (fill_of_lt_stepsToFields h (Nat.lt_of_not_le hlt))
      obtain ⟨n, rfl⟩ := Nat.exists_eq_add_of_le' hle
      exact ⟨n, fun ht => hd ((fill_tooDeep_iff h n).2 ⟨c, hc, ht⟩)⟩
    · intro hends
      have hfin : {c | FillCalls v lit ty omitType c}.Finite :=
        (Call.finite_within v target).subset fun c hc => hc.within h
      obtain ⟨depth, hdepth⟩ := exists_depth_of_ends hfin hends
      refine ⟨depth + ty.stepsToFields, fun ht => ?_⟩
      obtain ⟨c, hc, ht⟩ := (fill_tooDeep_iff h depth).1 ht
      exact hdepth c hc ht
  -- an error that no depth changes leaves nothing to call
  · refine iff_of_true ⟨0, by rw [he]; exact fun h => hne (Except.error.inj h)⟩ ?_
    rintro c ⟨h, -, -⟩
    have hsteps : 0 < ty.stepsToFields := by
      unfold Ty.stepsToFields
      split <;> decide
    have hzero := he 0
    rw [fill_of_lt_stepsToFields h hsteps] at hzero
    exact absurd (Except.error.inj hzero).symm hne

/-- Filling comes to an end, with a literal or an error, exactly if no zero value that it asks for asks
for itself again while no further struct is entered. Recursion through structs always ends. -/
theorem exists_fill_iff (v : Viewpoint) (lit : Literal) (ty : Ty) (omitType : Bool) :
    (∃ depth, fill depth v lit ty omitType ≠ .error .tooDeep) ↔
      ∀ c c', FillCalls v lit ty omitType c → ReflTransGen (Calls v) c c' →
        ¬TransGen (CallsInline v) c' c' := by
  rw [exists_fill_iff_ends]
  refine forall_congr' fun c => ?_
  constructor
  · intro h c' hc
    obtain ⟨hf, -, -⟩ := id hc
    exact (FillCalls.within hf hc).ends_iff.1 (h hc) c'
  · intro h hc
    obtain ⟨hf, -, -⟩ := id hc
    exact (FillCalls.within hf hc).ends_iff.2 fun c' => h c' hc

/-- The types whose zero values are written out as part of that of a type, down to the next struct. -/
inductive Node.Inlines (t : TypeTable) (n : Node) : Node → Prop
  | element {len : Nat} {elem : Ty} : n.ty = .array len elem → 0 < len → n.Inlines t (n.child 0 elem)
  | key {key value : Ty} : n.ty = .map key value → n.Inlines t (n.child 0 key)
  | value {key value : Ty} : n.ty = .map key value → n.Inlines t (n.child 1 value)
  | definition {decl : Nat} {target : Node} :
    n.ty = .named decl → t.underlyingNode n = .ok target → n.Inlines t target
  | pointee {elem target : Ty} :
    n.ty = .pointer elem → t.underlying elem = .ok target → target.isStruct = true →
      n.Inlines t (n.child 0 elem)

theorem CallsInline.inlines {c c' : Call} (h : CallsInline v c c') :
    c.node.Inlines v.table c'.node := by
  obtain ⟨h, hpath⟩ := h
  cases h with
  | element hty hlen _ => exact .element hty hlen
  | key hty _ _ => exact .key hty
  | value hty _ _ _ => exact .value hty
  | field _ _ _ hc =>
    obtain ⟨-, -⟩ := hc
    exact absurd (congrArg List.length hpath) (Nat.succ_ne_self _)
  | definition hty htarget => exact .definition hty htarget
  | pointee hty htarget hstruct => exact .pointee hty htarget hstruct

/-- Over a table in which no type is part of itself through arrays and maps alone, filling always ends,
however its types refer to themselves through structs. -/
theorem exists_fill_of_acyclic (h : ∀ n, ¬TransGen (Node.Inlines v.table) n n) (lit : Literal)
    (ty : Ty) (omitType : Bool) : ∃ depth, fill depth v lit ty omitType ≠ .error .tooDeep := by
  rw [exists_fill_iff_ends]
  intro c hc
  obtain ⟨hf, -, -⟩ := id hc
  refine (FillCalls.within hf hc).ends_iff.2 fun c' _ hcycle => h c'.node ?_
  exact hcycle.lift Call.node fun _ _ h => h.inlines

/-- `type M map[string]M` and `type T struct { F M }`. -/
def selfMapTable (scope : Scope) : TypeTable :=
  ⟨#[⟨"M", some scope, true, .map (.basic .string) (.named 0)⟩,
    ⟨"T", some scope, true, .struct [⟨"F", true, false, scope, .named 0⟩]⟩]⟩

/-- A map of itself is a type that the table may hold, and has no zero value to come to an end with. -/
theorem fill_selfMapTable :
    let scope : Scope := ⟨"example.com/app", "main"⟩
    (selfMapTable scope).validate = .ok () ∧
      (selfMapTable scope).validateType (.named 1) = .ok () ∧
      ¬∃ depth, fill depth ⟨selfMapTable scope, ⟨scope, []⟩⟩ ⟨some (.name "T"), 0, [], 0⟩ (.named 1)
        false ≠ .error .tooDeep := by
  intro scope
  let v : Viewpoint := ⟨selfMapTable scope, ⟨scope, []⟩⟩
  let f : Field := ⟨"F", true, false, scope, .named 0⟩
  let path : List Place := [⟨some 1, []⟩]
  let map : Node := ⟨⟨some 0, []⟩, .map (.basic .string) (.named 0)⟩
  have hvalid : (selfMapTable scope).validate = .ok () := rfl
  have htype : (selfMapTable scope).validateType (.named 1) = .ok () := rfl
  refine ⟨hvalid, htype, ?_⟩
  rw [exists_fill_iff_ends]
  intro hends
  have hfill : Fillable v ⟨some (.name "T"), 0, [], 0⟩ (.named 1) ⟨⟨some 1, []⟩, .struct [f]⟩ [f] [] :=
    ⟨hvalid, htype, rfl, rfl, rfl⟩
  have hfresh : freshFields v [] 0 [f] = [] ++ (0, f) :: [] := rfl
  have hfirst : FillCalls v ⟨some (.name "T"), 0, [], 0⟩ (.named 1) false
      ⟨path, .plain, ⟨⟨some 1, [0]⟩, .named 0⟩⟩ :=
    .intro hfill (.inr ⟨"T", rfl⟩) (.intro hfresh nofun)
  have hdefinition (style : Style) (hdecl : style.decl? = none) (place : Place) :
      Calls v ⟨path, style, ⟨place, .named 0⟩⟩ ⟨path, style, map⟩ := by
    obtain ⟨decl?, elided, addressed⟩ := style
    obtain rfl : decl? = none := hdecl
    exact @Calls.definition v ⟨path, ⟨none, elided, addressed⟩, ⟨place, .named 0⟩⟩ 0 map rfl rfl
  have hvalue (style : Style) :
      Calls v ⟨path, style, map⟩ ⟨path, .elidedType, ⟨⟨some 0, [1]⟩, .named 0⟩⟩ :=
    .value rfl ⟨"string", rfl⟩ ⟨"M", rfl⟩ ⟨1, _, rfl⟩
  -- the value of the map asks for the definition of `M` once more, inside the same struct
  have hacc := acc_of_reflTransGen (Call.ends_iff_acc.1 (hends _ hfirst))
    ((ReflTransGen.single (hdefinition .plain rfl _)).tail (hvalue .plain))
  exact not_transGen_of_acc hacc
    ((TransGen.single (hdefinition .elidedType rfl _)).tail (hvalue .elidedType))

end LiteralFill
