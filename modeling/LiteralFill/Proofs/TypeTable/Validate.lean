import LiteralFill.Proofs.Ty.Subterms
import LiteralFill.Proofs.TypeTable.Chains

namespace LiteralFill.TypeTable

/-- The references of a table: declaration by declaration, and within one in the order of writing. -/
def refs (t : TypeTable) : List Nat :=
  (t.decls.toList.flatMap fun d => d.underlying.subterms).filterMap Ty.decl?

/-- The declaration so many links further. -/
def linked? (t : TypeTable) : Nat → Nat → Option Nat
  | 0, decl => some decl
  | n + 1, decl =>
    match t.definition? decl with
    | some (.named next) => t.linked? n next
    | _ => none

/-- Within so many links, a declaration comes up twice. -/
def Revisits (t : TypeTable) (n start : Nat) : Prop :=
  ∃ i j decl, i < j ∧ j ≤ n ∧ t.linked? i start = some decl ∧ t.linked? j start = some decl

/-- The first declaration from which no type that is not a name is reached within `maxLinks` links. -/
structure FirstEndless (t : TypeTable) (start : Nat) : Prop where
  lt_size : start < t.size
  endless : ¬t.EndsWithin maxLinks start
  before : ∀ decl < start, t.EndsWithin maxLinks decl

variable {t : TypeTable}

theorem refs_eq_flatMap (t : TypeTable) : t.refs = t.decls.toList.flatMap fun d => d.underlying.refs := by
  rw [refs, List.filterMap_flatMap]
  exact List.flatMap_congr fun d _ => d.underlying.refs_eq_filterMap.symm

theorem closed_iff : t.Closed ↔ ∀ decl ∈ t.refs, decl < t.size := by
  rw [refs_eq_flatMap, List.forall_mem_flatMap]
  rfl

theorem findSome?_refError? (t : TypeTable) :
    t.decls.toList.findSome? (fun d => t.refError? d.underlying) =
      (t.refs.find? (t.size ≤ ·)).map .missingDecl := by
  rw [refs_eq_flatMap, List.find?_flatMap, List.map_findSome?]
  rfl

theorem find?_refs_eq_some_iff {decl : Nat} : t.refs.find? (t.size ≤ ·) = some decl ↔
    ∃ before after, t.refs = before ++ decl :: after ∧ (∀ d ∈ before, d < t.size) ∧ t.size ≤ decl := by
  simp only [List.find?_eq_some_iff_append, decide_eq_true_eq, Bool.not_eq_true',
    decide_eq_false_iff_not, not_le]
  constructor
  · rintro ⟨hdecl, before, after, hrefs, hbefore⟩
    exact ⟨before, after, hrefs, hbefore, hdecl⟩
  · rintro ⟨before, after, hrefs, hbefore, hdecl⟩
    exact ⟨hdecl, before, after, hrefs, hbefore⟩

/-- A chain that is not at its end yet lists what its links lead to. -/
theorem getElem?_nameChain {n start i : Nat} (hn : (t.nameChain n start).length = n) (hi : i < n) :
    (t.nameChain n start)[i]? = t.linked? i start := by
  induction n generalizing start i with
  | zero => omega
  | succ n ih =>
    rw [nameChain] at hn ⊢
    split at hn
    · rename_i next hd
      cases i with
      | zero => rfl
      | succ i =>
        rw [List.getElem?_cons_succ, ih (Nat.succ.inj hn) (Nat.lt_of_succ_lt_succ hi), linked?, hd]
    · cases hn

theorem nodup_nameChain_iff {n start : Nat} (hn : (t.nameChain (n + 1) start).length = n + 1) :
    (t.nameChain (n + 1) start).Nodup ↔ ¬t.Revisits n start := by
  rw [List.nodup_iff_getElem?_ne_getElem?, hn]
  constructor
  · rintro h ⟨i, j, decl, hij, hj, hi, hdecl⟩
    refine h i j hij (by omega) ?_
    rw [getElem?_nameChain hn (by omega), getElem?_nameChain hn (by omega), hi, hdecl]
  · intro h i j hij hj heq
    have hi : (t.nameChain (n + 1) start)[i]? = t.linked? i start := getElem?_nameChain hn (by omega)
    rw [getElem?_nameChain hn hj, List.getElem?_eq_getElem (by omega)] at heq
    exact h ⟨i, j, _, hij, by omega, hi.symm.trans (List.getElem?_eq_getElem (by omega)), heq.symm⟩

theorem Closed.chainError?_eq_none_iff (h : t.Closed) {start : Nat} (hstart : start < t.size)
    {name : String} : t.chainError? start name = none ↔ t.EndsWithin maxLinks start := by
  rw [TypeTable.chainError?_eq_none_iff, h.length_nameChain_le_iff hstart]

theorem chainError?_eq_some_iff {start : Nat} {name : String} {e : TableError} :
    t.chainError? start name = some e ↔ t.chainError? start name ≠ none ∧
      (t.Revisits maxLinks start ∧ e = .selfReferential name ∨
        ¬t.Revisits maxLinks start ∧ e = .maxDepthExceeded) := by
  rw [Ne, TypeTable.chainError?_eq_none_iff]
  by_cases hle : (t.nameChain (maxLinks + 1) start).length ≤ maxLinks
  · simp [chainError?_eq, hle]
  · have hlength : (t.nameChain (maxLinks + 1) start).length = maxLinks + 1 := by
      have hmax := t.length_nameChain_le (maxLinks + 1) start
      omega
    by_cases hrevisits : t.Revisits maxLinks start
    · simp [chainError?_eq, hle, nodup_nameChain_iff hlength, hrevisits, eq_comm]
    · simp [chainError?_eq, hle, nodup_nameChain_iff hlength, hrevisits, eq_comm]

/-- The first hit in a numbered list, by its number. -/
theorem findSome?_zipIdx_eq_some_iff {α β : Type} {f : Nat → α → Option β} {xs : List α} {b : β} :
    (xs.zipIdx.findSome? fun (x, i) => f i x) = some b ↔
      ∃ i x, xs[i]? = some x ∧ f i x = some b ∧ ∀ j < i, ∀ y, xs[j]? = some y → f j y = none := by
  rw [List.findSome?_eq_some_iff]
  constructor
  · rintro ⟨before, ⟨x, i⟩, after, hsplit, hx, hbefore⟩
    obtain ⟨xs₁, xs₂, rfl, rfl, hrest⟩ := List.zipIdx_eq_append_iff.1 hsplit
    cases xs₂ with
    | nil => cases hrest
    | cons x' xs₂ =>
      obtain ⟨⟨rfl, rfl⟩, -⟩ := List.cons.inj hrest |>.imp_left Prod.mk.inj
      rw [Nat.zero_add] at hx
      refine ⟨xs₁.length, x, by simp, hx, fun j hj y hy => ?_⟩
      rw [List.getElem?_append_left hj] at hy
      exact hbefore (y, j) (List.mk_mem_zipIdx_iff_getElem?.2 hy)
  · rintro ⟨i, x, hi, hx, hbefore⟩
    obtain ⟨hlt, rfl⟩ := List.getElem?_eq_some_iff.1 hi
    refine ⟨(xs.take i).zipIdx, (xs[i], i), (xs.drop (i + 1)).zipIdx (i + 1), ?_, hx, ?_⟩
    · have hlength : (xs.take i).length = i := List.length_take_of_le hlt.le
      refine List.zipIdx_eq_append_iff.2 ⟨xs.take i, xs.drop i, (List.take_append_drop i xs).symm, rfl, ?_⟩
      rw [List.drop_eq_getElem_cons hlt, List.zipIdx_cons, hlength, Nat.zero_add]
    · rintro ⟨y, j⟩ hmem
      have hy : (xs.take i)[j]? = some y := List.mk_mem_zipIdx_iff_getElem?.1 hmem
      rw [List.getElem?_take] at hy
      split at hy
      · rename_i hj
        exact hbefore j hj y hy
      · cases hy

theorem Closed.findSome?_chainError?_eq_some_iff (h : t.Closed) {e : TableError} :
    (t.decls.toList.zipIdx.findSome? fun (d, i) => t.chainError? i d.name) = some e ↔
      ∃ start d, t.get? start = some d ∧ t.FirstEndless start ∧
        (t.Revisits maxLinks start ∧ e = .selfReferential d.name ∨
          ¬t.Revisits maxLinks start ∧ e = .maxDepthExceeded) := by
  have hget (i : Nat) : t.decls.toList[i]? = t.get? i := Array.getElem?_toList
  have hlt {i : Nat} {d : TypeDecl} (hd : t.get? i = some d) : i < t.size :=
    (t.isSome_get?_iff i).1 (Option.isSome_of_eq_some hd)
  rw [findSome?_zipIdx_eq_some_iff (f := fun i (d : TypeDecl) => t.chainError? i d.name)]
  simp only [hget]
  refine exists_congr fun start => exists_congr fun d => and_congr_right fun hd => ?_
  rw [chainError?_eq_some_iff, Ne, h.chainError?_eq_none_iff (hlt hd), and_right_comm]
  refine and_congr_left fun _ => ⟨fun ⟨hends, hbefore⟩ => ⟨hlt hd, hends, fun i hi => ?_⟩,
    fun hfirst => ⟨hfirst.endless, fun i hi d' hd' => ?_⟩⟩
  · have hsize : i < t.size := hi.trans (hlt hd)
    obtain ⟨d', hd'⟩ := Option.isSome_iff_exists.1 ((t.isSome_get?_iff i).2 hsize)
    exact (h.chainError?_eq_none_iff hsize).1 (hbefore i hi d' hd')
  · exact (h.chainError?_eq_none_iff (hlt hd')).2 (hfirst.before i hi)

theorem validate_eq_error_iff {e : TableError} : t.validate = .error e ↔
    (∃ decl, t.refs.find? (t.size ≤ ·) = some decl ∧ e = .missingDecl decl) ∨
    t.Closed ∧ ∃ start d, t.get? start = some d ∧ t.FirstEndless start ∧
      (t.Revisits maxLinks start ∧ e = .selfReferential d.name ∨
        ¬t.Revisits maxLinks start ∧ e = .maxDepthExceeded) := by
  have hvalidate : t.validate = .error e ↔ t.error? = some e := by
    rw [validate]
    cases t.error? <;> simp
  have hclosed : (t.refs.find? (t.size ≤ ·)).map TableError.missingDecl = none ↔ t.Closed := by
    simp only [Option.map_eq_none_iff, List.find?_eq_none, decide_eq_true_eq, not_le, closed_iff]
  rw [hvalidate, error?, Option.orElse_eq_some, findSome?_refError?, hclosed, Option.map_eq_some_iff]
  refine or_congr ?_ (and_congr_right fun h => h.findSome?_chainError?_eq_some_iff)
  exact exists_congr fun decl => and_congr_right fun _ => eq_comm

/-- What the validation of a table reports. References out of the table come first. Without any, a table
is valid if from each declaration a type that is not a name is reached within `maxLinks` links; else the
first declaration without such an end is reported, by its name if its chain visibly runs in a circle. -/
theorem validate_classifies (t : TypeTable) :
    (t.validate = .ok () ↔ (∀ decl ∈ t.refs, decl < t.size) ∧ ∀ start < t.size, t.EndsWithin maxLinks start) ∧
    ((∃ decl, t.validate = .error (.missingDecl decl)) ↔ ∃ decl ∈ t.refs, t.size ≤ decl) ∧
    (∀ decl, t.validate = .error (.missingDecl decl) ↔ ∃ before after, t.refs = before ++ decl :: after ∧
      (∀ d ∈ before, d < t.size) ∧ t.size ≤ decl) ∧
    (∀ name, t.validate = .error (.selfReferential name) ↔ (∀ decl ∈ t.refs, decl < t.size) ∧
      ∃ start d, t.get? start = some d ∧ t.FirstEndless start ∧ t.Revisits maxLinks start ∧ name = d.name) ∧
    (t.validate = .error .maxDepthExceeded ↔ (∀ decl ∈ t.refs, decl < t.size) ∧
      ∃ start, t.FirstEndless start ∧ ¬t.Revisits maxLinks start) := by
  have hmissing (decl : Nat) : t.validate = .error (.missingDecl decl) ↔
      t.refs.find? (t.size ≤ ·) = some decl := by
    simp [validate_eq_error_iff]
  rw [← closed_iff]
  refine ⟨validate_eq_ok_iff, ?_, fun decl => (hmissing decl).trans find?_refs_eq_some_iff, fun name => ?_, ?_⟩
  · simp only [hmissing, ← Option.isSome_iff_exists, List.find?_isSome, decide_eq_true_eq]
  · simp [validate_eq_error_iff]
  · have hget {start : Nat} (hfirst : t.FirstEndless start) : ∃ d, t.get? start = some d :=
      Option.isSome_iff_exists.1 ((t.isSome_get?_iff start).2 hfirst.lt_size)
    simp only [validate_eq_error_iff, reduceCtorEq, and_false, exists_false, false_or, and_true]
    refine and_congr_right fun _ => exists_congr fun start => ?_
    constructor
    · rintro ⟨-, -, hfirst⟩
      exact hfirst
    · rintro ⟨hfirst, hrevisits⟩
      obtain ⟨d, hd⟩ := hget hfirst
      exact ⟨d, hd, hfirst, hrevisits⟩

end LiteralFill.TypeTable
