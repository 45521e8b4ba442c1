import LiteralFill.Proofs.Fill.Gathered
import LiteralFill.Proofs.Fill.Written

namespace LiteralFill

/-- A literal that has an entry for `field` with this value, wherever its tokens stand. -/
def Expr.HasEntry (e : Expr) (field : String) (value : Expr) : Prop :=
  ∃ type? elts, e.unplaced = .compositeLit type? noPos elts noPos ∧
    (Expr.entry field value).unplaced ∈ elts

theorem unplacedAll_eq_map (es : List Expr) : unplacedAll es = es.map Expr.unplaced := by
  induction es with
  | nil => rfl
  | cons e rest ih => rw [unplacedAll, ih, List.map_cons]

theorem hasEntry_compositeLit_iff {type? : Option Expr} {lbrace rbrace : Nat} {kept : Entries}
    {field : String} {value : Expr} :
    (Expr.compositeLit type? lbrace kept.toElements rbrace).HasEntry field value ↔
      ∃ value', (field, value') ∈ kept ∧ value'.unplaced = value.unplaced := by
  simp only [Expr.HasEntry, Expr.unplaced, Expr.compositeLit.injEq, true_and, and_true,
    unplacedAll_eq_map, Entries.toElements, List.map_map]
  constructor
  · rintro ⟨_, _, ⟨rfl, rfl⟩, hentry⟩
    obtain ⟨⟨field', value'⟩, hmem, heq⟩ := List.mem_map.1 hentry
    simp only [Function.comp_apply, Expr.entry, Expr.name, Expr.unplaced, Expr.keyValue.injEq,
      Expr.ident.injEq, and_true, true_and] at heq
    obtain ⟨rfl, heq⟩ := heq
    exact ⟨value', hmem, heq⟩
  · rintro ⟨value', hmem, heq⟩
    refine ⟨_, _, ⟨rfl, rfl⟩, List.mem_map.2 ⟨_, hmem, ?_⟩⟩
    simp only [Function.comp_apply, Expr.entry, Expr.unplaced, heq]

theorem hasEntry_layOut_iff {e : Expr} {p : Nat} {field : String} {value : Expr} :
    (e.layOut p).HasEntry field value ↔ e.HasEntry field value := by
  rw [Expr.HasEntry, Expr.unplaced_layOut, ← Expr.HasEntry]

namespace Entries

theorem exists_value?_of_mem {entries : Entries} {name : String} {value : Expr}
    (h : (name, value) ∈ entries) : ∃ last, entries.value? name = some last := by
  have hne : entries.filter (·.1 = name) ≠ [] :=
    List.ne_nil_of_mem (List.mem_filter.2 ⟨h, decide_eq_true rfl⟩)
  exact ⟨_, by rw [value?, List.getLast?_eq_some_getLast hne, Option.map_some]⟩

/-- Each element of a literal that is accepted has a value for one field name. -/
theorem exists_valueFor?_of_ofElements {fields : List Field} {elts : List Expr} {entries : Entries}
    (h : ofElements fields elts = .ok entries) {i : Nat} {e : Expr} (he : elts[i]? = some e) :
    ∃ name value last, e.valueFor? fields name i = some value ∧ entries.value? name = some last := by
  obtain ⟨hi, rfl⟩ := List.getElem?_eq_some_iff.1 he
  have hmem : (elts[i], i) ∈ elts.zipIdx := by
    rw [List.mem_zipIdx_iff_getElem?]
    exact he
  obtain ⟨⟨name, value⟩, hentry, helement⟩ := exists_mem_of_mapM_eq_ok h hmem
  obtain ⟨last, hlast⟩ := exists_value?_of_mem hentry
  refine ⟨name, value, last, ?_, hlast⟩
  rw [valueFor?_of_ofElement helement, if_pos rfl]

end Entries

/-- Which elements of a literal its filling keeps. The last value that is written for the name of a
field is an entry of the filled literal. An element whose name no two fields share is kept exactly if a
field has that name and its last value is that of the element. -/
theorem hasEntry_fill_iff {depth : Nat} {v : Viewpoint} {lit : Literal} {ty : Ty} {omitType : Bool}
    {filled : Filled} (h : fill depth v lit ty omitType = .ok filled) :
    ∃ fields, v.table.structFields? ty = .ok (some fields) ∧
      ∀ (i : Nat) (e : Expr), lit.elts[i]? = some e → ∃ name value last,
        e.valueFor? fields name i = some value ∧ lit.written? fields name = some last ∧
        (name ∈ fields.map (·.name) → filled.expr.HasEntry name last) ∧
        ((fields.map (·.name)).count name ≤ 1 →
          (filled.expr.HasEntry name value ↔
            name ∈ fields.map (·.name) ∧ last.unplaced = value.unplaced)) := by
  obtain ⟨target, fields, entries, n, e, hf, he, hexpr, -⟩ := of_fill_eq_ok h
  obtain ⟨type?, elts, -, helts, rfl⟩ := bareLiteral_eq_ok he
  have hin : (bareEntries v (fun i f => bareZero v n [target.place] .plain (target.child i f.ty))
      entries 0 fields).outcome = .ok elts := helts
  obtain ⟨kept, hkept, rfl⟩ := gathered_of_bareEntries hin
  refine ⟨fields, TypeTable.structFields?_eq_some_iff.2 ⟨target, hf.reaches, hf.is_struct⟩, ?_⟩
  intro i e hi
  obtain ⟨name, value, last, hvalue, hlast⟩ := Entries.exists_valueFor?_of_ofElements hf.written hi
  refine ⟨name, value, last, hvalue, (Literal.written?_eq hf.written name).trans hlast, ?_, ?_⟩
  · intro hname
    rw [hexpr, hasEntry_layOut_iff, hasEntry_compositeLit_iff]
    exact ⟨last, hkept.mem_of_written hlast hname, rfl⟩
  · intro hcount
    rw [hexpr, hasEntry_layOut_iff, hasEntry_compositeLit_iff]
    constructor
    · rintro ⟨value', hmem, heq⟩
      rw [hkept.eq_of_mem hlast hcount hmem] at heq
      exact ⟨hkept.mem_names hmem, heq⟩
    · rintro ⟨hname, heq⟩
      exact ⟨last, hkept.mem_of_written hlast hname, heq⟩

def renamedScope : Scope := ⟨"example.com/app", "main"⟩

/-- A view with one declaration, `type Point struct { X int }`. -/
def renamedView : Viewpoint :=
  ⟨⟨#[.declared "Point" renamedScope (.struct [.declared "X" (.basic .int) renamedScope])]⟩,
    ⟨renamedScope, []⟩⟩

/-- `Point{Old: 1, X: 2}` -/
def renamedLiteral : Literal :=
  ⟨some (.name "Point"), 0,
    [.entry "Old" (.basicLit .int "1" 0), .entry "X" (.basicLit .int "2" 0)], 0⟩

def renamedFilled : Filled :=
  ⟨.compositeLit (some (.ident "Point" 1)) 1 [.keyValue (.ident "X" 2) 2 (.basicLit .int "2" 2)] 3, 3,
    []⟩

theorem hasEntry_fill_renamed :
    fill 2 renamedView renamedLiteral (.named 0) false = .ok renamedFilled ∧
      renamedFilled.expr.HasEntry "X" (.basicLit .int "2" 0) := by
  have hfill : fill 2 renamedView renamedLiteral (.named 0) false = .ok renamedFilled := rfl
  obtain ⟨fields, hfields, hkept⟩ := hasEntry_fill_iff hfill
  cases hfields
  obtain ⟨name, value, last, hvalue, hlast, hmem, -⟩ :=
    hkept 1 (.entry "X" (.basicLit .int "2" 0)) rfl
  have hvalue : (if "X" = name then some (Expr.basicLit .int "2" 0) else none) = some value := hvalue
  obtain rfl : "X" = name := by
    by_contra hne
    rw [if_neg hne] at hvalue
    cases hvalue
  cases hlast
  exact ⟨hfill, hmem (List.mem_singleton.2 rfl)⟩

/-- An element under a name that no field has is lost without an error. -/
theorem not_hasEntry_fill_renamed :
    fill 2 renamedView renamedLiteral (.named 0) false = .ok renamedFilled ∧
      ¬renamedFilled.expr.HasEntry "Old" (.basicLit .int "1" 0) := by
  refine ⟨rfl, ?_⟩
  rintro ⟨type?, elts, heq, hmem⟩
  cases heq
  have hkey := (Expr.keyValue.inj (List.mem_singleton.1 hmem)).1
  exact absurd (Expr.ident.inj hkey).1 (by decide)

end LiteralFill
