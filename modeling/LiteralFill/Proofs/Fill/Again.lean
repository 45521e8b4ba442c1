import LiteralFill.Proofs.Fill.Gathered
import LiteralFill.Proofs.Fill.Written
import LiteralFill.Proofs.Layout.Tokens

namespace LiteralFill

namespace Entries

theorem remove_of_notMem {entries : Entries} {name : String} (h : name ∉ entries.map (·.1)) :
    entries.remove name = entries := by
  refine List.filter_eq_self.2 fun e he => decide_eq_true fun heq => h ?_
  exact List.mem_map.2 ⟨e, he, heq⟩

theorem value?_of_notMem {entries : Entries} {name : String} (h : name ∉ entries.map (·.1)) :
    entries.value? name = none := by
  rw [← remove_of_notMem h, value?_remove_self]

/-- The entries with their values laid out from the line after `p` on. -/
def layOut (p : Nat) : Entries → Entries
  | [] => []
  | (name, value) :: rest => (name, value.layOut (p + 1)) :: layOut (p + 1 + value.advances) rest

theorem names_layOut (p : Nat) (entries : Entries) :
    (entries.layOut p).map (·.1) = entries.map (·.1) := by
  induction entries generalizing p with
  | nil => rfl
  | cons e rest ih => simp only [layOut, List.map_cons, ih]

/-- Read as a user's, the elements of a literal that was filled are the entries it was filled with. -/
theorem ofElements_layOutElements (fields : List Field) (p : Nat) (entries : Entries) :
    ofElements fields (layOutElements p entries.toElements) = .ok (entries.layOut p) := by
  unfold ofElements
  generalize 0 = start
  induction entries generalizing p start with
  | nil => rfl
  | cons e rest ih =>
    obtain ⟨name, value⟩ := e
    have hadv : (Expr.entry name value).advances = value.advances := Nat.zero_add _
    simp only [toElements, List.map_cons, layOutElements, List.zipIdx_cons, List.mapM_cons, hadv]
    rw [← toElements, ih]
    rfl

theorem layOutElements_layOut (p q : Nat) (entries : Entries) :
    layOutElements q (entries.layOut p).toElements = layOutElements q entries.toElements := by
  induction entries generalizing p q with
  | nil => rfl
  | cons e rest ih =>
    obtain ⟨name, value⟩ := e
    simp only [layOut, toElements, List.map_cons, layOutElements, Expr.entry, Expr.layOut,
      Expr.advances, value.layOut_layOut, value.advances_layOut]
    exact congrArg _ (ih _ _)

end Entries

/-- What a literal is laid out as depends on its elements by what they are laid out as. -/
theorem layOut_compositeLit_congr {xs ys : List Expr} (type? : Option Expr) (lbrace rbrace p : Nat)
    (h : ∀ q, layOutElements q xs = layOutElements q ys) :
    (Expr.compositeLit type? lbrace xs rbrace).layOut p =
      (Expr.compositeLit type? lbrace ys rbrace).layOut p := by
  have hadvances := congrArg advancesAll (h 0)
  have hlength := congrArg List.length (h 0)
  have hempty := congrArg List.isEmpty (h 0)
  simp only [advancesAll_layOutElements, length_layOutElements, isEmpty_layOutElements]
    at hadvances hlength hempty
  simp only [Expr.layOut, h, hadvances, hlength, hempty]

/-- Entries for the same fields, whatever their values, are all taken over, and the fields that had none
are passed over again. -/
theorem Gathered.again {v : Viewpoint} {valueOf : Nat → Field → Attempt Expr}
    {entries kept again : Entries} {i : Nat} {fields : List Field}
    (h : Gathered v valueOf entries i fields kept) (hnames : (fields.map (·.name)).Nodup)
    (hagain : again.map (·.1) = kept.map (·.1)) :
    Gathered v valueOf again i fields again := by
  induction h generalizing again with
  | nil =>
    obtain rfl := List.map_eq_nil_iff.1 hagain
    exact .nil
  | @written _ kept _ f _ _ _ hkept ih | @fresh _ kept _ f _ _ _ _ _ hkept ih =>
    obtain ⟨hnotMem, hnodup⟩ := List.nodup_cons.1 hnames
    obtain ⟨⟨name, value⟩, more, rfl, rfl, hmore⟩ := List.map_eq_cons_iff.1 hagain
    have hname : f.name ∉ more.map (·.1) := by
      rw [hmore]
      exact fun hmem => hnotMem (hkept.sublist_names.subset hmem)
    have hremove : Entries.remove ((f.name, value) :: more) f.name = more := by
      rw [Entries.remove, List.filter_cons_of_neg (by simp)]
      exact Entries.remove_of_notMem hname
    refine .written ?_ ?_
    · rw [Entries.value?_cons, Entries.value?_of_notMem hname, if_pos rfl, Option.none_or]
    · rw [hremove]
      exact ih hnodup hmore
  | omitted _ hvis hx hkept ih =>
    obtain ⟨hnotMem, hnodup⟩ := List.nodup_cons.1 hnames
    refine .omitted (Entries.value?_of_notMem fun hmem => ?_) hvis hx (ih hnodup hagain)
    rw [hagain] at hmem
    exact hnotMem (hkept.sublist_names.subset hmem)
  | unseen _ hvis hkept ih =>
    obtain ⟨hnotMem, hnodup⟩ := List.nodup_cons.1 hnames
    refine .unseen (Entries.value?_of_notMem fun hmem => ?_) hvis (ih hnodup hagain)
    rw [hagain] at hmem
    exact hnotMem (hkept.sublist_names.subset hmem)

/-- Filling a literal that was filled changes nothing, not even a position. -/
theorem fill_fill {depth : Nat} {v : Viewpoint} {lit : Literal} {ty : Ty} {omitType : Bool}
    {filled : Filled}
    (hnames : ∀ fields, v.table.structFields? ty = .ok (some fields) → (fields.map (·.name)).Nodup)
    (h : fill depth v lit ty omitType = .ok filled) :
    ∃ again : Literal, again.toExpr = filled.expr ∧
      ∃ refilled, fill depth v again ty omitType = .ok refilled ∧
        refilled.expr = filled.expr ∧ refilled.lines = filled.lines := by
  obtain ⟨target, fields, entries, hf⟩ := fillable_of_fill_eq_ok h
  obtain ⟨n, e, rfl, he, hexpr, hlines⟩ := hf.of_fill_eq_ok h
  obtain ⟨type?, elts, htype, helts, rfl⟩ := bareLiteral_eq_ok he
  have hin : (bareEntries v (fun i f => bareZero v n [target.place] .plain (target.child i f.ty))
      entries 0 fields).outcome = .ok elts := helts
  obtain ⟨kept, hkept, rfl⟩ := gathered_of_bareEntries hin
  have hnodup := hnames fields (TypeTable.structFields?_eq_some_iff.2 ⟨target, hf.reaches, hf.is_struct⟩)
  -- the elements of the filled literal, without the places of their keys, are the entries read back
  have hf' : Fillable v ⟨layOutOpt 1 type?, 1 + advancesOpt type?,
      layOutElements (1 + advancesOpt type?) kept.toElements, filled.expr.lastPos⟩ ty target fields
      (kept.layOut (1 + advancesOpt type?)) :=
    ⟨hf.table_valid, hf.type_valid, hf.reaches, hf.is_struct,
      Entries.ofElements_layOutElements fields _ kept⟩
  have he' : (bareOutermost v n ty omitType target fields
      (kept.layOut (1 + advancesOpt type?))).outcome =
      .ok (.compositeLit type? noPos (kept.layOut (1 + advancesOpt type?)).toElements noPos) :=
    outcome_bareLiteral htype (hkept.again hnodup (Entries.names_layOut _ kept)).outcome_bareEntries
  have halike := layOut_compositeLit_congr type? noPos noPos 1
    fun q => Entries.layOutElements_layOut (1 + advancesOpt type?) q kept
  refine ⟨_, ?_, _, (fill_eq hf' n).trans (by rw [he']; rfl), ?_, ?_⟩
  · rw [hexpr]
    rfl
  · rw [hexpr]
    exact halike
  · rw [hlines]
    exact (Expr.lineCount_layOut 1 _).symm.trans
      ((congrArg Expr.lineCount halike).trans (Expr.lineCount_layOut 1 _))

/-- One field is written, one is not, and one is left out for what its value would name. -/
theorem fill_fill_omitted :
    let scope : Scope := ⟨"example.com/app", "main"⟩
    let v : Viewpoint := ⟨⟨#[.declared "size" ⟨"example.com/geo", "geo"⟩ (.basic .int)]⟩, ⟨scope, []⟩⟩
    let fields : List Field := [.declared "A" (.basic .int) scope,
      .declared "B" (.array 2 (.named 0)) scope, .declared "C" (.map (.basic .int) (.basic .bool)) scope]
    (fields.map (·.name)).Nodup ∧
      ∃ filled again, fill 4 v ⟨none, 0, [.entry "A" (.name "n")], 0⟩ (.struct fields) true = .ok filled ∧
        filled.omitted = [⟨"B", "geo.size"⟩] ∧ again.toExpr = filled.expr ∧
        ∃ refilled, fill 4 v again (.struct fields) true = .ok refilled ∧
          refilled.expr = filled.expr ∧ refilled.lines = filled.lines := by
  intro scope v fields
  have hnames : (fields.map (·.name)).Nodup := by decide
  have homitted : (fill 4 v ⟨none, 0, [.entry "A" (.name "n")], 0⟩ (.struct fields) true).map
      (·.omitted) = .ok [⟨"B", "geo.size"⟩] := by decide +kernel
  cases hf : fill 4 v ⟨none, 0, [.entry "A" (.name "n")], 0⟩ (.struct fields) true with
  | error e => rw [hf] at homitted; cases homitted
  | ok filled =>
    rw [hf] at homitted
    obtain ⟨again, hagain, hrefilled⟩ := fill_fill (fun fields' h => by cases h; exact hnames) hf
    exact ⟨hnames, filled, again, rfl, Except.ok.inj homitted, hagain, hrefilled⟩

end LiteralFill
