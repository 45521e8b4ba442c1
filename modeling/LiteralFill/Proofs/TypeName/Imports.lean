import LiteralFill.Scope
import Mathlib.Data.List.Basic

namespace LiteralFill

/-- An import that serves side effects only. -/
def Import.IsBlank (i : Import) : Prop := i.name? = some "_"

namespace Qualifier

/-- The imports of a package, in the order of the file. -/
def importsOf (q : Qualifier) (path : String) : List Import := q.imports.filter (·.path = path)

/-- The names that the imports of a package give to it. A plain import gives none. -/
def aliases (q : Qualifier) (path : String) : List String := (q.importsOf path).filterMap (·.name?)

/-- The qualifier of a file with the same imports in another order. -/
def Reorders (q q' : Qualifier) : Prop := q'.current = q.current ∧ q'.imports.Perm q.imports

variable {q q' : Qualifier} {path : String} {scope : Scope}

theorem mem_aliases_iff {name : String} :
    name ∈ q.aliases path ↔ ∃ i ∈ q.importsOf path, i.name? = some name :=
  List.mem_filterMap

theorem rename?_eq_getLast? (q : Qualifier) (path : String) :
    q.rename? path = (q.aliases path).getLast? := by
  rw [rename?, ← List.head?_filterMap, List.filterMap_reverse, List.head?_reverse, aliases, importsOf,
    List.filterMap_filter]
  simp only [decide_eq_true_eq]

/-- Only the last name that is given to a package decides. -/
theorem lead?_eq_none_iff_getLast? :
    q.lead? scope = none ↔ scope ≠ q.current ∧ (q.aliases scope.path).getLast? = some "_" := by
  rw [lead?, rename?_eq_getLast?]
  by_cases hscope : scope = q.current
  · rw [if_pos hscope]
    exact ⟨nofun, fun h => absurd hscope h.1⟩
  · rw [if_neg hscope]
    split <;> simp_all

theorem Reorders.aliases (h : q.Reorders q') (path : String) :
    (q'.aliases path).Perm (q.aliases path) :=
  (h.2.filter _).filterMap _

/-- Any import can be made the last one, so that its name decides. -/
theorem exists_reorders_getLast? {i : Import} {name : String} (hi : i ∈ q.importsOf path)
    (hname : i.name? = some name) :
    ∃ q', q.Reorders q' ∧ (q'.aliases path).getLast? = some name := by
  obtain ⟨hmem, hpath⟩ := List.mem_filter.1 hi
  refine ⟨⟨q.current, q.imports.erase i ++ [i]⟩, ⟨rfl, ?_⟩, ?_⟩
  · exact (List.perm_append_singleton i _).trans (List.perm_cons_erase hmem).symm
  · have hlast : [i].filter (·.path = path) = [i] := List.filter_cons_of_pos hpath
    rw [Qualifier.aliases, importsOf, List.filter_append, hlast, List.filterMap_append,
      List.filterMap_cons_some hname]
    exact List.getLast?_concat

theorem getLast?_eq_blank_of_forall {names : List String} (h : ∀ name ∈ names, name = "_") :
    names.getLast? = some "_" ↔ names ≠ [] := by
  constructor
  · rintro hlast rfl
    cases hlast
  · intro hne
    rw [List.getLast?_eq_some_getLast hne, h _ (List.getLast_mem hne)]

/-- Whether a package has a name in a file is the same for all orders of its imports exactly if no blank one
meets one that gives it a name. -/
theorem lead?_reorders_iff :
    (∀ q', q.Reorders q' → (q'.lead? scope = none ↔ q.lead? scope = none)) ↔
      scope = q.current ∨ "_" ∉ q.aliases scope.path ∨ ∀ name ∈ q.aliases scope.path, name = "_" := by
  constructor
  · intro h
    by_contra! hmixed
    obtain ⟨hscope, hblank, name, hname, hne⟩ := hmixed
    obtain ⟨i, hi, hiname⟩ := mem_aliases_iff.1 hblank
    obtain ⟨j, hj, hjname⟩ := mem_aliases_iff.1 hname
    obtain ⟨q₁, hq₁, hlast₁⟩ := exists_reorders_getLast? hi hiname
    obtain ⟨q₂, hq₂, hlast₂⟩ := exists_reorders_getLast? hj hjname
    have hfails : q₁.lead? scope = none := lead?_eq_none_iff_getLast?.2 ⟨hq₁.1 ▸ hscope, hlast₁⟩
    have hfails : q₂.lead? scope = none := (h q₂ hq₂).2 ((h q₁ hq₁).1 hfails)
    have hlast := (lead?_eq_none_iff_getLast?.1 hfails).2
    exact hne (Option.some.inj (hlast₂.symm.trans hlast))
  · rintro h q' hq'
    rw [lead?_eq_none_iff_getLast?, lead?_eq_none_iff_getLast?, hq'.1]
    have hperm := hq'.aliases scope.path
    rcases h with rfl | hnone | hall
    · exact ⟨fun h => absurd rfl h.1, fun h => absurd rfl h.1⟩
    · have hnone' : "_" ∉ q'.aliases scope.path := fun hmem => hnone (hperm.mem_iff.1 hmem)
      exact ⟨fun h => absurd (List.mem_of_getLast? h.2) hnone',
        fun h => absurd (List.mem_of_getLast? h.2) hnone⟩
    · have hall' : ∀ name ∈ q'.aliases scope.path, name = "_" := fun name hname =>
        hall name (hperm.mem_iff.1 hname)
      rw [getLast?_eq_blank_of_forall hall, getLast?_eq_blank_of_forall hall', ← List.length_pos_iff,
        ← List.length_pos_iff, hperm.length_eq]

/-- As long as blank imports of a package stand alone, it has no name exactly if it is imported and only
for its side effects. -/
theorem lead?_eq_none_iff_of_unmixed
    (h : (∀ i ∈ q.importsOf scope.path, i.IsBlank) ∨ ∀ i ∈ q.importsOf scope.path, ¬i.IsBlank) :
    q.lead? scope = none ↔
      scope ≠ q.current ∧ q.importsOf scope.path ≠ [] ∧ ∀ i ∈ q.importsOf scope.path, i.IsBlank := by
  rw [lead?_eq_none_iff_getLast?]
  refine and_congr_right fun _ => ?_
  rcases h with hall | hnone
  · have hnames : q.aliases scope.path = (q.importsOf scope.path).map fun _ => "_" := by
      rw [Qualifier.aliases, List.filterMap_congr hall, ← Function.comp_def, List.filterMap_eq_map]
    rw [getLast?_eq_blank_of_forall (by simp [hnames]), hnames, ne_eq, List.map_eq_nil_iff]
    exact ⟨fun hne => ⟨hne, hall⟩, And.left⟩
  · constructor
    · intro hlast
      obtain ⟨i, hi, hname⟩ := mem_aliases_iff.1 (List.mem_of_getLast? hlast)
      exact absurd hname (hnone i hi)
    · rintro ⟨hne, hall⟩
      obtain ⟨i, hi⟩ := List.exists_mem_of_ne_nil _ hne
      exact absurd (hall i hi) (hnone i hi)

/-- A package of another scope has no name in a file exactly if the last name that the file gives to it is
blank; plain imports do not count. So the order of the imports matters exactly where a blank import meets
one that gives a name, and where blank imports stand alone, a package has no name exactly if it is
imported and only for its side effects. -/
theorem lead?_eq_none_iff (q : Qualifier) (scope : Scope) :
    (q.lead? scope = none ↔ scope ≠ q.current ∧ (q.aliases scope.path).getLast? = some "_") ∧
      ((∀ q', q.Reorders q' → (q'.lead? scope = none ↔ q.lead? scope = none)) ↔
        scope = q.current ∨ "_" ∉ q.aliases scope.path ∨ ∀ name ∈ q.aliases scope.path, name = "_") ∧
      ((∀ i ∈ q.importsOf scope.path, i.IsBlank) ∨ (∀ i ∈ q.importsOf scope.path, ¬i.IsBlank) →
        (q.lead? scope = none ↔
          scope ≠ q.current ∧ q.importsOf scope.path ≠ [] ∧
            ∀ i ∈ q.importsOf scope.path, i.IsBlank)) :=
  ⟨lead?_eq_none_iff_getLast?, lead?_reorders_iff, lead?_eq_none_iff_of_unmixed⟩

/-- A blank import takes the name from a package that is imported plainly as well, and so it does from one
under another name, unless it comes first. -/
theorem lead?_blank_beside_plain :
    let lib : Scope := ⟨"example.com/lib", "lib"⟩
    let file (imports : List Import) : Qualifier := ⟨⟨"example.com/app", "main"⟩, imports⟩
    let plain : Import := ⟨lib.path, none⟩
    let blank : Import := ⟨lib.path, some "_"⟩
    let renamed : Import := ⟨lib.path, some "l"⟩
    (file [plain, blank]).lead? lib = none ∧
      ¬(∀ i ∈ (file [plain, blank]).importsOf lib.path, i.IsBlank) ∧
      (file [renamed, blank]).lead? lib = none ∧ (file [blank, renamed]).lead? lib = some (.package "l") := by
  intro lib file plain blank renamed
  refine ⟨by decide, fun h => ?_, by decide, by decide⟩
  have hplain : plain.IsBlank := h plain (by decide)
  cases hplain

end Qualifier

end LiteralFill
