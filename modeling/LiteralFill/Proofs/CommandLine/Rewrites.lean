import LiteralFill.Proofs.CommandLine.Parse
import Mathlib.Logic.Relation

namespace LiteralFill

open Relation (ReflTransGen)

/-- Flags and the same flags given in another way: with a text joined or apart, two different ones
exchanged, or one left out that is given again. -/
inductive Given.Rewrites : List Given → List Given → Prop where
  | split (n : Nat) (flag : ValueFlag) (text : String) (rest : List Given) :
    Rewrites (.joined n (.value flag) text :: rest) (.apart n flag text :: rest)
  | join (n : Nat) (flag : ValueFlag) (text : String) (rest : List Given) :
    Rewrites (.apart n flag text :: rest) (.joined n (.value flag) text :: rest)
  | exchange {g g' : Given} (rest : List Given) :
    g.flag ≠ g'.flag → Rewrites (g :: g' :: rest) (g' :: g :: rest)
  | drop {g : Given} {rest : List Given} : g.flag ∈ rest.map Given.flag → Rewrites (g :: rest) rest
  | behind (g : Given) {rest rest' : List Given} :
    Rewrites rest rest' → Rewrites (g :: rest) (g :: rest')

/-- Arguments whose flags are rewritten once. -/
def RewrittenTo (args args' : List String) : Prop :=
  ∃ given given', given.flatMap Given.arguments = args ∧ given'.flatMap Given.arguments = args' ∧
    Given.Rewrites given given'

namespace Given.Rewrites

variable {given given' : List Given}

theorem isValid (h : Rewrites given given') (hvalid : ∀ g ∈ given, g.IsValid) :
    ∀ g ∈ given', g.IsValid := by
  induction h with
  | split n flag text rest | join n flag text rest =>
    obtain ⟨htext, hrest⟩ := List.forall_mem_cons.1 hvalid
    exact List.forall_mem_cons.2 ⟨htext, hrest⟩
  | exchange rest _ =>
    obtain ⟨hg, htail⟩ := List.forall_mem_cons.1 hvalid
    obtain ⟨hg', hrest⟩ := List.forall_mem_cons.1 htail
    exact List.forall_mem_cons.2 ⟨hg', List.forall_mem_cons.2 ⟨hg, hrest⟩⟩
  | drop _ => exact (List.forall_mem_cons.1 hvalid).2
  | behind g _ ih =>
    obtain ⟨hg, hrest⟩ := List.forall_mem_cons.1 hvalid
    exact List.forall_mem_cons.2 ⟨hg, ih hrest⟩

/-- What one flag is told last stays the same, if it is told whenever it is given. -/
theorem getLast?_filterMap {α : Type} {told : Given → Option α} {flag : Flag}
    (htold : ∀ g, (told g).isSome ↔ g.flag = flag)
    (hjoined : ∀ n f text, told (.joined n (.value f) text) = told (.apart n f text))
    (h : Rewrites given given') :
    (given'.filterMap told).getLast? = (given.filterMap told).getLast? := by
  have hnone (g : Given) (hg : g.flag ≠ flag) : told g = none := by
    rw [← Option.not_isSome_iff_eq_none, htold]
    exact hg
  induction h with
  | split n f text rest => simp only [List.filterMap_cons, hjoined]
  | join n f text rest => simp only [List.filterMap_cons, hjoined]
  | @exchange g g' rest hne =>
    -- one of the two is another flag
    by_cases hg : g.flag = flag
    · have hg' : told g' = none := hnone g' fun h => hne (hg.trans h.symm)
      simp only [List.filterMap_cons, hg']
    · simp only [List.filterMap_cons, hnone g hg]
  | @drop g rest hmem =>
    by_cases hg : g.flag = flag
    · obtain ⟨a, ha⟩ := Option.isSome_iff_exists.1 ((htold g).2 hg)
      have hrest : rest.filterMap told ≠ [] := by
        obtain ⟨g', hmem, hflag⟩ := List.mem_map.1 hmem
        obtain ⟨b, hb⟩ := Option.isSome_iff_exists.1 ((htold g').2 (hflag.trans hg))
        exact List.ne_nil_of_mem (List.mem_filterMap.2 ⟨g', hmem, hb⟩)
      rw [List.filterMap_cons_some ha, List.getLast?_cons_of_ne_nil hrest]
    · rw [List.filterMap_cons_none (hnone g hg)]
  | @behind g rest rest' _ ih =>
    cases hg : told g with
    | none => rw [List.filterMap_cons_none hg, List.filterMap_cons_none hg, ih]
    | some a =>
      rw [List.filterMap_cons_some hg, List.filterMap_cons_some hg, List.getLast?_cons,
        List.getLast?_cons, ih]

theorem lastText?_eq (h : Rewrites given given') (flag : ValueFlag) :
    lastText? given' flag = lastText? given flag :=
  h.getLast?_filterMap (fun g => g.isSome_text?_iff) fun _ _ _ => rfl

theorem lastSetting?_eq (h : Rewrites given given') (flag : SwitchFlag) :
    lastSetting? given' flag = lastSetting? given flag :=
  h.getLast?_filterMap (fun g => g.isSome_setting?_iff) fun _ _ _ => rfl

theorem hold (h : Rewrites given given') {flags : Flags} (hflags : flags.Hold given) :
    flags.Hold given' where
  texts flag := by
    rw [h.lastText?_eq]
    exact hflags.texts flag
  switches flag := by
    rw [h.lastSetting?_eq]
    exact hflags.switches flag

end Given.Rewrites

/-- One rewriting leaves the flags, and with them what is asked for. -/
theorem RewrittenTo.parse_eq_ok {args args' : List String} {c : FillCommand}
    (h : RewrittenTo args args') (hparse : FillCommand.parse args = .ok c) :
    FillCommand.parse args' = .ok c := by
  obtain ⟨given, given', rfl, rfl, hrewrites⟩ := h
  rw [FillCommand.parse_eq_ok_iff_read] at hparse ⊢
  obtain ⟨more, hsplits, hhold⟩ := Flags.hold_unset.exists_splits hparse
  obtain rfl : more = given := Given.flatMap_arguments_injective hsplits.arguments
  obtain ⟨flags, hread, hflags⟩ := Flags.hold_unset.exists_read (hrewrites.isValid hsplits.valid)
  rw [hread, hflags.unique (hrewrites.hold hhold)]

/-- Accepted arguments ask for the same command however often their flags are rewritten. -/
theorem FillCommand.parse_of_rewrittenTo {args args' : List String} {c : FillCommand}
    (hparse : FillCommand.parse args = .ok c) (h : ReflTransGen RewrittenTo args args') :
    FillCommand.parse args' = .ok c := by
  induction h with
  | refl => exact hparse
  | tail _ hstep ih => exact hstep.parse_eq_ok ih

/-- A file named like a flag, and an offset that is taken back by a later zero. -/
theorem FillCommand.parse_of_rewrittenTo_zero :
    FillCommand.parse ["-offset=5", "-file", "-line=3", "--offset", "0", "-modified"] =
        .ok ⟨⟨⟨"-line=3"⟩, none, none⟩, true, none, false⟩ ∧
      ReflTransGen RewrittenTo ["-offset=5", "-file", "-line=3", "--offset", "0", "-modified"]
        ["--offset=0", "-file=-line=3", "-modified"] ∧
      FillCommand.parse ["--offset=0", "-file=-line=3", "-modified"] =
        .ok ⟨⟨⟨"-line=3"⟩, none, none⟩, true, none, false⟩ := by
  have hparse : FillCommand.parse ["-offset=5", "-file", "-line=3", "--offset", "0", "-modified"] =
      .ok ⟨⟨⟨"-line=3"⟩, none, none⟩, true, none, false⟩ := rfl
  have hdrop : RewrittenTo ["-offset=5", "-file", "-line=3", "--offset", "0", "-modified"]
      ["-file", "-line=3", "--offset", "0", "-modified"] :=
    ⟨[.joined 1 (.value .offset) "5", .apart 1 .file "-line=3", .apart 2 .offset "0",
      .alone 1 .modified], _, rfl, rfl, .drop (by decide)⟩
  have hexchange : RewrittenTo ["-file", "-line=3", "--offset", "0", "-modified"]
      ["--offset", "0", "-file", "-line=3", "-modified"] :=
    ⟨[.apart 1 .file "-line=3", .apart 2 .offset "0", .alone 1 .modified], _, rfl, rfl,
      .exchange _ (by decide)⟩
  have hjoin : RewrittenTo ["--offset", "0", "-file", "-line=3", "-modified"]
      ["--offset=0", "-file", "-line=3", "-modified"] :=
    ⟨[.apart 2 .offset "0", .apart 1 .file "-line=3", .alone 1 .modified], _, rfl, rfl,
      .join _ _ _ _⟩
  have hjoinFile : RewrittenTo ["--offset=0", "-file", "-line=3", "-modified"]
      ["--offset=0", "-file=-line=3", "-modified"] :=
    ⟨[.joined 2 (.value .offset) "0", .apart 1 .file "-line=3", .alone 1 .modified], _, rfl, rfl,
      .behind _ (.join _ _ _ _)⟩
  have h := (((ReflTransGen.single hdrop).tail hexchange).tail hjoin).tail hjoinFile
  exact ⟨hparse, h, FillCommand.parse_of_rewrittenTo hparse h⟩

end LiteralFill
