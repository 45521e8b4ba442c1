import Mathlib.Data.Set.Finite.Lattice
import Mathlib.Data.Set.Finite.List
import Mathlib.Order.WellFoundedSet

namespace LiteralFill

open Relation (ReflTransGen TransGen)

variable {α : Type} {r : α → α → Prop} {a : α}

/-- With finitely many steps from each place, no endless way leads to infinitely many places. -/
theorem finite_reachable_of_acc (hstep : ∀ a, {b | r a b}.Finite) (h : Acc (fun b a => r a b) a) :
    {b | ReflTransGen r a b}.Finite := by
  induction h with
  | intro a _ ih =>
    refine Set.Finite.subset ((Set.finite_singleton a).union ((hstep a).biUnion fun b hb => ih b hb)) ?_
    intro c hc
    rcases hc.cases_head with rfl | ⟨b, hb, hc⟩
    · exact .inl rfl
    · exact .inr (Set.mem_biUnion hb hc)

/-- Among finitely many places, a way that never ends comes by the same place twice. -/
theorem acc_of_finite (hfin : {b | ReflTransGen r a b}.Finite)
    (h : ∀ b, ReflTransGen r a b → ¬TransGen r b b) : Acc (fun b a => r a b) a := by
  -- without cycles, to lie further along the way is a strict order, and a finite one is well-founded
  let before (c b : α) : Prop := ReflTransGen r a b ∧ TransGen r b c
  have : IsStrictOrder α before :=
    { irrefl := fun b hb => h b hb.1 hb.2
      trans := fun _ _ _ hcb hba => ⟨hba.1, hba.2.trans hcb.2⟩ }
  have hwf : Set.WellFoundedOn {b | ReflTransGen r a b} before := Set.Finite.wellFoundedOn hfin
  refine hwf.induction (P := fun b => Acc (fun b a => r a b) b) ReflTransGen.refl fun b hb ih => ?_
  exact Acc.intro b fun c hc => ih c (hb.tail hc) ⟨hb, .single hc⟩

theorem not_transGen_of_acc (h : Acc (fun b a => r a b) a) : ¬TransGen r a a := by
  have hacc := h.transGen
  induction hacc with
  | intro b _ ih =>
    intro hb
    exact ih b (Relation.transGen_swap.1 hb) h hb

theorem acc_of_reflTransGen {b : α} (h : Acc (fun b a => r a b) a) (hab : ReflTransGen r a b) :
    Acc (fun b a => r a b) b := by
  induction hab with
  | refl => exact h
  | tail _ hstep ih => exact ih.inv hstep

theorem finite_nodup_lists {s : Set α} (hs : s.Finite) :
    {l : List α | l.Nodup ∧ ∀ a ∈ l, a ∈ s}.Finite := by
  classical
  have := hs.to_subtype
  refine ((List.finite_length_le s hs.toFinset.card).image (List.map Subtype.val)).subset ?_
  rintro l ⟨hnodup, hmem⟩
  have hlength : l.length ≤ hs.toFinset.card := by
    rw [← List.toFinset_card_of_nodup hnodup]
    exact Finset.card_le_card fun a ha => hs.mem_toFinset.2 (hmem a (List.mem_toFinset.1 ha))
  -- the lists over `s` as a type of its own are finitely many, being no longer than `s` is large
  lift l to List s using hmem
  exact ⟨l, by simpa using hlength, rfl⟩

end LiteralFill
