import LiteralFill.Proofs.Fill.Gathered
import LiteralFill.Proofs.TypeTable.Nodes

namespace LiteralFill

/-- Types whose zero value is `nil`, whatever they are made of. Of pointers that holds of some only. -/
def Ty.hasNil : Ty → Bool
  | .chan _ _ | .func _ | .slice _ | .interface _ => true
  | _ => false

/-- Types with a zero value that the file may write. A struct never fails for its fields, since those
that cannot be written are left out of it. -/
inductive Renderable (v : Viewpoint) : Option Nat → Bool → Ty → Prop
  | basic {decl? : Option Nat} {elided : Bool} {kind : BasicKind} {e : Expr} :
    kind.zeroAt? noPos = some e → Renderable v decl? elided (.basic kind)
  | nil {decl? : Option Nat} {elided : Bool} {ty : Ty} :
    ty.hasNil = true → Renderable v decl? elided ty
  | array {decl? : Option Nat} {elided : Bool} {len : Nat} {elem : Ty} :
    elided = true ∨ v.CanName elem → (0 < len → Renderable v none true elem) →
      Renderable v decl? elided (.array len elem)
  | map {decl? : Option Nat} {elided : Bool} {key value : Ty} :
    v.CanName key → v.CanName value → Renderable v none true key → Renderable v none true value →
      Renderable v decl? elided (.map key value)
  | struct {decl? : Option Nat} {elided : Bool} {fields : List Field} :
    elided = true ∨ v.CanName (decl?.elim (.struct fields) .named) →
      Renderable v decl? elided (.struct fields)
  | named {decl? : Option Nat} {elided : Bool} {decl : Nat} {target : Node} :
    v.table.underlyingNode (.root (.named decl)) = .ok target →
      Renderable v (if target.ty.isStruct then some decl else none) elided target.ty →
      Renderable v decl? elided (.named decl)
  | structPointer {decl? : Option Nat} {elided : Bool} {elem target : Ty} :
    v.table.underlying elem = .ok target → target.isStruct = true → Renderable v decl? elided elem →
      Renderable v decl? elided (.pointer elem)
  | pointer {decl? : Option Nat} {elided : Bool} {elem target : Ty} :
    v.table.underlying elem = .ok target → target.isStruct = false →
      Renderable v decl? elided (.pointer elem)

/-- A field gets a value of its own if it may be named and its zero value can be written. -/
def Field.IsDefaulted (v : Viewpoint) (f : Field) : Prop :=
  f.visibleFrom v.current = true ∧ Renderable v none false f.ty

mutual

/-- The zero values of the type at a node, inside the structs of `path`. -/
inductive IsZero (v : Viewpoint) : List Place → Style → Node → Expr → Prop
  | basic {path : List Place} {style : Style} {node : Node} {kind : BasicKind} {e : Expr} :
    node.ty = .basic kind → kind.zeroAt? noPos = some e → IsZero v path style node e
  | nil {path : List Place} {style : Style} {node : Node} :
    node.ty.hasNil = true → IsZero v path style node (nilAt noPos)
  | array {path : List Place} {style : Style} {node : Node} {len : Nat} {elem : Ty}
    {type? : Option Expr} {elts : List Expr} :
    node.ty = .array len elem → (style.bareType? (arrayTypeAt v · len elem)).outcome = .ok type? →
      elts.length = len → (∀ e ∈ elts, IsZero v path .elidedType (node.child 0 elem) e) →
      IsZero v path style node (.compositeLit type? noPos elts noPos)
  | map {path : List Place} {style : Style} {node : Node} {key value : Ty} {type? : Option Expr}
    {k e : Expr} :
    node.ty = .map key value → (Style.plain.bareType? (mapTypeAt v · key value)).outcome = .ok type? →
      IsZero v path .elidedType (node.child 0 key) k →
      IsZero v path .elidedType (node.child 1 value) e →
      IsZero v path style node (.compositeLit type? noPos [.keyValue k noPos e] noPos)
  | innerStruct {path : List Place} {style : Style} {node : Node} {fields : List Field}
    {type? : Option Expr} :
    node.ty = .struct fields → (style.bareType? (structTypeAt v style · fields)).outcome = .ok type? →
      node.place ∈ path → IsZero v path style node (.compositeLit type? noPos [] noPos)
  | struct {path : List Place} {style : Style} {node : Node} {fields : List Field}
    {type? : Option Expr} {elts : List Expr} :
    node.ty = .struct fields → (style.bareType? (structTypeAt v style · fields)).outcome = .ok type? →
      node.place ∉ path →
      HasEntries v (fun _ => none) (node.place :: path) node 0 fields elts →
      IsZero v path style node (.compositeLit type? noPos elts noPos)
  | named {path : List Place} {style : Style} {node target : Node} {decl : Nat} {e : Expr} :
    node.ty = .named decl → v.table.underlyingNode node = .ok target →
      IsZero v path { style with decl? := if target.ty.isStruct then some decl else none } target e →
      IsZero v path style node e
  | structPointer {path : List Place} {style : Style} {node : Node} {elem target : Ty} {e : Expr} :
    node.ty = .pointer elem → v.table.underlying elem = .ok target → target.isStruct = true →
      IsZero v path { style with addressed := true } (node.child 0 elem) e →
      IsZero v path style node e
  | pointer {path : List Place} {style : Style} {node : Node} {elem target : Ty} :
    node.ty = .pointer elem → v.table.underlying elem = .ok target → target.isStruct = false →
      IsZero v path style node (nilAt noPos)

/-- The entries of a struct literal for the fields from number `i` on, in their order: one for each field
that has been written, with what was written, and for each other one that is defaulted, with a zero
value. -/
inductive HasEntries (v : Viewpoint) :
    (String → Option Expr) → List Place → Node → Nat → List Field → List Expr → Prop
  | nil {written : String → Option Expr} {path : List Place} {node : Node} {i : Nat} :
    HasEntries v written path node i [] []
  | written {written : String → Option Expr} {path : List Place} {node : Node} {i : Nat} {f : Field}
    {fields : List Field} {value : Expr} {elts : List Expr} :
    written f.name = some value → HasEntries v written path node (i + 1) fields elts →
      HasEntries v written path node i (f :: fields) (.entry f.name value :: elts)
  | defaulted {written : String → Option Expr} {path : List Place} {node : Node} {i : Nat} {f : Field}
    {fields : List Field} {value : Expr} {elts : List Expr} :
    written f.name = none → f.IsDefaulted v → IsZero v path .plain (node.child i f.ty) value →
      HasEntries v written path node (i + 1) fields elts →
      HasEntries v written path node i (f :: fields) (.entry f.name value :: elts)
  | left {written : String → Option Expr} {path : List Place} {node : Node} {i : Nat} {f : Field}
    {fields : List Field} {elts : List Expr} :
    written f.name = none → ¬f.IsDefaulted v → HasEntries v written path node (i + 1) fields elts →
      HasEntries v written path node i (f :: fields) elts

end

variable {v : Viewpoint}

/-- Entries that follow the fields give a struct literal what it has to have. -/
theorem hasEntries_of_bareEntries {valueOf : Nat → Field → Attempt Expr} {node : Node}
    {path : List Place} {written : String → Option Expr}
    (hok : ∀ i f e, (valueOf i f).outcome = .ok e → IsZero v path .plain (node.child i f.ty) e ∧
      Renderable v none false f.ty)
    (herr : ∀ i f hidden, (valueOf i f).outcome = .error (.unrenderable hidden) →
      ¬Renderable v none false f.ty)
    {fields : List Field} {entries : Entries} {i : Nat} {elts : List Expr}
    (hnames : entries = [] ∨ (fields.map (·.name)).Nodup)
    (hwritten : ∀ f ∈ fields, entries.value? f.name = written f.name)
    (h : (bareEntries v valueOf entries i fields).outcome = .ok elts) :
    HasEntries v written path node i fields elts := by
  obtain ⟨kept, hkept, rfl⟩ := gathered_of_bareEntries h
  clear h
  induction hkept with
  | nil => exact .nil
  | @written entries _ _ f _ _ hval _ ih =>
    obtain ⟨hf, hrest⟩ := List.forall_mem_cons.1 hwritten
    rcases hnames with rfl | hnames
    · cases hval
    obtain ⟨hnotMem, hnodup⟩ := List.nodup_cons.1 hnames
    refine .written (hf.symm.trans hval) (ih (.inr hnodup) fun f' hf' => ?_)
    have hne : f'.name ≠ f.name := fun heq => hnotMem (List.mem_map.2 ⟨f', hf', heq⟩)
    rw [Entries.value?_remove_of_ne entries hne]
    exact hrest f' hf'
  | fresh hval hvis hx _ ih =>
    obtain ⟨hf, hrest⟩ := List.forall_mem_cons.1 hwritten
    obtain ⟨hzero, hr⟩ := hok _ _ _ hx
    exact .defaulted (hf.symm.trans hval) ⟨hvis, hr⟩ hzero
      (ih (hnames.imp_right fun h => (List.nodup_cons.1 h).2) hrest)
  | omitted hval _ hx _ ih =>
    obtain ⟨hf, hrest⟩ := List.forall_mem_cons.1 hwritten
    exact .left (hf.symm.trans hval) (fun hd => herr _ _ _ hx hd.2)
      (ih (hnames.imp_right fun h => (List.nodup_cons.1 h).2) hrest)
  | unseen hval hvis _ ih =>
    obtain ⟨hf, hrest⟩ := List.forall_mem_cons.1 hwritten
    exact .left (hf.symm.trans hval) (fun hd => Bool.eq_false_iff.1 hvis hd.1)
      (ih (hnames.imp_right fun h => (List.nodup_cons.1 h).2) hrest)

/-- What cannot be written is left out field by field. It never takes the struct with it. -/
theorem bareEntries_ne_unrenderable {valueOf : Nat → Field → Attempt Expr} (fields : List Field)
    (entries : Entries) (i : Nat) (hidden : String) :
    (bareEntries v valueOf entries i fields).outcome ≠ .error (.unrenderable hidden) := by
  induction fields generalizing entries i with
  | nil => nofun
  | cons f rest ih =>
    intro h
    rw [bareEntries] at h
    split at h
    · exact ih _ _ (Attempt.bind_pure_eq_error_iff.1 h)
    · split at h
      · rcases Attempt.bind_eq_error_iff.1 h with h | ⟨value?, -, h⟩
        · exact (Attempt.orOmit_eq_error_iff.1 h).2 hidden rfl
        · exact ih _ _ (Attempt.bind_pure_eq_error_iff.1 h)
      · exact ih _ _ h

/-- A value that is left out is of a type that has none to write. -/
theorem not_renderable_of_bareZero {depth : Nat} {path : List Place} {style : Style} {node : Node}
    {hidden : String}
    (h : (bareZero v depth path style node).outcome = .error (.unrenderable hidden)) :
    ¬Renderable v style.decl? style.elided node.ty := by
  induction depth generalizing path style node with
  | zero => cases h
  | succ depth ih =>
    rw [bareZero] at h
    intro hr
    cases hty : node.ty with
    | basic kind =>
      simp only [hty] at h
      cases eq_of_bareBasic_eq_error h
    | chan _ _ | func _ | slice _ | interface _ =>
      simp only [hty] at h
      cases h
    | array len elem =>
      simp only [hty] at h hr
      cases hr with
      | nil hn => cases hn
      | array hname helem =>
        rcases bareLiteral_eq_error_iff.1 h with ⟨hel, ht⟩ | ⟨-, h⟩
        · obtain ⟨type, htype⟩ := exists_arrayTypeAt_iff.2 (hname.resolve_left (by simp [hel]))
          rw [htype] at ht
          cases ht
        · obtain ⟨hlen, h⟩ := Attempt.copies_eq_error_iff.1 h
          exact ih h (helem hlen)
    | map key value =>
      simp only [hty] at h hr
      cases hr with
      | nil hn => cases hn
      | map hkey hvalue hk hv =>
        rcases bareLiteral_eq_error_iff.1 h with ⟨-, ht⟩ | ⟨-, h⟩
        · obtain ⟨type, htype⟩ := exists_mapTypeAt_iff.2 ⟨hkey, hvalue⟩
          rw [htype] at ht
          cases ht
        · rcases bareMapEntry_eq_error_iff.1 h with h | ⟨k, -, h⟩
          · exact ih h hk
          · exact ih h hv
    | struct fields =>
      simp only [hty] at h hr
      cases hr with
      | nil hn => cases hn
      | struct hname =>
        rcases bareLiteral_eq_error_iff.1 h with ⟨hel, ht⟩ | ⟨-, h⟩
        · obtain ⟨type, htype⟩ := exists_structTypeAt_iff.2 (hname.resolve_left (by simp [hel]))
          rw [htype] at ht
          cases ht
        -- once its name is written, a struct cannot fail for what is in it
        · unfold bareStructEntries at h
          split at h
          · cases h
          · exact bareEntries_ne_unrenderable fields [] 0 hidden h
    | named decl =>
      simp only [hty] at h hr
      obtain ⟨target, htarget, h⟩ := (lookup_eq_error_iff (by simp)).1 h
      rw [v.table.underlyingNode_of_named hty] at htarget
      cases hr with
      | nil hn => cases hn
      | named htarget' hr =>
        cases htarget.symm.trans htarget'
        exact ih h hr
    | pointer elem =>
      simp only [hty] at h hr
      obtain ⟨target, htarget, h⟩ := (lookup_eq_error_iff (by simp)).1 h
      split at h
      · rename_i hstruct
        cases hr with
        | nil hn => cases hn
        | structPointer _ _ hr => exact ih h hr
        | pointer htarget' hstruct' =>
          cases htarget.symm.trans htarget'
          rw [hstruct'] at hstruct
          cases hstruct
      · cases h
    | tuple elems =>
      rw [hty] at hr
      cases hr with
      | nil hn => cases hn

/-- A value that is written is a zero value, of a type that has one to write. -/
theorem isZero_of_bareZero {depth : Nat} {path : List Place} {style : Style} {node : Node} {e : Expr}
    (h : (bareZero v depth path style node).outcome = .ok e) :
    IsZero v path style node e ∧ Renderable v style.decl? style.elided node.ty := by
  induction depth generalizing path style node e with
  | zero => cases h
  | succ depth ih =>
    rw [bareZero] at h
    cases hty : node.ty with
    | basic kind =>
      simp only [hty] at h
      have hk := bareBasic_eq_ok_iff.1 h
      exact ⟨.basic hty hk, .basic hk⟩
    | chan _ _ | func _ | slice _ | interface _ =>
      simp only [hty] at h
      cases h
      exact ⟨.nil (by rw [hty]; rfl), .nil rfl⟩
    | array len elem =>
      simp only [hty] at h
      obtain ⟨type?, elts, htype, hin, rfl⟩ := bareLiteral_eq_ok h
      obtain ⟨hlength, helts⟩ := Attempt.copies_eq_ok hin
      refine ⟨.array hty htype hlength fun e he => (ih (helts e he)).1, .array ?_ fun hlen => ?_⟩
      · exact (exists_bareType?_iff.1 ⟨_, htype⟩).imp_right exists_arrayTypeAt_iff.1
      -- the type of the elements is only looked at if there is one
      · obtain ⟨e, he⟩ := List.exists_mem_of_length_pos (hlength.symm ▸ hlen)
        exact (ih (helts e he)).2
    | map key value =>
      simp only [hty] at h
      obtain ⟨type?, elts, htype, hin, rfl⟩ := bareLiteral_eq_ok h
      obtain ⟨k, hk, hin⟩ := Attempt.bind_eq_ok hin
      obtain ⟨e, he, hin⟩ := Attempt.bind_eq_ok hin
      cases hin
      obtain ⟨hkZero, hkey⟩ := ih hk
      obtain ⟨heZero, hvalue⟩ := ih he
      obtain ⟨hkName, heName⟩ := exists_mapTypeAt_iff.1
        ((exists_bareType?_iff.1 ⟨_, htype⟩).resolve_left Bool.false_ne_true)
      exact ⟨.map hty htype hkZero heZero, .map hkName heName hkey hvalue⟩
    | struct fields =>
      simp only [hty] at h
      obtain ⟨type?, elts, htype, hin, rfl⟩ := bareLiteral_eq_ok h
      have hname := (exists_bareType?_iff.1 ⟨_, htype⟩).imp_right exists_structTypeAt_iff.1
      refine ⟨?_, .struct hname⟩
      unfold bareStructEntries at hin
      split at hin
      · rename_i hplace
        cases hin
        exact .innerStruct hty htype hplace
      · rename_i hplace
        refine .struct hty htype hplace (hasEntries_of_bareEntries (fun i f e he => ih he) ?_
          (.inl rfl) (fun f _ => rfl) hin)
        exact fun i f hidden he => not_renderable_of_bareZero he
    | named decl =>
      simp only [hty] at h
      obtain ⟨target, htarget, h⟩ := Attempt.bind_eq_ok h
      have htarget : v.table.underlyingNode node = .ok target := mapError_eq_ok.1 htarget
      obtain ⟨hzero, hr⟩ := ih h
      refine ⟨.named hty htarget hzero, .named ?_ hr⟩
      rwa [v.table.underlyingNode_of_named hty] at htarget
    | pointer elem =>
      simp only [hty] at h
      obtain ⟨target, htarget, h⟩ := Attempt.bind_eq_ok h
      have htarget : v.table.underlying elem = .ok target := mapError_eq_ok.1 htarget
      split at h
      · rename_i hstruct
        obtain ⟨hzero, hr⟩ := ih h
        exact ⟨.structPointer hty htarget hstruct hzero, .structPointer htarget hstruct hr⟩
      · rename_i hstruct
        cases h
        have hstruct : target.isStruct = false := by simpa using hstruct
        exact ⟨.pointer hty htarget hstruct, .pointer htarget hstruct⟩
    | tuple elems =>
      simp only [hty, Attempt.outcome_ofExcept] at h
      cases hd : v.describe (.tuple elems) with
      | error e => rw [hd] at h; cases h
      | ok name => rw [hd] at h; cases h

end LiteralFill
