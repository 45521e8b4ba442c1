import LiteralFill.Proofs.Fill.Depth

namespace LiteralFill

/-- A zero value that is asked for. -/
structure Call where
  path : List Place
  style : Style
  node : Node

def Call.attempt (v : Viewpoint) (depth : Nat) (c : Call) : Attempt Expr :=
  bareZero v depth c.path c.style c.node

/-- The search for a zero value comes to an end, be it with a value or without. -/
def Call.Ends (v : Viewpoint) (c : Call) : Prop := ∃ depth, (c.attempt v depth).outcome ≠ .error .tooDeep

def Call.Succeeds (v : Viewpoint) (c : Call) : Prop := ∃ depth e, (c.attempt v depth).outcome = .ok e

def Call.Passes (v : Viewpoint) (c : Call) : Prop := ∃ depth, (c.attempt v depth).GoesOn

/-- The fields from number `i` on that the user has not written and that may be named, with their
numbers. -/
def freshFields (v : Viewpoint) : Entries → Nat → List Field → List (Nat × Field)
  | _, _, [] => []
  | entries, i, f :: rest =>
    if (entries.value? f.name).isSome then freshFields v (entries.remove f.name) (i + 1) rest
    else if f.visibleFrom v.current then (i, f) :: freshFields v entries (i + 1) rest
    else freshFields v entries (i + 1) rest

/-- The call for a field of the struct at a node. -/
def fieldCall (path : List Place) (node : Node) (f : Nat × Field) : Call :=
  ⟨path, .plain, node.child f.1 f.2.ty⟩

/-- The calls for the fields of a struct, each made once those before it have passed. -/
inductive FieldCalled (v : Viewpoint) (path : List Place) (node : Node) (entries : Entries)
    (fields : List Field) : Call → Prop
  | intro {f : Nat × Field} {before after : List (Nat × Field)} :
    freshFields v entries 0 fields = before ++ f :: after →
      (∀ g ∈ before, (fieldCall path node g).Passes v) →
      FieldCalled v path node entries fields (fieldCall path node f)

/-- The calls that a call makes. -/
inductive Calls (v : Viewpoint) (c : Call) : Call → Prop
  | element {len : Nat} {elem : Ty} :
    c.node.ty = .array len elem → 0 < len → c.style.elided = true ∨ v.CanName elem →
      Calls v c ⟨c.path, .elidedType, c.node.child 0 elem⟩
  | key {key value : Ty} :
    c.node.ty = .map key value → v.CanName key → v.CanName value →
      Calls v c ⟨c.path, .elidedType, c.node.child 0 key⟩
  | value {key value : Ty} :
    c.node.ty = .map key value → v.CanName key → v.CanName value →
      Call.Succeeds v ⟨c.path, .elidedType, c.node.child 0 key⟩ →
      Calls v c ⟨c.path, .elidedType, c.node.child 1 value⟩
  | field {fields : List Field} {c' : Call} :
    c.node.ty = .struct fields →
      c.style.elided = true ∨ v.CanName (c.style.decl?.elim (.struct fields) .named) →
      c.node.place ∉ c.path → FieldCalled v (c.node.place :: c.path) c.node [] fields c' →
      Calls v c c'
  | definition {decl : Nat} {target : Node} :
    c.node.ty = .named decl → v.table.underlyingNode c.node = .ok target →
      Calls v c
        ⟨c.path, { c.style with decl? := if target.ty.isStruct then some decl else none }, target⟩
  | pointee {elem target : Ty} :
    c.node.ty = .pointer elem → v.table.underlying elem = .ok target → target.isStruct = true →
      Calls v c ⟨c.path, { c.style with addressed := true }, c.node.child 0 elem⟩

variable {v : Viewpoint}

/-- At every depth a call has come to the same end, or to none yet. -/
theorem Call.attempt_eq_or {c : Call} {depth : Nat}
    (h : (c.attempt v depth).outcome ≠ .error .tooDeep) (depth' : Nat) :
    (c.attempt v depth').outcome = .error .tooDeep ∨ c.attempt v depth' = c.attempt v depth := by
  by_cases h' : (c.attempt v depth').outcome = .error .tooDeep
  · exact .inl h'
  · right
    rcases Nat.le_total depth depth' with hle | hle
    · exact settled_bareZero hle c.path c.style c.node h
    · exact (settled_bareZero hle c.path c.style c.node h').symm

theorem Call.Succeeds.or {c : Call} (h : c.Succeeds v) (depth : Nat) :
    (c.attempt v depth).outcome = .error .tooDeep ∨ ∃ e, (c.attempt v depth).outcome = .ok e := by
  obtain ⟨depth', e, he⟩ := h
  refine (Call.attempt_eq_or (by rw [he]; nofun) depth).imp_right fun h => ⟨e, ?_⟩
  rw [h, he]

theorem Call.Passes.or {c : Call} (h : c.Passes v) (depth : Nat) :
    (c.attempt v depth).outcome = .error .tooDeep ∨ (c.attempt v depth).GoesOn := by
  obtain ⟨depth', h⟩ := h
  have hne : (c.attempt v depth').outcome ≠ .error .tooDeep := by
    rcases h with ⟨e, he⟩ | ⟨hidden, he⟩
    · rw [he]; nofun
    · rw [he]; nofun
  refine (Call.attempt_eq_or hne depth).imp_right fun heq => ?_
  rw [heq]
  exact h

/-- The attempt fails in this way, unless it has run out of depth before. -/
def Attempt.Fails {α : Type} (x : Attempt α) (e : FillError) : Prop :=
  x.outcome = .error e ∨ x.outcome = .error .tooDeep

namespace Attempt.Fails

variable {α β : Type} {x : Attempt α} {e : FillError}

theorem tooDeep_iff : x.Fails .tooDeep ↔ x.outcome = .error .tooDeep := or_self_iff

theorem imp {y : Attempt β} (h : x.Fails e)
    (hxy : ∀ e', x.outcome = .error e' → y.outcome = .error e') : y.Fails e :=
  Or.imp (hxy e) (hxy .tooDeep) h

theorem bind (h : x.Fails e) (f : α → Attempt β) : (x >>= f).Fails e :=
  h.imp fun _ h => Attempt.bind_eq_error_iff.2 (.inl h)

theorem orOmit (h : x.Fails e) (he : ∀ hidden, e ≠ .unrenderable hidden) (field : String) :
    (x.orOmit field).Fails e :=
  Or.imp (fun h => Attempt.orOmit_eq_error_iff.2 ⟨h, he⟩)
    (fun h => Attempt.orOmit_eq_error_iff.2 ⟨h, fun _ => FillError.noConfusion⟩) h

end Attempt.Fails

/-- An error among the entries is that of a field's value, after others have passed. -/
theorem exists_freshField_of_bareEntries {valueOf : Nat → Field → Attempt Expr} {entries : Entries}
    {i : Nat} {fields : List Field} {e : FillError}
    (h : (bareEntries v valueOf entries i fields).outcome = .error e) :
    ∃ before f after, freshFields v entries i fields = before ++ f :: after ∧
      (∀ g ∈ before, (valueOf g.1 g.2).GoesOn) ∧ (valueOf f.1 f.2).outcome = .error e := by
  induction fields generalizing entries i with
  | nil => cases h
  | cons f rest ih =>
    rw [bareEntries] at h
    rw [freshFields]
    split at h
    · rename_i value hval
      rw [if_pos (by rw [hval]; rfl)]
      exact ih (Attempt.bind_pure_eq_error_iff.1 h)
    · rename_i hval
      rw [if_neg (by rw [hval]; exact Bool.false_ne_true)]
      split at h
      · rename_i hvis
        rw [if_pos hvis]
        rcases Attempt.bind_eq_error_iff.1 h with h | ⟨value?, hvalue, h⟩
        · exact ⟨[], (i, f), _, rfl, List.forall_mem_nil _, (Attempt.orOmit_eq_error_iff.1 h).1⟩
        · obtain ⟨before, g, after, hfresh, hbefore, hg⟩ := ih (Attempt.bind_pure_eq_error_iff.1 h)
          refine ⟨(i, f) :: before, g, after, by rw [hfresh]; rfl, fun g' hg' => ?_, hg⟩
          rcases List.mem_cons.1 hg' with rfl | hg'
          · exact Attempt.exists_orOmit_iff.1 ⟨value?, hvalue⟩
          · exact hbefore g' hg'
      · rename_i hvis
        rw [if_neg hvis]
        exact ih h

/-- Only a name that may not be written is a reason to leave a field out. -/
theorem Attempt.Fails.bareEntries {valueOf : Nat → Field → Attempt Expr} {entries : Entries} {i : Nat}
    {fields : List Field} {before after : List (Nat × Field)} {f : Nat × Field} {e : FillError}
    (he : ∀ hidden, e ≠ .unrenderable hidden)
    (hfresh : freshFields v entries i fields = before ++ f :: after)
    (hbefore : ∀ g ∈ before, (valueOf g.1 g.2).outcome = .error .tooDeep ∨ (valueOf g.1 g.2).GoesOn)
    (h : (valueOf f.1 f.2).Fails e) : (bareEntries v valueOf entries i fields).Fails e := by
  induction fields generalizing entries i before with
  | nil => cases before <;> cases hfresh
  | cons f' rest ih =>
    rw [freshFields] at hfresh
    rw [LiteralFill.bareEntries]
    split
    · rename_i value hval
      rw [if_pos (by rw [hval]; rfl)] at hfresh
      exact (ih hfresh hbefore).bind _
    · rename_i hval
      rw [if_neg (by rw [hval]; exact Bool.false_ne_true)] at hfresh
      split
      · rename_i hvis
        rw [if_pos hvis] at hfresh
        -- the field may run out of depth itself, and only otherwise do the later ones have their turn
        cases before with
        | nil =>
          cases hfresh
          exact (h.orOmit he _).bind _
        | cons g before =>
          obtain ⟨rfl, hrest⟩ := List.cons.inj hfresh
          have hrest := ih hrest fun g hg => hbefore g (List.mem_cons_of_mem _ hg)
          rcases hbefore (i, f') List.mem_cons_self with hx | hx
          · have hstop := (Fails.tooDeep_iff.2 hx).orOmit (fun _ => FillError.noConfusion) f'.name
            exact .inr (Fails.tooDeep_iff.1 (hstop.bind _))
          · obtain ⟨value?, hvalue⟩ := Attempt.exists_orOmit_iff.2 hx
            exact hrest.imp fun e' h => Attempt.bind_eq_error_iff.2
              (.inr ⟨value?, hvalue, Attempt.bind_pure_eq_error_iff.2 h⟩)
      · rename_i hvis
        rw [if_neg hvis] at hfresh
        exact ih hfresh hbefore

section Fields

variable {path : List Place} {node : Node} {entries : Entries} {fields : List Field} {depth : Nat}

theorem exists_fieldCalled_of_bareEntries {e : FillError}
    (h : (bareEntries v (fun i f => bareZero v depth path .plain (node.child i f.ty)) entries 0
        fields).outcome = .error e) :
    ∃ c, FieldCalled v path node entries fields c ∧ (c.attempt v depth).outcome = .error e := by
  obtain ⟨before, f, after, hfresh, hbefore, hf⟩ := exists_freshField_of_bareEntries h
  exact ⟨_, .intro hfresh fun g hg => ⟨depth, hbefore g hg⟩, hf⟩

theorem FieldCalled.fails {c : Call} {e : FillError} (hc : FieldCalled v path node entries fields c)
    (he : ∀ hidden, e ≠ .unrenderable hidden) (h : (c.attempt v depth).Fails e) :
    (bareEntries v (fun i f => bareZero v depth path .plain (node.child i f.ty)) entries 0
      fields).Fails e := by
  obtain ⟨hfresh, hbefore⟩ := hc
  exact h.bareEntries he hfresh fun g hg => (hbefore g hg).or depth

/-- A struct literal runs out of depth exactly where a call for one of its fields does. -/
theorem bareEntries_tooDeep_iff :
    (bareEntries v (fun i f => bareZero v depth path .plain (node.child i f.ty)) entries 0
        fields).outcome = .error .tooDeep ↔
      ∃ c, FieldCalled v path node entries fields c ∧
        (c.attempt v depth).outcome = .error .tooDeep := by
  refine ⟨exists_fieldCalled_of_bareEntries, ?_⟩
  rintro ⟨c, hc, h⟩
  exact Attempt.Fails.tooDeep_iff.1
    (hc.fails (fun _ => FillError.noConfusion) (Attempt.Fails.tooDeep_iff.2 h))

end Fields

/-- A call that fails for what it is itself: a kind of type without values, or a name whose definition is
not found. -/
inductive Call.Breaks (v : Viewpoint) (c : Call) : FillError → Prop
  | kind {kind : BasicKind} :
    c.node.ty = .basic kind → kind.zeroAt? noPos = none → Breaks v c (.unexpectedType kind.name)
  | tuple {elems : List Ty} {name : String} :
    c.node.ty = .tuple elems → v.describe (.tuple elems) = .ok name → Breaks v c (.unexpectedType name)
  | definition {decl : Nat} {fault : Fault} :
    c.node.ty = .named decl → v.table.underlyingNode c.node = .error fault → Breaks v c (.fault fault)
  | pointee {elem : Ty} {fault : Fault} :
    c.node.ty = .pointer elem → v.table.underlying elem = .error fault → Breaks v c (.fault fault)

/-- What a call fails with, other than for a name, it fails with itself or a call that it makes does. -/
theorem Call.breaks_or_calls {c : Call} {depth : Nat} {e : FillError}
    (he : ∀ s : SpellError, s.toFillError ≠ e) (h : (c.attempt v (depth + 1)).outcome = .error e) :
    c.Breaks v e ∨ ∃ c', Calls v c c' ∧ (c'.attempt v depth).outcome = .error e := by
  rw [Call.attempt, bareZero.eq_2] at h
  cases hty : c.node.ty with
  | basic kind =>
    simp only [hty] at h
    obtain rfl := eq_of_bareBasic_eq_error h
    cases hk : kind.zeroAt? noPos with
    | none => exact .inl (.kind hty hk)
    | some value =>
      rw [bareBasic_eq_ok_iff.2 hk] at h
      cases h
  | chan _ _ | func _ | slice _ | interface _ =>
    simp only [hty] at h
    cases h
  | array len elem =>
    simp only [hty] at h
    rcases bareLiteral_eq_error_iff.1 h with ⟨-, h⟩ | ⟨hname, h⟩
    · exact absurd h (arrayTypeAt_ne_of he _ _ _)
    · obtain ⟨hlen, h⟩ := Attempt.copies_eq_error_iff.1 h
      exact .inr ⟨_, .element hty hlen (hname.imp_right exists_arrayTypeAt_iff.1), h⟩
  | map key value =>
    simp only [hty] at h
    rcases bareLiteral_eq_error_iff.1 h with ⟨-, h⟩ | ⟨hname, h⟩
    · exact absurd h (mapTypeAt_ne_of he _ _ _)
    · obtain ⟨hkey, hvalue⟩ := exists_mapTypeAt_iff.1 (hname.resolve_left Bool.false_ne_true)
      rcases bareMapEntry_eq_error_iff.1 h with h | ⟨k, hk, h⟩
      · exact .inr ⟨_, .key hty hkey hvalue, h⟩
      · exact .inr ⟨_, .value hty hkey hvalue ⟨depth, k, hk⟩, h⟩
  | struct fields =>
    simp only [hty] at h
    rcases bareLiteral_eq_error_iff.1 h with ⟨-, h⟩ | ⟨hname, h⟩
    · exact absurd h (structTypeAt_ne_of he _ _ _)
    · unfold bareStructEntries at h
      split at h
      · cases h
      · rename_i hplace
        obtain ⟨c', hc', h⟩ := exists_fieldCalled_of_bareEntries h
        exact .inr ⟨c', .field hty (hname.imp_right exists_structTypeAt_iff.1) hplace hc', h⟩
  | named decl =>
    simp only [hty] at h
    rcases lookup_eq_error_iff_or.1 h with ⟨fault, hfault, rfl⟩ | ⟨target, htarget, h⟩
    · exact .inl (.definition hty hfault)
    · exact .inr ⟨_, .definition hty htarget, h⟩
  | pointer elem =>
    simp only [hty] at h
    rcases lookup_eq_error_iff_or.1 h with ⟨fault, hfault, rfl⟩ | ⟨target, htarget, h⟩
    · exact .inl (.pointee hty hfault)
    · split at h
      · rename_i hstruct
        exact .inr ⟨_, .pointee hty htarget hstruct, h⟩
      · cases h
  | tuple elems =>
    simp only [hty, Attempt.outcome_ofExcept] at h
    rcases bind_eq_error h with h | ⟨name, hname, h⟩
    · exact absurd h (v.describe_ne_of he _)
    · cases h
      exact .inl (.tuple hty hname)

/-- A call that breaks does so at every depth. -/
theorem Call.Breaks.fails {c : Call} {e : FillError} (h : c.Breaks v e) (depth : Nat) :
    (c.attempt v depth).Fails e := by
  cases depth with
  | zero => exact .inr rfl
  | succ depth =>
    refine .inl ?_
    rw [Call.attempt, bareZero.eq_2]
    cases h with
    | kind hty hk =>
      simp only [hty, bareBasic, hk]
      rfl
    | tuple hty hname =>
      simp only [hty, hname]
      rfl
    | definition hty hfault =>
      simp only [hty]
      exact lookup_eq_error_iff_or.2 (.inl ⟨_, hfault, rfl⟩)
    | pointee hty hfault =>
      simp only [hty]
      exact lookup_eq_error_iff_or.2 (.inl ⟨_, hfault, rfl⟩)

/-- A call that fails, other than for a name that may not be written, takes the one that made it along. -/
theorem Calls.fails {c c' : Call} {depth : Nat} {e : FillError} (hc : Calls v c c')
    (he : ∀ hidden, e ≠ .unrenderable hidden) (h : (c'.attempt v depth).Fails e) :
    (c.attempt v (depth + 1)).Fails e := by
  rw [Call.attempt, bareZero.eq_2]
  cases hc with
  | element hty hlen hname =>
    simp only [hty]
    exact h.imp fun e' h => bareLiteral_eq_error_iff.2 (.inr ⟨hname.imp_right exists_arrayTypeAt_iff.2,
      Attempt.copies_eq_error_iff.2 ⟨hlen, h⟩⟩)
  | key hty hkey hvalue =>
    simp only [hty]
    exact h.imp fun e' h => bareLiteral_eq_error_iff.2
      (.inr ⟨.inr (exists_mapTypeAt_iff.2 ⟨hkey, hvalue⟩), bareMapEntry_eq_error_iff.2 (.inl h)⟩)
  | value hty hkey hvalue hk =>
    simp only [hty]
    rcases hk.or depth with hk | ⟨k, hk⟩
    · exact .inr (bareLiteral_eq_error_iff.2
        (.inr ⟨.inr (exists_mapTypeAt_iff.2 ⟨hkey, hvalue⟩), bareMapEntry_eq_error_iff.2 (.inl hk)⟩))
    · exact h.imp fun e' h => bareLiteral_eq_error_iff.2
        (.inr ⟨.inr (exists_mapTypeAt_iff.2 ⟨hkey, hvalue⟩), bareMapEntry_eq_error_iff.2 (.inr ⟨k, hk, h⟩)⟩)
  | field hty hname hplace hc =>
    simp only [hty]
    refine (hc.fails he h).imp fun e' h => bareLiteral_eq_error_iff.2
      (.inr ⟨hname.imp_right exists_structTypeAt_iff.2, ?_⟩)
    rw [bareStructEntries, if_neg hplace]
    exact h
  | definition hty htarget =>
    simp only [hty]
    exact h.imp fun e' h => lookup_eq_error_iff_or.2 (.inr ⟨_, htarget, h⟩)
  | pointee hty htarget hstruct =>
    simp only [hty]
    refine h.imp fun e' h => lookup_eq_error_iff_or.2 (.inr ⟨_, htarget, ?_⟩)
    rw [if_pos hstruct]
    exact h

/-- What a call that has run out of depth was about to find. -/
theorem exists_calls_of_tooDeep {c : Call} {depth : Nat}
    (h : (c.attempt v (depth + 1)).outcome = .error .tooDeep) :
    ∃ c', Calls v c c' ∧ (c'.attempt v depth).outcome = .error .tooDeep :=
  (Call.breaks_or_calls SpellError.toFillError_ne_tooDeep h).resolve_left nofun

/-- A call that has run out of depth takes the one that made it along. -/
theorem tooDeep_of_calls {c c' : Call} {depth : Nat} (hc : Calls v c c')
    (h : (c'.attempt v depth).outcome = .error .tooDeep) :
    (c.attempt v (depth + 1)).outcome = .error .tooDeep :=
  Attempt.Fails.tooDeep_iff.1
    (hc.fails (fun _ => FillError.noConfusion) (Attempt.Fails.tooDeep_iff.2 h))

end LiteralFill
