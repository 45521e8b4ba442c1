import LiteralFill.Proofs.TypeTable.Nodes

namespace LiteralFill

/-- What stands for the type of a field that may not be named. -/
def Ty.unseen : Ty := .basic .invalid

mutual

/-- The type as code in the package `scope` sees it: without the types of the fields that it may not
name. -/
def Ty.seenFrom (scope : Scope) : Ty → Ty
  | .basic kind => .basic kind
  | .chan dir elem => .chan dir (elem.seenFrom scope)
  | .func signature => .func (signature.seenFrom scope)
  | .slice elem => .slice (elem.seenFrom scope)
  | .interface methods => .interface (methodsSeenFrom scope methods)
  | .array len elem => .array len (elem.seenFrom scope)
  | .map key value => .map (key.seenFrom scope) (value.seenFrom scope)
  | .struct fields => .struct (fieldsSeenFrom scope fields)
  | .named decl => .named decl
  | .pointer elem => .pointer (elem.seenFrom scope)
  | .tuple elems => .tuple (typesSeenFrom scope elems)

def Signature.seenFrom (scope : Scope) : Signature → Signature
  | ⟨params, results, variadic⟩ =>
    ⟨typesSeenFrom scope params, typesSeenFrom scope results, variadic⟩

def typesSeenFrom (scope : Scope) : List Ty → List Ty
  | [] => []
  | ty :: rest => ty.seenFrom scope :: typesSeenFrom scope rest

def methodsSeenFrom (scope : Scope) : List Method → List Method
  | [] => []
  | ⟨name, signature⟩ :: rest => ⟨name, signature.seenFrom scope⟩ :: methodsSeenFrom scope rest

def fieldsSeenFrom (scope : Scope) : List Field → List Field
  | [] => []
  | ⟨name, exported, embedded, home, ty⟩ :: rest =>
    ⟨name, exported, embedded, home,
      if (Field.mk name exported embedded home ty).visibleFrom scope then ty.seenFrom scope
      else .unseen⟩ :: fieldsSeenFrom scope rest

end

def Field.seenFrom (scope : Scope) (f : Field) : Field :=
  { f with ty := if f.visibleFrom scope then f.ty.seenFrom scope else .unseen }

def TypeDecl.seenFrom (scope : Scope) (d : TypeDecl) : TypeDecl :=
  { d with underlying := d.underlying.seenFrom scope }

def TypeTable.seenFrom (scope : Scope) (t : TypeTable) : TypeTable :=
  ⟨t.decls.map (TypeDecl.seenFrom scope)⟩

def Node.seenFrom (scope : Scope) (n : Node) : Node := ⟨n.place, n.ty.seenFrom scope⟩

variable {scope : Scope}

theorem fieldsSeenFrom_eq_map (fields : List Field) :
    fieldsSeenFrom scope fields = fields.map (Field.seenFrom scope) := by
  induction fields with
  | nil => rfl
  | cons f rest ih =>
    obtain ⟨name, exported, embedded, home, ty⟩ := f
    rw [fieldsSeenFrom, ih]
    rfl

@[simp] theorem Field.visibleFrom_seenFrom (f : Field) :
    (f.seenFrom scope).visibleFrom scope = f.visibleFrom scope := rfl

theorem Field.seenFrom_of_visibleFrom {f : Field} (h : f.visibleFrom scope = true) :
    (f.seenFrom scope).ty = f.ty.seenFrom scope := if_pos h

@[simp] theorem Ty.isStruct_seenFrom (ty : Ty) : (ty.seenFrom scope).isStruct = ty.isStruct := by
  cases ty <;> rfl

@[simp] theorem Node.root_seenFrom (ty : Ty) :
    Node.root (ty.seenFrom scope) = (Node.root ty).seenFrom scope := rfl

namespace TypeTable

theorem get?_seenFrom (t : TypeTable) (decl : Nat) :
    (t.seenFrom scope).get? decl = (t.get? decl).map (TypeDecl.seenFrom scope) := by
  simp only [get?, seenFrom, Array.getElem?_map]

theorem definition?_seenFrom (t : TypeTable) (decl : Nat) :
    (t.seenFrom scope).definition? decl = (t.definition? decl).map (Ty.seenFrom scope) := by
  simp only [definition?, get?_seenFrom, Option.map_map]
  rfl

/-- A chain of names is the same one from wherever it is seen. -/
theorem follow_seenFrom (t : TypeTable) (n : Nat) (node : Node) :
    (t.seenFrom scope).follow n (node.seenFrom scope) = (t.follow n node).map (Node.seenFrom scope) := by
  induction n generalizing node with
  | zero => rfl
  | succ n ih =>
    obtain ⟨place, ty⟩ := node
    rw [follow, follow]
    cases ty with
    | named decl =>
      simp only [Node.seenFrom, Ty.seenFrom, definition?_seenFrom]
      cases t.definition? decl with
      | none => rfl
      | some ty => exact ih ⟨⟨some decl, []⟩, ty⟩
    | _ => rfl

theorem underlyingNode_seenFrom (t : TypeTable) (node : Node) :
    (t.seenFrom scope).underlyingNode (node.seenFrom scope) =
      (t.underlyingNode node).map (Node.seenFrom scope) :=
  t.follow_seenFrom _ node

theorem underlying_seenFrom (t : TypeTable) (ty : Ty) :
    (t.seenFrom scope).underlying (ty.seenFrom scope) =
      (t.underlying ty).map (Ty.seenFrom scope) := by
  rw [underlying, Node.root_seenFrom, underlyingNode_seenFrom, underlying]
  cases t.underlyingNode (.root ty) <;> rfl

theorem structFields?_seenFrom (t : TypeTable) (ty : Ty) :
    (t.seenFrom scope).structFields? (ty.seenFrom scope) =
      (t.structFields? ty).map (Option.map (fieldsSeenFrom scope)) := by
  rw [structFields?, underlying_seenFrom, structFields?]
  cases t.underlying ty with
  | error fault => rfl
  | ok target => cases target <;> rfl

end TypeTable

end LiteralFill
