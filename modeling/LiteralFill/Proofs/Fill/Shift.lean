import LiteralFill.Proofs.Fill.Follows
import LiteralFill.Proofs.Layout.Shift

namespace LiteralFill

/-- The draft after something more is written: so many lines further on, with so many lines asked for,
and with these fields left out. -/
def Draft.extend (d : Draft) (advances lines : Nat) (omitted : List Omission) : Draft :=
  { d with pos := d.pos + advances, lines := d.lines + lines, omitted := d.omitted ++ omitted }

/-- What a step does from one draft and from another: it fails alike, or writes the same, only further
down, and extends both drafts alike. -/
def SameFrom (x : Filler Expr) (d d' : Draft) : Prop :=
  (∃ err r r' omitted, x d = (.error err, r) ∧ x d' = (.error err, r') ∧
    r.omitted = d.omitted ++ omitted ∧ r'.omitted = d'.omitted ++ omitted) ∨
  ∃ e e' advances lines omitted, x d = (.ok e, d.extend advances lines omitted) ∧
    x d' = (.ok e', d'.extend advances lines omitted) ∧
    (∀ k, d'.pos = d.pos + k → e' = e.shift k) ∧ ∀ k, d.pos = d'.pos + k → e = e'.shift k

/-- A step that follows the same attempt from both drafts looks at nothing else in them. -/
theorem Follows.sameFrom {x : Filler Expr} {d d' : Draft} {a : Attempt Expr}
    (hfirst : d.first = false) (hfirst' : d'.first = false) (h : Follows false x d a d.put)
    (h' : Follows false x d' a d'.put) : SameFrom x d d' := by
  obtain ⟨entries, hentries, h⟩ := h
  obtain ⟨entries', hentries', h'⟩ := h'
  obtain rfl := hentries rfl
  obtain rfl := hentries' rfl
  cases ha : a.outcome with
  | error err =>
    rw [ha] at h h'
    obtain ⟨pos, lines, first, -, hx⟩ := h
    obtain ⟨pos', lines', first', -, hx'⟩ := h'
    exact .inl ⟨err, _, _, a.omitted, hx, hx', rfl, rfl⟩
  | ok e =>
    rw [ha] at h h'
    refine .inr ⟨e.layOut d.pos, e.layOut d'.pos, e.advances, e.lineCount, a.omitted, ?_, ?_, ?_, ?_⟩
    · rw [h, ← hfirst]
      rfl
    · rw [h', ← hfirst']
      rfl
    · intro k hk
      rw [e.shift_layOut, hk]
    · intro k hk
      rw [e.shift_layOut, hk]

/-- Below the outermost struct, the zero value of a type does not depend on where it is written, on
what the user wrote, or on what was left out before. -/
theorem sameFrom_zero (v : Viewpoint) (depth : Nat) (style : Style) (node : Node) (d d' : Draft)
    (hfirst : d.first = false) (hfirst' : d'.first = false) (hpath : d'.path = d.path) :
    SameFrom (zero v depth style node) d d' := by
  have h := follows_zero v depth style node d hfirst
  have h' := follows_zero v depth style node d' hfirst'
  rw [hpath] at h'
  exact h.sameFrom hfirst hfirst' h'

/-- `type T struct { A [2]int; H lib.secret }` and `type secret struct{}`. -/
def pairBesideSecret : Viewpoint :=
  let app : Scope := ⟨"example.com/app", "app"⟩
  ⟨⟨#[.declared "T" app
      (.struct [.declared "A" (.array 2 (.basic .int)) app, .declared "H" (.named 1) app]),
    .declared "secret" ⟨"example.com/lib", "lib"⟩ (.struct [])]⟩, ⟨app, []⟩⟩

/-- `T{}` from the first line on, and four lines further down, where the user has a value for a field of
the same name. -/
theorem sameFrom_zero_further :
    let d : Draft := ⟨1, 0, [], false, [], []⟩
    let d' : Draft := ⟨5, 9, [("A", .name "x")], false, [], [⟨"Z", "lib.z"⟩]⟩
    d.first = false ∧ d'.first = false ∧ d'.path = d.path ∧ ∃ e,
      zero pairBesideSecret 8 .plain (.root (.named 0)) d =
        (.ok e, ⟨6, 7, [], false, [], [⟨"H", "lib.secret"⟩]⟩) ∧
      zero pairBesideSecret 8 .plain (.root (.named 0)) d' =
        (.ok (e.shift 4), ⟨10, 16, [("A", .name "x")], false, [], [⟨"Z", "lib.z"⟩, ⟨"H", "lib.secret"⟩]⟩) := by
  intro d d'
  have hok : (zero pairBesideSecret 8 .plain (.root (.named 0)) d).1.isOk = true ∧
      (zero pairBesideSecret 8 .plain (.root (.named 0)) d).2.pos = 6 ∧
      (zero pairBesideSecret 8 .plain (.root (.named 0)) d).2.lines = 7 ∧
      (zero pairBesideSecret 8 .plain (.root (.named 0)) d).2.omitted = [⟨"H", "lib.secret"⟩] := by
    decide +kernel
  refine ⟨rfl, rfl, rfl, ?_⟩
  rcases sameFrom_zero pairBesideSecret 8 .plain (.root (.named 0)) d d' rfl rfl rfl with
    ⟨err, r, r', omitted, h, -⟩ | ⟨e, e', advances, lines, omitted, h, h', hshift, -⟩
  · rw [h] at hok
    cases hok.1
  · rw [h] at hok
    obtain ⟨-, hpos, hlines, homitted⟩ := hok
    obtain rfl : advances = 5 := Nat.add_left_cancel hpos
    obtain rfl : lines = 7 := Nat.add_left_cancel hlines
    obtain rfl : omitted = [⟨"H", "lib.secret"⟩] := homitted
    obtain rfl := hshift 4 rfl
    exact ⟨e, h, h'⟩

end LiteralFill
