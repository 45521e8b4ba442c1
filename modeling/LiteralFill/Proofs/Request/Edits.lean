import LiteralFill.Request

namespace LiteralFill

def Replacement.bytes (r : Replacement) : List UInt8 := r.code.toByteArray.data.toList

/-- A text with the bytes from `start` up to `stop` overwritten. -/
def splice (text : List UInt8) (start stop : Nat) (code : List UInt8) : List UInt8 :=
  text.take start ++ code ++ text.drop stop

def Replacement.overwrite (r : Replacement) (text : List UInt8) : List UInt8 :=
  splice text r.start r.stop r.bytes

/-- A text after replacements made one after the other, each in what the one before it left. -/
def overwriteAll (rs : List Replacement) (text : List UInt8) : List UInt8 :=
  rs.foldl (fun text r => r.overwrite text) text

theorem splice_append_left {before : List UInt8} {start stop : Nat} (h : start ≤ stop)
    (hstop : stop ≤ before.length) (text code : List UInt8) :
    splice (before ++ text) start stop code = splice before start stop code ++ text := by
  unfold splice
  rw [List.take_append_of_le_length (Nat.le_trans h hstop), List.drop_append_of_le_length hstop,
    ← List.append_assoc]

theorem splice_append_right {before : List UInt8} {start stop : Nat}
    (hstart : before.length ≤ start) (h : start ≤ stop) (text code : List UInt8) :
    splice (before ++ text) start stop code =
      before ++ splice text (start - before.length) (stop - before.length) code := by
  unfold splice
  rw [List.take_append, List.drop_append, List.take_of_length_le hstart,
    List.drop_of_length_le (Nat.le_trans hstart h), List.nil_append, List.append_assoc, List.append_assoc,
    List.append_assoc]

theorem length_splice {text : List UInt8} {start stop : Nat} (h : start ≤ stop)
    (hstop : stop ≤ text.length) (code : List UInt8) :
    (splice text start stop code).length + (stop - start) = text.length + code.length := by
  simp only [splice, List.length_append, List.length_take, List.length_drop]
  omega

/-- A text in which one stretch is followed. -/
structure Marked where
  before : List UInt8
  own : List UInt8
  after : List UInt8

namespace Marked

variable {m m' : Marked} {r : Replacement} {rs : List Replacement}

def text (m : Marked) : List UInt8 := m.before ++ m.own ++ m.after

def start (m : Marked) : Nat := m.before.length

def stop (m : Marked) : Nat := m.before.length + m.own.length

/-- The stretch after a replacement behind it, inside it or before it. One that reaches over an end of it
leaves nothing to follow. -/
def overwrite? (m : Marked) (r : Replacement) : Option Marked :=
  if m.stop ≤ r.start then
    some { m with after := splice m.after (r.start - m.stop) (r.stop - m.stop) r.bytes }
  else if m.start ≤ r.start ∧ r.stop ≤ m.stop then
    some { m with own := splice m.own (r.start - m.start) (r.stop - m.start) r.bytes }
  else if r.stop ≤ m.start then some { m with before := splice m.before r.start r.stop r.bytes }
  else none

theorem text_overwrite? (hr : r.start ≤ r.stop) (h : m.overwrite? r = some m') :
    m'.text = r.overwrite m.text := by
  have hlength : (m.before ++ m.own).length = m.stop := List.length_append
  unfold overwrite? at h
  split at h
  · rename_i hafter
    cases h
    have := splice_append_right (Nat.le_trans (Nat.le_of_eq hlength) hafter) hr m.after r.bytes
    rw [hlength] at this
    exact this.symm
  · split at h
    · rename_i hown
      obtain ⟨hstart, hstop⟩ := hown
      cases h
      have hstop' : r.stop - m.start ≤ m.own.length := Nat.sub_le_iff_le_add'.2 hstop
      have hinner := splice_append_left (Nat.sub_le_sub_right hr m.start) hstop' m.after r.bytes
      have houter := splice_append_right hstart hr (m.own ++ m.after) r.bytes
      simp only [text, Replacement.overwrite, List.append_assoc]
      exact (houter.trans (congrArg (m.before ++ ·) hinner)).symm
    · split at h
      · rename_i hbefore
        cases h
        simp only [text, Replacement.overwrite, List.append_assoc]
        exact (splice_append_left hr hbefore (m.own ++ m.after) r.bytes).symm
      · cases h

/-- Replacements made in turn, each of which leaves the stretch where it is and as long as it is. -/
inductive Keeps : Marked → List Replacement → Marked → Prop
  | nil {m : Marked} : Keeps m [] m
  | cons {m m' m'' : Marked} {r : Replacement} {rs : List Replacement} :
    m.overwrite? r = some m' → m'.start = m.start → m'.stop = m.stop → Keeps m' rs m'' →
      Keeps m (r :: rs) m''

theorem Keeps.start_eq (h : m.Keeps rs m') : m'.start = m.start := by
  induction h with
  | nil => rfl
  | cons _ hstart _ _ ih => exact ih.trans hstart

theorem Keeps.stop_eq (h : m.Keeps rs m') : m'.stop = m.stop := by
  induction h with
  | nil => rfl
  | cons _ _ hstop _ ih => exact ih.trans hstop

theorem Keeps.text_eq (h : m.Keeps rs m') (hrs : ∀ r ∈ rs, r.start ≤ r.stop) :
    m'.text = overwriteAll rs m.text := by
  induction h with
  | nil => rfl
  | @cons m m₁ m₂ r rs hr _ _ _ ih =>
    rw [ih fun s hs => hrs s (List.mem_cons_of_mem r hs), text_overwrite? (hrs r List.mem_cons_self) hr]
    rfl

theorem exists_overwrite?_iff (hstart : m.start ≤ r.start) (hr : r.start ≤ r.stop) :
    (∃ m', m.overwrite? r = some m' ∧ m'.start = m.start ∧ m'.stop = m.stop) ↔
      m.stop ≤ r.start ∨ (r.stop ≤ m.stop ∧ r.bytes.length = r.stop - r.start) := by
  unfold overwrite?
  by_cases hafter : m.stop ≤ r.start
  · rw [if_pos hafter]
    exact iff_of_true ⟨_, rfl, rfl, rfl⟩ (.inl hafter)
  · rw [if_neg hafter]
    by_cases hown : m.start ≤ r.start ∧ r.stop ≤ m.stop
    · rw [if_pos hown]
      have hstop : r.stop - m.start ≤ m.own.length := by
        have := hown.2
        unfold stop at this
        unfold start
        omega
      have hlength := length_splice (Nat.sub_le_sub_right hr m.start) hstop r.bytes
      constructor
      · rintro ⟨m', ⟨⟩, -, hkept⟩
        refine .inr ⟨hown.2, ?_⟩
        simp only [stop] at hkept
        omega
      · rintro (h | ⟨-, h⟩)
        · exact absurd h hafter
        · refine ⟨_, rfl, rfl, ?_⟩
          simp only [stop]
          omega
    · rw [if_neg hown]
      have hcut : ¬r.stop ≤ m.stop := fun h => hown ⟨hstart, h⟩
      have hbefore : ¬r.stop ≤ m.start := by
        have : m.start ≤ m.stop := Nat.le_add_right _ _
        omega
      rw [if_neg hbefore]
      refine iff_of_false nofun ?_
      rintro (h | ⟨h, -⟩)
      · exact hafter h
      · exact hcut h

/-- A run of replacements keeps the stretch exactly if each of them does. -/
theorem exists_keeps_iff (hrs : ∀ r ∈ rs, m.start ≤ r.start ∧ r.start ≤ r.stop) :
    (∃ m', m.Keeps rs m') ↔
      ∀ r ∈ rs, m.stop ≤ r.start ∨ (r.stop ≤ m.stop ∧ r.bytes.length = r.stop - r.start) := by
  induction rs generalizing m with
  | nil => exact iff_of_true ⟨m, .nil⟩ nofun
  | cons r rest ih =>
    obtain ⟨hstart, hr⟩ := hrs r List.mem_cons_self
    have hrest : ∀ s ∈ rest, m.start ≤ s.start ∧ s.start ≤ s.stop := fun s hs =>
      hrs s (List.mem_cons_of_mem r hs)
    rw [List.forall_mem_cons, ← exists_overwrite?_iff hstart hr]
    constructor
    · rintro ⟨m'', hkeeps⟩
      cases hkeeps with
      | @cons _ m' _ _ _ hover hstart' hstop' hkeeps =>
        refine ⟨⟨m', hover, hstart', hstop'⟩, ?_⟩
        have := (ih (hstart' ▸ hrest)).1 ⟨m'', hkeeps⟩
        rwa [hstop'] at this
    · rintro ⟨⟨m', hover, hstart', hstop'⟩, h⟩
      rw [← hstop'] at h
      obtain ⟨m'', hkeeps⟩ := (ih (hstart' ▸ hrest)).2 h
      exact ⟨m'', .cons hover hstart' hstop' hkeeps⟩

end Marked

/-- A text with the stretch of one replacement followed. -/
def Replacement.mark (r : Replacement) (text : List UInt8) : Marked :=
  ⟨text.take r.start, (text.drop r.start).take (r.stop - r.start), text.drop r.stop⟩

/-- Whether a replacement made after others overwrites what they left of its own stretch of the first
text, and nothing else. -/
def Replacement.OverwritesOwn (next : Replacement) (done : List Replacement) (text : List UInt8) : Prop :=
  ∃ m, (next.mark text).Keeps done m ∧ m.text = overwriteAll done text ∧
    next.overwrite m.text = m.before ++ next.bytes ++ m.after

section Mark

variable {r : Replacement} {text : List UInt8}

theorem Replacement.text_mark (h : r.start ≤ r.stop) : (r.mark text).text = text := by
  have hdrop : text.drop r.stop = (text.drop r.start).drop (r.stop - r.start) := by
    rw [List.drop_drop, Nat.add_sub_cancel' h]
  simp only [Marked.text, mark, hdrop, List.append_assoc, List.take_append_drop]

theorem Replacement.start_mark (h : r.start ≤ r.stop) (hstop : r.stop ≤ text.length) :
    (r.mark text).start = r.start :=
  List.length_take_of_le (Nat.le_trans h hstop)

theorem Replacement.stop_mark (h : r.start ≤ r.stop) (hstop : r.stop ≤ text.length) :
    (r.mark text).stop = r.stop := by
  simp only [Marked.stop, mark, List.length_take, List.length_drop]
  omega

/-- Overwriting the stretch that is followed leaves the rest of the text. -/
theorem Marked.overwrite_text {m : Marked} (hstart : m.start = r.start) (hstop : m.stop = r.stop) :
    r.overwrite m.text = m.before ++ r.bytes ++ m.after := by
  have hlength : (m.before ++ m.own).length = r.stop := List.length_append.trans hstop
  have htake : m.text.take r.start = m.before := by
    rw [← hstart, text, List.append_assoc]
    exact List.take_left
  have hdrop : m.text.drop r.stop = m.after := by
    rw [← hlength]
    exact List.drop_left
  rw [Replacement.overwrite, splice, htake, hdrop]

/-- Made last first, a replacement overwrites its own stretch exactly if each one before it lies behind
that stretch, or inside it and is as long as what it stands for. -/
theorem Replacement.overwritesOwn_iff {next : Replacement} {done : List Replacement}
    (hdone : ∀ d ∈ done, next.start ≤ d.start ∧ d.start ≤ d.stop) (h : next.start ≤ next.stop)
    (hstop : next.stop ≤ text.length) :
    next.OverwritesOwn done text ↔
      ∀ d ∈ done, next.stop ≤ d.start ∨ (d.stop ≤ next.stop ∧ d.bytes.length = d.stop - d.start) := by
  have hstart' := start_mark h hstop
  have hstop' := stop_mark h hstop
  have hdone' : ∀ d ∈ done, (next.mark text).start ≤ d.start ∧ d.start ≤ d.stop := by rwa [hstart']
  have hkeeps := Marked.exists_keeps_iff hdone'
  rw [hstop'] at hkeeps
  rw [← hkeeps]
  constructor
  · rintro ⟨m, hm, -, -⟩
    exact ⟨m, hm⟩
  · rintro ⟨m, hm⟩
    have htext := hm.text_eq fun d hd => (hdone d hd).2
    rw [text_mark h] at htext
    exact ⟨m, hm, htext, Marked.overwrite_text (hm.start_eq.trans hstart') (hm.stop_eq.trans hstop')⟩

end Mark

end LiteralFill
