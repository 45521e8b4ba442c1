import LiteralFill.CommandLine
import LiteralFill.Proofs.Outcome
import LiteralFill.Proofs.Text.Decimal

namespace LiteralFill

def ValueFlag.name : ValueFlag → String
  | .file => "file"
  | .offset => "offset"
  | .line => "line"
  | .index => "index"

def SwitchFlag.name : SwitchFlag → String
  | .modified => "modified"
  | .warnOmitted => "warn-omitted"

def Flag.name : Flag → String
  | .value flag => flag.name
  | .switch flag => flag.name

/-- A flag as it is given on a command line, with its number of dashes: with a text behind an equals
sign, with a text as the next argument, or alone. -/
inductive Given where
  | joined (dashes : Nat) (flag : Flag) (text : String)
  | apart (dashes : Nat) (flag : ValueFlag) (text : String)
  | alone (dashes : Nat) (flag : SwitchFlag)
  deriving DecidableEq, Repr

/-- A name behind so many dashes. -/
def dashed (n : Nat) (name : String) : String := String.ofList (List.replicate n '-' ++ name.toList)

/-- The texts that a flag may be given. -/
def Flag.Accepts : Flag → String → Prop
  | .value .file, _ | .value .index, _ => True
  | .value .offset, text => ∃ n, Text.IsDecimal text n ∧ n < Nat.pow 2 64
  | .value .line, text => ∃ n, Text.IsDecimal text n ∧ n < Nat.pow 2 32
  | .switch _, text => text ∈ ["true", "1", "false", "0"]

namespace Given

def dashes : Given → Nat
  | joined n _ _ => n
  | apart n _ _ => n
  | alone n _ => n

/-- The arguments that a flag takes up. -/
def arguments : Given → List String
  | joined n flag text => [dashed n flag.name ++ "=" ++ text]
  | apart n flag text => [dashed n flag.name, text]
  | alone n flag => [dashed n flag.name]

def IsValid : Given → Prop
  | joined _ flag text => flag.Accepts text
  | apart _ flag text => (Flag.value flag).Accepts text
  | alone _ _ => True

def flag : Given → Flag
  | joined _ flag _ => flag
  | apart _ flag _ => .value flag
  | alone _ flag => .switch flag

def joinedText? : Given → Option String
  | joined _ _ text => some text
  | apart _ _ _ | alone _ _ => none

/-- The text that is given for `flag`. -/
def text? (flag : ValueFlag) : Given → Option String
  | joined _ (.value f) text | apart _ f text => if f = flag then some text else none
  | joined _ (.switch _) _ | alone _ _ => none

/-- What `flag` is set to. -/
def setting? (flag : SwitchFlag) : Given → Option Bool
  | joined _ (.switch f) text => if f = flag then some (text = "true" || text = "1") else none
  | alone _ f => if f = flag then some true else none
  | joined _ (.value _) _ | apart _ _ _ => none

end Given

/-- The arguments are these flags, from left to right. -/
structure Splits (args : List String) (given : List Given) : Prop where
  arguments : given.flatMap Given.arguments = args
  valid : ∀ g ∈ given, g.IsValid

theorem toList_dashed (n : Nat) (name : String) :
    (dashed n name).toList = List.replicate n '-' ++ name.toList := String.toList_ofList

theorem Flag.equals_notMem_dashed (n : Nat) (flag : Flag) : '=' ∉ (dashed n flag.name).toList := by
  have hname : '=' ∉ flag.name.toList := by
    cases flag with
    | value flag => cases flag <;> decide
    | switch flag => cases flag <;> decide
  rw [toList_dashed, List.mem_append, List.mem_replicate]
  rintro (⟨-, h⟩ | h)
  · cases h
  · exact hname h

theorem dashed_injective {n n' : Nat} {name : String} (h : dashed n name = dashed n' name) : n = n' := by
  have hlength := congrArg (·.toList.length) h
  simpa [toList_dashed] using hlength

/-- The flag of its name, whatever dashes it starts with. -/
theorem Flag.ofName?_dashed (n : Nat) (flag : Flag) : Flag.ofName? (dashed n flag.name) = some flag := by
  have hname : flag.name.toList.dropWhile (· = '-') = flag.name.toList := by
    cases flag with
    | value flag => cases flag <;> rfl
    | switch flag => cases flag <;> rfl
  have hdashes : ∀ c ∈ List.replicate n '-', decide (c = '-') = true := by simp
  rw [ofName?, toList_dashed, List.dropWhile_append_of_pos hdashes, hname, String.ofList_toList]
  cases flag with
  | value flag => cases flag <;> rfl
  | switch flag => cases flag <;> rfl

theorem Flag.eq_dashed_of_ofName? {name : String} {flag : Flag} (h : Flag.ofName? name = some flag) :
    ∃ n, name = dashed n flag.name := by
  have hname : String.ofList (name.toList.dropWhile (· = '-')) = flag.name := by
    unfold ofName? at h
    split at h <;> cases h <;> assumption
  have hdashes : name.toList.takeWhile (· = '-') =
      List.replicate (name.toList.takeWhile (· = '-')).length '-' :=
    List.eq_replicate_of_mem fun c hc => by simpa using List.mem_takeWhile_imp hc
  refine ⟨(name.toList.takeWhile (· = '-')).length, String.toList_injective ?_⟩
  rw [toList_dashed, ← hname, String.toList_ofList, ← hdashes, List.takeWhile_append_dropWhile]

theorem splitArgument_of_notMem {name : String} (h : '=' ∉ name.toList) :
    splitArgument name = (name, none) := by
  have hnone : name.toList.dropWhile (· ≠ '=') = [] := by
    refine List.dropWhile_eq_nil_iff.2 fun c hc => ?_
    exact decide_eq_true fun heq => h (heq ▸ hc)
  rw [splitArgument, hnone]

theorem splitArgument_append {name : String} (h : '=' ∉ name.toList) (text : String) :
    splitArgument (name ++ "=" ++ text) = (name, some text) := by
  have hne : ∀ c ∈ name.toList, decide (c ≠ '=') = true := fun c hc => decide_eq_true fun heq => h (heq ▸ hc)
  have hlist : (name ++ "=" ++ text).toList = name.toList ++ '=' :: text.toList := by simp
  have hdrop : (name ++ "=" ++ text).toList.dropWhile (· ≠ '=') = '=' :: text.toList := by
    rw [hlist, List.dropWhile_append_of_pos hne]
    rfl
  have htake : (name ++ "=" ++ text).toList.takeWhile (· ≠ '=') = name.toList := by
    rw [hlist, List.takeWhile_append_of_pos hne]
    simp
  rw [splitArgument, hdrop, htake, String.ofList_toList]
  exact congrArg (name, some ·) String.ofList_toList

/-- An argument is its name, or its name and text put together. -/
theorem eq_of_splitArgument {arg name : String} {text? : Option String}
    (h : splitArgument arg = (name, text?)) : arg = text?.elim name (name ++ "=" ++ ·) := by
  unfold splitArgument at h
  split at h
  · cases h
    rfl
  · rename_i c text hdrop
    cases h
    have hc : c = '=' := by
      have hhead := List.head?_dropWhile_not (fun c => decide (c ≠ '=')) arg.toList
      rw [hdrop] at hhead
      simpa using hhead
    refine String.toList_injective ?_
    have happ := List.takeWhile_append_dropWhile (p := fun c => decide (c ≠ '=')) (l := arg.toList)
    rw [hdrop, hc] at happ
    simpa using happ.symm

/-- The first argument of a flag tells the flag, its dashes and whether a text is joined to it. -/
theorem Given.exists_arguments_eq_cons (g : Given) : ∃ first more, g.arguments = first :: more ∧
    splitArgument first = (dashed g.dashes g.flag.name, g.joinedText?) := by
  cases g with
  | joined n flag text => exact ⟨_, _, rfl, splitArgument_append (flag.equals_notMem_dashed n) text⟩
  | apart n flag text =>
    exact ⟨_, _, rfl, splitArgument_of_notMem ((Flag.value flag).equals_notMem_dashed n)⟩
  | alone n flag =>
    exact ⟨_, _, rfl, splitArgument_of_notMem ((Flag.switch flag).equals_notMem_dashed n)⟩

/-- Where a flag ends shows without what follows it. -/
theorem Given.arguments_append_inj {g g' : Given} {rest rest' : List String}
    (h : g.arguments ++ rest = g'.arguments ++ rest') : g = g' ∧ rest = rest' := by
  have hsame : g.flag = g'.flag ∧ g.dashes = g'.dashes ∧ g.joinedText? = g'.joinedText? := by
    obtain ⟨first, more, harguments, hsplit⟩ := g.exists_arguments_eq_cons
    obtain ⟨first', more', harguments', hsplit'⟩ := g'.exists_arguments_eq_cons
    rw [harguments, harguments'] at h
    obtain rfl := (List.cons.inj h).1
    obtain ⟨hname, htext⟩ := Prod.mk.inj (hsplit.symm.trans hsplit')
    have hflag : g.flag = g'.flag := by
      have hfound := g.flag.ofName?_dashed g.dashes
      rw [hname, Flag.ofName?_dashed] at hfound
      exact (Option.some.inj hfound).symm
    exact ⟨hflag, dashed_injective (hflag ▸ hname), htext⟩
  obtain ⟨hflag, hdashes, htext⟩ := hsame
  cases g with
  | joined n flag text =>
    cases g' with
    | joined n' flag' text' =>
      cases hflag; cases hdashes; cases htext
      exact ⟨rfl, (List.cons.inj h).2⟩
    | apart n' flag' text' | alone n' flag' => cases htext
  | apart n flag text =>
    cases g' with
    | joined n' flag' text' => cases htext
    | apart n' flag' text' =>
      cases hflag; cases hdashes
      obtain ⟨rfl, hrest⟩ := List.cons.inj (List.cons.inj h).2
      exact ⟨rfl, hrest⟩
    | alone n' flag' => cases hflag
  | alone n flag =>
    cases g' with
    | joined n' flag' text' => cases htext
    | apart n' flag' text' => cases hflag
    | alone n' flag' =>
      cases hflag; cases hdashes
      exact ⟨rfl, (List.cons.inj h).2⟩

theorem Given.arguments_ne_nil (g : Given) : g.arguments ≠ [] := by
  cases g <;> exact List.cons_ne_nil _ _

theorem Given.flatMap_arguments_injective {given given' : List Given}
    (h : given.flatMap Given.arguments = given'.flatMap Given.arguments) : given = given' := by
  induction given generalizing given' with
  | nil =>
    cases given' with
    | nil => rfl
    | cons g' more => exact absurd (List.append_eq_nil_iff.1 h.symm).1 g'.arguments_ne_nil
  | cons g rest ih =>
    cases given' with
    | nil => exact absurd (List.append_eq_nil_iff.1 h).1 g.arguments_ne_nil
    | cons g' more =>
      obtain ⟨rfl, hrest⟩ := Given.arguments_append_inj h
      rw [ih hrest]

theorem Splits.unique {args : List String} {given given' : List Given} (h : Splits args given)
    (h' : Splits args given') : given = given' :=
  Given.flatMap_arguments_injective (h.arguments.trans h'.arguments.symm)

end LiteralFill
