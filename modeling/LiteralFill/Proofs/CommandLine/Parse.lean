import LiteralFill.Proofs.CommandLine.Given

namespace LiteralFill

def lastText? (given : List Given) (flag : ValueFlag) : Option String :=
  (given.filterMap (·.text? flag)).getLast?

def lastSetting? (given : List Given) (flag : SwitchFlag) : Option Bool :=
  (given.filterMap (·.setting? flag)).getLast?

/-- The position that a text stands for. Zero is none, like no text. -/
def IsPosition (position? : Option Nat) : Option String → Prop
  | none => position? = none
  | some text => ∃ n, Text.IsDecimal text n ∧ position? = if n = 0 then none else some n

theorem IsPosition.unique {position? position?' : Option Nat} {text? : Option String}
    (h : IsPosition position? text?) (h' : IsPosition position?' text?) : position? = position?' := by
  cases text? with
  | none => exact h.trans h'.symm
  | some text =>
    obtain ⟨n, hn, rfl⟩ := h
    obtain ⟨n', hn', rfl⟩ := h'
    rw [hn.unique hn']

/-- What a flag is to hold for the text that was given for it. -/
def Flags.HoldsText (flags : Flags) : ValueFlag → Option String → Prop
  | .file, text? => flags.file? = text?
  | .offset, text? => IsPosition flags.offset? text?
  | .line, text? => IsPosition flags.line? text?
  | .index, text? => flags.index? = text?

def Flags.isOn (flags : Flags) : SwitchFlag → Bool
  | .modified => flags.modified
  | .warnOmitted => flags.warnOmitted

/-- Each flag has what was given for it last. -/
structure Flags.Hold (flags : Flags) (given : List Given) : Prop where
  texts : ∀ flag, flags.HoldsText flag (lastText? given flag)
  switches : ∀ flag, flags.isOn flag = (lastSetting? given flag).getD false

/-- The flags that ask for a command. -/
def FillCommand.flags (c : FillCommand) : Flags :=
  ⟨some c.request.file.text, c.request.offset?, c.request.line?, c.modified, c.index?.map Path.text,
    c.warnOmitted⟩

namespace Flags

variable {flags flags' : Flags}

/-- Takes one flag into account. -/
def set (flags : Flags) : Given → Except UsageError Flags
  | .joined n (.value flag) text => flags.setValue (dashed n flag.name) flag text
  | .apart n flag text => flags.setValue (dashed n flag.name) flag text
  | .joined n (.switch flag) text => flags.setSwitch (dashed n flag.name) flag (some text)
  | .alone n flag => flags.setSwitch (dashed n flag.name) flag none

/-- Reading goes flag by flag. -/
theorem read_arguments_append (flags : Flags) (g : Given) (rest : List String) :
    flags.read (g.arguments ++ rest) = flags.set g >>= (·.read rest) := by
  cases g with
  | joined n flag text =>
    have hsplit := splitArgument_append (flag.equals_notMem_dashed n) text
    have hname := flag.ofName?_dashed n
    rw [Given.arguments, List.singleton_append, read, hsplit]
    dsimp only
    rw [hname]
    cases flag <;> rfl
  | apart n flag text =>
    have hsplit := splitArgument_of_notMem ((Flag.value flag).equals_notMem_dashed n)
    have hname := (Flag.value flag).ofName?_dashed n
    rw [Flag.name] at hsplit hname
    rw [Given.arguments, List.cons_append, List.singleton_append, read, hsplit]
    dsimp only
    rw [hname]
    rfl
  | alone n flag =>
    have hsplit := splitArgument_of_notMem ((Flag.switch flag).equals_notMem_dashed n)
    have hname := (Flag.switch flag).ofName?_dashed n
    rw [Flag.name] at hsplit hname
    rw [Given.arguments, List.singleton_append, read, hsplit]
    dsimp only
    rw [hname]
    rfl

theorem exists_arguments_append_of_read {arg : String} {args : List String}
    (h : flags.read (arg :: args) = .ok flags') :
    ∃ g rest, arg :: args = Given.arguments g ++ rest := by
  cases hsplit : splitArgument arg with
  | mk name text? =>
  have harg := eq_of_splitArgument hsplit
  rw [read, hsplit] at h
  dsimp only at h
  cases hflag : Flag.ofName? name with
  | none => rw [hflag] at h; cases h
  | some flag =>
    obtain ⟨n, rfl⟩ := Flag.eq_dashed_of_ofName? hflag
    rw [hflag] at h
    cases text? with
    | some text => exact ⟨.joined n flag text, args, by rw [harg]; rfl⟩
    | none =>
      cases flag with
      | switch flag => exact ⟨.alone n flag, args, by rw [harg]; rfl⟩
      | value flag =>
        cases args with
        | nil => cases h
        | cons text rest => exact ⟨.apart n flag text, rest, by rw [harg]; rfl⟩

end Flags

theorem readPosition_eq_ok_iff {bits : Nat} {name text : String} {position? : Option Nat} :
    readPosition bits name text = .ok position? ↔
      ∃ n, Text.IsDecimal text n ∧ n < Nat.pow 2 bits ∧ position? = if n = 0 then none else some n := by
  unfold readPosition
  cases hread : Text.readNat? bits text with
  | none =>
    refine iff_of_false nofun ?_
    rintro ⟨n, hn, hlt, -⟩
    rw [Text.readNat?_eq_some_iff.2 ⟨hn, hlt⟩] at hread
    cases hread
  | some n =>
    obtain ⟨hn, hlt⟩ := Text.readNat?_eq_some_iff.1 hread
    constructor
    · rintro ⟨⟩
      exact ⟨n, hn, hlt, rfl⟩
    · rintro ⟨n', hn', -, rfl⟩
      rw [hn.unique hn']

theorem readSwitch_some_eq_ok_iff {name text : String} {on : Bool} :
    readSwitch name (some text) = .ok on ↔
      text ∈ ["true", "1", "false", "0"] ∧ on = (text = "true" || text = "1") := by
  unfold readSwitch
  split <;> simp_all

section Last

variable {given : List Given} {g : Given}

theorem Given.isSome_text?_iff (g : Given) {flag : ValueFlag} :
    (g.text? flag).isSome ↔ g.flag = .value flag := by
  cases g with
  | joined n f text => cases f <;> simp [Given.text?, Given.flag]
  | apart n f text => simp [Given.text?, Given.flag]
  | alone n f => simp [Given.text?, Given.flag]

theorem Given.isSome_setting?_iff (g : Given) {flag : SwitchFlag} :
    (g.setting? flag).isSome ↔ g.flag = .switch flag := by
  cases g with
  | joined n f text => cases f <;> simp [Given.setting?, Given.flag]
  | apart n f text => simp [Given.setting?, Given.flag]
  | alone n f => simp [Given.setting?, Given.flag]

theorem lastText?_concat (flag : ValueFlag) :
    lastText? (given ++ [g]) flag = (g.text? flag).or (lastText? given flag) := by
  rw [lastText?, List.filterMap_append, List.getLast?_append, lastText?]
  cases hg : g.text? flag <;> simp [hg]

theorem isSome_lastText?_iff {flag : ValueFlag} :
    (lastText? given flag).isSome ↔ .value flag ∈ given.map Given.flag := by
  rw [lastText?, List.getLast?_isSome, List.mem_map, ne_eq, List.filterMap_eq_nil_iff]
  simp only [not_forall, exists_prop, ← Given.isSome_text?_iff, Option.isSome_iff_ne_none, ne_eq]

theorem lastSetting?_concat (flag : SwitchFlag) :
    lastSetting? (given ++ [g]) flag = (g.setting? flag).or (lastSetting? given flag) := by
  rw [lastSetting?, List.filterMap_append, List.getLast?_append, lastSetting?]
  cases hg : g.setting? flag <;> simp [hg]

end Last

namespace Flags

variable {flags flags' : Flags} {given : List Given}

theorem hold_unset : Flags.unset.Hold [] where
  texts flag := by cases flag <;> rfl
  switches flag := by cases flag <;> rfl

/-- Giving a flag a text leaves the others as they are. -/
theorem of_setValue_eq_ok {name text : String} {flag : ValueFlag}
    (h : flags.setValue name flag text = .ok flags') :
    (Flag.value flag).Accepts text ∧ flags'.HoldsText flag (some text) ∧
      (∀ f ≠ flag, ∀ text?, flags.HoldsText f text? → flags'.HoldsText f text?) ∧
      flags'.isOn = flags.isOn := by
  cases flag with
  | file | index =>
    cases h
    refine ⟨trivial, rfl, fun f hne text? hf => ?_, rfl⟩
    cases f with
    | file | index => first | exact absurd rfl hne | exact hf
    | offset | line => exact hf
  | offset | line =>
    obtain ⟨position?, hposition, h⟩ := bind_eq_ok h
    cases h
    obtain ⟨n, hn, hlt, hvalue⟩ := readPosition_eq_ok_iff.1 hposition
    refine ⟨⟨n, hn, hlt⟩, ⟨n, hn, hvalue⟩, fun f hne text? hf => ?_, rfl⟩
    cases f with
    | file | index => exact hf
    | offset | line => first | exact absurd rfl hne | exact hf

theorem exists_setValue {name text : String} {flag : ValueFlag} (h : (Flag.value flag).Accepts text) :
    ∃ flags', flags.setValue name flag text = .ok flags' := by
  cases flag with
  | file | index => exact ⟨_, rfl⟩
  | offset | line =>
    obtain ⟨n, hn, hlt⟩ := h
    simp only [setValue, readPosition_eq_ok_iff.2 ⟨n, hn, hlt, rfl⟩]
    exact ⟨_, rfl⟩

theorem setSwitch_eq_ok_iff {name : String} {text? : Option String} {flag : SwitchFlag} :
    flags.setSwitch name flag text? = .ok flags' ↔ ∃ on, readSwitch name text? = .ok on ∧
      flags' = match flag with
        | .modified => { flags with modified := on }
        | .warnOmitted => { flags with warnOmitted := on } := by
  unfold setSwitch
  cases readSwitch name text? with
  | error e => simp [bind, Except.bind]
  | ok on => cases flag <;> simp [bind, Except.bind, pure, Except.pure, eq_comm]

theorem Hold.setValue {g : Given} {name text : String} {flag : ValueFlag} (h : flags.Hold given)
    (htext : ∀ f, g.text? f = if flag = f then some text else none) (hsetting : ∀ f, g.setting? f = none)
    (hset : flags.setValue name flag text = .ok flags') :
    (Flag.value flag).Accepts text ∧ flags'.Hold (given ++ [g]) := by
  obtain ⟨haccepts, hflag, hothers, hon⟩ := of_setValue_eq_ok hset
  refine ⟨haccepts, fun f => ?_, fun f => ?_⟩
  · rw [lastText?_concat, htext]
    by_cases hf : flag = f
    · subst hf
      rw [if_pos rfl]
      exact hflag
    · rw [if_neg hf]
      exact hothers f (Ne.symm hf) _ (h.texts f)
  · rw [lastSetting?_concat, hsetting, Option.none_or, hon, h.switches]

theorem Hold.setSwitch {g : Given} {name : String} {text? : Option String} {flag : SwitchFlag}
    (h : flags.Hold given)
    (hsetting : ∀ f on, readSwitch name text? = .ok on → g.setting? f = if flag = f then some on else none)
    (htext : ∀ f, g.text? f = none) (hset : flags.setSwitch name flag text? = .ok flags') :
    flags'.Hold (given ++ [g]) := by
  obtain ⟨on, hread, rfl⟩ := setSwitch_eq_ok_iff.1 hset
  refine ⟨fun f => ?_, fun f => ?_⟩
  · have hf := h.texts f
    rw [lastText?_concat, htext, Option.none_or]
    cases flag <;> cases f <;> exact hf
  · have hf := h.switches f
    rw [lastSetting?_concat, hsetting f on hread]
    cases flag <;> cases f <;> first | rfl | exact hf

/-- One flag more that is taken into account has to be a valid one. -/
theorem Hold.set {g : Given} (h : flags.Hold given) (hset : flags.set g = .ok flags') :
    g.IsValid ∧ flags'.Hold (given ++ [g]) := by
  cases g with
  | joined n flag text =>
    cases flag with
    | value flag => exact h.setValue (fun _ => rfl) (fun _ => rfl) hset
    | switch flag =>
      obtain ⟨on, hread, -⟩ := setSwitch_eq_ok_iff.1 hset
      refine ⟨(readSwitch_some_eq_ok_iff.1 hread).1, h.setSwitch (fun f on hread => ?_) (fun _ => rfl) hset⟩
      rw [(readSwitch_some_eq_ok_iff.1 hread).2]
      rfl
  | apart n flag text => exact h.setValue (fun _ => rfl) (fun _ => rfl) hset
  | alone n flag =>
    refine ⟨trivial, h.setSwitch (fun f on hread => ?_) (fun _ => rfl) hset⟩
    cases hread
    rfl

theorem exists_set {g : Given} (h : g.IsValid) : ∃ flags', flags.set g = .ok flags' := by
  cases g with
  | joined n flag text =>
    cases flag with
    | value flag => exact exists_setValue h
    | switch flag => exact ⟨_, setSwitch_eq_ok_iff.2 ⟨_, readSwitch_some_eq_ok_iff.2 ⟨h, rfl⟩, rfl⟩⟩
  | apart n flag text => exact exists_setValue h
  | alone n flag => exact ⟨_, setSwitch_eq_ok_iff.2 ⟨true, rfl, rfl⟩⟩

/-- Whatever is read to its end is a list of valid flags. -/
theorem Hold.exists_splits {args : List String} (h : flags.Hold given)
    (hread : flags.read args = .ok flags') :
    ∃ more, Splits args more ∧ flags'.Hold (given ++ more) := by
  induction hn : args.length using Nat.strong_induction_on generalizing args flags given with
  | _ n ih =>
    cases args with
    | nil =>
      cases hread
      exact ⟨[], ⟨rfl, nofun⟩, by rwa [List.append_nil]⟩
    | cons arg args =>
      obtain ⟨g, rest, hargs⟩ := exists_arguments_append_of_read hread
      rw [hargs, read_arguments_append] at hread
      obtain ⟨flags₁, hset, hread⟩ := bind_eq_ok hread
      obtain ⟨hvalid, hhold⟩ := h.set hset
      have hlength : rest.length < n := by
        have := List.length_pos_iff.2 g.arguments_ne_nil
        rw [← hn, hargs, List.length_append]
        omega
      obtain ⟨more, hmore, hhold⟩ := ih rest.length hlength hhold hread rfl
      refine ⟨g :: more, ⟨?_, List.forall_mem_cons.2 ⟨hvalid, hmore.valid⟩⟩, by simpa using hhold⟩
      rw [List.flatMap_cons, hmore.arguments, hargs]

/-- Every list of valid flags is read to its end. -/
theorem Hold.exists_read {more : List Given} (h : flags.Hold given) (hvalid : ∀ g ∈ more, g.IsValid) :
    ∃ flags', flags.read (more.flatMap Given.arguments) = .ok flags' ∧ flags'.Hold (given ++ more) := by
  induction more generalizing flags given with
  | nil => exact ⟨flags, rfl, by rwa [List.append_nil]⟩
  | cons g more ih =>
    obtain ⟨hg, hmore⟩ := List.forall_mem_cons.1 hvalid
    obtain ⟨flags₁, hset⟩ : ∃ flags₁, flags.set g = .ok flags₁ := exists_set hg
    obtain ⟨flags', hread, hhold⟩ := ih (h.set hset).2 hmore
    refine ⟨flags', ?_, by simpa using hhold⟩
    rw [List.flatMap_cons, read_arguments_append, hset]
    exact hread

theorem Hold.unique (h : flags.Hold given) (h' : flags'.Hold given) : flags = flags' := by
  have hfile : flags.file? = flags'.file? := (h.texts .file).trans (h'.texts .file).symm
  have hindex : flags.index? = flags'.index? := (h.texts .index).trans (h'.texts .index).symm
  have hoffset : flags.offset? = flags'.offset? := (h.texts .offset).unique (h'.texts .offset)
  have hline : flags.line? = flags'.line? := (h.texts .line).unique (h'.texts .line)
  have hmodified : flags.modified = flags'.modified :=
    (h.switches .modified).trans (h'.switches .modified).symm
  have hwarn : flags.warnOmitted = flags'.warnOmitted :=
    (h.switches .warnOmitted).trans (h'.switches .warnOmitted).symm
  cases flags
  cases flags'
  simp_all only

end Flags

theorem FillCommand.exists_flags_eq {flags : Flags} {file : String} (h : flags.file? = some file) :
    ∃ c : FillCommand, c.flags = flags := by
  refine ⟨⟨⟨⟨file⟩, flags.offset?, flags.line?⟩, flags.modified, flags.index?.map Path.mk,
    flags.warnOmitted⟩, ?_⟩
  have hindex : (flags.index?.map Path.mk).map Path.text = flags.index? := by
    rw [Option.map_map]
    exact congrFun Option.map_id flags.index?
  rw [FillCommand.flags, hindex, ← h]

theorem FillCommand.parse_eq_ok_iff_read {args : List String} {c : FillCommand} :
    FillCommand.parse args = .ok c ↔ Flags.unset.read args = .ok c.flags := by
  unfold parse
  cases Flags.unset.read args with
  | error e => simp [bind, Except.bind]
  | ok flags =>
    obtain ⟨file?, offset?, line?, modified, index?, warnOmitted⟩ := flags
    obtain ⟨⟨⟨file⟩, offset?', line?'⟩, modified', index?', warnOmitted'⟩ := c
    have hindex : index?.map Path.mk = index?' ↔ index? = index?'.map Path.text := by
      have hcomp : Path.text ∘ Path.mk = id := rfl
      have hcomp' : Path.mk ∘ Path.text = id := rfl
      constructor <;> rintro rfl <;> simp [hcomp, hcomp']
    cases file? <;>
      simp [bind, Except.bind, pure, Except.pure, FillCommand.flags, hindex, and_assoc]

/-- Arguments are accepted exactly if they are valid flags one after the other, the file among them; which
ones, is for the arguments to tell. The command has for each flag what was given for it last. A flag may
have any number of dashes, and none as well. -/
theorem FillCommand.parse_eq_ok_iff (args : List String) :
    ((∃ c, FillCommand.parse args = .ok c) ↔
      ∃ given, Splits args given ∧ .value .file ∈ given.map Given.flag) ∧
    (∀ c, FillCommand.parse args = .ok c ↔ ∃ given, Splits args given ∧ c.flags.Hold given) ∧
    ∀ given given', Splits args given → Splits args given' → given = given' := by
  have hparse (c : FillCommand) : FillCommand.parse args = .ok c ↔
      ∃ given, Splits args given ∧ c.flags.Hold given := by
    rw [parse_eq_ok_iff_read]
    constructor
    · intro h
      obtain ⟨given, hsplits, hhold⟩ := Flags.hold_unset.exists_splits h
      exact ⟨given, hsplits, hhold⟩
    · rintro ⟨given, hsplits, hhold⟩
      obtain ⟨flags, hread, hflags⟩ := Flags.hold_unset.exists_read hsplits.valid
      rw [hsplits.arguments] at hread
      rw [hread, hflags.unique hhold]
  refine ⟨⟨?_, ?_⟩, hparse, fun given given' h h' => h.unique h'⟩
  · rintro ⟨c, h⟩
    obtain ⟨given, hsplits, hhold⟩ := (hparse c).1 h
    have hfile : some c.request.file.text = lastText? given .file := hhold.texts .file
    exact ⟨given, hsplits, isSome_lastText?_iff.1 (by rw [← hfile]; rfl)⟩
  · rintro ⟨given, hsplits, hfile⟩
    obtain ⟨flags, hread, hhold⟩ := Flags.hold_unset.exists_read hsplits.valid
    obtain ⟨file, hfile⟩ := Option.isSome_iff_exists.1 (isSome_lastText?_iff.2 hfile)
    have hflags : flags.file? = lastText? given .file := hhold.texts .file
    obtain ⟨c, rfl⟩ := exists_flags_eq (hflags.trans hfile)
    exact ⟨c, (hparse c).2 ⟨given, hsplits, hhold⟩⟩

/-- A flag without a dash in front is accepted, though it is none with one or two. -/
theorem FillCommand.parse_undashed :
    (∃ c, FillCommand.parse ["file=main.go"] = .ok c) ∧
      ¬∃ given, Splits ["file=main.go"] given ∧ ∀ g ∈ given, g.dashes = 1 ∨ g.dashes = 2 := by
  have hsplits : Splits ["file=main.go"] [.joined 0 (.value .file) "main.go"] :=
    ⟨rfl, List.forall_mem_singleton.2 trivial⟩
  refine ⟨⟨_, rfl⟩, ?_⟩
  rintro ⟨given, hgiven, hdashes⟩
  obtain rfl := hsplits.unique hgiven
  have hcount : (Given.joined 0 (.value .file) "main.go").dashes = 0 := rfl
  have hone := hdashes _ List.mem_cons_self
  omega

end LiteralFill
