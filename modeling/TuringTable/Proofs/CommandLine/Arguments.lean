import Mathlib.Control.Monad.Basic
import TuringTable.CommandLine
import TuringTable.Proofs.Document.Checked

/-!
# Arguments and options

Arguments make settings, one after the other, and then come to an end, and neither what they set nor
how they end has to do with the options so far (`Settles`, `settles_readArguments`). So what every
setting keeps all arguments keep: options that arguments give are `Proper`. And there are arguments
for all such options, with a word for each switch and the value in the same argument
(`exists_arguments_iff`). So what is said of options is said of calls (`commandLine_arguments`).
-/

namespace TuringTable

namespace CommandLine

/-- What arguments set. -/
inductive Setting where
  | flag (f : Flag)
  | key (k : Key) (value : String)
  | program (path : String)

def Options.set (o : Options) : Setting → Except Stop Options
  | .flag f => o.setFlag f
  | .key k value => o.setKey value k
  | .program path => o.setProgram path

/-! ### Arguments make settings -/

/-- Whatever the options, the same settings are made and the end is the same. -/
def Settles (f : Options → Except Stop Progress) : Prop :=
  ∃ (settings : List Setting) (ending : Except Stop (Option Key)),
    ∀ o, f o = settings.foldlM Options.set o >>= fun o => ending.map (⟨o, ·⟩)

namespace Settles

theorem stop (e : Stop) : Settles fun _ => .error e := ⟨[], .error e, fun _ => rfl⟩

theorem done (w : Option Key) : Settles fun o => .ok ⟨o, w⟩ := ⟨[], .ok w, fun _ => rfl⟩

theorem set (s : Setting) : Settles fun o => (o.set s).map (⟨·, none⟩) := by
  refine ⟨[s], .ok none, fun o => ?_⟩
  show (o.set s).map _ = _
  rw [List.foldlM_cons]
  cases o.set s <;> rfl

theorem bind {f : Options → Except Stop Progress} {g : Progress → Except Stop Progress}
    (hf : Settles f) (hg : ∀ w, Settles fun o => g ⟨o, w⟩) : Settles fun o => f o >>= g := by
  obtain ⟨settings, ending, hf⟩ := hf
  cases ending with
  | error e =>
    -- nothing comes of `g`, so its settings are not made
    refine ⟨settings, .error e, fun o => ?_⟩
    show f o >>= g = _
    rw [hf]
    cases settings.foldlM Options.set o <;> rfl
  | ok w =>
    obtain ⟨more, ending, hg⟩ := hg w
    refine ⟨settings ++ more, ending, fun o => ?_⟩
    show f o >>= g = _
    rw [hf, List.foldlM_append]
    cases settings.foldlM Options.set o with
    | error e => rfl
    | ok o' => exact hg o'

/-- It succeeds if each setting can be made and the end is no error. -/
theorem eq_ok_iff {f : Options → Except Stop Progress} (hf : Settles f) :
    ∃ (settings : List Setting) (ending : Except Stop (Option Key)), ∀ {o p},
      f o = .ok p ↔ settings.foldlM Options.set o = .ok p.options ∧ ending = .ok p.waiting := by
  obtain ⟨settings, ending, hf⟩ := hf
  refine ⟨settings, ending, fun {o p} => ?_⟩
  rw [hf]
  refine Except.bind_eq_ok_iff.trans ?_
  simp only [Except.map_eq_ok_iff]
  constructor
  · rintro ⟨o', ho, w, hw, rfl⟩
    exact ⟨ho, hw⟩
  · rintro ⟨ho, hw⟩
    exact ⟨p.options, ho, p.waiting, hw, rfl⟩

end Settles

theorem settles_applySwitch (s : Switch) : Settles fun o => applySwitch o s := by
  cases s with
  | flag f => exact .set (.flag f)
  | key k => exact .done (some k)
  | version => exact .stop _
  | help => exact .stop _

theorem settles_readLetters (cs : List Char) : Settles fun o => readLetters o cs := by
  induction cs with
  | nil => exact .done none
  | cons c cs ih =>
    simp only [readLetters]
    split
    · exact .stop _
    · rename_i k _
      split
      · exact .done (some k)
      · exact .set (.key k _)
      · exact .set (.key k _)
    · exact (settles_applySwitch _).bind fun _ => ih

theorem settles_readWord (cs : List Char) : Settles fun o => readWord o cs := by
  simp only [readWord]
  split
  · exact .stop _
  · exact settles_applySwitch _
  · exact .set (.key _ _)
  · exact .stop _

theorem settles_readArgument (w : Option Key) (arg : String) :
    Settles fun o => readArgument ⟨o, w⟩ arg := by
  simp only [readArgument]
  split
  · exact settles_readWord _
  · exact settles_readLetters _
  · exact .stop _
  · exact .set (.key _ _)
  · exact .set (.program _)

theorem readArguments_paths (p : Progress) (paths : List String) :
    readArguments p ("--" :: paths) = if p.waiting.isSome then .error .wrongUsage
      else (paths.foldlM Options.setProgram p.options).map (⟨·, none⟩) := by
  rw [readArguments]
  split
  · rfl
  · cases paths.foldlM Options.setProgram p.options <;> rfl

theorem settles_readArguments (w : Option Key) (args : List String) :
    Settles fun o => readArguments ⟨o, w⟩ args := by
  induction args generalizing w with
  | nil => exact .done w
  | cons arg args ih =>
    by_cases h : arg = "--"
    · simp only [h, readArguments_paths]
      by_cases hw : w.isSome = true
      · simp only [if_pos hw]
        exact .stop _
      · simp only [if_neg hw]
        refine ⟨args.map .program, .ok none, fun o => ?_⟩
        rw [List.foldlM_map]
        show (args.foldlM Options.setProgram o).map _ = args.foldlM Options.setProgram o >>= _
        cases args.foldlM Options.setProgram o <;> rfl
    · simp only [readArguments.eq_3 _ _ _ h]
      exact (settles_readArgument w arg).bind ih

/-! ### What settings keep -/

section Settings
variable {o o' : Options} {s : Setting} {settings : List Setting} {value x : String}

/-- Something that may be given once. -/
theorem once_eq_ok_iff {c : Prop} [Decidable c] {e : Stop} :
    (if c then .error e else .ok o : Except Stop Options) = .ok o' ↔ ¬c ∧ o = o' := by
  by_cases hc : c
  · rw [if_pos hc]
    exact iff_of_false nofun fun h => h.1 hc
  · rw [if_neg hc]
    exact ⟨fun h => ⟨hc, Except.ok.inj h⟩, fun h => congrArg Except.ok h.2⟩

theorem setKey_maxSteps_eq_ok_iff :
    o.setKey value .maxSteps = .ok o' ↔
      o.maxSteps = none ∧ ∃ n, stepLimit? value = some n ∧ { o with maxSteps := some n } = o' := by
  rw [Options.setKey]
  split
  · rename_i n hnone hn
    simp [hnone, hn]
  · rename_i hno
    refine iff_of_false nofun ?_
    rintro ⟨hnone, n, hn, -⟩
    exact hno n hnone hn

theorem lt_of_stepLimit? {n : Nat} (h : stepLimit? value = some n) : n < UInt64.size := by
  unfold stepLimit? at h
  extract_lets digits at h
  split at h
  · cases h
  · obtain ⟨hlt, hn⟩ := Option.ite_none_right_eq_some.1 h
    exact Option.some.inj hn ▸ hlt

theorem stepLimit?_toString {n : Nat} (h : n < UInt64.size) : stepLimit? (toString n) = some n := by
  have hall : ∀ c ∈ Nat.toDigits 10 n, c.isDigit = true := fun c hc =>
    Nat.isDigit_of_mem_toDigits (by decide) (by decide) hc
  have hvalue : (Nat.toDigits 10 n).foldl (fun n c => 10 * n + (c.toNat - 0x30)) 0 = n :=
    Nat.ofDigitChars_toDigits (by decide) (by decide)
  unfold stepLimit?
  extract_lets digits m
  have hdigits : digits = Nat.toDigits 10 n := by
    have hlist : (toString n).toList = Nat.toDigits 10 n := Nat.toList_repr
    simp only [digits, hlist]
    split
    · -- a numeral does not begin with a sign
      rename_i cs hsign
      exact absurd (hall '+' (hsign ▸ List.mem_cons_self)) (by decide)
    · rfl
  have hnumeral : (digits.isEmpty || !digits.all Char.isDigit) = false := by
    rw [hdigits, List.all_eq_true.2 hall, List.isEmpty_eq_false_iff.2 Nat.toDigits_ne_nil]
    rfl
  have hm : m = n := by
    simp only [m, hdigits]
    exact hvalue
  rw [hnumeral, hm]
  exact if_pos h

/-- A call has a built-in program or a path, if any, and a limit that 64 bits hold. -/
structure Options.Proper (o : Options) : Prop where
  alone : (o.sample.isSome && o.program.isSome) = false
  limit : ∀ n, o.maxSteps = some n → n < UInt64.size

theorem set_limit (h : o.set s = .ok o') (hlimit : ∀ n, o.maxSteps = some n → n < UInt64.size) :
    ∀ n, o'.maxSteps = some n → n < UInt64.size := by
  rcases s with (_ | _ | _) | ⟨_ | _ | _, value⟩ | path
  case key.maxSteps =>
    obtain ⟨-, m, hm, rfl⟩ := setKey_maxSteps_eq_ok_iff.1 h
    rintro _ ⟨⟩
    exact lt_of_stepLimit? hm
  all_goals
    obtain ⟨-, rfl⟩ := once_eq_ok_iff.1 h
    exact hlimit

theorem foldlM_set_limit (h : settings.foldlM Options.set o = .ok o')
    (hlimit : ∀ n, o.maxSteps = some n → n < UInt64.size) :
    ∀ n, o'.maxSteps = some n → n < UInt64.size := by
  induction settings generalizing o with
  | nil => exact Except.ok.inj h ▸ hlimit
  | cons s settings ih =>
    rw [List.foldlM_cons] at h
    obtain ⟨o₁, h₁, h⟩ := Except.bind_eq_ok_iff.1 h
    exact ih h (set_limit h₁ hlimit)

/-- The same options with an input. -/
def Options.withInput (o : Options) (x : String) : Options := { o with input := some x }

/-- If no input comes of a setting there was none before, and with one before it the setting is made
as well. -/
theorem set_withInput (x : String) (h : o.set s = .ok o') (hi : o'.input = none) :
    o.input = none ∧ (o.withInput x).set s = .ok (o'.withInput x) := by
  rcases s with (_ | _ | _) | ⟨_ | _ | _, value⟩ | path
  case key.input =>
    obtain ⟨-, rfl⟩ := once_eq_ok_iff.1 h
    cases hi
  case key.maxSteps =>
    obtain ⟨hnone, n, hn, rfl⟩ := setKey_maxSteps_eq_ok_iff.1 h
    exact ⟨hi, setKey_maxSteps_eq_ok_iff.2 ⟨hnone, n, hn, rfl⟩⟩
  all_goals
    obtain ⟨hc, rfl⟩ := once_eq_ok_iff.1 h
    exact ⟨hi, once_eq_ok_iff.2 ⟨hc, rfl⟩⟩

theorem foldlM_set_withInput (x : String) (h : settings.foldlM Options.set o = .ok o')
    (hi : o'.input = none) :
    o.input = none ∧ settings.foldlM Options.set (o.withInput x) = .ok (o'.withInput x) := by
  induction settings generalizing o with
  | nil =>
    obtain rfl := Except.ok.inj h
    exact ⟨hi, rfl⟩
  | cons s settings ih =>
    rw [List.foldlM_cons] at h ⊢
    obtain ⟨o₁, h₁, h⟩ := Except.bind_eq_ok_iff.1 h
    obtain ⟨hi₁, hrest⟩ := ih h
    obtain ⟨hi, hset⟩ := set_withInput x h₁ hi₁
    exact ⟨hi, Except.bind_eq_ok_iff.2 ⟨_, hset, hrest⟩⟩

end Settings

/-! ### The options of a call -/

section Call
variable {args : List String} {o : Options}

theorem ofArguments_eq_ok_iff :
    Options.ofArguments args = .ok o ↔ ∃ p, readArguments ⟨.none, none⟩ args = .ok p ∧
      p.waiting.isSome = false ∧ (p.options.sample.isSome && p.options.program.isSome) = false ∧
      p.options = o := by
  rw [Options.ofArguments]
  refine Except.bind_eq_ok_iff.trans (exists_congr fun p => and_congr_right fun _ => ?_)
  dsimp only
  cases p.waiting.isSome with
  | true => exact iff_of_false nofun nofun
  | false =>
    cases (p.options.sample.isSome && p.options.program.isSome) with
    | true => exact iff_of_false nofun nofun
    | false => exact ⟨fun h => ⟨rfl, rfl, Except.ok.inj h⟩, fun h => congrArg Except.ok h.2.2⟩

theorem Options.Proper.of_arguments (h : Options.ofArguments args = .ok o) : o.Proper := by
  obtain ⟨p, hp, -, halone, rfl⟩ := ofArguments_eq_ok_iff.1 h
  obtain ⟨settings, ending, hread⟩ := (settles_readArguments .none args).eq_ok_iff
  exact ⟨halone, foldlM_set_limit (hread.1 hp).1 nofun⟩

/-! ### Arguments for options -/

def Flag.word : Flag → String
  | list => "list"
  | debug => "debug"
  | dump => "dump"

def Key.word : Key → String
  | sample => "example"
  | input => "input"
  | maxSteps => "max-steps"

/-- The argument for a setting. That for a path is told by where it stands. -/
def Setting.argument : Setting → String
  | flag f => "--" ++ f.word
  | key k value => "--" ++ k.word ++ "=" ++ value
  | program path => path

/-- What is set of options before the path. -/
def Options.switches (o : Options) : List Setting :=
  (if o.list then [.flag .list] else []) ++ (if o.debug then [.flag .debug] else []) ++
    (if o.dump then [.flag .dump] else []) ++ (o.sample.map (.key .sample)).toList ++
    (o.input.map (.key .input)).toList ++
    (o.maxSteps.map fun n => .key .maxSteps (toString n)).toList

/-- Arguments for the options, the path after `--`. -/
def Options.arguments (o : Options) : List String :=
  o.switches.map Setting.argument ++ "--" :: o.program.toList

theorem readArgument_flag (o : Options) (f : Flag) :
    readArgument ⟨o, none⟩ ("--" ++ f.word) = (o.setFlag f).map (⟨·, none⟩) := by
  cases f <;> rfl

theorem readArgument_key (o : Options) (k : Key) (value : String) :
    readArgument ⟨o, none⟩ ("--" ++ k.word ++ "=" ++ value) =
      (o.setKey value k).map (⟨·, none⟩) := by
  have hchars : ("--" ++ k.word ++ "=" ++ value).toList =
      '-' :: '-' :: (k.word.toList ++ '=' :: value.toList) := by
    simp
  have hname : (k.word.toList ++ '=' :: value.toList).takeWhile (· != '=') = k.word.toList := by
    cases k <;> rfl
  have hswitch : longSwitch? k.word = some (.key k) := by cases k <;> rfl
  rw [readArgument, hchars]
  show readWord o (k.word.toList ++ '=' :: value.toList) = _
  rw [readWord, hname, String.ofList_toList, hswitch, List.drop_left]
  show (o.setKey (String.ofList value.toList) k).map _ = _
  rw [String.ofList_toList]

/-- A setting for which an argument needs no place of its own. -/
def Setting.IsSwitch (s : Setting) : Prop := ∀ path, s ≠ .program path

theorem readArguments_argument {s : Setting} (hs : s.IsSwitch) (o : Options) (args : List String) :
    readArguments ⟨o, none⟩ (s.argument :: args) =
      (o.set s).map (⟨·, none⟩) >>= fun p => readArguments p args := by
  have hread : readArgument ⟨o, none⟩ s.argument = (o.set s).map (⟨·, none⟩) := by
    cases s with
    | flag f => exact readArgument_flag o f
    | key k value => exact readArgument_key o k value
    | program path => exact absurd rfl (hs path)
  have hne : s.argument ≠ "--" := by
    intro h
    have hchars := congrArg String.toList h
    cases s with
    | flag f => cases f <;> cases hchars
    | key k value => simp [Setting.argument] at hchars
    | program path => exact absurd rfl (hs path)
  rw [readArguments.eq_3 _ _ _ hne, hread]

theorem readArguments_switches {settings : List Setting} {o o' : Options}
    (hs : ∀ s ∈ settings, s.IsSwitch) (h : settings.foldlM Options.set o = .ok o')
    (args : List String) :
    readArguments ⟨o, none⟩ (settings.map Setting.argument ++ args) =
      readArguments ⟨o', none⟩ args := by
  induction settings generalizing o with
  | nil =>
    obtain rfl := Except.ok.inj h
    rfl
  | cons s settings ih =>
    obtain ⟨hswitch, hs⟩ := List.forall_mem_cons.1 hs
    rw [List.foldlM_cons] at h
    obtain ⟨o₁, h₁, h⟩ := Except.bind_eq_ok_iff.1 h
    rw [List.map_cons, List.cons_append, readArguments_argument hswitch, h₁]
    exact ih hs h

theorem isSwitch_of_mem_switches {s : Setting} (h : s ∈ o.switches) : s.IsSwitch := by
  rintro path rfl
  simp [Options.switches] at h

/-- Each switch is given once, so nothing stands in the way of the next one. -/
theorem foldlM_switches (h : o.Proper) :
    o.switches.foldlM Options.set .none = .ok { o with program := none } := by
  obtain ⟨program, sample, list, input, debug, maxSteps, dump⟩ := o
  have hlist : (if list then [Setting.flag .list] else []).foldlM Options.set .none =
      .ok ⟨none, none, list, none, false, none, false⟩ := by
    cases list <;> rfl
  have hdebug : (if debug then [Setting.flag .debug] else []).foldlM Options.set
      ⟨none, none, list, none, false, none, false⟩ =
        .ok ⟨none, none, list, none, debug, none, false⟩ := by
    cases debug <;> rfl
  have hdump : (if dump then [Setting.flag .dump] else []).foldlM Options.set
      ⟨none, none, list, none, debug, none, false⟩ =
        .ok ⟨none, none, list, none, debug, none, dump⟩ := by
    cases dump <;> rfl
  have hsample : (sample.map (Setting.key .sample)).toList.foldlM Options.set
      ⟨none, none, list, none, debug, none, dump⟩ =
        .ok ⟨none, sample, list, none, debug, none, dump⟩ := by
    cases sample <;> rfl
  have hinput : (input.map (Setting.key .input)).toList.foldlM Options.set
      ⟨none, sample, list, none, debug, none, dump⟩ =
        .ok ⟨none, sample, list, input, debug, none, dump⟩ := by
    cases input <;> rfl
  have hmaxSteps : (maxSteps.map fun n => Setting.key .maxSteps (toString n)).toList.foldlM
      Options.set ⟨none, sample, list, input, debug, none, dump⟩ =
        .ok ⟨none, sample, list, input, debug, maxSteps, dump⟩ := by
    cases maxSteps with
    | none => rfl
    | some n =>
      have hn := stepLimit?_toString (h.limit n rfl)
      exact Except.bind_eq_ok_iff.2 ⟨_, setKey_maxSteps_eq_ok_iff.2 ⟨rfl, n, hn, rfl⟩, rfl⟩
  simp only [Options.switches, List.foldlM_append, hlist, hdebug, hdump, hsample, hinput, hmaxSteps,
    bind, Except.bind]

/-- Options that are proper can be asked for. -/
theorem ofArguments_arguments (h : o.Proper) : Options.ofArguments o.arguments = .ok o := by
  refine ofArguments_eq_ok_iff.2 ⟨⟨o, none⟩, ?_, rfl, h.alone, rfl⟩
  rw [Options.arguments, readArguments_switches (fun s => isSwitch_of_mem_switches)
    (foldlM_switches h), readArguments_paths]
  obtain ⟨program, sample, list, input, debug, maxSteps, dump⟩ := o
  cases program <;> rfl

/-- A call can have just the options that are proper. -/
theorem exists_arguments_iff : (∃ args, Options.ofArguments args = .ok o) ↔ o.Proper := by
  constructor
  · rintro ⟨args, h⟩
    exact .of_arguments h
  · exact fun h => ⟨o.arguments, ofArguments_arguments h⟩

example : Options.arguments ⟨some "-", none, false, some "01", true, some 2, false⟩ =
    ["--debug", "--input=01", "--max-steps=2", "--", "-"] := by
  decide

theorem commandLine_eq_perform (h : Options.ofArguments args = .ok o) (s : Surroundings) :
    commandLine args s = perform o s := by
  rw [commandLine, h]

/-- So what is said of options is said of calls. -/
theorem commandLine_arguments (h : o.Proper) (s : Surroundings) :
    commandLine o.arguments s = perform o s :=
  commandLine_eq_perform (ofArguments_arguments h) s

/-- An input can go before any arguments that give none. -/
theorem ofArguments_input (x : String) (h : Options.ofArguments args = .ok o)
    (hi : o.input = none) :
    Options.ofArguments (("--input=" ++ x) :: args) = .ok (o.withInput x) := by
  obtain ⟨p, hp, hw, halone, rfl⟩ := ofArguments_eq_ok_iff.1 h
  obtain ⟨settings, ending, hread⟩ := (settles_readArguments none args).eq_ok_iff
  obtain ⟨hset, hend⟩ := hread.1 hp
  obtain ⟨-, hset'⟩ := foldlM_set_withInput x hset hi
  have hinput : readArguments ⟨.none, none⟩ (("--input=" ++ x) :: args) =
      readArguments ⟨Options.none.withInput x, none⟩ args :=
    readArguments_argument (s := .key .input x) nofun .none args
  refine ofArguments_eq_ok_iff.2 ⟨⟨p.options.withInput x, p.waiting⟩, ?_, hw, halone, rfl⟩
  rw [hinput]
  exact hread.2 ⟨hset', hend⟩

end Call

end CommandLine

end TuringTable
