import WordMachine.Command.Request
import WordMachine.Proofs.Numeral

/-!
# Options written out

The options of a run can be given in many ways, and some options could only be thought of: no file has
the empty path, a limit is a size, and a report has only so many sections.  All others can be asked for,
and they are `RunOptions.Writable`.  `RunOptions.arguments` writes them out, each value behind an equals
sign and the file behind a bare `--`, where nothing in it can be taken for an option, and
`Request.ofArguments_arguments` says that reading the arguments gives the options back.  Conversely, all
that reading gives is of this kind, since every argument that is taken keeps it so
(`Request.writable_of_ofArguments`).
-/

namespace WordMachine

open Numeral

namespace Command

/-! ### Long options -/

/-- A long option with a value behind an equals sign. -/
def Argument.withValue (name value : String) : String :=
  "--" ++ name ++ "=" ++ value

/-- The first equals sign ends the name, whatever the value is. -/
theorem Argument.ofString_withValue {name : String} (hname : '=' ∉ name.toList) (value : String) :
    ofString (withValue name value) = .long name (some value) := by
  have htext : (withValue name value).toList =
      '-' :: '-' :: (name.toList ++ '=' :: value.toList) := by
    simp only [withValue, String.toList_append, List.append_assoc]
    rfl
  have hbefore : ∀ c ∈ name.toList, decide (c ≠ '=') = true := by
    intro c hc
    refine decide_eq_true ?_
    rintro rfl
    exact hname hc
  have hlong : ofLong (name.toList ++ '=' :: value.toList) = .long name (some value) := by
    have hfirst : (name.toList ++ '=' :: value.toList).takeWhile (· ≠ '=') = name.toList := by
      rw [List.takeWhile_append_of_pos hbefore, List.takeWhile_cons_of_neg (by decide),
        List.append_nil]
    have hrest : (name.toList ++ '=' :: value.toList).dropWhile (· ≠ '=') =
        '=' :: value.toList := by
      rw [List.dropWhile_append_of_pos hbefore, List.dropWhile_cons_of_neg (by decide)]
    rw [ofLong, hfirst, hrest]
    simp only [String.ofList_toList]
  obtain ⟨c, cs, hcs⟩ : ∃ c cs, name.toList ++ '=' :: value.toList = c :: cs :=
    List.exists_cons_of_ne_nil (List.append_ne_nil_of_right_ne_nil _ (List.cons_ne_nil _ _))
  rw [hcs] at htext hlong
  rw [ofString, htext]
  exact hlong

/-- A size is read back from its decimal numeral. -/
theorem size?_decimal {n : Nat} (hn : n < sizeBound) : size? (decimal n) = some n := by
  have hread : ofPlusDigits? (digits 10 0 n) = some n := by
    unfold ofPlusDigits?
    split
    · next cs hplus =>
      -- a plus sign is no digit
      have hdigit : isDigit '+' = true :=
        isDigit_of_mem_digits (hplus ▸ List.mem_cons_self)
      cases hdigit
    · exact ofDigits?_digits 0 n
  rw [size?, toList_decimal, hread]
  exact Option.filter_eq_some_iff.mpr ⟨rfl, decide_eq_true hn⟩

/-! ### Options -/

/-- The options can be asked for. -/
structure RunOptions.Writable (o : RunOptions) : Prop where
  file : o.file ≠ some ""
  settingsFile : o.settingsFile ≠ some ""
  stepLimit : ∀ n, o.stepLimit = some n → n < sizeBound
  sections : ∀ name ∈ o.sections, name ∈ Report.sectionNames

/-- The arguments that name a file, whatever it begins with. -/
def fileArguments : Option String → List String
  | none => []
  | some path => ["--", path]

/-- The arguments that ask for the options. -/
def RunOptions.arguments (o : RunOptions) : List String :=
  (o.settingsFile.map (Argument.withValue "config")).toList ++
    ((o.stepLimit.map fun n => Argument.withValue "max-steps" (decimal n)).toList ++
      ((if o.tracing then ["--trace"] else []) ++
        ((if o.report then ["--stats"] else []) ++
          (o.sections.map (Argument.withValue "stats-sections") ++ fileArguments o.file))))

/-! ### Reading options -/

/-- A long option that is taken leads on to the arguments behind it. -/
theorem readRun_long {o o' : RunOptions} {arg name : String} {value : Option String}
    (hform : Argument.ofString arg = .long name value)
    (htake : o.takeLong name value = .ok (.go o' .file)) (rest : List String) :
    readRun o .file (arg :: rest) = readRun o' .file rest := by
  have heffect : (Awaited.file.settle.bind fun _ => o.takeLong name value) = .ok (.go o' .file) :=
    htake
  rw [readRun, hform]
  simp only [heffect]

/-- A path that may be given is not empty. -/
theorem isEmpty_eq_false {path : String} (h : some path ≠ some "") : path.isEmpty = false := by
  rw [Bool.eq_false_iff]
  intro hempty
  exact h (congrArg some (String.isEmpty_iff.mp hempty))

section Reading

variable {o : RunOptions} (rest : List String)

theorem readRun_settingsFile (ho : o.settingsFile = none) {file : Option String}
    (hfile : file ≠ some "") :
    readRun o .file ((file.map (Argument.withValue "config")).toList ++ rest) =
      readRun { o with settingsFile := file } .file rest := by
  cases file with
  | none =>
    have hsame : { o with settingsFile := none } = o := by rw [← ho]
    rw [hsame]
    rfl
  | some path =>
    have hpath : path.isEmpty = false := isEmpty_eq_false hfile
    have htake : o.takeLong "config" (some path) =
        .ok (.go { o with settingsFile := some path } .file) := by
      have hvalue : o.takeValue path .settingsFile = .ok { o with settingsFile := some path } := by
        simp only [RunOptions.takeValue, ho, hpath]
        rfl
      exact congrArg (·.map (OptionEffect.go · .file)) hvalue
    exact readRun_long (Argument.ofString_withValue (by decide) path) htake rest

theorem readRun_stepLimit (ho : o.stepLimit = none) {limit : Option Nat}
    (hlimit : ∀ n, limit = some n → n < sizeBound) :
    readRun o .file
        ((limit.map fun n => Argument.withValue "max-steps" (decimal n)).toList ++ rest) =
      readRun { o with stepLimit := limit } .file rest := by
  cases limit with
  | none =>
    have hsame : { o with stepLimit := none } = o := by rw [← ho]
    rw [hsame]
    rfl
  | some n =>
    have htake : o.takeLong "max-steps" (some (decimal n)) =
        .ok (.go { o with stepLimit := some n } .file) := by
      have hvalue : o.takeValue (decimal n) .stepLimit = .ok { o with stepLimit := some n } := by
        simp only [RunOptions.takeValue, ho, size?_decimal (hlimit n rfl)]
        rfl
      exact congrArg (·.map (OptionEffect.go · .file)) hvalue
    exact readRun_long (Argument.ofString_withValue (by decide) (decimal n)) htake rest

theorem readRun_tracing (ho : o.tracing = false) (tracing : Bool) :
    readRun o .file ((if tracing then ["--trace"] else []) ++ rest) =
      readRun { o with tracing } .file rest := by
  cases tracing with
  | false =>
    have hsame : { o with tracing := false } = o := by rw [← ho]
    rw [hsame]
    rfl
  | true =>
    have htake : o.takeLong "trace" none = .ok (.go { o with tracing := true } .file) := by
      have hflag : o.takeTracing = .ok { o with tracing := true } := by
        rw [RunOptions.takeTracing, ho]
        rfl
      exact congrArg (·.map (OptionEffect.go · .file)) hflag
    exact readRun_long (by decide) htake rest

theorem readRun_report (ho : o.report = false) (report : Bool) :
    readRun o .file ((if report then ["--stats"] else []) ++ rest) =
      readRun { o with report } .file rest := by
  cases report with
  | false =>
    have hsame : { o with report := false } = o := by rw [← ho]
    rw [hsame]
    rfl
  | true =>
    have htake : o.takeLong "stats" none = .ok (.go { o with report := true } .file) := by
      have hflag : o.takeReport = .ok { o with report := true } := by
        rw [RunOptions.takeReport, ho]
        rfl
      exact congrArg (·.map (OptionEffect.go · .file)) hflag
    exact readRun_long (by decide) htake rest

theorem readRun_sections {names : List String}
    (hnames : ∀ name ∈ names, name ∈ Report.sectionNames) :
    readRun o .file (names.map (Argument.withValue "stats-sections") ++ rest) =
      readRun { o with sections := o.sections ++ names } .file rest := by
  induction names generalizing o with
  | nil =>
    rw [List.append_nil]
    rfl
  | cons name names ih =>
    obtain ⟨hname, hnames⟩ := List.forall_mem_cons.mp hnames
    have hplain : ∀ name ∈ Report.sectionNames, ',' ∉ name.toList := by
      decide
    have htake : o.takeLong "stats-sections" (some name) =
        .ok (.go { o with sections := o.sections ++ [name] } .file) := by
      have hvalue : o.takeSections name = .ok { o with sections := o.sections ++ [name] } := by
        have hall : [name].all Report.sectionNames.contains = true := by
          rw [List.all_cons, List.all_nil, Bool.and_true]
          exact List.contains_iff_mem.mpr hname
        rw [RunOptions.takeSections, fields_eq_singleton (hplain name hname)]
        exact if_pos hall
      exact congrArg (·.map (OptionEffect.go · .file)) hvalue
    rw [List.map_cons, List.cons_append,
      readRun_long (Argument.ofString_withValue (by decide) name) htake, ih hnames,
      List.append_assoc]
    rfl

theorem readRun_file (ho : o.file = none) {file : Option String} (hfile : file ≠ some "") :
    readRun o .file (fileArguments file) = .ok (.run { o with file }) := by
  cases file with
  | none =>
    have hsame : { o with file := none } = o := by rw [← ho]
    rw [hsame]
    rfl
  | some path =>
    have hpath : path.isEmpty = false := isEmpty_eq_false hfile
    have htake : o.takeFile path = .ok { o with file := some path } := by
      simp only [RunOptions.takeFile, ho, hpath]
      rfl
    have hfiles : o.takeFiles [path] = .ok { o with file := some path } := by
      rw [RunOptions.takeFiles, htake]
      rfl
    have hsettled : (Awaited.file.settle.bind fun _ => (o.takeFiles [path]).map Request.run) =
        .ok (.run { o with file := some path }) :=
      congrArg (·.map Request.run) hfiles
    exact hsettled

end Reading

/-- Options that can be asked for are what the arguments for them ask for. -/
theorem Request.ofArguments_arguments {o : RunOptions} (h : o.Writable) :
    ofArguments ("run" :: o.arguments) = .ok (.run o) := by
  rw [ofArguments, RunOptions.arguments, readRun_settingsFile _ rfl h.settingsFile,
    readRun_stepLimit _ rfl h.stepLimit, readRun_tracing _ rfl, readRun_report _ rfl,
    readRun_sections _ h.sections, readRun_file rfl h.file]
  rfl

/-! ### Options that are read -/

/-- What is left of a value that has been taken. -/
theorem exists_of_map_eq_ok {α β : Type} {f : α → β} {x : Except UsageError α} {y : β}
    (h : x.map f = .ok y) : ∃ a, x = .ok a ∧ f a = y := by
  cases x with
  | error e => cases h
  | ok a => exact ⟨a, rfl, Except.ok.inj h⟩

theorem exists_of_bind_eq_ok {α β : Type} {f : α → Except UsageError β}
    {x : Except UsageError α} {y : β} (h : x.bind f = .ok y) : ∃ a, x = .ok a ∧ f a = .ok y := by
  cases x with
  | error e => cases h
  | ok a => exact ⟨a, rfl, h⟩

namespace RunOptions.Writable

variable {o o' : RunOptions}

theorem standard : ({} : RunOptions).Writable where
  file := nofun
  settingsFile := nofun
  stepLimit := nofun
  sections := nofun

/-- A path that is taken is not empty. -/
theorem takeFile (h : o.Writable) {path : String} (htake : o.takeFile path = .ok o') :
    o'.Writable := by
  rw [RunOptions.takeFile] at htake
  split at htake
  · cases htake
  · split at htake
    · cases htake
    · next hpath =>
      cases htake
      refine ⟨?_, h.settingsFile, h.stepLimit, h.sections⟩
      rintro ⟨⟩
      exact hpath rfl

/-- Neither is the path of settings, and a limit that is taken is a size. -/
theorem takeValue (h : o.Writable) {value : String} {option : ValueOption}
    (htake : o.takeValue value option = .ok o') : o'.Writable := by
  cases option with
  | settingsFile =>
    rw [RunOptions.takeValue] at htake
    split at htake
    · cases htake
    · split at htake
      · cases htake
      · next hpath =>
        cases htake
        refine ⟨h.file, ?_, h.stepLimit, h.sections⟩
        rintro ⟨⟩
        exact hpath rfl
  | stepLimit =>
    rw [RunOptions.takeValue] at htake
    split at htake
    · cases htake
    · split at htake
      · cases htake
      · next n hsize =>
        cases htake
        refine ⟨h.file, h.settingsFile, ?_, h.sections⟩
        rintro m ⟨⟩
        exact of_decide_eq_true (Option.filter_eq_some_iff.mp hsize).2

/-- Sections that are taken have names. -/
theorem takeSections (h : o.Writable) {value : String} (htake : o.takeSections value = .ok o') :
    o'.Writable := by
  rw [RunOptions.takeSections] at htake
  split at htake
  · next hall =>
    cases htake
    refine ⟨h.file, h.settingsFile, h.stepLimit, ?_⟩
    intro name hname
    rcases List.mem_append.mp hname with hold | hnew
    · exact h.sections name hold
    · exact List.contains_iff_mem.mp (List.all_eq_true.mp hall name hnew)
  · cases htake

theorem takeFiles (h : o.Writable) {paths : List String} (htake : o.takeFiles paths = .ok o') :
    o'.Writable := by
  induction paths generalizing o with
  | nil =>
    cases htake
    exact h
  | cons path paths ih =>
    rw [RunOptions.takeFiles] at htake
    split at htake
    · cases htake
    · next hfirst => exact ih (h.takeFile hfirst) htake

theorem takeTracing (h : o.Writable) (htake : o.takeTracing = .ok o') : o'.Writable := by
  rw [RunOptions.takeTracing] at htake
  split at htake
  · cases htake
  · cases htake
    exact ⟨h.file, h.settingsFile, h.stepLimit, h.sections⟩

theorem takeReport (h : o.Writable) (htake : o.takeReport = .ok o') : o'.Writable := by
  rw [RunOptions.takeReport] at htake
  split at htake
  · cases htake
  · cases htake
    exact ⟨h.file, h.settingsFile, h.stepLimit, h.sections⟩

variable {next : Awaited}

theorem takeOption (h : o.Writable) {option : ValueOption} {value : Option String}
    (htake : o.takeOption option value = .ok (.go o' next)) : o'.Writable := by
  cases value with
  | none =>
    cases htake
    exact h
  | some value =>
    obtain ⟨o₁, hvalue, ⟨⟩⟩ := exists_of_map_eq_ok htake
    exact h.takeValue hvalue

theorem takeFlag {name : String} {take : Except UsageError RunOptions} {value : Option String}
    (h : take = .ok o' → o'.Writable)
    (htake : RunOptions.takeFlag name take value = .ok (.go o' next)) : o'.Writable := by
  cases value with
  | none =>
    obtain ⟨o₁, hflag, ⟨⟩⟩ := exists_of_map_eq_ok htake
    exact h hflag
  | some value => cases htake

theorem takeLong (h : o.Writable) {name : String} {value : Option String}
    (htake : o.takeLong name value = .ok (.go o' next)) : o'.Writable := by
  unfold RunOptions.takeLong at htake
  split at htake
  · exact h.takeOption htake
  · exact h.takeOption htake
  · exact takeFlag h.takeTracing htake
  · exact takeFlag h.takeReport htake
  · cases value with
    | none =>
      cases htake
      exact h
    | some names =>
      obtain ⟨o₁, hsections, ⟨⟩⟩ := exists_of_map_eq_ok htake
      exact h.takeSections hsections
  · cases value <;> cases htake
  · cases htake

theorem takeShort (h : o.Writable) {letter : Char} {rest : List Char}
    (htake : o.takeShort letter rest = .ok (.go o' next)) : o'.Writable := by
  unfold RunOptions.takeShort at htake
  split at htake
  · exact h.takeOption htake
  · cases htake
  · cases htake

theorem takePlain (h : o.Writable) {text : String} {awaited : Awaited}
    (htake : o.takePlain text awaited = .ok (o', next)) : o'.Writable := by
  cases awaited with
  | file =>
    obtain ⟨o₁, hfile, ⟨⟩⟩ := exists_of_map_eq_ok htake
    exact h.takeFile hfile
  | value option =>
    obtain ⟨o₁, hvalue, ⟨⟩⟩ := exists_of_map_eq_ok htake
    exact h.takeValue hvalue
  | sections named =>
    obtain ⟨o₁, hsections, ⟨⟩⟩ := exists_of_map_eq_ok htake
    exact h.takeSections hsections

/-- Every argument keeps this, so that it holds of all that are read. -/
theorem readRun (h : o.Writable) {awaited : Awaited} {args : List String}
    (hread : Command.readRun o awaited args = .ok (.run o')) : o'.Writable := by
  induction args generalizing o awaited with
  | nil =>
    obtain ⟨-, -, ⟨⟩⟩ := exists_of_map_eq_ok hread
    exact h
  | cons arg args ih =>
    rw [Command.readRun] at hread
    split at hread
    · split at hread
      · cases hread
      · next htake => exact ih (h.takePlain htake) hread
    · obtain ⟨-, -, hfiles⟩ := exists_of_bind_eq_ok hread
      obtain ⟨o₁, hfiles, ⟨⟩⟩ := exists_of_map_eq_ok hfiles
      exact h.takeFiles hfiles
    · split at hread
      · cases hread
      · cases hread
      · next htake =>
        obtain ⟨-, -, htake⟩ := exists_of_bind_eq_ok htake
        exact ih (h.takeLong htake) hread
    · split at hread
      · cases hread
      · cases hread
      · next htake =>
        obtain ⟨-, -, htake⟩ := exists_of_bind_eq_ok htake
        exact ih (h.takeShort htake) hread

end RunOptions.Writable

/-- The arguments of a listing ask for no run. -/
theorem readList_ne_run {o o' : RunOptions} {args : List String} :
    readList o args ≠ .ok (.run o') := by
  induction args generalizing o with
  | nil => nofun
  | cons arg args ih =>
    intro hread
    rw [readList] at hread
    split at hread
    · split at hread
      · cases hread
      · exact ih hread
    · obtain ⟨o₁, -, hlist⟩ := exists_of_map_eq_ok hread
      cases hlist
    · cases hread
    · cases hread
    · cases hread

/-- Nor do those of a request for help. -/
theorem readHelp_ne_run {o : RunOptions} {args : List String} :
    readHelp args ≠ .ok (.run o) := by
  intro hread
  unfold readHelp at hread
  split at hread <;> cases hread

/-- The options of a run that is asked for are such that can be asked for. -/
theorem Request.writable_of_ofArguments {args : List String} {o : RunOptions}
    (h : ofArguments args = .ok (.run o)) : o.Writable := by
  unfold ofArguments at h
  split at h
  · cases h
    exact .standard
  · cases h
    exact .standard
  · exact RunOptions.Writable.standard.readRun h
  · exact absurd h readList_ne_run
  · exact absurd h readHelp_ne_run
  · split at h <;> cases h

end Command

end WordMachine
