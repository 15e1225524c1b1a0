import EnumCompanion.Proofs.CommandLine.Session
import EnumCompanion.Proofs.Journal

/-!
# Runs and files

A run that returns an exit code writes one file at most, its *goal*; apart from that
it adds to the file for records. It succeeds if the goal is written, and fails if it
is not, where a goal without room is left with a beginning of what was to be
written.

* `Arguments.goal?`, `Leaves`: the file that a run may write, and what a part of a
  run makes of a session;
* `Job.Put`, `Job.exists_put`: what becomes of a source that code is put into;
* `leaves_of_performOn`: what becomes of operations for enums;
* `Selects`, `selects_or`: the runs that get as far as the enums that arguments
  choose;
* `run_frame`: what a run leaves as it is, and when it finds no enum.
-/

namespace EnumCompanion

open Journal

namespace CommandLine

/-- The exit code that a run returns, if it returns one. -/
def Ending.returned? : Ending → Option Nat
  | exit code => some code
  | _ => none

/-- The file that a run may write: the output that is chosen, or else the source
    if the code is put into it. A run that shows enums or operations writes none. -/
def Arguments.goal? (arguments : Arguments) : Option Path :=
  if arguments.listOperations ∨ arguments.listEnums then none
  else if arguments.output ≠ [] then some (.ofText arguments.output)
  else if arguments.write then filePath? arguments
  else none

/-- What a part of a run that returns an exit code makes of a session: it only makes
    records, or it writes a product to the goal, with success or without. -/
inductive Leaves (goal? : Option Path) (Product : Bytes → Prop) (session : Session) :
    Nat → Session → Prop
  /-- No file is written. -/
  | idle {code : Nat} {session' : Session} (grows : session.Grows session') :
      Leaves goal? Product session code session'
  /-- The goal is written. -/
  | written {path : Path} {content : Bytes} {before : Session} {storage : Storage}
      {session' : Session} (goal : path ∈ goal?) (product : Product content)
      (start : session.Grows before) (write : before.storage.write path content = .ok storage)
      (grows : { before with storage }.Grows session') :
      Leaves goal? Product session successCode session'
  /-- The goal cannot be written. -/
  | failed {path : Path} {content : Bytes} {before : Session} {failure : Storage.Failure}
      {session' : Session} (goal : path ∈ goal?) (product : Product content)
      (start : session.Grows before)
      (write : before.storage.write path content = .error failure)
      (grows : { before with storage := failure.storage }.Grows session') :
      Leaves goal? Product session failureCode session'

variable {session session' : Session} {code : Nat}

/-- What comes of a part of a run behind one that only makes records. -/
theorem Leaves.behind {goal? : Option Path} {Product : Bytes → Prop} {before : Session}
    (h : Leaves goal? Product before code session') (hgrows : session.Grows before) :
    Leaves goal? Product session code session' := by
  cases h with
  | idle grows => exact .idle (hgrows.trans grows)
  | written goal product start write grows =>
    exact .written goal product (hgrows.trans start) write grows
  | failed goal product start write grows =>
    exact .failed goal product (hgrows.trans start) write grows

theorem Leaves.mono {goal? : Option Path} {Product Product' : Bytes → Prop}
    (h : Leaves goal? Product session code session')
    (hproduct : ∀ content, Product content → Product' content) :
    Leaves goal? Product' session code session' := by
  cases h with
  | idle grows => exact .idle grows
  | written goal product start write grows =>
    exact .written goal (hproduct _ product) start write grows
  | failed goal product start write grows =>
    exact .failed goal (hproduct _ product) start write grows

/-! ### Ends -/

/-- A part of a run that ends it with an exit code shows items before. -/
theorem eq_of_on_finish {code' : Nat} {items : List Item}
    (h : (finish code' items).run.on session = (.ok code, session')) :
    code = code' ∧ session.Grows session' := by
  obtain ⟨hcode, rfl⟩ := Prod.mk.inj h
  exact ⟨(Except.ok.inj hcode).symm, reports_display items session⟩

/-- A part of a run that says what is wrong, or ends with a fault, only makes records. -/
theorem refused_of_on {declared : Bool} {items : List Item} {fault : Fault}
    (h : (if declared then finish failureCode items
      else throw fault : ExceptT Fault Course Nat).run.on session = (.ok code, session')) :
    code = failureCode ∧ session.Grows session' := by
  cases declared with
  | false => exact absurd (Prod.mk.inj h).1 error_ne_ok
  | true => exact eq_of_on_finish h

/-- A part of a run behind a computation that makes records. -/
theorem exists_of_told_bind {α : Type} {logged : Logged α} {next : α → ExceptT Fault Course Nat}
    {result : Except Fault Nat × Session}
    (h : (liftM (told logged) >>= next).run.on session = result) :
    ∃ before, session.Grows before ∧ (next logged.value).run.on before = result :=
  ⟨_, reports_told logged session, h⟩

/-- A file that is written. -/
theorem on_writeFile_eq_ok {path : Path} {content : Bytes} {storage : Storage}
    (h : session.storage.write path content = .ok storage) :
    (writeFile path content).on session = (.ok (), { session with storage }) := by
  rw [on_writeFile, h]

/-- A file that cannot be written. -/
theorem on_writeFile_eq_error {path : Path} {content : Bytes} {failure : Storage.Failure}
    (h : session.storage.write path content = .error failure) :
    (writeFile path content).on session =
      (.error failure.fault, { session with storage := failure.storage }) := by
  rw [on_writeFile, h]

/-! ### Jobs -/

namespace Job

variable {job : Job} {subject : Subject} {output : Text}

/-- What a job writes: the source with the code, or the code on its own. -/
inductive Yields (job : Job) (subject : Subject) : Bool → Bytes → Prop
  | changed {text : Text} (changed_eq : (job.changed subject.source.text).run.value = .ok text) :
      Yields job subject true (Utf8.encode text)
  | code {fragments : List Fragment} (fragments_eq : job.fragments.run.value = .ok fragments) :
      Yields job subject false (Utf8.encode (codeOf fragments))

/-- What becomes of a source with the code in it, and of the session. -/
inductive Put (session : Session) (subject : Subject) (output text : Text) : Nat → Session → Prop
  /-- There is no file to write, and the text is shown. -/
  | shown {session' : Session} (target : target? subject output = none)
      (grows : session.Grows session') : Put session subject output text successCode session'
  /-- The file holds the text already. -/
  | upToDate {session' : Session} (target : target? subject output = subject.path)
      (same : text = subject.source.text) (grows : session.Grows session') :
      Put session subject output text successCode session'
  /-- The text is written. -/
  | written {path : Path} {before : Session} {storage : Storage} {session' : Session}
      (target : target? subject output = some path) (start : session.Grows before)
      (write : before.storage.write path (Utf8.encode text) = .ok storage)
      (grows : { before with storage }.Grows session') :
      Put session subject output text successCode session'
  /-- The file cannot be written. -/
  | failed {path : Path} {before : Session} {failure : Storage.Failure} {session' : Session}
      (target : target? subject output = some path) (start : session.Grows before)
      (write : before.storage.write path (Utf8.encode text) = .error failure)
      (grows : { before with storage := failure.storage }.Grows session') :
      Put session subject output text failureCode session'

theorem Put.behind {before : Session} {text : Text}
    (h : Put before subject output text code session') (hgrows : session.Grows before) :
    Put session subject output text code session' := by
  cases h with
  | shown target grows => exact .shown target (hgrows.trans grows)
  | upToDate target same grows => exact .upToDate target same (hgrows.trans grows)
  | written target start write grows => exact .written target (hgrows.trans start) write grows
  | failed target start write grows => exact .failed target (hgrows.trans start) write grows

/-- A source that code is put into with success is shown, or its file holds the text,
    already or because it is written. -/
theorem Put.cases_of_success {text : Text}
    (h : Put session subject output text successCode session') :
    target? subject output = none ∨
      (target? subject output = subject.path ∧ text = subject.source.text ∧
        session.Grows session') ∨
      ∃ path before storage, target? subject output = some path ∧ session.Grows before ∧
        before.storage.write path (Utf8.encode text) = .ok storage ∧
        { before with storage }.Grows session' := by
  generalize hcode : successCode = code at h
  cases h with
  | shown target _ => exact .inl target
  | upToDate target same grows => exact .inr (.inl ⟨target, same, grows⟩)
  | written target start write grows => exact .inr (.inr ⟨_, _, _, target, start, write, grows⟩)
  | failed => exact absurd hcode (by decide)

theorem put_of_writeTo {text : Text} {path : Path} (htarget : target? subject output = some path)
    (h : (writeTo subject text path).run.on session = (.ok code, session')) :
    Put session subject output text code session' := by
  rw [writeTo] at h
  split_ifs at h with hsame
  · obtain ⟨rfl, hgrows⟩ := eq_of_on_finish h
    exact .upToDate (htarget.trans hsame.1.symm) hsame.2 hgrows
  rw [on_run_bind, on_run_lift] at h
  cases hwrite : session.storage.write path (Utf8.encode text) with
  | ok storage =>
    rw [on_writeFile_eq_ok hwrite] at h
    obtain ⟨rfl, hgrows⟩ := eq_of_on_finish h
    exact .written htarget (.refl session) hwrite hgrows
  | error failure =>
    rw [on_writeFile_eq_error hwrite] at h
    dsimp only at h
    rw [on_run_bind] at h
    generalize hresult : (unwritten path failure.fault).run.on
      { session with storage := failure.storage } = result at h
    obtain ⟨outcome, behind⟩ := result
    cases outcome with
    | error fault => exact absurd (Prod.mk.inj h).1 error_ne_ok
    | ok code' =>
      obtain ⟨rfl, hgrows⟩ := refused_of_on hresult
      obtain ⟨hcode, rfl⟩ := Prod.mk.inj h
      obtain rfl := Except.ok.inj hcode
      exact .failed htarget (.refl session) hwrite (hgrows.trans (reports_report _ behind))

/-- What becomes of a source that a job puts code into. -/
theorem exists_put (h : (job.write subject output).run.on session = (.ok code, session')) :
    ∃ text, (job.changed subject.source.text).run.value = .ok text ∧
      Put session subject output text code session' := by
  obtain ⟨before, hgrows, h⟩ := exists_of_told_bind h
  cases hchanged : (job.changed subject.source.text).run.value with
  | error fault =>
    rw [hchanged] at h
    exact absurd (Prod.mk.inj h).1 error_ne_ok
  | ok text =>
    rw [hchanged] at h
    refine ⟨text, rfl, ?_⟩
    dsimp only at h
    cases htarget : target? subject output with
    | none =>
      rw [htarget] at h
      obtain ⟨rfl, hbehind⟩ := eq_of_on_finish h
      exact .shown htarget (hgrows.trans hbehind)
    | some path =>
      rw [htarget] at h
      exact (put_of_writeTo htarget h).behind hgrows

/-- What becomes of code that is shown or saved. -/
theorem leaves_of_present {goal? : Option Path} {Product : Bytes → Prop}
    {fragments : List Fragment} {verbose : Bool} (hgoal : output ≠ [] → goal? = some (.ofText output))
    (hproduct : Product (Utf8.encode (codeOf fragments)))
    (h : (present fragments output verbose).run.on session = (.ok code, session')) :
    code ≠ noEnumCode ∧ Leaves goal? Product session code session' := by
  rw [present] at h
  split_ifs at h with houtput
  · obtain ⟨rfl, hgrows⟩ := eq_of_on_finish h
    exact ⟨by decide, .idle hgrows⟩
  dsimp only at h
  rw [on_run_bind, on_run_lift] at h
  cases hwrite : session.storage.write (.ofText output) (Utf8.encode (codeOf fragments)) with
  | error failure =>
    rw [on_writeFile_eq_error hwrite] at h
    obtain ⟨rfl, hgrows⟩ := refused_of_on h
    exact ⟨by decide, .failed (hgoal houtput) hproduct (.refl session) hwrite hgrows⟩
  | ok storage =>
    rw [on_writeFile_eq_ok hwrite] at h
    obtain ⟨rfl, hgrows⟩ := eq_of_on_finish h
    exact ⟨by decide, .written (hgoal houtput) hproduct (.refl session) hwrite hgrows⟩

/-- What becomes of code on its own. -/
theorem leaves_of_generate {goal? : Option Path} {verbose : Bool}
    (hgoal : output ≠ [] → goal? = some (.ofText output))
    (h : (job.generate output verbose).run.on session = (.ok code, session')) :
    code ≠ noEnumCode ∧ Leaves goal? (job.Yields subject false) session code session' := by
  obtain ⟨before, hgrows, h⟩ := exists_of_told_bind h
  cases hfragments : job.fragments.run.value with
  | error fault =>
    rw [hfragments] at h
    obtain ⟨rfl, hbehind⟩ := eq_of_on_finish h
    exact ⟨by decide, .idle (hgrows.trans hbehind)⟩
  | ok fragments =>
    rw [hfragments] at h
    have hyields : job.Yields subject false (Utf8.encode (codeOf fragments)) := .code hfragments
    obtain ⟨hcode, hleaves⟩ := leaves_of_present hgoal hyields h
    exact ⟨hcode, hleaves.behind hgrows⟩

end Job

/-! ### Operations for enums -/

variable {around : Surroundings} {subject : Subject} {arguments : Arguments} {source : Source}
  {settings : Settings} {operations : List Operation} {enums : List Enumeration}

/-- What is done for enums, if there are any. -/
theorem exists_on_performOn (session : Session) (subject : Subject) (arguments : Arguments)
    (settings : Settings) (operations : List Operation) (hne : enums ≠ []) :
    ∃ before, session.Grows before ∧
      (performOn subject arguments settings operations enums).run.on session =
        (if arguments.listEnums then
          finish successCode [enumsTable subject.source.description enums]
        else if arguments.write then
          Job.write ⟨{ settings }, operations, enums⟩ subject arguments.output
        else Job.generate ⟨{ settings }, operations, enums⟩ arguments.output
          arguments.verbose).run.on before := by
  refine ⟨_, reports_report [record .info
    s!"Found {enums.length} enum(s) in {subject.source.description.str}"] session, ?_⟩
  rw [performOn, if_neg (by simpa using hne)]
  rfl

theorem goal?_eq (hlist : arguments.listOperations = false)
    (hlistEnums : arguments.listEnums = false) :
    arguments.goal? = if arguments.output ≠ [] then some (.ofText arguments.output)
      else if arguments.write then filePath? arguments else none := by
  rw [Arguments.goal?, if_neg (by simp [hlist, hlistEnums])]

/-- Code that is put into a source is written to the goal. -/
theorem target?_eq_goal? (hlist : arguments.listOperations = false)
    (hlistEnums : arguments.listEnums = false) (hwrite : arguments.write = true)
    (hpath : subject.path = filePath? arguments) :
    Job.target? subject arguments.output = arguments.goal? := by
  rw [goal?_eq hlist hlistEnums, if_pos hwrite, Job.target?, hpath]
  by_cases houtput : arguments.output = [] <;> simp [houtput]

/-- What becomes of operations for enums. Only without an enum does the exit code
    say so. -/
theorem leaves_of_performOn (hlist : arguments.listOperations = false)
    (hpath : subject.path = filePath? arguments)
    (h : (performOn subject arguments settings operations enums).run.on session =
      (.ok code, session')) :
    (code = noEnumCode ↔ enums = []) ∧ Leaves arguments.goal?
      (Job.Yields ⟨{ settings }, operations, enums⟩ subject arguments.write)
      session code session' := by
  by_cases hne : enums = []
  · subst hne
    obtain ⟨rfl, hgrows⟩ := eq_of_on_finish h
    exact ⟨iff_of_true rfl rfl, .idle hgrows⟩
  obtain ⟨before, hgrows, hon⟩ :=
    exists_on_performOn session subject arguments settings operations hne
  rw [hon] at h
  by_cases hlistEnums : arguments.listEnums
  · rw [if_pos hlistEnums] at h
    obtain ⟨rfl, hbehind⟩ := eq_of_on_finish h
    exact ⟨iff_of_false (by decide) hne, .idle (hgrows.trans hbehind)⟩
  rw [if_neg hlistEnums] at h
  rw [Bool.not_eq_true] at hlistEnums
  cases hwrite : arguments.write with
  | true =>
    rw [if_pos hwrite] at h
    have htarget := target?_eq_goal? hlist hlistEnums hwrite hpath
    obtain ⟨text, htext, hput⟩ := Job.exists_put h
    cases hput with
    | shown _ hbehind =>
      exact ⟨iff_of_false (by decide) hne, .idle (hgrows.trans hbehind)⟩
    | upToDate _ _ hbehind =>
      exact ⟨iff_of_false (by decide) hne, .idle (hgrows.trans hbehind)⟩
    | written htarget' hstart hput hbehind =>
      exact ⟨iff_of_false (by decide) hne, .written (htarget.symm.trans htarget') (.changed htext)
        (hgrows.trans hstart) hput hbehind⟩
    | failed htarget' hstart hput hbehind =>
      exact ⟨iff_of_false (by decide) hne, .failed (htarget.symm.trans htarget') (.changed htext)
        (hgrows.trans hstart) hput hbehind⟩
  | false =>
    rw [if_neg (by simp [hwrite])] at h
    have hgoal : arguments.output ≠ [] → arguments.goal? = some (.ofText arguments.output) :=
      fun houtput => (goal?_eq hlist hlistEnums).trans (if_pos houtput)
    obtain ⟨hcode, hleaves⟩ := Job.leaves_of_generate hgoal h
    exact ⟨iff_of_false hcode hne, hleaves.behind hgrows⟩

/-! ### Selections -/

/-- The session in which the settings are read, behind the loading of a source. -/
def introduced (around : Surroundings) (arguments : Arguments) (session : Session)
    (source : Source) : Session :=
  ((introduce source).on ((loadSource around (choiceOf arguments)).run.on session).2).2

/-- What arguments select: the source is loaded, the settings and the operations
    are told, and the enums are those that the arguments choose. -/
structure Selects (around : Surroundings) (arguments : Arguments) (session : Session)
    (source : Source) (settings : Settings) (operations : List Operation)
    (enums : List Enumeration) : Prop where
  listOperations : arguments.listOperations = false
  load_eq : ((loadSource around (choiceOf arguments)).run.on session).1 = .ok source
  settings_eq : (settingsFor (introduced around arguments session source).storage
    arguments).run.value = .ok settings
  operations_eq : operationsFor .builtIn arguments = .ok operations
  enums_eq : (enumsFor source.text arguments settings.allowRepeats.isTruthy).run.value = .ok enums

/-- Arguments select one thing at most. -/
theorem Selects.unique {source' : Source} {settings' : Settings} {operations' : List Operation}
    {enums' : List Enumeration}
    (h : Selects around arguments session source settings operations enums)
    (h' : Selects around arguments session source' settings' operations' enums') :
    source = source' ∧ settings = settings' ∧ operations = operations' ∧ enums = enums' := by
  obtain rfl := Except.ok.inj (h.load_eq.symm.trans h'.load_eq)
  obtain rfl := Except.ok.inj (h.settings_eq.symm.trans h'.settings_eq)
  exact ⟨rfl, rfl, Except.ok.inj (h.operations_eq.symm.trans h'.operations_eq),
    Except.ok.inj (h.enums_eq.symm.trans h'.enums_eq)⟩

theorem grows_introduced (around : Surroundings) (arguments : Arguments) (session : Session)
    (source : Source) : session.Grows (introduced around arguments session source) :=
  (reports_loadSource around _ session).trans (reports_report _ _)

theorem kinds_ne_nil_of_load
    (h : ((loadSource around (choiceOf arguments)).run.on session).1 = .ok source) :
    (choiceOf arguments).kinds ≠ [] := by
  intro hkinds
  rw [loadSource, Source.Choice.origin, if_pos hkinds] at h
  exact absurd h error_ne_ok

theorem on_execute (hlist : arguments.listOperations = false)
    (hload : ((loadSource around (choiceOf arguments)).run.on session).1 = .ok source) :
    (execute around arguments).run.on session =
      (perform ⟨source, filePath? arguments⟩ arguments).run.on
        (introduced around arguments session source) := by
  rw [execute, if_neg (by simp [hlist]), if_neg (kinds_ne_nil_of_load hload), on_run_bind,
    on_run_lift, hload]
  rfl

/-- What is performed by settings and operations, for the enums that are chosen. -/
theorem exists_on_performOn_of_performBy
    (h : (performBy subject arguments settings operations).run.on session = (.ok code, session')) :
    ∃ enums before, (enumsFor subject.source.text arguments
        settings.allowRepeats.isTruthy).run.value = .ok enums ∧ session.Grows before ∧
      (performOn subject arguments settings operations enums).run.on before =
        (.ok code, session') := by
  rw [performBy] at h
  cases hwarnings : settings.warnings with
  | error fault =>
    rw [hwarnings] at h
    exact absurd (Prod.mk.inj h).1 error_ne_ok
  | ok warnings =>
    rw [hwarnings] at h
    dsimp only at h
    rw [on_run_bind, on_run_lift, performWith] at h
    dsimp only at h
    rw [on_run_bind, on_run_tell, on_told] at h
    have hgrows := (reports_display (warnings.map warningItem) session).trans
      (reports_report (enumsFor subject.source.text arguments
        settings.allowRepeats.isTruthy).run.records _)
    cases henums :
        (enumsFor subject.source.text arguments settings.allowRepeats.isTruthy).run.value with
    | error fault =>
      rw [henums] at h
      exact absurd (Prod.mk.inj h).1 error_ne_ok
    | ok enums =>
      rw [henums] at h
      exact ⟨enums, _, rfl, hgrows, h⟩

/-- What is performed on a source and returns an exit code tells settings, operations
    and enums, or only makes records and fails. -/
theorem told_or_idle
    (h : (perform subject arguments).run.on session = (.ok code, session')) :
    (∃ settings operations enums before,
        (settingsFor session.storage arguments).run.value = .ok settings ∧
        operationsFor .builtIn arguments = .ok operations ∧
        (enumsFor subject.source.text arguments settings.allowRepeats.isTruthy).run.value =
          .ok enums ∧ session.Grows before ∧
        (performOn subject arguments settings operations enums).run.on before =
          (.ok code, session')) ∨
      code = failureCode ∧ session.Grows session' ∧
        ¬∃ settings operations, (settingsFor session.storage arguments).run.value = .ok settings ∧
          operationsFor .builtIn arguments = .ok operations := by
  rw [perform, on_run_bind, on_run_lift, on_currentStorage] at h
  dsimp only at h
  obtain ⟨before, hgrows, h⟩ := exists_of_told_bind h
  cases hsettings : (settingsFor session.storage arguments).run.value with
  | error fault =>
    rw [hsettings] at h
    obtain ⟨rfl, hbehind⟩ := refused_of_on h
    exact .inr ⟨rfl, hgrows.trans hbehind, fun ⟨_, _, h, _⟩ => error_ne_ok h⟩
  | ok settings =>
    rw [hsettings] at h
    dsimp only at h
    cases hoperations : operationsFor .builtIn arguments with
    | error fault =>
      rw [hoperations] at h
      cases fault with
      | registry fault =>
        obtain ⟨rfl, hbehind⟩ := eq_of_on_finish h
        exact .inr ⟨rfl, hgrows.trans hbehind, fun ⟨_, _, _, h⟩ => error_ne_ok h⟩
      | noName => exact absurd (Prod.mk.inj h).1 error_ne_ok
    | ok operations =>
      rw [hoperations] at h
      obtain ⟨enums, start, henums, hstart, hon⟩ := exists_on_performOn_of_performBy h
      exact .inl ⟨settings, operations, enums, start, rfl, rfl, henums, hgrows.trans hstart, hon⟩

/-- A run that returns an exit code without a source only makes records and fails. -/
theorem idle_of_load_eq_error {fault : Source.Fault} (hlist : arguments.listOperations = false)
    (hload : ((loadSource around (choiceOf arguments)).run.on session).1 = .error fault)
    (h : (execute around arguments).run.on session = (.ok code, session')) :
    code = failureCode ∧ session.Grows session' := by
  rw [execute, if_neg (by simp [hlist])] at h
  split_ifs at h
  · exact eq_of_on_finish h
  rw [on_run_bind, on_run_lift, hload] at h
  obtain ⟨hcode, hgrows⟩ := refused_of_on h
  exact ⟨hcode, (reports_loadSource around _ session).trans hgrows⟩

/-- A run that returns an exit code selects enums and performs operations for them,
    or it selects nothing and only makes records. -/
theorem selects_or (h : (execute around arguments).run.on session = (.ok code, session')) :
    (∃ source settings operations enums before,
        Selects around arguments session source settings operations enums ∧
        session.Grows before ∧
        (performOn ⟨source, filePath? arguments⟩ arguments settings operations enums).run.on
          before = (.ok code, session')) ∨
      session.Grows session' ∧
        (code = if arguments.listOperations then successCode else failureCode) ∧
        ¬∃ source settings operations enums,
          Selects around arguments session source settings operations enums := by
  by_cases hlist : arguments.listOperations
  · rw [execute, if_pos hlist] at h
    obtain ⟨rfl, hgrows⟩ := eq_of_on_finish h
    refine .inr ⟨hgrows, (if_pos hlist).symm, fun ⟨_, _, _, _, hselects⟩ => ?_⟩
    exact Bool.noConfusion (hlist.symm.trans hselects.listOperations)
  rw [if_neg hlist]
  rw [Bool.not_eq_true] at hlist
  cases hload : ((loadSource around (choiceOf arguments)).run.on session).1 with
  | error fault =>
    obtain ⟨hcode, hgrows⟩ := idle_of_load_eq_error hlist hload h
    refine .inr ⟨hgrows, hcode, fun ⟨_, _, _, _, hselects⟩ => ?_⟩
    exact error_ne_ok (hload.symm.trans hselects.load_eq)
  | ok source =>
    have hgrows := grows_introduced around arguments session source
    rw [on_execute hlist hload] at h
    rcases told_or_idle h with
      ⟨settings, operations, enums, before, hsettings, hoperations, henums, hstart, hon⟩ |
        ⟨hcode, hbehind, hnone⟩
    · exact .inl ⟨source, settings, operations, enums, before,
        ⟨hlist, hload, hsettings, hoperations, henums⟩, hgrows.trans hstart, hon⟩
    · refine .inr ⟨hgrows.trans hbehind, hcode, fun ⟨source', settings, operations, _, hselects⟩ =>
        hnone ⟨settings, operations, ?_, hselects.operations_eq⟩⟩
      obtain rfl := Except.ok.inj (hload.symm.trans hselects.load_eq)
      exact hselects.settings_eq

/-- What a run writes: what a job yields for what its arguments select. -/
def Produces (around : Surroundings) (arguments : Arguments) (session : Session)
    (content : Bytes) : Prop :=
  ∃ source settings operations enums,
    Selects around arguments session source settings operations enums ∧
      Job.Yields ⟨{ settings }, operations, enums⟩ ⟨source, filePath? arguments⟩ arguments.write
        content

/-- What becomes of arguments. Only if they select no enum the exit code says so. -/
theorem leaves_of_execute (h : (execute around arguments).run.on session = (.ok code, session')) :
    Leaves arguments.goal? (Produces around arguments session) session code session' ∧
      (code = noEnumCode ↔ ∃ source settings operations,
        Selects around arguments session source settings operations []) := by
  rcases selects_or h with
    ⟨source, settings, operations, enums, before, hselects, hgrows, hon⟩ | ⟨hgrows, hcode, hnone⟩
  · obtain ⟨hnone, hleaves⟩ := leaves_of_performOn hselects.listOperations rfl hon
    refine ⟨(hleaves.behind hgrows).mono fun content hyields =>
      ⟨source, settings, operations, enums, hselects, hyields⟩, hnone.trans ⟨?_, ?_⟩⟩
    · rintro rfl
      exact ⟨source, settings, operations, hselects⟩
    · rintro ⟨source', settings', operations', hselects'⟩
      exact (hselects.unique hselects').2.2.2
  · refine ⟨.idle hgrows, iff_of_false ?_ fun ⟨source, settings, operations, hselects⟩ =>
      hnone ⟨source, settings, operations, [], hselects⟩⟩
    rw [hcode]
    split_ifs <;> decide

/-! ### Runs -/

/-- Whether a place is that of the file for records. -/
def Arguments.Logs (arguments : Arguments) (storage : Storage) (location : Location) : Prop :=
  arguments.logFile ≠ [] ∧ storage.locate (logPath arguments.logFile) = .ok location

/-- A session of a run, by the files that the run found: it keeps its records in the
    file that the arguments name, and only at some places files are others. -/
structure Stands (around : Surroundings) (arguments : Arguments) (touched : Location → Prop)
    (session : Session) : Prop where
  logs_iff : ∀ location, session.recorder.Logs session.storage location ↔
    arguments.Logs around.storage location
  frame : around.storage.AgreesBut touched session.storage

/-- The session that a command line starts. -/
theorem stands_of_start (h : start around arguments = .ok session) :
    Stands around arguments (arguments.Logs around.storage) session := by
  rw [start] at h
  cases hlevel : arguments.logLevel with
  | none =>
    rw [hlevel] at h
    exact absurd h error_ne_ok
  | some level =>
    rw [hlevel] at h
    dsimp only at h
    rw [Recorder.open, recorderFor] at h
    by_cases hfile : arguments.logFile = []
    · rw [if_pos hfile] at h
      obtain rfl := Except.ok.inj h
      exact ⟨fun location => iff_of_false (fun ⟨_, hnone, _⟩ => nomatch hnone)
        fun hlogs => hlogs.1 hfile, .refl _ _⟩
    · rw [if_neg hfile] at h
      dsimp only at h
      cases happend : around.storage.append (logPath arguments.logFile) [] with
      | error failure =>
        rw [happend] at h
        exact absurd h error_ne_ok
      | ok storage =>
        rw [happend] at h
        obtain rfl := Except.ok.inj h
        have hagrees := Storage.agreesBut_append around.storage (logPath arguments.logFile) []
        rw [happend] at hagrees
        refine ⟨fun location => ?_, hagrees.mono fun location hlocate => ⟨hfile, hlocate⟩⟩
        rw [Arguments.Logs, and_iff_right hfile, ← Storage.locate_eq_ok_iff hagrees.folders]
        exact ⟨fun ⟨_, hpath, hlocate⟩ => Option.some.inj hpath ▸ hlocate,
          fun hlocate => ⟨_, rfl, hlocate⟩⟩

namespace Stands

variable {touched : Location → Prop}

theorem grows (h : Stands around arguments touched session) (hgrows : session.Grows session')
    (hlogs : ∀ location, arguments.Logs around.storage location → touched location) :
    Stands around arguments touched session' :=
  ⟨fun location => (hgrows.logs_iff location).trans (h.logs_iff location),
    h.frame.trans (hgrows.storage.mono fun location hlocation =>
      hlogs location ((h.logs_iff location).1 hlocation))⟩

/-- A session in which a file is changed. -/
theorem changes (h : Stands around arguments touched session) {storage : Storage}
    {location : Location} {content : Bytes}
    (hchanges : session.storage.Changes storage location content) :
    Stands around arguments (fun other => touched other ∨ other = location)
      { session with storage } :=
  ⟨fun other => (Recorder.logs_iff hchanges.folders other).trans (h.logs_iff other),
    (h.frame.mono fun _ => .inl).trans (hchanges.agreesBut.mono fun _ => .inr)⟩

end Stands

/-- Between the start of a run and its end the goal is changed. -/
theorem agreesBut_of_changes {before : Session} {storage : Storage} {location : Location}
    {content : Bytes} (hstart : start around arguments = .ok session)
    (hbefore : session.Grows before)
    (hchanges : before.storage.Changes storage location content)
    (hgrows : { before with storage }.Grows session') :
    around.storage.AgreesBut (fun other => arguments.Logs around.storage other ∨ other = location)
        session'.storage ∧
      (¬arguments.Logs around.storage location →
        session'.storage.file? location = some content) := by
  have hstands := ((stands_of_start hstart).grows hbefore fun _ => id).changes hchanges
  refine ⟨(hstands.grows hgrows fun _ => .inl).frame, fun hlogs => ?_⟩
  rw [← hchanges.file]
  exact hgrows.storage.frame location fun hlocation => hlogs ((hstands.logs_iff location).1 hlocation)

/-- What a run makes of the files that it finds. -/
inductive Touches (around : Surroundings) (arguments : Arguments) (Product : Bytes → Prop) :
    Nat → Storage → Prop
  /-- Only the file for records is changed. -/
  | records {code : Nat} {storage : Storage}
      (frame : around.storage.AgreesBut (arguments.Logs around.storage) storage) :
      Touches around arguments Product code storage
  /-- The goal holds the product. -/
  | goal {path : Path} {location : Location} {content : Bytes} {storage : Storage}
      (goal : path ∈ arguments.goal?) (locate : around.storage.locate path = .ok location)
      (product : Product content)
      (frame : around.storage.AgreesBut
        (fun other => arguments.Logs around.storage other ∨ other = location) storage)
      (file : ¬arguments.Logs around.storage location → storage.file? location = some content) :
      Touches around arguments Product successCode storage
  /-- The goal holds the beginning of the product that there is room for. -/
  | cut {path : Path} {location : Location} {content : Bytes} {most : Nat} {storage : Storage}
      (goal : path ∈ arguments.goal?) (locate : around.storage.locate path = .ok location)
      (product : Product content) (room : around.storage.room location = some most)
      (short : most < content.length)
      (frame : around.storage.AgreesBut
        (fun other => arguments.Logs around.storage other ∨ other = location) storage)
      (file : ¬arguments.Logs around.storage location →
        storage.file? location = some (content.take most)) :
      Touches around arguments Product failureCode storage

/-- All files but the one for records and the goal are as they were. -/
theorem Touches.agreesBut {Product : Bytes → Prop} {storage : Storage}
    (h : Touches around arguments Product code storage) :
    around.storage.AgreesBut (fun location => arguments.Logs around.storage location ∨
      ∃ path ∈ arguments.goal?, around.storage.locate path = .ok location) storage := by
  cases h with
  | records frame => exact frame.mono fun _ => .inl
  | goal goal locate _ frame _ =>
    exact frame.mono fun _ => Or.imp_right fun hother => ⟨_, goal, hother.symm ▸ locate⟩
  | cut goal locate _ _ _ frame _ =>
    exact frame.mono fun _ => Or.imp_right fun hother => ⟨_, goal, hother.symm ▸ locate⟩

/-- What a part of a run makes of its session is what the run makes of the files. -/
theorem Leaves.touches {Product : Bytes → Prop}
    (h : Leaves arguments.goal? Product session code session')
    (hstart : start around arguments = .ok session) :
    Touches around arguments Product code session'.storage := by
  have hstands := stands_of_start hstart
  cases h with
  | idle grows => exact .records (hstands.grows grows fun _ => id).frame
  | written goal product before write grows =>
    obtain ⟨location, hlocate, hchanges⟩ := Storage.exists_of_extend write
    obtain ⟨hframe, hfile⟩ := agreesBut_of_changes hstart before hchanges grows
    have hfolders := (hstands.grows before fun _ => id).frame.folders
    exact .goal goal ((Storage.locate_eq_ok_iff hfolders).1 hlocate) product hframe hfile
  | @failed path content before _ _ goal product hbefore write grows =>
    have hopened := hstands.grows hbefore fun _ => id
    cases Storage.falters_of_write write with
    | unopened same =>
      rw [same] at grows
      exact .records (hopened.grows grows fun _ => id).frame
    | cut locate room short changes =>
      obtain ⟨hframe, hfile⟩ := agreesBut_of_changes hstart hbefore changes grows
      rw [hopened.frame.room] at room
      exact .cut goal ((Storage.locate_eq_ok_iff hopened.frame.folders).1 locate) product room
        short hframe hfile

/-- A run that returns an exit code executes its arguments in the session that it
    starts. -/
theorem exists_execute {argv : List Text} (h : (run around argv).ending.returned? = some code) :
    ∃ arguments session session', Arguments.read argv = .ok arguments ∧
      start around arguments = .ok session ∧
      (execute around arguments).run.on session = (.ok code, session') ∧
      (run around argv).storage = session'.storage := by
  rw [run] at h ⊢
  cases hread : Arguments.read argv with
  | error stop =>
    rw [hread] at h
    exact absurd h.symm (Option.some_ne_none _)
  | ok arguments =>
    rw [hread] at h
    dsimp only at h ⊢
    cases hstart : start around arguments with
    | error fault =>
      rw [hstart] at h
      exact absurd h.symm (Option.some_ne_none _)
    | ok session =>
      rw [hstart] at h
      dsimp only at h ⊢
      rw [Outcome.behind] at h ⊢
      generalize hon : (execute around arguments).run.on session = result at h ⊢
      obtain ⟨outcome, session'⟩ := result
      cases outcome with
      | error fault => exact absurd h.symm (Option.some_ne_none _)
      | ok code' =>
        obtain rfl : code' = code := Option.some.inj h
        exact ⟨arguments, session, session', rfl, hstart, hon, rfl⟩

/-- A run that returns an exit code leaves all files but the one for records as they
    are, or it changes its goal too: the goal holds what the run produces on success,
    and a beginning of it where there is no room for all. The code of no enum is
    returned exactly if what the arguments select has none. -/
theorem run_frame {argv : List Text} (h : (run around argv).ending.returned? = some code) :
    ∃ arguments session, Arguments.read argv = .ok arguments ∧
      start around arguments = .ok session ∧
      Touches around arguments (Produces around arguments session) code (run around argv).storage ∧
      (code = noEnumCode ↔ ∃ source settings operations,
        Selects around arguments session source settings operations []) := by
  obtain ⟨arguments, session, session', hread, hstart, hon, hstorage⟩ := exists_execute h
  obtain ⟨hleaves, hnone⟩ := leaves_of_execute hon
  rw [hstorage]
  exact ⟨arguments, session, hread, hstart, hleaves.touches hstart, hnone⟩

/-- A file with an enum, and another file. -/
def enumAndNotes : Surroundings where
  storage.files := [(["a.dart".toList], Utf8.encode "enum A \x7ba\x7d\n".toList),
    (["notes.txt".toList], Utf8.encode "A\n".toList)]
  input := []
  reply := .failed .connection

theorem run_frame_notes :
    let argv := ["a.dart".toList, "--write".toList, "-g".toList, "getters".toList]
    (run enumAndNotes argv).ending.returned? = some successCode ∧
      (run enumAndNotes argv).storage.file? ["notes.txt".toList] =
        some (Utf8.encode "A\n".toList) := by
  intro argv
  have hcode : (run enumAndNotes argv).ending.returned? = some successCode := by
    decide +kernel
  refine ⟨hcode, ?_⟩
  obtain ⟨arguments, session, hread, -, htouches, -⟩ := run_frame hcode
  have hapart : ∀ arguments ∈ (Arguments.read argv).toOption, arguments.logFile = [] ∧
      ∀ path ∈ arguments.goal?,
        (enumAndNotes.storage.locate path).toOption ≠ some ["notes.txt".toList] := by
    decide +kernel
  obtain ⟨hlog, hgoal⟩ := hapart arguments (by rw [hread]; rfl)
  refine (htouches.agreesBut.frame _ ?_).trans rfl
  rintro (⟨hlogs, -⟩ | ⟨path, hpath, hlocate⟩)
  · exact hlogs hlog
  · exact hgoal path hpath (by rw [hlocate]; rfl)

/-- The same files where the second one takes four bytes. -/
def narrowNotes : Surroundings where
  storage.files := enumAndNotes.storage.files
  storage.room location := if location = ["notes.txt".toList] then some 4 else none
  input := []
  reply := .failed .connection

/-- The source is changed though an output is given, as that has no name, and a run
    that fails leaves its output with other content where there is no room for all. -/
theorem run_touches_emptyOutput_narrowNotes :
    let argv := ["a.dart".toList, "--write".toList, "-g".toList, "getters".toList, "-o".toList, []]
    let argv' := ["a.dart".toList, "-o".toList, "notes.txt".toList]
    ((run enumAndNotes argv).ending.returned? = some successCode ∧
        (run enumAndNotes argv).storage.file? ["a.dart".toList] ≠
          enumAndNotes.storage.file? ["a.dart".toList]) ∧
      (run narrowNotes argv').ending.returned? = some failureCode ∧
        (run narrowNotes argv').storage.file? ["notes.txt".toList] =
          some (Utf8.encode "exte".toList) := by
  decide +kernel

end CommandLine

end EnumCompanion
