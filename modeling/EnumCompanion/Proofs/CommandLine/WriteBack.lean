import EnumCompanion.Proofs.CommandLine.Run
import EnumCompanion.Proofs.Document.Patch
import EnumCompanion.Proofs.Source.Load

/-!
# Code that is put into a file

A run that puts code into a file writes what it read, patched turn by turn. What
it read is the text of the file with a line feed for each of its line ends, so
that carriage returns are lost, and nothing else is.

* `exists_text_of_loadSource`: what is read of a file;
* `Patched`: a text and what arguments make of it;
* `run_writes_back`: what is written to a file.
-/

namespace EnumCompanion

open Journal

namespace CommandLine

variable {around : Surroundings} {arguments : Arguments} {session session' : Session}
  {path : Path} {source : Source}

/-- What is loaded from a file is its text as it is in some later session. -/
theorem exists_text_of_loadFile (h : ((loadFile path).run.on session).1 = .ok source) :
    ∃ later, session.Grows later ∧ ∃ text, later.storage.read path = .ok (Utf8.encode text) ∧
      source.text = text.withLineFeeds := by
  rw [loadFile, on_run_bind, on_run_lift] at h
  dsimp only at h
  have hannounced := reports_told (Source.announce path) session
  generalize ((told (Source.announce path)).on session).2 = announced at h hannounced
  change ((do
    tell (Source.findFile announced.storage path)
    tell (Source.fetchFile (← currentStorage) path) :
      ExceptT Source.Fault Course Source).run.on announced).1 = _ at h
  rw [on_run_bind, on_run_tell] at h
  have hfound := reports_told (Source.findFile announced.storage path).run announced
  generalize (told (Source.findFile announced.storage path).run).on announced = result
    at h hfound
  obtain ⟨outcome, found⟩ := result
  cases outcome with
  | error fault => exact absurd h error_ne_ok
  | ok _ => exact ⟨found, hannounced.trans hfound, Source.exists_text_of_fetchFile h⟩

/-- The file that arguments choose is what is loaded. -/
theorem exists_text_of_loadSource (hpath : filePath? arguments = some path)
    (h : ((loadSource around (choiceOf arguments)).run.on session).1 = .ok source) :
    ∃ later, session.Grows later ∧ ∃ text, later.storage.read path = .ok (Utf8.encode text) ∧
      source.text = text.withLineFeeds := by
  rw [filePath?] at hpath
  split_ifs at hpath with hfile
  obtain rfl := Option.some.inj hpath
  rw [loadSource, Source.Choice.origin, if_neg (kinds_ne_nil_of_load h)] at h
  split_ifs at h with hseveral
  · exact absurd h error_ne_ok
  · exact exists_text_of_loadFile h
  all_goals exact absurd hfile ‹¬_›

/-! ### Runs -/

/-- A text and what a run of the operations that arguments select, for the enums
    that they choose, makes of it. -/
def Patched (around : Surroundings) (arguments : Arguments) (session : Session)
    (text changed : Text) : Prop :=
  ∃ source settings operations enums,
    Selects around arguments session source settings operations enums ∧
    source.text = text ∧ ({ settings } : Generator).Patches
      (({ settings } : Generator).turns text (operations.map .exactly)
        (some (enums.map Enumeration.name))) text changed

/-- What becomes of a source that arguments put code into. -/
theorem exists_put_of_execute (hlist : arguments.listOperations = false)
    (hlistEnums : arguments.listEnums = false) (hwrite : arguments.write = true)
    (h : (execute around arguments).run.on session = (.ok successCode, session')) :
    ∃ source changed, ((loadSource around (choiceOf arguments)).run.on session).1 = .ok source ∧
      Patched around arguments session source.text changed ∧
      Job.Put session ⟨source, filePath? arguments⟩ arguments.output changed successCode
        session' := by
  rcases selects_or h with
    ⟨source, settings, operations, enums, before, hselects, hgrows, hon⟩ | ⟨-, hfailed, -⟩
  swap
  · rw [hlist] at hfailed
    exact absurd hfailed (by decide)
  have hne : enums ≠ [] := fun hnil =>
    absurd ((leaves_of_performOn hlist rfl hon).1.2 hnil) (by decide)
  obtain ⟨start, hstart, hstarted⟩ :=
    exists_on_performOn before ⟨source, filePath? arguments⟩ arguments settings operations hne
  rw [hstarted, if_neg (by simp [hlistEnums]), if_pos hwrite] at hon
  obtain ⟨changed, hchanged, hput⟩ := Job.exists_put hon
  exact ⟨source, changed, hselects.load_eq, ⟨source, settings, operations, enums, hselects, rfl,
    Generator.patches_of_applyOperations rfl hchanged⟩, hput.behind (hgrows.trans hstart)⟩

/-- What is written between the start of a run and its end is read, unless it goes to
    the file for records. -/
theorem read_eq_of_write {before : Session} {storage : Storage} {content : Bytes}
    (hstart : start around arguments = .ok session) (hbefore : session.Grows before)
    (hwrite : before.storage.write path content = .ok storage)
    (hgrows : { before with storage }.Grows session')
    (hlog : ∀ location, around.storage.locate path = .ok location →
      ¬arguments.Logs around.storage location) :
    session'.storage.read path = .ok content := by
  obtain ⟨location, hlocate, hchanges⟩ := Storage.exists_of_extend hwrite
  have hopened := (stands_of_start hstart).grows hbefore fun _ => id
  have hlater := (hopened.changes hchanges).logs_iff location
  have hnot := hlog location ((Storage.locate_eq_ok_iff hopened.frame.folders).1 hlocate)
  rw [hgrows.storage.read_eq (Storage.locate_eq_ok hchanges.folders hlocate)
    fun hlogs => hnot (hlater.1 hlogs)]
  exact hchanges.read_eq hlocate

/-- A run that succeeds in putting code into a file shows a listing, or it writes the
    text of the file to its goal, patched, with a line feed for each of its line
    ends. These are the text's own exactly if the file has no carriage return.
    A goal that is the file itself is left alone if nothing was patched. -/
theorem run_writes_back {argv : List Text} {content : Bytes}
    (hcode : (run around argv).ending.returned? = some successCode)
    (hread : Arguments.read argv = .ok arguments) (hwrite : arguments.write = true)
    (hpath : filePath? arguments = some path) (hcontent : around.storage.read path = .ok content)
    (hlog : ∀ file, file = path ∨ file ∈ arguments.goal? → ∀ location,
      around.storage.locate file = .ok location → ¬arguments.Logs around.storage location) :
    ((arguments.listOperations = true ∨ arguments.listEnums = true) ∧
        around.storage.AgreesBut (arguments.Logs around.storage) (run around argv).storage) ∨
      ∃ session text changed goal, start around arguments = .ok session ∧
        content = Utf8.encode text ∧ (text.withLineFeeds = text ↔ 13 ∉ content) ∧
        Patched around arguments session text.withLineFeeds changed ∧
        arguments.goal? = some goal ∧
        ((run around argv).storage.read goal = .ok (Utf8.encode changed) ∨
          goal = path ∧ changed = text.withLineFeeds ∧
            around.storage.AgreesBut (arguments.Logs around.storage)
              (run around argv).storage) := by
  obtain ⟨arguments', session, session', hread', hstart, hon, hstorage⟩ := exists_execute hcode
  obtain rfl := Except.ok.inj (hread.symm.trans hread')
  rw [hstorage]
  by_cases hlist : arguments.listOperations = true ∨ arguments.listEnums = true
  · refine .inl ⟨hlist, ?_⟩
    have hgoal : arguments.goal? = none := by rw [Arguments.goal?, if_pos hlist]
    refine ((leaves_of_execute hon).1.touches hstart).agreesBut.mono ?_
    rintro location (hlogs | ⟨path, hpath, -⟩)
    · exact hlogs
    · exact absurd (hpath.symm.trans hgoal) (Option.some_ne_none _)
  right
  rw [not_or, Bool.not_eq_true, Bool.not_eq_true] at hlist
  obtain ⟨source, changed, hload, hpatched, hput⟩ :=
    exists_put_of_execute hlist.1 hlist.2 hwrite hon
  have htarget : Job.target? ⟨source, filePath? arguments⟩ arguments.output = arguments.goal? :=
    target?_eq_goal? hlist.1 hlist.2 hwrite rfl
  -- The file is read as it was before, as the file for records is another one.
  obtain ⟨later, hlater, text, htext, hsource⟩ := exists_text_of_loadSource hpath hload
  obtain ⟨location, hlocate, -⟩ := exists_of_bind_eq_ok hcontent
  have hstands := stands_of_start hstart
  have hsame := (hstands.grows hlater fun _ => id).frame.read_eq hlocate
    (hlog path (.inl rfl) location hlocate)
  obtain rfl := Except.ok.inj (hcontent.symm.trans (hsame.symm.trans htext))
  rw [hsource] at hpatched
  have hline : text.withLineFeeds = text ↔ 13 ∉ Utf8.encode text := by
    rw [Text.withLineFeeds_eq_self_iff]
    exact not_congr (Utf8.mem_encode_iff (show '\r'.toNat < 0x80 by decide)).symm
  rcases hput.cases_of_success with
    hnone | ⟨hgoal, hsame, hgrows⟩ | ⟨goal, before, storage, hgoal, hbefore, hwritten, hgrows⟩
  · rw [Job.target?, hpath] at hnone
    split_ifs at hnone
  · exact ⟨session, text, changed, path, hstart, rfl, hline, hpatched,
      htarget.symm.trans (hgoal.trans hpath),
      .inr ⟨rfl, hsame.trans hsource, (hstands.grows hgrows fun _ => id).frame⟩⟩
  · exact ⟨session, text, changed, goal, hstart, rfl, hline, hpatched, htarget.symm.trans hgoal,
      .inl (read_eq_of_write hstart hbefore hwritten hgrows
        (hlog _ (.inr (htarget.symm.trans hgoal))))⟩

/-- A command line that puts code into a file. -/
def putsGetters : List Text :=
  ["a.dart".toList, "--write".toList, "-g".toList, "getters".toList]

theorem run_writes_back_notes : ∃ arguments session changed,
    Arguments.read putsGetters = .ok arguments ∧ start enumAndNotes arguments = .ok session ∧
      Patched enumAndNotes arguments session "enum A \x7ba\x7d\n".toList changed ∧
        (run enumAndNotes putsGetters).storage.read (.ofText "a.dart".toList) =
          .ok (Utf8.encode changed) := by
  obtain ⟨arguments, hread⟩ : ∃ arguments, Arguments.read putsGetters = .ok arguments := ⟨_, rfl⟩
  have hall : ∀ arguments ∈ (Arguments.read putsGetters).toOption, arguments.write = true ∧
      arguments.listOperations = false ∧ arguments.listEnums = false ∧ arguments.logFile = [] ∧
        filePath? arguments = some (.ofText "a.dart".toList) ∧
        arguments.goal? = some (.ofText "a.dart".toList) := by
    decide +kernel
  obtain ⟨hwrite, hlist, hlistEnums, hlogFile, hpath, hgoal⟩ :=
    hall arguments (by rw [hread]; rfl)
  have hcode : (run enumAndNotes putsGetters).ending.returned? = some successCode := by
    decide +kernel
  obtain ⟨hlisting, -⟩ | ⟨session, text, changed, goal, hstart, hcontent, -, hpatched, hgoal',
      hfile⟩ :=
    run_writes_back hcode hread hwrite hpath rfl fun _ _ _ _ hlogs => hlogs.1 hlogFile
  · rw [hlist, hlistEnums] at hlisting
    exact absurd hlisting (by decide)
  obtain rfl := Option.some.inj (hgoal.symm.trans hgoal')
  obtain rfl : "enum A \x7ba\x7d\n".toList = text :=
    Except.ok.inj ((Utf8.decode_encode _).symm.trans (Utf8.decode_eq_ok_iff.2 hcontent))
  have hfeeds : Text.withLineFeeds "enum A \x7ba\x7d\n".toList = "enum A \x7ba\x7d\n".toList :=
    Text.withLineFeeds_eq_self_iff.2 (by decide)
  rw [hfeeds] at hpatched hfile
  refine ⟨arguments, session, changed, hread, hstart, hpatched, ?_⟩
  rcases hfile with hfile | ⟨-, rfl, hidle⟩
  · exact hfile
  · exact hidle.read_eq (show enumAndNotes.storage.locate (.ofText "a.dart".toList) =
      .ok ["a.dart".toList] from rfl) fun hlogs => hlogs.1 hlogFile

/-- A text that starts with a carriage return and a line feed. -/
def startsWithReturn : Text := "\r\nenum A \x7ba\x7d\n".toList

/-- What is written to a file of that text. -/
def startsWithLineFeed : Text :=
  ("\nenum A \x7ba\x7d\n\nextension AGetters on A \x7b\n" ++
    "  bool get isA => this == A.a;\n\x7d\n").toList

/-- The carriage return is lost, though it stands before the enum, where no code is
    put. -/
theorem run_loses_return :
    let around : Surroundings := {
      storage := { files := [(["a.dart".toList], Utf8.encode startsWithReturn)] }
      input := []
      reply := .failed .connection }
    (run around putsGetters).ending.returned? = some successCode ∧
      (run around putsGetters).storage.read (.ofText "a.dart".toList) =
          .ok (Utf8.encode startsWithLineFeed) ∧
        ∀ (generator : Generator) (turns : List Turn),
          ¬generator.Patches turns startsWithReturn startsWithLineFeed := by
  refine ⟨by decide +kernel, by decide +kernel, fun generator turns hpatches => ?_⟩
  exact absurd hpatches.head?_eq (by decide)

end CommandLine

end EnumCompanion
