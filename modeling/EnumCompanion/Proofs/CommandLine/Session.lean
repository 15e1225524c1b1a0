import EnumCompanion.CommandLine.Run
import EnumCompanion.Proofs.Storage

/-!
# Sessions and files

A part of a run that writes no file itself leaves all files but the one for
records as they are.

* `Session.Grows`: a session and a later one, with records and items between them;
* `Reports`: the parts of a run that only make records and show items, with one
  lemma for each kind of part;
* `reports_loadSource`: loading the source is one of them.
-/

namespace EnumCompanion

open Journal

namespace CommandLine

/-- Whether a place is that of the file for records. -/
def Recorder.Logs (recorder : Recorder) (storage : Storage) (location : Location) : Prop :=
  ∃ path ∈ recorder.path, storage.locate path = .ok location

theorem Recorder.logs_iff {recorder : Recorder} {storage storage' : Storage}
    (h : storage'.folders = storage.folders) (location : Location) :
    recorder.Logs storage' location ↔ recorder.Logs storage location :=
  exists_congr fun _ => and_congr_right fun _ => Storage.locate_eq_ok_iff h

/-- Text that is kept only changes the file for records. -/
theorem Recorder.agreesBut_keep (recorder : Recorder) (storage : Storage) (text : Text) :
    storage.AgreesBut (recorder.Logs storage) (recorder.keep storage text) := by
  rw [keep]
  cases hpath : recorder.path with
  | none => exact .refl _ _
  | some path =>
    exact (Storage.agreesBut_append storage path (Utf8.encode text)).mono
      fun location hlocate => ⟨path, hpath, hlocate⟩

/-! ### Sessions -/

/-- A session and a later one, between which no file but that for records was
    changed. -/
structure Session.Grows (session session' : Session) : Prop where
  recorder : session'.recorder = session.recorder
  storage : session.storage.AgreesBut (session.recorder.Logs session.storage) session'.storage

namespace Session.Grows

variable {session session' session'' : Session}

theorem refl (session : Session) : session.Grows session := ⟨rfl, .refl _ _⟩

theorem logs_iff (h : session.Grows session') (location : Location) :
    session'.recorder.Logs session'.storage location ↔
      session.recorder.Logs session.storage location := by
  rw [h.recorder]
  exact Recorder.logs_iff h.storage.folders location

theorem trans (h : session.Grows session') (h' : session'.Grows session'') :
    session.Grows session'' :=
  ⟨h'.recorder.trans h.recorder,
    h.storage.trans (h'.storage.mono fun location => (h.logs_iff location).1)⟩

theorem add (session : Session) (record : Record) : session.Grows (session.add record) :=
  ⟨rfl, session.recorder.agreesBut_keep _ _⟩

theorem foldl_add (session : Session) (records : List Record) :
    session.Grows (records.foldl Session.add session) := by
  induction records generalizing session with
  | nil => exact .refl session
  | cons record rest ih => exact (add session record).trans (ih (session.add record))

end Session.Grows

/-! ### Parts of a run -/

/-- A part of a run that changes no file but that for records. -/
def Reports {α : Type} (course : Course α) : Prop :=
  ∀ session : Session, session.Grows (course.on session).2

variable {α β ε : Type}

theorem reports_pure (a : α) : Reports (pure a) := Session.Grows.refl

theorem Reports.bind {course : Course α} {next : α → Course β} (h : Reports course)
    (hnext : ∀ a, Reports (next a)) : Reports (course >>= next) := fun session =>
  (h session).trans (hnext _ _)

/-- A part that may fail before another one. -/
theorem Reports.run_bind {course : ExceptT ε Course α} {next : α → ExceptT ε Course β}
    (h : Reports course.run) (hnext : ∀ a, Reports (next a).run) :
    Reports (course >>= next).run := by
  rw [ExceptT.run_bind]
  refine h.bind fun result => ?_
  cases result with
  | error fault => exact reports_pure _
  | ok a => exact hnext a

theorem reports_currentStorage : Reports currentStorage := Session.Grows.refl

theorem reports_report (records : List Record) : Reports (report records) := fun session =>
  .foldl_add session _

theorem reports_display (items : List Item) : Reports (display items) := fun _ =>
  ⟨rfl, .refl _ _⟩

theorem reports_told (logged : Logged α) : Reports (told logged) :=
  (reports_report logged.records).bind fun _ => reports_pure _

theorem Reports.run_lift {course : Course α} (h : Reports course) :
    Reports (liftM course : ExceptT ε Course α).run := h

theorem reports_loadFile (path : Path) : Reports (loadFile path).run :=
  (reports_told _).run_lift.run_bind fun _ => reports_currentStorage.run_lift.run_bind fun _ =>
    Reports.run_bind (reports_told _) fun _ => reports_currentStorage.run_lift.run_bind fun _ =>
      reports_told _

/-- Loading the source changes no file but that for records. -/
theorem reports_loadSource (around : Surroundings) (choice : Source.Choice) :
    Reports (loadSource around choice).run := by
  rw [loadSource]
  cases choice.origin with
  | error fault => exact reports_pure _
  | ok origin =>
    cases origin with
    | file name => exact reports_loadFile _
    | address url => exact reports_told _
    | input => exact reports_told _

end CommandLine

end EnumCompanion
