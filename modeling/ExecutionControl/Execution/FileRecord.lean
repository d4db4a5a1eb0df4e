import ExecutionControl.Execution.Status

/-! # File records

    The durable record of one file of an execution. It is created `pending` and moves
    forward by transitions; repeating the current status moves nothing.
-/

namespace ExecutionControl

/-- What is known of a file when it is registered with an execution. -/
structure NewFile where
  executionId : String
  fileName : String
  filePath : String
  fileHash : String
  fileSize : Nat := 0
  mimeType : Option String := none
  deriving DecidableEq, Repr

/-- The durable record of a file. -/
structure FileRecord where
  /-- The identity of the record itself. -/
  id : String
  executionId : String
  fileName : String
  filePath : String
  fileHash : String
  fileSize : Nat
  mimeType : Option String
  status : ExecutionStatus
  /-- Seconds spent on the file, given when it reaches a terminal status. -/
  executionTime : Option Float
  /-- What went wrong, for a file in status `error`. -/
  error : Option String
  createdAt : Timestamp
  updatedAt : Timestamp
  deriving DecidableEq

/-- What identifies a file: a file is registered once for its execution, content and
    path. -/
structure FileKey where
  executionId : String
  fileHash : String
  filePath : String
  deriving DecidableEq, Repr

/-- A move that the forward order does not allow. -/
structure InvalidTransition where
  source : ExecutionStatus
  target : ExecutionStatus
  deriving DecidableEq, Repr

/-- The wording of the error. -/
def InvalidTransition.message (e : InvalidTransition) : String :=
  "invalid file execution transition: " ++ e.source.name ++ " -> " ++ e.target.name

/-- The identity of a file about to be registered. -/
def NewFile.key (f : NewFile) : FileKey := ⟨f.executionId, f.fileHash, f.filePath⟩

namespace FileRecord

/-- The record of a file registered at `now`. -/
def ofNew (id : String) (f : NewFile) (now : Timestamp) : FileRecord :=
  { id, executionId := f.executionId, fileName := f.fileName, filePath := f.filePath,
    fileHash := f.fileHash, fileSize := f.fileSize, mimeType := f.mimeType,
    status := .pending, executionTime := none, error := none, createdAt := now,
    updatedAt := now }

/-- The identity of the file. -/
def key (r : FileRecord) : FileKey := ⟨r.executionId, r.fileHash, r.filePath⟩

@[simp] theorem key_ofNew (id : String) (f : NewFile) (now : Timestamp) :
    (ofNew id f now).key = f.key := rfl

/-- The error kept for a file that failed without giving one. -/
def unknownError : String := "unknown error"

/-- A record moved to `target` at `now`. An error text is kept for status `error` only;
    an execution time that is not given leaves the old one. -/
def moved (r : FileRecord) (target : ExecutionStatus) (error : Option String)
    (executionTime : Option Float) (now : Timestamp) : FileRecord :=
  { r with
    status := target
    updatedAt := now
    error := if target = .error then some (error.getD unknownError) else r.error
    executionTime := executionTime.or r.executionTime }

/-- Apply a transition at `now`. Gives back whether the record moved, and the record. -/
def transition (r : FileRecord) (target : ExecutionStatus) (error : Option String)
    (executionTime : Option Float) (now : Timestamp) :
    Except InvalidTransition (Bool × FileRecord) :=
  if r.status.canMoveTo target then
    if r.status = target then .ok (false, r)
    else .ok (true, r.moved target error executionTime now)
  else .error ⟨r.status, target⟩

end FileRecord

/-! ### JSON -/

namespace NewFile

/-- The fields of a new file that have been read. -/
structure Draft where
  executionId : Option String := none
  fileName : Option String := none
  filePath : Option String := none
  fileHash : Option String := none
  fileSize : Option Nat := none
  mimeType : Option (Option String) := none

/-- The fields of a new file in order; size and type have defaults. -/
def fields : List (Json.Field Draft) :=
  [{ name := "execution_id", given := (·.executionId.isSome),
     read := fun d => (fun s => { d with executionId := some s }) <$> Json.readText },
   { name := "file_name", given := (·.fileName.isSome),
     read := fun d => (fun s => { d with fileName := some s }) <$> Json.readText },
   { name := "file_path", given := (·.filePath.isSome),
     read := fun d => (fun s => { d with filePath := some s }) <$> Json.readText },
   { name := "file_hash", given := (·.fileHash.isSome),
     read := fun d => (fun s => { d with fileHash := some s }) <$> Json.readText },
   { name := "file_size", given := (·.fileSize.isSome), optional := true,
     read := fun d => (fun n => { d with fileSize := some n }) <$>
       Json.readNatUpTo Text.maxWord64 },
   { name := "mime_type", given := (·.mimeType.isSome), optional := true,
     read := fun d => (fun s => { d with mimeType := some s }) <$>
       Json.readOption Json.readText }]

/-- The new file of a draft that has every field without a default. -/
def Draft.finish (d : Draft) : Option NewFile := do
  some ⟨← d.executionId, ← d.fileName, ← d.filePath, ← d.fileHash, d.fileSize.getD 0,
    d.mimeType.getD none⟩

/-- Read a new file from JSON text. -/
def reader (depth : Nat) : Json.Reader NewFile :=
  Json.readRecord fields false {} Draft.finish depth

/-- A new file as a JSON object. -/
def toJson (f : NewFile) : Json :=
  .obj [("execution_id", .str f.executionId), ("file_name", .str f.fileName),
    ("file_path", .str f.filePath), ("file_hash", .str f.fileHash),
    ("file_size", Json.nat f.fileSize), ("mime_type", Json.ofText? f.mimeType)]

end NewFile

namespace FileRecord

/-- The fields of a record that have been read. -/
structure Draft where
  id : Option String := none
  file : NewFile.Draft := {}
  status : Option ExecutionStatus := none
  executionTime : Option (Option Float) := none
  error : Option (Option String) := none
  createdAt : Option Timestamp := none
  updatedAt : Option Timestamp := none

/-- A field of the registered file as a field of the whole record, which has no
    defaults in an array. -/
def ofFileField (f : Json.Field NewFile.Draft) : Json.Field Draft :=
  { name := f.name, given := fun d => f.given d.file,
    read := fun d => (fun file => { d with file }) <$> f.read d.file }

/-- The fields of a record in order. -/
def fields : List (Json.Field Draft) :=
  { name := "id", given := (·.id.isSome),
    read := fun d => (fun s => { d with id := some s }) <$> Json.readText } ::
  NewFile.fields.map ofFileField ++
  [{ name := "status", given := (·.status.isSome),
     read := fun d => (fun s => { d with status := some s }) <$> ExecutionStatus.reader },
   { name := "execution_time", given := (·.executionTime.isSome),
     read := fun d => (fun x => { d with executionTime := some x }) <$>
       Json.readOption Json.readFloat },
   { name := "error", given := (·.error.isSome),
     read := fun d => (fun s => { d with error := some s }) <$> Json.readOption Json.readText },
   { name := "created_at", given := (·.createdAt.isSome),
     read := fun d => (fun t => { d with createdAt := some t }) <$> Json.readTimestamp },
   { name := "updated_at", given := (·.updatedAt.isSome),
     read := fun d => (fun t => { d with updatedAt := some t }) <$> Json.readTimestamp }]

/-- The record of a draft; only texts and numbers that may be absent may be missing. -/
def Draft.finish (d : Draft) : Option FileRecord := do
  let size ← d.file.fileSize
  let file ← d.file.finish
  some
    { id := ← d.id, executionId := file.executionId, fileName := file.fileName,
      filePath := file.filePath, fileHash := file.fileHash, fileSize := size,
      mimeType := file.mimeType, status := ← d.status,
      executionTime := d.executionTime.getD none, error := d.error.getD none,
      createdAt := ← d.createdAt, updatedAt := ← d.updatedAt }

/-- Read a record from JSON text. -/
def reader (depth : Nat) : Json.Reader FileRecord :=
  Json.readRecord fields false {} Draft.finish depth

end FileRecord

end ExecutionControl
