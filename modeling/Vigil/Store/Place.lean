import Vigil.Store.Tables.Document

/-!
# Opening a database

A database is opened at a path. Where nothing is, or an empty file, it begins without records; the
directory has to be there, and a file has to be that of a database.
-/

namespace Vigil

/-- What is found at the path of a database. -/
inductive Place where
  | nothing
  | noDirectory
  | directory
  | unreadable (reason : String)
  | file (content : String)
  | tables (tables : Tables)

def Place.open : Place → Except StorageError Tables
  | nothing => .ok .empty
  | noDirectory => .error (.connectionFailed "the directory is missing")
  | directory => .error (.connectionFailed "the path is a directory")
  | unreadable reason => .error (.connectionFailed reason)
  | file content =>
    if content.isEmpty then .ok .empty
    else
      match Tables.ofText? content with
      | some t => .ok t
      | none => .error (.connectionFailed "the file is not a database")
  | tables t => .ok t

end Vigil
