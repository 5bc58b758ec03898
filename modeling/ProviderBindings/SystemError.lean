import ProviderBindings.Path
import ProviderBindings.Text.Quoted

/-!
# Errors of the operating system

What a file operation can fail with: an error number with its reason and usually the path it was
about, or a bare text. `SystemError.message` is the one wording of all of them.
-/

namespace ProviderBindings

/-- The reasons for which the file operations of this library fail. -/
inductive Errno where
  | notFound
  | busy
  | alreadyExists
  | notADirectory
  | isADirectory
  | invalid
  | nameTooLong
  | notEmpty
  | tooManyLinks
  deriving DecidableEq, Repr

namespace Errno

/-- The number of a reason. -/
def code : Errno → Int
  | notFound => 2
  | busy => 16
  | alreadyExists => 17
  | notADirectory => 20
  | isADirectory => 21
  | invalid => 22
  | nameTooLong => 36
  | notEmpty => 39
  | tooManyLinks => 40

/-- The words for a reason. -/
def reason : Errno → String
  | notFound => "No such file or directory"
  | busy => "Device or resource busy"
  | alreadyExists => "File exists"
  | notADirectory => "Not a directory"
  | isADirectory => "Is a directory"
  | invalid => "Invalid argument"
  | nameTooLong => "File name too long"
  | notEmpty => "Directory not empty"
  | tooManyLinks => "Too many levels of symbolic links"

end Errno

/-- An error of the operating system. -/
inductive SystemError where
  /-- A numbered error, with the path it is about if that is known. -/
  | coded (number : Int) (reason : String) (path : Option String)
  /-- A numbered error about a path and the one it was to be moved to. -/
  | moving (number : Int) (reason source target : String)
  /-- An error that only says something. -/
  | worded (text : String)
  deriving DecidableEq, Repr

namespace SystemError

/-- The failure of an operation on a path text. -/
def about (e : Errno) (path : String) : SystemError :=
  .coded e.code e.reason (some path)

/-- The failure of an operation on a path. -/
def on (e : Errno) (p : Path) : SystemError :=
  about e p.text

/-- The failure of an operation on no path in particular. -/
def plain (e : Errno) : SystemError :=
  .coded e.code e.reason none

/-- The number of the error, if it has one. -/
def number? : SystemError → Option Int
  | .coded number _ _ => some number
  | .moving number _ _ _ => some number
  | .worded _ => none

/-- Whether the error says that something was not there. -/
def isNotFound (e : SystemError) : Bool :=
  e.number? == some Errno.notFound.code

/-- The text of an error. -/
def message : SystemError → String
  | .coded number reason none => s!"[Errno {number}] {reason}"
  | .coded number reason (some path) => s!"[Errno {number}] {reason}: " ++ Text.quoted path
  | .moving number reason source target =>
    s!"[Errno {number}] {reason}: " ++ Text.quoted source ++ " -> " ++ Text.quoted target
  | .worded text => text

end SystemError

/-- What a file operation fails with. -/
inductive FileFailure where
  | system (e : SystemError)
  /-- The path is the path of nothing. -/
  | unnameable (fault : PathFault)
  deriving DecidableEq, Repr

end ProviderBindings
