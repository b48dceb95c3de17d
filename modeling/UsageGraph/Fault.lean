import UsageGraph.Duration

/-! # Faults

Why an operation failed. A fault is a cause; its wording is in one place.

* `IoCause`: what the file system refuses, with the wording of the operating system.
* `ManifestDefect`: what is wrong with a manifest that was found.
* `Fault`, `Fault.message`: the causes and their texts.
* `Fault.endsRepository`: the faults that end the pass over a whole repository.
* `Fault.isPanic`: the one fault that no operation returns.
-/

namespace UsageGraph
set_option autoImplicit false

/-! ## The file system -/

inductive IoCause where
  | notFound
  | notADirectory
  | isADirectory
  | alreadyExists
  | directoryNotEmpty
  | emptyPath
  | nullInPath
  | longName
  | notUtf8
  | noRoot
  | permissionDenied
  | nullInCommand
  deriving DecidableEq, Repr

namespace IoCause

def wording : IoCause → String
  | notFound => "No such file or directory"
  | notADirectory => "Not a directory"
  | isADirectory => "Is a directory"
  | alreadyExists => "File exists"
  | directoryNotEmpty => "Directory not empty"
  | emptyPath => "cannot make an empty path absolute"
  | nullInPath => "file name contained an unexpected NUL byte"
  | longName => "File name too long"
  | notUtf8 => "stream did not contain valid UTF-8"
  | noRoot => "failed to create whole tree"
  | permissionDenied => "Permission denied"
  | nullInCommand => "nul byte found in provided data"

/-- The number under which the operating system knows a cause, if it is one of its own. -/
def number? : IoCause → Option Nat
  | notFound => some 2
  | permissionDenied => some 13
  | alreadyExists => some 17
  | notADirectory => some 20
  | isADirectory => some 21
  | longName => some 36
  | directoryNotEmpty => some 39
  | emptyPath | nullInPath | notUtf8 | noRoot | nullInCommand => none

def message (cause : IoCause) : String :=
  match cause.number? with
  | some n => cause.wording ++ " (os error " ++ toString n ++ ")"
  | none => cause.wording

end IoCause

/-! ## Manifests -/

inductive ManifestDefect where
  /-- The file at `path` is no manifest document. -/
  | malformed (path : String)
  | unreadableLanguage (required : String)
  | languageMismatch (current required : String)
  /-- A defect that somebody else found. -/
  | reported (text : String)
  deriving DecidableEq, Repr

def ManifestDefect.message : ManifestDefect → String
  | .malformed path => path ++ ": malformed document"
  | .unreadableLanguage required => "couldn't parse elm-version: \"" ++ required ++ "\""
  | .languageMismatch current required =>
    "current version \"" ++ current ++ "\" doesn't match required version \"" ++ required ++ "\""
  | .reported text => text

/-! ## Faults -/

inductive Fault where
  | io (cause : IoCause)
  | database (text : String)
  | pool (text : String)
  | json
  | yaml
  | manifestMissing (text : String)
  | manifestInvalid (defect : ManifestDefect)
  | compileFailure (file reason : String)
  | subprocess (command stderr : String)
  | timeout (command : String) (limit : Duration)
  | moduleNotFound (package module : String)
  | git (text : String)
  | catalog (text : String)
  | config (text : String)
  | task (text : String)
  /-- The program broke off. This is no failure that an operation returns: what was to be done after
  it is not done either. -/
  | panicked (text : String)
  deriving DecidableEq, Repr

namespace Fault

def message : Fault → String
  | io cause => "IO error: " ++ cause.message
  | database text => "Database error: " ++ text
  | pool text => "Connection pool error: " ++ text
  | json => "JSON error: malformed document"
  | yaml => "Config file error: malformed document"
  | manifestMissing text => "Manifest missing: " ++ text
  | manifestInvalid defect => "Manifest invalid: " ++ defect.message
  | compileFailure file reason => "Failed to compile " ++ file ++ ": " ++ reason
  | subprocess command stderr => "Subprocess `" ++ command ++ "` failed: " ++ stderr
  | timeout command limit => "Subprocess `" ++ command ++ "` timed out after " ++ limit.render
  | moduleNotFound package module => "Module " ++ module ++ " not found in " ++ package
  | git text => "Git error: " ++ text
  | catalog text => "Catalog error: " ++ text
  | config text => "Config error: " ++ text
  | task text => "Task error: " ++ text
  | panicked text => text

/-- The faults that end the pass over a repository; every other one concerns a single file,
reference or version. -/
def endsRepository : Fault → Bool
  | manifestMissing _ | manifestInvalid _ | git _ => true
  | _ => false

def isPanic : Fault → Bool
  | panicked _ => true
  | _ => false

/-- A task that others wait for keeps a panic to itself: they are told of it. -/
def joined (name : String) : Fault → Fault
  | panicked text => task (name ++ ": task panicked with message \"" ++ text ++ "\"")
  | f => f

end Fault
end UsageGraph
