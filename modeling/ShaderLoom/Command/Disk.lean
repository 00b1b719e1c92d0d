/-!
# Where an output path leads

A path is followed part by part from the root or from the working folder. Empty parts and single
dots stay, double dots go up, and every other part but the last has to name a folder. The last part
may name nothing yet, and then a file is made. What stands on the disk is the usual arrangement of
a system, with its devices and streams, and one working folder, which stands in the folder for
temporary files and holds files only.
-/
namespace ShaderLoom

/-- Why nothing can be written at a path. -/
inductive WriteFailure where
  | notFound
  | inputOutput
  | noDevice
  | denied
  | notFolder
  | isFolder
  | busy
  | noSpace
  | nameTooLong
deriving DecidableEq, Repr

/-- A failure in the words of the system, with its number there. -/
def systemReason (words : String) (code : Nat) : String :=
  words ++ " (os error " ++ toString code ++ ")"

/-- The reason a failure is reported with. -/
def WriteFailure.reason : WriteFailure → String
  | .notFound => systemReason "No such file or directory" 2
  | .inputOutput => systemReason "Input/output error" 5
  | .noDevice => systemReason "No such device or address" 6
  | .denied => systemReason "Permission denied" 13
  | .notFolder => systemReason "Not a directory" 20
  | .isFolder => systemReason "Is a directory" 21
  | .busy => systemReason "Text file busy" 26
  | .noSpace => systemReason "No space left on device" 28
  | .nameTooLong => systemReason "File name too long" 36

/-- A place on the disk: the names from the root down. -/
abbrev Place := List String

/-- What stands at a place. -/
inductive Node where
  | folder
  /-- A folder in which no file can be made, for a reason. -/
  | closed (failure : WriteFailure)
  | file
  /-- Takes every text, keeps none, and reads as the empty text. -/
  | null
  /-- Takes every text and keeps none; what it reads as is no text of its own. -/
  | sink
  /-- Takes no text, for a reason. -/
  | refusing (failure : WriteFailure)
  /-- The standard output of the program. -/
  | output
  /-- The standard error of the program. -/
  | errors
  /-- Another name for another place. -/
  | link (target : Place)
deriving DecidableEq, Repr

/-- The working folder. Its own name is unknown, so it is the name that no path can spell. -/
def workplace : Place := ["tmp", ""]

/-- The folders of a system. -/
def systemFolders : List String :=
  ["", "boot", "dev", "dev/shm", "etc", "etc/default", "etc/init.d", "home", "media", "mnt",
   "opt", "root", "run", "run/lock", "srv", "tmp", "usr", "usr/bin", "usr/games", "usr/include",
   "usr/lib", "usr/lib64", "usr/libexec", "usr/local", "usr/local/bin", "usr/local/etc",
   "usr/local/games", "usr/local/include", "usr/local/lib", "usr/local/sbin",
   "usr/local/share", "usr/local/src", "usr/sbin", "usr/share", "usr/share/doc", "usr/src",
   "var", "var/backups", "var/cache", "var/lib", "var/local", "var/log", "var/mail", "var/opt",
   "var/spool", "var/tmp"]

/-- The files of a system that every system has. -/
def systemFiles : List String :=
  ["etc/fstab", "etc/group", "etc/hostname", "etc/hosts", "etc/os-release", "etc/passwd",
   "etc/profile", "etc/resolv.conf", "etc/shadow", "usr/bin/bash", "usr/bin/cat",
   "usr/bin/env", "usr/bin/ls", "usr/bin/sh", "usr/bin/true"]

/-- The devices, streams, closed folders and links of a system. -/
def systemSpecials : List (String × Node) :=
  [("bin", .link ["usr", "bin"]), ("sbin", .link ["usr", "sbin"]), ("lib", .link ["usr", "lib"]),
   ("lib64", .link ["usr", "lib64"]), ("var/run", .link ["run"]),
   ("var/lock", .link ["run", "lock"]),
   ("dev/null", .null), ("dev/zero", .sink), ("dev/random", .sink), ("dev/urandom", .sink),
   ("dev/ptmx", .sink), ("dev/full", .refusing .noSpace), ("dev/tty", .refusing .noDevice),
   ("dev/pts", .closed .denied), ("dev/fd", .link ["proc", "self", "fd"]),
   ("dev/stdin", .link ["proc", "self", "fd", "0"]),
   ("dev/stdout", .link ["proc", "self", "fd", "1"]),
   ("dev/stderr", .link ["proc", "self", "fd", "2"]),
   ("proc", .closed .notFound), ("proc/1", .closed .notFound), ("proc/sys", .closed .notFound),
   ("proc/self", .closed .notFound), ("proc/self/fd", .closed .notFound),
   ("proc/self/fd/0", .sink), ("proc/self/fd/1", .output), ("proc/self/fd/2", .errors),
   ("proc/self/exe", .refusing .busy), ("proc/self/cwd", .link workplace),
   ("proc/self/root", .link []), ("proc/cpuinfo", .refusing .inputOutput),
   ("proc/meminfo", .refusing .inputOutput), ("proc/version", .refusing .inputOutput),
   ("sys", .closed .denied), ("sys/class", .closed .denied), ("sys/kernel", .closed .denied)]

/-- What stands at a place of a system. -/
def systemNode? (place : Place) : Option Node :=
  let path := "/".intercalate place
  if systemFolders.contains path then some .folder
  else if systemFiles.contains path then some .file
  else systemSpecials.lookup path

/-- Where a text goes that is written at a path. -/
inductive Destination where
  /-- To a file of this name in the working folder. -/
  | inside (name : String)
  /-- To some other place. -/
  | elsewhere
  /-- To no place at all. -/
  | nowhere
  /-- To the standard output. -/
  | output
  /-- To the standard error. -/
  | errors
deriving DecidableEq, Repr

/-- The files of the working folder, by name. -/
structure Disk where
  files : List (String × String)
deriving DecidableEq, Repr

namespace Disk

/-- The disk with an empty working folder. -/
def empty : Disk := ⟨[]⟩

/-- What stands at a place, links not followed. -/
def node? (disk : Disk) (place : Place) : Option Node :=
  if place = workplace then some .folder
  else if place.dropLast = workplace then
    (disk.files.lookup (place.getLast?.getD "")).map fun _ => .file
  else systemNode? place

/-- The place that a place is, links followed. No link leads to another. -/
def arrive (disk : Disk) (place : Place) : Place :=
  match disk.node? place with
  | some (.link target) => target
  | _ => place

/-- Where a text goes that is written to `name` in the folder `here`. -/
def destination (disk : Disk) (here : Place) (name : String) : Except WriteFailure Destination :=
  match disk.node? (disk.arrive (here ++ [name])) with
  | some .folder => .error .isFolder
  | some (.closed _) => .error .isFolder
  | some (.refusing failure) => .error failure
  | some .null => .ok .nowhere
  | some .output => .ok .output
  | some .errors => .ok .errors
  | some _ => .ok (if here = workplace then .inside name else .elsewhere)
  | none =>
    match disk.node? here with
    | some (.closed failure) => .error failure
    | _ => .ok (if here = workplace then .inside name else .elsewhere)

/-- Follow the parts of a path from a folder; `slash` says whether the path ends in a slash, which
asks for a folder before anything is looked up. -/
def follow (disk : Disk) (slash : Bool) (here : Place) :
    List String → Except WriteFailure Destination
  | [] => .error .isFolder
  | part :: rest =>
    if part = "." then follow disk slash here rest
    else if part = ".." then follow disk slash here.dropLast rest
    else if rest.isEmpty && slash then .error .isFolder
    else if 255 < part.utf8ByteSize then .error .nameTooLong
    else if rest.isEmpty then disk.destination here part
    else
      let next := disk.arrive (here ++ [part])
      match disk.node? next with
      | some .folder => follow disk slash next rest
      | some (.closed _) => follow disk slash next rest
      | some _ => .error .notFolder
      | none => .error .notFound

/-- Where a text goes that is written at a path. -/
def locate (disk : Disk) (path : String) : Except WriteFailure Destination :=
  if path.isEmpty then .error .notFound
  else if 4096 ≤ path.utf8ByteSize then .error .nameTooLong
  else
    disk.follow (path.toList.getLast? == some '/')
      (if path.toList.head? = some '/' then [] else workplace)
      ((path.splitOn "/").filter (· ≠ ""))

/-- The disk with a file of the working folder written, over an earlier one of the same name. -/
def store (disk : Disk) (name text : String) : Disk := ⟨(name, text) :: disk.files⟩

/-- The text that can be read at a path: that of a file of the working folder, or the empty text
where nothing is kept. -/
def read? (disk : Disk) (path : String) : Option String :=
  match disk.locate path with
  | .ok (.inside name) => disk.files.lookup name
  | .ok .nowhere => some ""
  | _ => none

end Disk

end ShaderLoom
