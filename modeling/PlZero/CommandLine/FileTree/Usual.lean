import PlZero.CommandLine.FileTree

/-!
# The usual surroundings

A folder to work in is not alone: it lies in the folder for temporary files, and around it
are the folders, files and devices that are found on every system. Only their places matter
here, so the files are empty.
-/

namespace PlZero.CommandLine.FileTree

/-- The folders in the root. -/
def rootFolders : List String :=
  ["bin", "boot", "dev", "etc", "home", "lib", "lib64", "media", "mnt", "opt", "proc", "root",
    "run", "sbin", "srv", "sys", "tmp", "usr", "var"]

/-- Folders further down. -/
def innerFolders : List Place :=
  [["dev", "fd"], ["dev", "mqueue"], ["dev", "pts"], ["dev", "shm"], ["proc", "1"],
    ["proc", "self"], ["proc", "self", "fd"], ["proc", "sys"], ["usr", "bin"],
    ["usr", "games"], ["usr", "include"], ["usr", "lib"], ["usr", "local"],
    ["usr", "local", "bin"], ["usr", "local", "lib"], ["usr", "local", "share"],
    ["usr", "sbin"], ["usr", "share"], ["usr", "src"], ["var", "cache"], ["var", "lib"],
    ["var", "local"], ["var", "log"], ["var", "mail"], ["var", "opt"], ["var", "run"],
    ["var", "spool"], ["var", "tmp"]]

/-- Files. -/
def usualFiles : List Place :=
  [["bin", "sh"], ["etc", "group"], ["etc", "hostname"], ["etc", "hosts"], ["etc", "passwd"],
    ["etc", "resolv.conf"], ["proc", "cpuinfo"], ["proc", "meminfo"], ["proc", "version"],
    ["usr", "bin", "env"]]

/-- Devices. -/
def usualDevices : List (Place × Device) :=
  [(["dev", "null"], .null), (["dev", "zero"], .null), (["dev", "random"], .null),
    (["dev", "urandom"], .null), (["dev", "full"], .full), (["dev", "stdin"], .null),
    (["dev", "fd", "0"], .null), (["proc", "self", "fd", "0"], .null),
    (["dev", "stdout"], .standardOutput), (["dev", "fd", "1"], .standardOutput),
    (["proc", "self", "fd", "1"], .standardOutput), (["dev", "stderr"], .standardError),
    (["dev", "fd", "2"], .standardError), (["proc", "self", "fd", "2"], .standardError),
    (["dev", "tty"], .terminal)]

/-- What is found on every system. -/
def usualEntries : List (Place × Entry) :=
  rootFolders.map (fun name => ([name], .folder)) ++ innerFolders.map (·, .folder) ++
    usualFiles.map (·, .file #[]) ++ usualDevices.map fun e => (e.1, .device e.2)

/-- Folders that only the system puts something into. -/
def systemFolders : List Place := [["proc"], ["dev", "fd"]]

/-- A tree whose working folder is a new one that holds nothing but the given entries, which
are named by their places from there. -/
def inNewFolder (own : List (Place × Entry)) : FileTree :=
  let here := ["tmp", "new-folder"]
  ⟨here, systemFolders, usualEntries ++ own.map fun e => (here ++ e.1, e.2)⟩

end PlZero.CommandLine.FileTree
