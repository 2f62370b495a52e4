import Mathlib.Control.Monad.Basic
import PlZero.CommandLine.FileTree.Usual
import PlZero.Proofs.FileTrees

/-!
# Commands that do not start

A command that has nothing to run on leaves everything as it was (`unchanged_of_refused`). The
reasons are listed by what is wrong with the arguments, with the file that is read and with the
output (`Refused`), in any combination and without regard to the order in which they are found out.
Before there is a text, nothing is done (`start_cases`), and an output that cannot be opened is left
alone (`leavesNothing_finish`). There are no other reasons: a command with none of these runs, or it
asks for help or for the version (`refused_or_runs`).
-/

namespace PlZero.CommandLine

variable {parse : List String → Command} {arguments : List String} {o : Options} {t : FileTree}
  {path : String} {bytes : Array UInt8}

/-! ### What can be read -/

/-- What has been read is the content of a file, or there is a device, which has none. -/
theorem FileTree.exists_of_read (h : t.read path = .ok bytes) :
    ∃ p₀ parts p, t.start path = .ok (p₀, parts) ∧ t.follow p₀ parts = .ok p ∧
      (t.entry? p = some (.file bytes) ∨ bytes = #[] ∧ ∃ dev, t.entry? p = some (.device dev)) := by
  rw [read] at h
  cases hstart : t.start path with
  | error e => rw [hstart] at h; cases h
  | ok r =>
    obtain ⟨p₀, parts⟩ := r
    simp only [hstart, bind, Except.bind] at h
    cases hfollow : t.follow p₀ parts with
    | error e => rw [hfollow] at h; cases h
    | ok p =>
      simp only [hfollow] at h
      refine ⟨p₀, parts, p, rfl, hfollow, ?_⟩
      split at h
      · cases h
      · next content hfile =>
        cases h
        exact .inl hfile
      · next dev hdevice =>
        cases herror : dev.error? with
        | some e => rw [herror] at h; cases h
        | none =>
          rw [herror] at h
          cases h
          exact .inr ⟨rfl, dev, hdevice⟩
      · cases h

/-- The path leads to no file: it leads nowhere, or to where nothing is, or to a folder. -/
def FileTree.LeadsToNoFile (t : FileTree) (path : String) : Prop :=
  ∀ p₀ parts p, t.start path = .ok (p₀, parts) → t.follow p₀ parts = .ok p →
    t.entry? p = none ∨ t.entry? p = some .folder

theorem FileTree.LeadsToNoFile.read_ne (h : t.LeadsToNoFile path) (bytes : Array UInt8) :
    t.read path ≠ .ok bytes := by
  intro hread
  obtain ⟨p₀, parts, p, hstart, hfollow, hentry⟩ := exists_of_read hread
  rcases h p₀ parts p hstart hfollow with hnone | hfolder
  · simp [hnone] at hentry
  · simp [hfolder] at hentry

/-! ### Reasons -/

/-- What keeps a command from running. -/
inductive Refused (parse : List String → Command) (arguments : List String) (t : FileTree) : Prop
  /-- The arguments make no sense. -/
  | arguments {message : String} (h : parse arguments = .reject message)
  /-- The file is not named as a program is. -/
  | extension {o : Options} {verbosity : Nat} (hrun : parse arguments = .run o verbosity)
    (hext : extension? o.file ≠ some "pl0")
  /-- There is no such file. -/
  | noFile {o : Options} {verbosity : Nat} (hrun : parse arguments = .run o verbosity)
    (hfile : t.LeadsToNoFile o.file)
  /-- The file cannot be read. -/
  | unreadable {o : Options} {verbosity : Nat} {e : FileError}
    (hrun : parse arguments = .run o verbosity) (hread : t.read o.file = .error e)
  /-- There is no text in the file. -/
  | noText {o : Options} {verbosity : Nat} {bytes : Array UInt8}
    (hrun : parse arguments = .run o verbosity) (hread : t.read o.file = .ok bytes)
    (htext : String.fromUTF8? ⟨bytes⟩ = none)
  /-- The output cannot be opened for writing. -/
  | output {o : Options} {verbosity : Nat} {e : FileError}
    (hrun : parse arguments = .run o verbosity) (hout : o.output ≠ standardOutput)
    (htarget : t.target o.output = .error e)

/-- The command runs on this text. -/
structure Runs (parse : List String → Command) (arguments : List String) (t : FileTree)
    (o : Options) (text : String) : Prop where
  parse_eq : ∃ verbosity, parse arguments = .run o verbosity
  extension?_eq : extension? o.file = some "pl0"
  exists_read : ∃ bytes, t.read o.file = .ok bytes ∧ String.fromUTF8? ⟨bytes⟩ = some text
  exists_target : o.output ≠ standardOutput → ∃ p, t.target o.output = .ok p

/-- Nothing has been written and no file has changed. -/
structure LeavesNothing (t : FileTree) (r : Response × FileTree) : Prop where
  exit_eq : r.1.exit = .status 1
  output_eq : r.1.output = #[]
  tree_eq : r.2 = t

theorem leavesNothing_refuse (t : FileTree) (errors : String) :
    LeavesNothing t ((Interaction.respond (.refuse errors)).runIn t) := ⟨rfl, rfl, rfl⟩

/-- An output that cannot be opened is left alone. -/
theorem leavesNothing_finish {e : FileError} (text : String) (hout : o.output ≠ standardOutput)
    (htarget : t.target o.output = .error e) : LeavesNothing t ((o.finish text).runIn t) := by
  simp only [Options.finish, if_neg hout, Interaction.runIn, htarget]
  exact leavesNothing_refuse t _

/-- Before there is a text, nothing is done. -/
theorem start_cases (o : Options) (t : FileTree) :
    LeavesNothing t (o.start.runIn t) ∨
      ∃ bytes text, extension? o.file = some "pl0" ∧ t.read o.file = .ok bytes ∧
        String.fromUTF8? ⟨bytes⟩ = some text ∧ o.start.runIn t = (o.finish text).runIn t := by
  by_cases hext : extension? o.file = some "pl0"
  · simp only [Options.start, if_pos hext, Interaction.runIn]
    cases hread : t.read o.file with
    | error e => exact .inl (leavesNothing_refuse t _)
    | ok bytes =>
      cases htext : String.fromUTF8? ⟨bytes⟩ with
      | none =>
        simp only [htext]
        exact .inl (leavesNothing_refuse t _)
      | some text => exact .inr ⟨bytes, text, hext, rfl, htext, by simp only [htext]⟩
  · simp only [Options.start, if_neg hext]
    exact .inl (leavesNothing_refuse t _)

/-- With nothing against it, a command runs, or it asks for help or for the version. -/
theorem refused_or_runs (parse : List String → Command) (arguments : List String) (t : FileTree) :
    Refused parse arguments t ∨ parse arguments = .help ∨ parse arguments = .version ∨
      ∃ o text, Runs parse arguments t o text := by
  cases hcommand : parse arguments with
  | reject => exact .inl (.arguments hcommand)
  | help => exact .inr (.inl rfl)
  | version => exact .inr (.inr (.inl rfl))
  | run o verbosity =>
    by_cases hext : extension? o.file = some "pl0"
    · cases hread : t.read o.file with
      | error e => exact .inl (.unreadable hcommand hread)
      | ok bytes =>
        cases htext : String.fromUTF8? ⟨bytes⟩ with
        | none => exact .inl (.noText hcommand hread htext)
        | some text =>
          cases htarget : t.target o.output with
          | error e =>
            by_cases hout : o.output = standardOutput
            · exact .inr (.inr (.inr ⟨o, text, ⟨verbosity, hcommand⟩, hext, ⟨bytes, hread, htext⟩,
                fun hne => absurd hout hne⟩))
            · exact .inl (.output hcommand hout htarget)
          | ok p =>
            exact .inr (.inr (.inr ⟨o, text, ⟨verbosity, hcommand⟩, hext, ⟨bytes, hread, htext⟩,
              fun _ => ⟨p, htarget⟩⟩))
    · exact .inl (.extension hcommand hext)

theorem Refused.leavesNothing (h : Refused parse arguments t) :
    LeavesNothing t ((interactionBy parse arguments).runIn t) := by
  have hstart {o verbosity} (hrun : parse arguments = .run o verbosity) :
      interactionBy parse arguments = o.start := by
    rw [interactionBy, hrun]
  cases h with
  | arguments hreject =>
    rw [interactionBy, hreject]
    exact leavesNothing_refuse t _
  | @extension o _ hrun hext =>
    rw [hstart hrun]
    exact (start_cases o t).resolve_right fun ⟨_, _, hext', _⟩ => hext hext'
  | @noFile o _ hrun hfile =>
    rw [hstart hrun]
    exact (start_cases o t).resolve_right fun ⟨_, _, _, hread, _⟩ => hfile.read_ne _ hread
  | @unreadable o _ e hrun hread =>
    rw [hstart hrun]
    refine (start_cases o t).resolve_right fun ⟨_, _, _, hread', _⟩ => ?_
    cases hread.symm.trans hread'
  | @noText o _ bytes hrun hread htext =>
    rw [hstart hrun]
    refine (start_cases o t).resolve_right fun ⟨_, _, _, hread', htext', _⟩ => ?_
    cases hread.symm.trans hread'
    cases htext.symm.trans htext'
  | @output o _ e hrun hout htarget =>
    rw [hstart hrun]
    -- The output is looked at last, so the command may not come so far.
    rcases start_cases o t with hnothing | ⟨_, text, _, _, _, hfinish⟩
    · exact hnothing
    · exact hfinish ▸ leavesNothing_finish text hout htarget

/-- **A command that does not run changes nothing.** Whatever is in the files, whatever the
arguments are, and whichever parser they are given to: either there is something against the
command, and then its status is one, it writes nothing to the standard output, and all files are as
they were, the one that the output names included; or the command runs on the text of a file, with
an output that can be opened; or it asks for help or for the version. -/
theorem unchanged_of_refused (parse : List String → Command) (arguments : List String)
    (t : FileTree) :
    (Refused parse arguments t ∨ parse arguments = .help ∨ parse arguments = .version ∨
      ∃ o text, Runs parse arguments t o text) ∧
    (Refused parse arguments t → LeavesNothing t ((interactionBy parse arguments).runIn t)) :=
  ⟨refused_or_runs parse arguments t, Refused.leavesNothing⟩

/-- The program is no text, so the output keeps what it holds. -/
theorem unchanged_of_refused_program :
    let arguments := ["a.pl0", "-o", "out.c"]
    let t : FileTree :=
      .inNewFolder [(["a.pl0"], .file #[0xff]), (["out.c"], .file (Text.utf8 "old").toArray)]
    Refused Command.ofArguments arguments t ∧
      t.target "out.c" = .ok ["tmp", "new-folder", "out.c"] ∧
      ((interaction arguments).runIn t).1.exit = .status 1 ∧
      ((interaction arguments).runIn t).2.read "out.c" = .ok (Text.utf8 "old").toArray := by
  intro arguments t
  have hread : t.read "a.pl0" = .ok #[0xff] := by decide +kernel
  have htext : String.fromUTF8? ⟨#[0xff]⟩ = none := by decide +kernel
  have hrun : Command.ofArguments arguments = .run ⟨"a.pl0", "out.c", false⟩ 0 := rfl
  have hrefused : Refused Command.ofArguments arguments t := .noText hrun hread htext
  have hnothing := (unchanged_of_refused Command.ofArguments arguments t).2 hrefused
  refine ⟨hrefused, by decide +kernel, hnothing.exit_eq, ?_⟩
  rw [interaction, hnothing.tree_eq]
  decide +kernel

end PlZero.CommandLine
