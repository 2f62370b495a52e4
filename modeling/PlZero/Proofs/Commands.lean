import PlZero.CommandLine.FileTree.Usual
import PlZero.Proofs.Buffers
import PlZero.Proofs.FileTrees
import PlZero.Proofs.Nesting

/-!
# Runs of the command

When nothing is wrong with the arguments and the file that they name, the command delivers what the
run on the content of this file writes, up to where it fails, and it tells how the run has ended
(`leaves_of_command`). Nothing of it stays behind in the buffer, also where the run fails
(`Job.runInto_unlimited`). The file is read before the output is opened, so this is so even if the
output replaces the file.

All this is about commands that are not asked to be verbose. It is so with any parser for the
arguments; for the one that is written out here it is what the arguments of the command line mean.
-/

namespace PlZero.CommandLine

variable {parse : List String → Command} {arguments : List String} {o : Options} {t : FileTree}
  {p : Place} {bytes : Array UInt8} {text : String} {verbosity : Nat}

/-! ### What a run leaves behind -/

/-- What a run on the program with this text delivers: the bytes that it writes, and what stops it.
-/
def Options.delivery (o : Options) (text : String) : Delivery :=
  let source : Source := ⟨o.file, text⟩
  (if o.tokensOnly then listTokens source else compile source).deliver .unlimited

/-- The response tells how a run has ended: well, or with a failure that is reported. -/
structure Response.Tells (r : Response) (sourceName : String)
    (failure? : Option (Located Failure)) : Prop where
  of_finished : failure? = none → r.exit = .status 0 ∧ r.errors = ""
  of_failed : ∀ f, failure? = some f →
    r.exit = .status 1 ∧ r.errors = Failure.report sourceName f

/-- The response and the tree `t'` are what a command that delivers `d` leaves of the tree `t`. What
has been delivered stands on the standard output, or it is all that the file holds that the output
names. -/
structure Options.Leaves (o : Options) (d : Delivery) (t : FileTree) (r : Response)
    (t' : FileTree) : Prop where
  tells : r.Tells o.file d.failure?
  of_standardOutput : o.output = standardOutput → r.output = d.bytes ∧ t' = t
  of_file : o.output ≠ standardOutput →
    r.output = #[] ∧ t'.read o.output = .ok d.bytes ∧
      ∃ p, t.target o.output = .ok p ∧ t.Overwrites p d.bytes t'

theorem Response.output_ofRun (sourceName : String) (failure? : Option (Located Failure))
    (output : Array UInt8) : (ofRun sourceName failure? output).output = output := by
  cases failure? <;> rfl

/-- What is no defect is told. -/
theorem Response.tells_ofRun {sourceName : String} {failure? : Option (Located Failure)}
    (h : ∀ f, failure? = some f → f.value.isDefect = false) (output : Array UInt8) :
    (ofRun sourceName failure? output).Tells sourceName failure? := by
  cases failure? with
  | none => exact ⟨fun _ => ⟨rfl, rfl⟩, fun f hf => absurd hf (Option.some_ne_none f).symm⟩
  | some f =>
    refine ⟨fun hnone => absurd hnone (Option.some_ne_none f), ?_⟩
    rintro _ ⟨⟩
    exact ⟨by simp [ofRun, h f rfl], rfl⟩

/-- What stops a run is no defect. -/
theorem Options.isDefect_of_delivery (o : Options) (text : String) :
    ∀ f, (o.delivery text).failure? = some f → f.value.isDefect = false := by
  intro f hf
  have hpossible := (o.job text).account.isPossible_of_deliver (o.job text).isPossible_of_account
  exact (hpossible .unlimited f hf).isDefect_eq

/-- A job that is done into a sink without a limit leaves the whole text there, although there is a
buffer in front of it and the job may fail. -/
theorem Job.runInto_unlimited (j : Job) :
    (j.runInto LimitedSink.unlimited).1 = (j.account.deliver .unlimited).failure? ∧
      (j.runInto LimitedSink.unlimited).2.taken = (j.account.deliver .unlimited).bytes := by
  obtain ⟨hfailure, hbytes⟩ := deliver_unlimited j.account
  obtain ⟨sink, hthrough, -, htaken⟩ :=
    j.writtenBy.through LimitedSink.takesAll (s := .unlimited) ⟨rfl, rfl⟩
  have hlist : sink.taken = (Text.utf8 j.account.text).toArray := by
    rw [← Array.toList_inj, htaken]
    rfl
  rw [hfailure, hbytes, ← hlist, runInto, hthrough, Account.failure?]
  cases j.account.ending <;> exact ⟨rfl, rfl⟩

/-! ### Steps of the command -/

/-- Where nothing is wrong with the arguments and the file, the result of a run on it is written. -/
theorem runIn_interactionBy (hrun : parse arguments = .run o verbosity)
    (hext : extension? o.file = some "pl0") (hread : t.read o.file = .ok bytes)
    (htext : String.fromUTF8? ⟨bytes⟩ = some text) :
    (interactionBy parse arguments).runIn t = (o.finish text).runIn t := by
  simp only [interactionBy, hrun, Options.start, if_pos hext, Interaction.runIn, hread, htext]

theorem runIn_finish_of_eq (hout : o.output = standardOutput) :
    (o.finish text).runIn t =
      (.ofRun o.file (o.delivery text).failure? (o.delivery text).bytes, t) := by
  obtain ⟨hfailure, hbytes⟩ := (o.job text).runInto_unlimited
  simp only [Options.finish, if_pos hout, Interaction.runIn, hfailure, hbytes]
  rfl

theorem runIn_finish_of_opens (hout : o.output ≠ standardOutput) (hopens : t.Opens o.output p) :
    (o.finish text).runIn t =
      (.ofRun o.file (o.delivery text).failure? #[], t.put p (o.delivery text).bytes) := by
  obtain ⟨hfailure, hbytes⟩ := (o.job text).runInto_unlimited
  rcases hopens.none_or_file with hnone | ⟨old, hfile⟩
  · simp only [Options.finish, if_neg hout, Interaction.runIn, hopens.target_eq, hnone, hfailure,
      hbytes]
    rfl
  · simp only [Options.finish, if_neg hout, Interaction.runIn, hopens.target_eq, hfile, hfailure,
      hbytes]
    rfl

/-- The result of a run is written where the output names a file, or nothing yet. -/
theorem leaves_of_finish (text : String)
    (hout : o.output ≠ standardOutput → ∃ p, t.Opens o.output p) :
    o.Leaves (o.delivery text) t ((o.finish text).runIn t).1 ((o.finish text).runIn t).2 := by
  have hdefect := o.isDefect_of_delivery text
  by_cases hstandard : o.output = standardOutput
  · rw [runIn_finish_of_eq hstandard]
    exact ⟨Response.tells_ofRun hdefect _, fun _ => ⟨Response.output_ofRun _ _ _, rfl⟩,
      fun hne => absurd hstandard hne⟩
  · obtain ⟨p, hopens⟩ := hout hstandard
    have hover : t.Overwrites p (o.delivery text).bytes (t.put p (o.delivery text).bytes) :=
      FileTree.overwrites_put (FileTree.isReached_of_target hopens.target_eq) hopens.none_or_file
    rw [runIn_finish_of_opens hstandard hopens]
    refine ⟨Response.tells_ofRun hdefect _, fun heq => absurd heq hstandard, fun _ => ?_⟩
    exact ⟨Response.output_ofRun _ _ _, hover.read_eq hopens.target_eq, p, hopens.target_eq, hover⟩

/-! ### The result -/

/-- **The command writes what the run on its file writes, and tells how this run has ended.** The
arguments ask for a run on a file with a text in it, as it is before the command, and not to be
verbose about it; if they name an output, there is a file or one can be created there. It may be the
file itself. -/
theorem leaves_of_command (parse : List String → Command) (arguments : List String) (t : FileTree)
    (o : Options) (bytes : Array UInt8) (text : String) (hrun : parse arguments = .run o 0)
    (hext : extension? o.file = some "pl0") (hread : t.read o.file = .ok bytes)
    (htext : String.fromUTF8? ⟨bytes⟩ = some text)
    (hout : o.output ≠ standardOutput → ∃ p, t.Opens o.output p) :
    o.Leaves (o.delivery text) t ((interactionBy parse arguments).runIn t).1
      ((interactionBy parse arguments).runIn t).2 := by
  rw [runIn_interactionBy hrun hext hread htext]
  exact leaves_of_finish text hout

/-- The output replaces the program, which uses a name that is not declared. What had been written
by then is kept. -/
theorem leaves_of_command_onto_itself :
    let arguments := ["a.pl0", "-o", "a.pl0"]
    let text := "begin y := 1 end."
    let bytes := (Text.utf8 text).toArray
    let t : FileTree := .inNewFolder [(["a.pl0"], .file bytes)]
    let o : Options := ⟨"a.pl0", "a.pl0", false⟩
    let f : Located Failure := ⟨1, .static (.undefined "y")⟩
    Command.ofArguments arguments = .run o 0 ∧ extension? o.file = some "pl0" ∧
      t.read o.file = .ok bytes ∧ String.fromUTF8? ⟨bytes⟩ = some text ∧
      (∃ p, t.Opens o.output p) ∧ (o.delivery text).failure? = some f ∧
      ((interaction arguments).runIn t).1.errors = Failure.report o.file f ∧
      ((interaction arguments).runIn t).2.read o.output = .ok (o.delivery text).bytes := by
  intro arguments text bytes t o f
  have hrun : Command.ofArguments arguments = .run o 0 := by rfl
  have hext : extension? o.file = some "pl0" := by decide +kernel
  have hread : t.read o.file = .ok bytes := by decide +kernel
  have htext : String.fromUTF8? ⟨bytes⟩ = some text := by decide +kernel
  have hopens : ∃ p, t.Opens o.output p :=
    ⟨["tmp", "new-folder", "a.pl0"], by decide +kernel, .inr ⟨bytes, by decide +kernel⟩⟩
  have hfailure : (o.delivery text).failure? = some f := by decide +kernel
  have hleaves := leaves_of_command Command.ofArguments arguments t o bytes text hrun hext hread
    htext fun _ => hopens
  have hne : o.output ≠ standardOutput := by decide +kernel
  obtain ⟨-, herrors⟩ := hleaves.tells.of_failed f hfailure
  obtain ⟨-, hafter, -⟩ := hleaves.of_file hne
  exact ⟨hrun, hext, hread, htext, hopens, hfailure, herrors, hafter⟩

end PlZero.CommandLine
