/-
  BlockScript.Proofs.CommandLine.Run

  A run from the command line is all or nothing. Either the whole program text gets to its
  destination and nothing else happens, or no file is created or changed and nothing is on the
  standard output. The text is complete before anything is written, so the only stage that comes
  after it is the delivery. The input has to be one that a text can hold, and comments may not be
  wrapped at NaN.
-/
import BlockScript.CommandLine.Run
import BlockScript.Proofs.CommandLine.Arguments
import BlockScript.Proofs.File.Tree
import BlockScript.Proofs.Generate.Ending
import BlockScript.Proofs.Load.Rejection

namespace BlockScript

open FileTree (access bind_apply)

/-! ## Inputs within bounds -/

/-- Whether the reader of a text meets an escape for half of a character without the other half. -/
def Json.HasLoneHalf (text : String) : Prop :=
  ∃ fault, Json.read text = .error fault ∧ fault.flaw = .loneHalf

example : Json.HasLoneHalf "\"\\ud800\"" :=
  ⟨_, by with_unfolding_all rfl, rfl⟩

/-- What loading fails with is told to the author of the data, or is about the form of the data. -/
theorem Fault.isBeyond_of_settled {fault : Fault} (h : fault.isMalformed = true ∨ fault.isShape = true) :
    fault.isBeyond = false := by
  cases fault with
  | loneHalf | endlessWrap => rcases h with h | h <;> cases h
  | _ => rfl

/-- A workspace is read within bounds if its text has no half of a character alone. -/
theorem Workspace.read_bounds {path : Path} {text : String} (h : ¬ Json.HasLoneHalf text)
    {n n' : Nat} {fault : Fault} (hfault : read path text n = .error fault n') :
    fault.isBeyond = false := by
  rw [read] at hfault
  cases hdata : Json.read text with
  | error flawed =>
    rw [hdata] at hfault
    have hflaw : flawed.flaw ≠ .loneHalf := fun hflaw => h ⟨flawed, hdata, hflaw⟩
    simp only [if_neg hflaw] at hfault
    obtain ⟨rfl, -⟩ := EStateM.Result.error.inj hfault
    rfl
  | ok data =>
    rw [hdata] at hfault
    have hsettles := load_settles data n
    have hload : load data n = .error fault n' := hfault
    rw [hload] at hsettles
    exact Fault.isBeyond_of_settled (hsettles.imp_right And.left)

/-! ## The program text of a job -/

/-- Reading a workspace leaves the file system as it is. -/
theorem Workspace.ofFile_tree (tree : FileTree) (path : Path) :
    (ofFile access path tree).2 = tree := by
  have hthere : access.isThere path tree = (tree.isThere path, tree) := rfl
  have hread : access.read path tree = (tree.read path, tree) := rfl
  rw [ofFile, bind_apply, hthere]
  cases tree.isThere path with
  | error fault => rfl
  | ok there =>
    cases there with
    | false => rfl
    | true =>
      simp only [bind_apply, hread]
      cases tree.read path with
      | error fault => rfl
      | ok text =>
        simp only
        cases Workspace.read path text 1 <;> rfl

/-- A workspace in a file is read within bounds if no text of the file has half of a character
    alone. -/
theorem Workspace.ofFile_bounds {tree : FileTree} {path : Path}
    (h : ∀ text, tree.read path = .ok text → ¬ Json.HasLoneHalf text) :
    Fault.Bounds (ofFile access path tree).1 := by
  have hthere : access.isThere path tree = (tree.isThere path, tree) := rfl
  have hread : access.read path tree = (tree.read path, tree) := rfl
  rw [ofFile, bind_apply, hthere]
  cases tree.isThere path with
  | error fault => exact .throw rfl
  | ok there =>
    cases there with
    | false => exact .throw rfl
    | true =>
      simp only [bind_apply, hread]
      cases htext : tree.read path with
      | error fault => exact .throw rfl
      | ok text =>
        simp only
        cases hworkspace : Workspace.read path text 1 with
        | ok workspace => exact .pure workspace
        | error fault => exact .throw (Workspace.read_bounds (h text htext) hworkspace)

namespace CommandLine

/-- A fault of which nothing can be told breaks the run off. -/
theorem Breakdown.isSome_ofFault? (fault : Fault) : (ofFault? fault).isSome = fault.isBeyond := by
  cases fault <;> rfl

/-- The settings of a job: those of the workspace, with indices from zero if the job says so. -/
def Job.options (job : Job) (options : Options) : Options :=
  if job.zeroBased then { options with oneBasedIndex := .bool false } else options

/-- The program text that a job asks for: that of the workspace in its input file. -/
def Job.programText (job : Job) (tree : FileTree) : Except Fault String := do
  let workspace ← (Workspace.ofFile access job.input tree).1
  workspace.programText (job.options workspace.options)

theorem generate_text (job : Job) (workspace : Workspace) :
    (generate job workspace).map (·.1) = workspace.programText (job.options workspace.options) := by
  rw [generate, Workspace.programText, Job.options]
  generalize (Session.new _).programText workspace = result
  obtain ⟨text, session⟩ := result
  cases text <;> rfl

/-- What a job generates is its program text, with a log. -/
theorem bind_generate (job : Job) (tree : FileTree) :
    ((Workspace.ofFile access job.input tree).1.bind (generate job)).map (·.1) =
      job.programText tree := by
  rw [Job.programText]
  cases (Workspace.ofFile access job.input tree).1 with
  | error fault => rfl
  | ok workspace => exact generate_text job workspace

/-- The program text of a job is within bounds if its input is, and if no comment is wrapped at
    NaN. -/
theorem Job.programText_bounds {job : Job} {tree : FileTree}
    (hwhole : ∀ text, tree.read job.input = .ok text → ¬ Json.HasLoneHalf text)
    (hcolumn : ∀ workspace, (Workspace.ofFile access job.input tree).1 = .ok workspace →
      workspace.options.commentWrap.isNaN = false) : Fault.Bounds (job.programText tree) := by
  have hfile := Workspace.ofFile_bounds hwhole
  rw [programText]
  cases hworkspace : (Workspace.ofFile access job.input tree).1 with
  | error fault => exact .throw (hfile fault hworkspace)
  | ok workspace =>
    have hsame : (job.options workspace.options).commentWrap = workspace.options.commentWrap := by
      rw [Job.options]
      split <;> rfl
    exact workspace.programText_bounds (hsame ▸ hcolumn workspace hworkspace)

/-! ## Delivery -/

/-- A text with a path to go to is written, or the file system refuses it and no file is created or
    changed. -/
theorem deliver_cases {path : Path} (hzero : path.hasZero = false) (text : String)
    (tree : FileTree) :
    (∃ after, deliver access path text tree = (.ok (), after) ∧ tree.WrittenAt path text after) ∨
      ∃ fault after, deliver access path text tree = (.error (.refused fault), after) ∧
        ∀ place, tree.KeptAt after place := by
  have hparent : path.parent.hasZero = false := by
    rw [Path.hasZero, List.any_eq_false] at hzero ⊢
    exact fun name hname => hzero name (List.dropLast_sublist _ |>.subset hname)
  have hkept := tree.makeAll_kept path.parent
  rw [deliver, if_neg (by rw [hparent]; exact Bool.false_ne_true), bind_apply]
  generalize access.makeAll path.parent tree = made at hkept ⊢
  obtain ⟨made, tree'⟩ := made
  cases made with
  | error fault => exact Or.inr ⟨fault, tree', rfl, hkept⟩
  | ok _ =>
    simp only [hzero, Bool.false_eq_true, if_false, bind_apply]
    have hwrite : access.write path text tree' = FileTree.change (·.write path text) tree' := rfl
    rw [hwrite, FileTree.change]
    cases hwritten : tree'.write path text with
    | error fault => exact Or.inr ⟨fault, tree', rfl, hkept⟩
    | ok after =>
      exact Or.inl ⟨after, rfl, (FileTree.write_writtenAt hwritten).of_kept hkept⟩

/-- A text is where it should be and nowhere else: on the standard output, with the file system as it
    was, or in the file at the output path. -/
def PutOut (text : String) (tree : FileTree) (stdout : String) (after : FileTree) :
    Destination → Prop
  | .standard => stdout = text ∧ after = tree
  | .file path => stdout = "" ∧ tree.WrittenAt path text after
  | .nowhere => False

/-! ## Runs -/

/-- How a run of a job ends, and the file system behind it. -/
inductive Job.Ended (job : Job) (tree : FileTree) : Except Breakdown Outcome → FileTree → Prop
  /-- There is no program text. -/
  | failed {fault : Fault} {stderr : String} (htext : job.programText tree = .error fault) :
      job.Ended tree (.ok ⟨1, "", stderr⟩) tree
  /-- There is no program text, and nothing can be told of that. -/
  | beyond {fault : Fault} {breakdown : Breakdown} (htext : job.programText tree = .error fault)
      (hbeyond : fault.isBeyond = true) : job.Ended tree (.error breakdown) tree
  | putOut {text stdout stderr : String} {after : FileTree}
      (htext : job.programText tree = .ok text)
      (hput : PutOut text tree stdout after job.destination) :
      job.Ended tree (.ok ⟨0, stdout, stderr⟩) after
  /-- The file system refuses the output path. -/
  | refused {text stderr : String} {path : Path} {after : FileTree}
      (htext : job.programText tree = .ok text) (hpath : job.destination = .file path)
      (hkept : ∀ place, tree.KeptAt after place) : job.Ended tree (.ok ⟨1, "", stderr⟩) after
  | brokenOff {text : String} (htext : job.programText tree = .ok text)
      (hnowhere : job.destination = .nowhere) : job.Ended tree (.error .noDestination) tree

theorem Job.finish_ended {job : Job} {tree : FileTree} {text : String}
    (houtput : ∀ path, job.destination = .file path → path.hasZero = false)
    (htext : job.programText tree = .ok text) (log : Log) :
    job.Ended tree (job.finish access text log tree).1 (job.finish access text log tree).2 := by
  rw [Job.finish]
  cases hdestination : job.destination with
  | standard =>
    have hput : PutOut text tree text tree job.destination := by
      rw [hdestination]
      exact ⟨rfl, rfl⟩
    exact .putOut htext hput
  | nowhere => exact .brokenOff htext hdestination
  | file path =>
    simp only [bind_apply]
    rcases deliver_cases (houtput path hdestination) text tree with
      ⟨after, hrun, hwritten⟩ | ⟨fault, after, hrun, hkept⟩
    · have hput : PutOut text tree "" after job.destination := by
        rw [hdestination]
        exact ⟨rfl, hwritten⟩
      rw [hrun]
      exact .putOut htext hput
    · rw [hrun]
      exact .refused htext hdestination hkept

/-- Every run of a job ends in one of these ways, if it can be found out whether there is an input,
    and no zero character is in the output path. -/
theorem Job.run_ended {job : Job} (tree : FileTree) (hinput : FileTree.IsOrdinary job.input)
    (houtput : ∀ path, job.destination = .file path → path.hasZero = false) :
    job.Ended tree (job.run access tree).1 (job.run access tree).2 := by
  obtain ⟨there, hthere⟩ := FileTree.isThere_of_isOrdinary hinput tree
  have hisThere : access.isThere job.input tree = (.ok there, tree) := congrArg (·, tree) hthere
  rw [Job.run, bind_apply, hisThere]
  cases there with
  | false =>
    have hfile : (Workspace.ofFile access job.input tree).1 = .error (.noFile job.input) := by
      rw [Workspace.ofFile, bind_apply, hisThere]
      rfl
    have htext : job.programText tree = .error (.noFile job.input) := by
      rw [Job.programText, hfile]
      rfl
    exact .failed htext
  | true =>
    have htext := bind_generate job tree
    simp only [bind_apply, Workspace.ofFile_tree]
    cases hresult : (Workspace.ofFile access job.input tree).1.bind (generate job) with
    | error fault =>
      rw [hresult] at htext
      have hbroken := Breakdown.isSome_ofFault? fault
      cases hfault : Breakdown.ofFault? fault with
      | none =>
        simp only [hfault]
        exact .failed htext.symm
      | some breakdown =>
        rw [hfault] at hbroken
        simp only [hfault]
        exact .beyond htext.symm hbroken.symm
    | ok result =>
      rw [hresult] at htext
      exact Job.finish_ended houtput htext.symm result.2

/-- A file system with an empty workspace in it. -/
def emptyWorkspace : FileTree :=
  { entries := [(["home", "ws.json"], .file "\x7b\x7d"), (["home"], .directory)], working := ["home"] }

end CommandLine

end BlockScript
