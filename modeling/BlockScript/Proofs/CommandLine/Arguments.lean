/-
  BlockScript.Proofs.CommandLine.Arguments

  What a job has from the words of its command line: a switch is on if some word turns it on, and the
  text goes where the last value of the output option says.
-/
import BlockScript.CommandLine.Arguments

namespace BlockScript.CommandLine

/-- Whether a word turns a switch on. -/
def Word.turnsOn (s : Switch) : Word → Bool
  | .options switches _ => switches.contains s
  | _ => false

/-- The value that words give to the output option, the last one if there are several. -/
def lastOutput? : List Word → Option String
  | [] => none
  | .options _ (.output value) :: rest => (lastOutput? rest).or (some value)
  | .options _ .outputNext :: .argument text :: rest => (lastOutput? rest).or (some text)
  | _ :: rest => lastOutput? rest

/-- A job has from words, behind those that were read, its switches and its destination. -/
structure Job.Follows (job : Job) (r : Reading) (words : List Word) : Prop where
  zeroBased : job.zeroBased = (r.zeroBased || words.any (·.turnsOn .zeroBased))
  verbose : job.verbose = (r.verbose || words.any (·.turnsOn .verbose))
  destination : job.destination = ((lastOutput? words).map Destination.ofText).getD r.destination

namespace Job.Follows

variable {job : Job} {r : Reading} {switches : List Switch} {rest : List Word}

/-- Options without a value for the output. -/
theorem options {ending : Ending} (h : job.Follows (r.turnOn switches) rest)
    (hending : lastOutput? (.options switches ending :: rest) = lastOutput? rest) :
    job.Follows r (.options switches ending :: rest) where
  zeroBased := by
    rw [h.zeroBased, List.any_cons]
    exact Bool.or_assoc ..
  verbose := by
    rw [h.verbose, List.any_cons]
    exact Bool.or_assoc ..
  destination := by
    rw [h.destination, hending]
    rfl

/-- Options with a value for the output, in one word or in two. -/
theorem output {value : String} {words : List Word}
    (h : job.Follows ((r.turnOn switches).withOutput value) rest)
    (hany : ∀ s, words.any (·.turnsOn s) = (switches.contains s || rest.any (·.turnsOn s)))
    (hending : lastOutput? words = (lastOutput? rest).or (some value)) :
    job.Follows r words where
  zeroBased := by
    rw [h.zeroBased, hany]
    exact Bool.or_assoc ..
  verbose := by
    rw [h.verbose, hany]
    exact Bool.or_assoc ..
  destination := by
    rw [h.destination, hending]
    cases lastOutput? rest <;> rfl

end Job.Follows

/-- A job has its switches and its destination from the words that ask for it. -/
theorem Reading.readWords_follows {r : Reading} {words : List Word} {job : Job}
    (h : r.readWords words = .generate job) : job.Follows r words := by
  fun_induction readWords r words with
  | case1 r =>
    rw [request] at h
    split at h
    · split at h
      · cases h
      · obtain rfl := Request.generate.inj h
        exact ⟨(Bool.or_false _).symm, (Bool.or_false _).symm, rfl⟩
    · cases h
  | case2 _ _ _ _ ih | case3 _ _ _ _ ih | case4 _ _ _ _ _ ih | case5 _ _ _ _ _ ih
  | case6 _ _ _ _ ih | case7 _ _ _ _ ih | case8 _ _ _ ih | case16 _ _ ih =>
    -- Words that are no options.
    exact ⟨(ih h).zeroBased, (ih h).verbose, (ih h).destination⟩
  | case9 | case11 | case12 | case13 | case17 => cases h
  | case10 r switches text rest _ ih => exact (ih h).output (fun _ => rfl) rfl
  | case14 r switches rest _ _ value _ _ _ ih => exact (ih h).output (fun _ => rfl) rfl
  | case15 r switches ending rest _ hnext hrefused _ _ hvalue ih =>
    cases ending with
    | nothing => exact (ih h).options rfl
    | output value => exact (hvalue value rfl).elim
    | outputNext => exact (hnext rfl).elim
    | refused => exact (hrefused rfl).elim

/-- The job that a command line asks for counts indices from zero if some word says so, and writes
    where the last value of the output option says, or to the standard output. -/
theorem Request.ofArguments_follows {arguments : List String} {job : Job}
    (h : ofArguments arguments = .generate job) :
    job.zeroBased = (words arguments).any (·.turnsOn .zeroBased) ∧
      job.destination = ((lastOutput? (words arguments)).map Destination.ofText).getD .standard := by
  rw [ofArguments] at h
  split at h
  · cases h
  · have hfollows := Reading.readWords_follows h
    exact ⟨hfollows.zeroBased, hfollows.destination⟩

end BlockScript.CommandLine
