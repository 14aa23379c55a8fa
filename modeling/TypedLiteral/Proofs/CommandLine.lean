import TypedLiteral.CommandLine
import TypedLiteral.Proofs.Reported

/-!
A run of the command line is a row of independent readings. An element is always found
as a constant or as a diagnostic, so an argument that is refused is never refused in
silence, and the exit code says whether anything was written to the standard error.
-/
namespace TypedLiteral

theorem Initializer.reported_single (tiers : TierTable) (tokens : List Token) :
    ∃ place, Reported (single tiers tokens) place :=
  ⟨_, reported_append.mpr (.inl (reported_element.mpr rfl))⟩

theorem faults_of_reported {findings : List (Finding Span)} {span : Span}
    {faults : List (Span × Cause)} (reported : Reported findings span)
    (refused : constantOf findings = .error faults) : faults ≠ [] := by
  rintro rfl
  unfold constantOf at refused
  split at refused
  · cases refused
  · next silent absent =>
      have silent := Except.error.inj refused
      rcases reported with ⟨value, member⟩ | ⟨cause, member⟩
      · cases found : constants findings with
        | nil =>
            rw [found] at member
            cases member
        | cons first rest => exact absent first rest silent found
      · rw [silent] at member
        cases member

/-- A source that is not one constant has a diagnostic. -/
theorem refused_faults {tiers : TierTable} {source : String} {faults : List (Span × Cause)}
    (refused : constantOf (readConstant tiers source) = .error faults) : faults ≠ [] := by
  obtain ⟨place, reported⟩ := Initializer.reported_single tiers
    ((significant (tokenize source)).map Lexeme.token)
  exact faults_of_reported (reported_move.mpr ⟨place, reported, rfl⟩) refused

namespace CommandLine

def Rejected (argument : String) : Prop :=
  ∃ faults, constantOf (readConstant .standard argument) = .error faults

def outputLines (argument : String) : List String :=
  match constantOf (readConstant .standard argument) with
  | .ok (_, constant) => [constant.render ++ "\n"]
  | .error _ => []

/-- What one argument adds to the standard error: itself, what is wrong and where. -/
def errorLines (argument : String) : List String :=
  match constantOf (readConstant .standard argument) with
  | .ok _ => []
  | .error faults => faults.map fun (span, cause) =>
      argument ++ ": " ++ cause.message ++ " at " ++ toString span.start ++ ".." ++
        toString span.stop ++ "\n"

theorem outcome_output (argument : String) :
    (outcome argument).output = String.join (outputLines argument) := by
  cases read : constantOf (readConstant .standard argument) <;>
    simp [outcome, outputLines, line, read]

theorem outcome_errors (argument : String) :
    (outcome argument).errors = String.join (errorLines argument) := by
  cases read : constantOf (readConstant .standard argument) with
  | ok found => simp [outcome, errorLines, read]
  | error faults =>
      simp only [outcome, errorLines, read]
      rfl

theorem errorLines_ne_nil (argument : String) : errorLines argument ≠ [] ↔ Rejected argument := by
  unfold errorLines Rejected
  split
  · next accepted => simp [accepted]
  · next faults refused => simp [refused, refused_faults refused]

instance (argument : String) : Decidable (Rejected argument) :=
  decidable_of_iff _ (errorLines_ne_nil argument)

theorem errorLines_written {argument text : String} (member : text ∈ errorLines argument) :
    text ≠ "" := by
  unfold errorLines at member
  split at member
  · cases member
  · obtain ⟨fault, -, rfl⟩ := List.mem_map.mp member
    simp

theorem outcome_exitCode (argument : String) :
    (outcome argument).exitCode = if Rejected argument then 1 else 0 := by
  cases read : constantOf (readConstant .standard argument) <;> simp [outcome, Rejected, read]

theorem join_empty (lines : List String) :
    String.join lines = "" ↔ ∀ text ∈ lines, text = "" := by
  induction lines with
  | nil => simp
  | cons first rest ih => simp [ih]

theorem outcomes_stream {stream : Outcome → String} {lines : String → List String}
    (silent : stream ⟨0, "", ""⟩ = "")
    (continued : ∀ first second, stream (first.append second) = stream first ++ stream second)
    (single : ∀ argument, stream (outcome argument) = String.join (lines argument))
    (arguments : List String) :
    stream (outcomes arguments) = String.join (arguments.flatMap lines) := by
  induction arguments with
  | nil => exact silent
  | cons argument rest ih =>
      rw [outcomes, continued, single, ih, List.flatMap_cons, String.join_append]

theorem outcomes_output (arguments : List String) :
    (outcomes arguments).output = String.join (arguments.flatMap outputLines) :=
  outcomes_stream rfl (fun _ _ => rfl) outcome_output arguments

theorem outcomes_errors (arguments : List String) :
    (outcomes arguments).errors = String.join (arguments.flatMap errorLines) :=
  outcomes_stream rfl (fun _ _ => rfl) outcome_errors arguments

theorem outcomes_exitCode (arguments : List String) :
    (outcomes arguments).exitCode = if ∃ argument ∈ arguments, Rejected argument then 1 else 0 := by
  induction arguments with
  | nil => simp [outcomes]
  | cons argument rest ih =>
      have exitCode : (outcomes (argument :: rest)).exitCode =
          max (outcome argument).exitCode (outcomes rest).exitCode := rfl
      rw [exitCode, outcome_exitCode, ih]
      by_cases first : Rejected argument <;> by_cases later : ∃ other ∈ rest, Rejected other <;>
        simp [first, later]

/-- The standard error stays empty exactly when every argument is a constant: no line of
it is empty, and a refused argument has one. -/
theorem outcomes_silent (arguments : List String) :
    (outcomes arguments).errors = "" ↔ ¬ ∃ argument ∈ arguments, Rejected argument := by
  rw [outcomes_errors, join_empty]
  constructor
  · rintro silent ⟨argument, member, rejected⟩
    obtain ⟨text, written⟩ :=
      List.exists_mem_of_ne_nil _ ((errorLines_ne_nil argument).mpr rejected)
    exact errorLines_written written
      (silent text (List.mem_flatMap.mpr ⟨argument, member, written⟩))
  · intro accepted text written
    obtain ⟨argument, member, written⟩ := List.mem_flatMap.mp written
    exact absurd ⟨argument, member, (errorLines_ne_nil argument).mp (List.ne_nil_of_mem written)⟩
      accepted

theorem outcomes_append (first second : List String) :
    outcomes (first ++ second) = (outcomes first).append (outcomes second) := by
  induction first with
  | nil => simp [outcomes, Outcome.append]
  | cons argument rest ih =>
      rw [List.cons_append, outcomes, outcomes, ih]
      simp [Outcome.append, Nat.max_assoc, String.append_assoc]

theorem run_of_ne_nil {arguments : List String} (given : arguments ≠ []) :
    run arguments = outcomes arguments := by
  cases arguments with
  | nil => exact absurd rfl given
  | cons argument rest => rfl

/-- Each argument is read by itself, the exit code says whether one of them was refused,
which is whether the standard error has text, and a run continued with more arguments
writes what the two runs write. -/
theorem run_each_argument (arguments : List String) (given : arguments ≠ []) :
    (run arguments).output = String.join (arguments.flatMap outputLines) ∧
    (run arguments).errors = String.join (arguments.flatMap errorLines) ∧
    (∀ argument ∈ arguments, Rejected argument → errorLines argument ≠ []) ∧
    ((run arguments).exitCode = 1 ↔ ∃ argument ∈ arguments, Rejected argument) ∧
    ((run arguments).exitCode = 1 ↔ (run arguments).errors ≠ "") ∧
    ((run arguments).exitCode ≠ 1 → (run arguments).exitCode = 0) ∧
    ∀ more : List String, more ≠ [] →
      (run (arguments ++ more)).output = (run arguments).output ++ (run more).output ∧
      (run (arguments ++ more)).errors = (run arguments).errors ++ (run more).errors ∧
      (run (arguments ++ more)).exitCode = max (run arguments).exitCode (run more).exitCode := by
  rw [run_of_ne_nil given]
  have exits := outcomes_exitCode arguments
  have refused : (outcomes arguments).exitCode = 1 ↔
      ∃ argument ∈ arguments, Rejected argument := by
    simp [exits]
  refine ⟨outcomes_output arguments, outcomes_errors arguments,
    fun argument _ => (errorLines_ne_nil argument).mpr, refused, ?written, ?otherwise, ?continued⟩
  case written =>
    rw [refused, Ne, outcomes_silent, Classical.not_not]
  case otherwise =>
    intro accepted
    rw [exits, if_neg (mt refused.mpr accepted)]
  case continued =>
    intro more given'
    rw [run_of_ne_nil given', run_of_ne_nil (List.append_ne_nil_of_left_ne_nil given more),
      outcomes_append]
    exact ⟨rfl, rfl, rfl⟩

/-- A constant, and behind it a number that a letter ends. -/
theorem run_accepted_then_refused :
    (run ["-0x80", "1x"]).exitCode = 1 ∧
    (run ["-0x80", "1x"]).output = (run ["-0x80"]).output ++ (run ["1x"]).output := by
  have both := run_each_argument ["-0x80", "1x"] (by decide)
  have first := run_each_argument ["-0x80"] (by decide)
  have refused : Rejected "1x" := by decide +kernel
  exact ⟨both.2.2.2.1.mpr ⟨"1x", by decide, refused⟩,
    (first.2.2.2.2.2.2 ["1x"] (by decide)).1⟩

example : run ["-0x80", "1x"] =
    ⟨1, "(i8 -128)\n", "1x: unexpected token: N_ERROR at 1..2\n"⟩ := by decide +kernel

end CommandLine

end TypedLiteral
