import FsmWorkbench.Proofs.Batch.Concord
import FsmWorkbench.Proofs.Batch.Naming
import FsmWorkbench.Proofs.Layout.Rows
import FsmWorkbench.Proofs.Notation.Standing
import FsmWorkbench.Proofs.Validation.Rules
import FsmWorkbench.Proofs.Validation.Subjects

set_option autoImplicit false

namespace FsmWorkbench

open Text

def Unbroken (text : String) : Prop :=
  '\n' ∉ text.toList

instance (text : String) : Decidable (Unbroken text) :=
  inferInstanceAs (Decidable ('\n' ∉ text.toList))

@[simp] theorem unbroken_append {a b : String} : Unbroken (a ++ b) ↔ Unbroken a ∧ Unbroken b := by
  simp [Unbroken]

theorem unbroken_repr (n : Nat) : Unbroken n.repr := by
  rw [Unbroken, Nat.repr_eq_ofList_toDigits, String.toList_ofList]
  intro feed
  exact absurd (Nat.isDigit_of_mem_toDigits (by decide) (by decide) feed) (by decide)

theorem unbroken_go {done : String} {texts : List String} (free : Unbroken done)
    (each : ∀ text ∈ texts, Unbroken text) : Unbroken (alternatives.go done texts) := by
  fun_induction alternatives.go done texts with
  | case1 => exact free
  | case2 done last => simp_all [show Unbroken ", or " by decide]
  | case3 done next more _ ih => simp_all [show Unbroken ", " by decide]

theorem unbroken_alternatives {texts : List String} (each : ∀ text ∈ texts, Unbroken text) :
    Unbroken (alternatives texts) := by
  fun_cases alternatives texts with
  | case1 => decide
  | case2 => simpa using each
  | case3 => simp_all [show Unbroken " or " by decide]
  | case4 a b more =>
    rw [List.forall_mem_cons] at each
    exact unbroken_go each.1 each.2

theorem Expectation.unbroken_text (expectation : Expectation) : Unbroken expectation.text := by
  cases expectation with
  | keyword word => cases word <;> decide
  | _ => decide

theorem ParseError.unbroken_message (error : ParseError) : Unbroken error.message := by
  rw [message, unbroken_append]
  refine ⟨by decide, unbroken_alternatives fun text member => ?_⟩
  obtain ⟨expectation, -, rfl⟩ := List.mem_map.1 member
  exact expectation.unbroken_text

theorem Problem.unbroken_code (problem : Problem) : Unbroken problem.code := by
  cases problem <;> simp [code, Unbroken]

theorem Problem.unbroken_message {problem : Problem}
    (free : ∀ name, problem.name? = some name → Unbroken name) : Unbroken problem.message := by
  cases problem with
  | noInitialState | missingMachine => decide
  | _ name => exact unbroken_append.2 ⟨by decide, free name rfl⟩

theorem Model.unbroken_message {text : String} {model : Model}
    (read : Model.parse text = .ok model) {issue : Issue} (concerns : model.Concerns issue) :
    Unbroken issue.message := by
  refine Problem.unbroken_message fun name told => ?_
  cases concerns with
  | @name _ known same member =>
    obtain rfl := Option.some.inj (same.symm.trans told)
    exact (Model.standsIn_of_parse read member).identifier.newline_not_mem
  | headline | opening => cases told

theorem Finding.unbroken_display {finding : Finding} (path : Unbroken finding.path)
    (code : Unbroken finding.code) (message : Unbroken finding.message) :
    Unbroken finding.display := by
  have number (n : UInt32) : Unbroken (toString n) := unbroken_repr n.toNat
  have severity : Unbroken finding.severity.text := by
    cases finding.severity <;> decide
  have signs : Unbroken ":" ∧ Unbroken " " ∧ Unbroken "[" ∧ Unbroken "] " := by decide
  have text (s : String) : toString s = s := rfl
  simp [display, text, number, path, code, message, severity, signs]

def Passes (text : String) : Prop :=
  ∃ model, Model.parse text = .ok model ∧ model.WellFormed

theorem checkText_eq_nil_iff {path text : String} :
    checkText .standard .core path text = [] ↔ Passes text := by
  rw [checkText, Passes]
  simp only [Parser.standard]
  cases read : Model.parse text with
  | error error => simp
  | ok model => simp [Validator.core, Model.coreIssues_eq_nil_iff]

theorem severity_of_mem_checkText {path text : String} :
    ∀ finding ∈ checkText .standard .core path text, finding.severity = .error := by
  intro finding member
  rw [checkText] at member
  split at member
  · obtain rfl := List.mem_singleton.1 member
    rfl
  · next model _ =>
    obtain ⟨issue, found, rfl⟩ := List.mem_map.1 member
    exact model.severity_of_mem_coreIssues issue found

theorem unbroken_of_mem_checkText {path text : String} (unbroken : Unbroken path) :
    ∀ finding ∈ checkText .standard .core path text, Unbroken finding.display := by
  intro finding member
  rw [checkText] at member
  split at member
  · next error _ =>
    obtain rfl := List.mem_singleton.1 member
    exact Finding.unbroken_display unbroken (show Unbroken syntaxErrorCode by decide)
      error.unbroken_message
  · next model read =>
    obtain ⟨issue, found, rfl⟩ := List.mem_map.1 member
    exact Finding.unbroken_display unbroken issue.problem.unbroken_code
      (Model.unbroken_message read (Model.concerns_coreIssues issue found))

def printed (findings : List Finding) : String :=
  String.join (findings.map fun finding => finding.display ++ "\n")

theorem printed_flatMap (paths : List String) (found : String → List Finding) :
    printed (paths.flatMap found) = String.join (paths.map fun path => printed (found path)) := by
  induction paths with
  | nil => rfl
  | cons path paths ih =>
    rw [List.flatMap_cons, List.map_cons, String.join_cons, ← ih]
    simp [printed]

theorem splitOn_printed {findings : List Finding}
    (free : ∀ finding ∈ findings, Unbroken finding.display) :
    (printed findings).toList.splitOn '\n' =
      findings.map (fun finding => finding.display.toList) ++ [[]] := by
  rw [← splitOn_flatMap (List.forall_mem_map.2 free)]
  simp [printed, List.flatMap_map]

section Reading

variable {read : String → Except ReadError String} {paths : List String}

theorem exists_first_unreadable (missing : ∃ path ∈ paths, ∃ reason, read path = .error reason) :
    ∃ before path after reason, paths = before ++ path :: after ∧
      (∀ earlier ∈ before, ∃ text, read earlier = .ok text) ∧ read path = .error reason := by
  induction paths with
  | nil => simp at missing
  | cons path paths ih =>
    cases here : read path with
    | error reason => exact ⟨[], path, paths, reason, rfl, by simp, here⟩
    | ok text =>
      obtain ⟨later, listed, reason, failed⟩ := missing
      have behind : later ∈ paths := by
        rcases List.mem_cons.1 listed with rfl | behind
        · simp [here] at failed
        · exact behind
      obtain ⟨before, other, after, cause, rfl, readable, stopped⟩ :=
        ih ⟨later, behind, reason, failed⟩
      exact ⟨path :: before, other, after, cause, rfl,
        List.forall_mem_cons.2 ⟨⟨text, here⟩, readable⟩, stopped⟩

theorem checkPaths_eq_error (parser : Parser) (validator : Validator) {before after : List String}
    {path : String} {reason : ReadError}
    (readable : ∀ earlier ∈ before, ∃ text, read earlier = .ok text)
    (failed : read path = .error reason) :
    checkPaths parser validator read (before ++ path :: after) =
      .error (.unreadable path reason) := by
  induction before with
  | nil => rw [List.nil_append, checkPaths, failed]
  | cons earlier before ih =>
    rw [List.forall_mem_cons] at readable
    obtain ⟨⟨text, here⟩, behind⟩ := readable
    rw [List.cons_append, checkPaths, here, ih behind]
    rfl

end Reading

namespace Command

variable {read : String → Except ReadError String}

theorem run_check_of_unreadable {before after : List String} {path : String} {reason : ReadError}
    (readable : ∀ earlier ∈ before, ∃ text, read earlier = .ok text)
    (failed : read path = .error reason) :
    (check (before ++ path :: after)).run read =
      .failureBecause s!"failed to read {path}" reason.message := by
  obtain ⟨container, alone, runs⟩ := exists_standalone_eq_ok
  rw [run, alone]
  simp only [runCheck, checkFiles_eq_checkPaths runs runtime_equipped,
    checkPaths_eq_error _ _ readable failed]

variable {paths : List String} {text : String → String}

theorem run_check_of_readable (readable : ∀ path ∈ paths, read path = .ok (text path)) :
    let findings := paths.flatMap fun path => checkText .standard .core path (text path)
    (check paths).run read =
      if findings = [] then .success ""
      else .failure (printed findings)
        s!"{findings.length} error(s) in {paths.length} file(s)" := by
  intro findings
  obtain ⟨container, alone, runs⟩ := exists_standalone_eq_ok
  have checked : checkPaths .standard .core read paths = .ok ⟨paths.length, findings⟩ :=
    checkPaths_eq_ok _ _ readable
  have counted : Report.errors ⟨paths.length, findings⟩ = findings.length := by
    refine List.countP_eq_length.2 fun finding member => ?_
    obtain ⟨path, -, found⟩ := List.mem_flatMap.1 member
    simp [severity_of_mem_checkText finding found]
  rw [run, alone]
  simp only [runCheck, checkFiles_eq_checkPaths runs runtime_equipped, checked, counted,
    List.length_eq_zero_iff]
  split
  · next none => simp [none, String.join]
  · rfl

theorem stdout_check_alone {path text : String} (nameable : path ≠ "")
    (readable : read path = .ok text) :
    (runArguments read ["check", "--", path]).stdout =
      printed (checkText .standard .core path text) := by
  have given : read? ["check", "--", path] = some (.check [path]) := by
    rw [read?_check (List.cons_ne_nil _ _) (.dashes [path]), if_neg (by simp [nameable.symm])]
  have all : ∀ other ∈ [path], read other = .ok ((fun _ => text) other) := by simpa using readable
  rw [runArguments, given]
  simp only [run_check_of_readable all, List.flatMap_singleton]
  split
  · next none => simp [none, Outcome.success, printed, String.join]
  · rfl

end Command

def Outcome.StopsAtFirst (read : String → Except ReadError String) (paths : List String)
    (outcome : Outcome) : Prop :=
  ∃ before path after reason, paths = before ++ path :: after ∧
    (∀ earlier ∈ before, ∃ text, read earlier = .ok text) ∧ read path = .error reason ∧
      outcome =
        ⟨1, "", s!"Error: failed to read {path}\n\nCaused by:\n    {reason.message}\n"⟩

theorem exiting_exact (read : String → Except ReadError String) {paths args : List String}
    (nonempty : paths ≠ []) (unbroken : ∀ path ∈ paths, Unbroken path)
    (listed : Arguments.Positional false args paths) :
    let outcome := runArguments read ("check" :: args)
    ("" ∈ paths → outcome = .usage) ∧
      ("" ∉ paths →
        ((∃ path ∈ paths, ∃ reason, read path = .error reason) →
          outcome.StopsAtFirst read paths) ∧
        ∀ text : String → String, (∀ path ∈ paths, read path = .ok (text path)) →
          let findings := paths.flatMap fun path => checkText .standard .core path (text path)
          (outcome.exit = 0 ↔ ∀ path ∈ paths, Passes (text path)) ∧
          (outcome.exit = 0 → outcome = ⟨0, "", ""⟩) ∧
          (outcome.exit ≠ 0 → outcome.exit = 1 ∧
            outcome.stdout.toList.splitOn '\n' =
              findings.map (fun finding => finding.display.toList) ++ [[]] ∧
            outcome.stdout =
              .join (paths.map fun path => (runArguments read ["check", "--", path]).stdout) ∧
            outcome.stderr =
              s!"Error: {findings.length} error(s) in {paths.length} file(s)\n")) := by
  intro outcome
  have given := Command.read?_check nonempty listed
  refine ⟨fun refused => ?_, fun named => ?_⟩
  · rw [if_pos refused] at given
    simp only [outcome, runArguments, given]
  rw [if_neg named] at given
  constructor
  · intro missing
    obtain ⟨before, path, after, reason, rfl, readable, failed⟩ := exists_first_unreadable missing
    refine ⟨before, path, after, reason, rfl, readable, failed, ?_⟩
    simp only [outcome, runArguments, given]
    exact Command.run_check_of_unreadable readable failed
  · intro text readable findings
    have passing : findings = [] ↔ ∀ path ∈ paths, Passes (text path) := by
      simp only [findings, List.flatMap_eq_nil_iff, checkText_eq_nil_iff]
    have free : ∀ finding ∈ findings, Unbroken finding.display := by
      intro finding member
      obtain ⟨path, listed, found⟩ := List.mem_flatMap.1 member
      exact unbroken_of_mem_checkText (unbroken path listed) finding found
    have joined : printed findings =
        .join (paths.map fun path => (runArguments read ["check", "--", path]).stdout) := by
      rw [printed_flatMap]
      refine congrArg String.join (List.map_congr_left fun path listed => ?_)
      have nameable : path ≠ "" := fun empty => named (empty ▸ listed)
      exact (Command.stdout_check_alone nameable (readable path listed)).symm
    rw [← passing, ← joined]
    simp only [outcome, runArguments, given, Command.run_check_of_readable readable]
    by_cases none : findings = []
    · rw [if_pos none]
      exact ⟨⟨fun _ => none, fun _ => rfl⟩, fun _ => rfl, fun failed => absurd rfl failed⟩
    · rw [if_neg none]
      refine ⟨⟨nofun, fun empty => absurd empty none⟩, nofun,
        fun _ => ⟨rfl, splitOn_printed free, rfl, ?_⟩⟩
      simp only [Outcome.failure, String.append_assoc]
      rfl

theorem exiting_exact_two_lines :
    let read (path : String) : Except ReadError String :=
      .ok (if path = "b" then "state" else "state A")
    let outcome := runArguments read ["check", "b", "--log-level", "off", "--", "a"]
    outcome.exit = 1 ∧ outcome.stderr = "Error: 2 error(s) in 2 file(s)\n" ∧
      outcome.stdout.toList.splitOn '\n' =
        ["b:1:6 error[E000] expected a name".toList,
          "a:1:7 error[E004] No initial state declared".toList, []] := by
  intro read outcome
  have listed : Arguments.Positional false ["b", "--log-level", "off", "--", "a"] ["b", "a"] :=
    .path (by decide) (.level (by decide) (.dashes ["a"]))
  obtain ⟨-, told⟩ := (exiting_exact read (by decide) (by decide) listed).2 (by decide)
  obtain ⟨succeeds, -, fails⟩ := told (fun path => if path = "b" then "state" else "state A")
    fun _ _ => rfl
  have stuck : ¬ Passes "state" := mt checkText_eq_nil_iff.2 <|
    show checkText .standard .core "b" "state" ≠ [] by decide +kernel
  have failed : outcome.exit ≠ 0 := fun zero => stuck (succeeds.1 zero "b" (by decide))
  obtain ⟨exit, lines, -, stderr⟩ := fails failed
  exact ⟨exit, stderr.trans (by decide +kernel), lines.trans (by decide +kernel)⟩

-- No file has an empty path, and the run does not even try to read one.
theorem exiting_refuses_empty_path :
    let read (_ : String) : Except ReadError String := .error .notFound
    let outcome := runArguments read ["check", "--", ""]
    Arguments.Positional false ["--", ""] [""] ∧ (∀ path ∈ [""], Unbroken path) ∧
      (∃ path ∈ [""], ∃ reason, read path = .error reason) ∧
      outcome.exit = 2 ∧ ¬ outcome.StopsAtFirst read [""] := by
  intro read outcome
  refine ⟨.dashes [""], by decide, ⟨"", by decide, .notFound, rfl⟩, by decide, ?_⟩
  rintro ⟨before, path, after, reason, -, -, -, stopped⟩
  have refused : outcome.exit = 2 := by decide
  rw [stopped] at refused
  cases refused

end FsmWorkbench
