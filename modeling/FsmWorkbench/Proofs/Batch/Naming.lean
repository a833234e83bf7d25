import FsmWorkbench.Batch.CommandLine
import Mathlib.Data.List.Basic

set_option autoImplicit false

namespace FsmWorkbench

namespace Arguments

variable {command : FileCommand} {given next : Arguments}

theorem isOption_of_isPrefixOf {front arg : String} (option : isOption front = true)
    (same : front.toList.isPrefixOf arg.toList = true) : isOption arg = true := by
  obtain ⟨rest, split⟩ := List.isPrefixOf_iff_prefix.1 same
  simp only [isOption, Bool.and_eq_true, beq_iff_eq, bne_iff_ne] at option ⊢
  obtain ⟨dash, longer⟩ := option
  obtain ⟨more, spelled⟩ := List.head?_eq_some_iff.1 dash
  rw [← split, spelled]
  refine ⟨rfl, ?_⟩
  rintro rfl
  rw [spelled, List.cons_append] at split
  obtain ⟨rfl, -⟩ := List.append_eq_nil_iff.1 (List.cons.inj split).2
  exact longer (String.toList_injective spelled)

-- Each form that means something else starts like an option.
theorem read?_value {arg : String} {rest : List String} (plain : isOption arg = false) :
    read? command given (arg :: rest) =
      (given.withValue? command arg).bind fun next => read? command next rest := by
  have other {text : String} (option : isOption text = true) : arg ≠ text := by
    rintro rfl
    exact absurd option (by simp [plain])
  have behind {front : String} (option : isOption front = true) :
      front.toList.isPrefixOf arg.toList = false :=
    Bool.eq_false_iff.2 fun same => absurd (isOption_of_isPrefixOf option same) (by simp [plain])
  have help : isHelp arg = false := by
    rw [isHelp, beq_false_of_ne (other (by decide)), behind (by decide), Bool.or_false]
  have level : setsLogLevel arg = false := behind (by decide)
  rw [read?]
  · simp [help, level, plain, other (show isOption "--compact" = true by decide)]
  · exact other (by decide)
  · exact fun _ _ same => absurd same (other (by decide))

theorem read?_setting {arg : String} {rest : List String} (sets : setsLogLevel arg = true) :
    read? command given (arg :: rest) =
      given.withLogLevel?.bind fun next => read? command next rest := by
  obtain ⟨value, spelled⟩ := List.isPrefixOf_iff_prefix.1 sets
  have other {text : String} (shorter : text.toList.length < "--log-level=".length) :
      arg ≠ text := by
    rintro rfl
    have := congrArg List.length spelled
    rw [List.length_append, String.length_toList] at this
    omega
  have help : isHelp arg = false := by
    rw [isHelp, beq_false_of_ne (other (by decide)), ← spelled]
    rfl
  rw [read?]
  · simp [help, sets]
  · exact other (by decide)
  · exact fun _ _ same => absurd same (other (by decide))

theorem foldlM_withValue?_check (given : Arguments) (paths : List String) :
    paths.foldlM (withValue? .check) given =
      if "" ∈ paths then none else some { given with values := given.values ++ paths } := by
  induction paths generalizing given with
  | nil => simp
  | cons path paths ih =>
    rw [List.foldlM_cons]
    by_cases empty : path = ""
    · simp [withValue?, empty]
    · simp [withValue?, empty, ih, Ne.symm empty]

-- What arguments of `check` give by their places: all that is no option, and all behind `--`. The
-- log level may be given between them, unless it was given already.
inductive Positional : Bool → List String → List String → Prop
  | nil {leveled : Bool} : Positional leveled [] []
  | dashes {leveled : Bool} (paths : List String) : Positional leveled ("--" :: paths) paths
  | path {leveled : Bool} {path : String} {args paths : List String}
    (plain : isOption path = false) (rest : Positional leveled args paths) :
      Positional leveled (path :: args) (path :: paths)
  | level {value : String} {args paths : List String}
    (plain : isOption value = false) (rest : Positional true args paths) :
      Positional false ("--log-level" :: value :: args) paths
  | setting {arg : String} {args paths : List String}
    (sets : setsLogLevel arg = true) (rest : Positional true args paths) :
      Positional false (arg :: args) paths

theorem Positional.read?_eq {leveled : Bool} {args paths : List String}
    (listed : Positional leveled args paths) (given : Arguments) (same : given.logLevel = leveled) :
    ∃ later, read? .check given args =
      if "" ∈ paths then none
      else some { given with logLevel := later, values := given.values ++ paths } := by
  induction listed generalizing given with
  | nil => exact ⟨given.logLevel, by simp [read?]⟩
  | dashes paths => exact ⟨given.logLevel, by rw [read?, foldlM_withValue?_check]⟩
  | @path leveled path args paths plain rest ih =>
    rw [read?_value plain, withValue?]
    by_cases empty : path = ""
    · exact ⟨leveled, by simp [empty]⟩
    · obtain ⟨later, read⟩ := ih { given with values := given.values ++ [path] } same
      exact ⟨later, by simp [empty, read, Ne.symm empty]⟩
  | level plain rest ih =>
    obtain ⟨later, read⟩ := ih { given with logLevel := true } rfl
    exact ⟨later, by simp [read?, plain, withLogLevel?, same, read]⟩
  | setting sets rest ih =>
    obtain ⟨later, read⟩ := ih { given with logLevel := true } rfl
    exact ⟨later, by simp [read?_setting sets, withLogLevel?, same, read]⟩

end Arguments

namespace Command

theorem read?_check {args paths : List String} (nonempty : paths ≠ [])
    (listed : Arguments.Positional false args paths) :
    read? ("check" :: args) = if "" ∈ paths then none else some (.check paths) := by
  obtain ⟨later, read⟩ := listed.read?_eq .start rfl
  rw [Command.read?, readFrom?, read]
  split
  · rfl
  · cases paths with
    | nil => contradiction
    | cons => rfl

end Command

end FsmWorkbench
