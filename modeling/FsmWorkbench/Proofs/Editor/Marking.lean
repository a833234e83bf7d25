import FsmWorkbench.Proofs.Editor.Publishing
import FsmWorkbench.Proofs.Notation.Standing
import FsmWorkbench.Proofs.Text.Resolving
import FsmWorkbench.Proofs.Validation.Subjects

set_option autoImplicit false

namespace FsmWorkbench

open Text

def nameIn (message : String) : List Char :=
  (message.toList.dropWhile (· != ':')).drop 2

theorem nameIn_append {opening : String}
    (colon : opening.toList.dropWhile (· != ':') = [':', ' ']) (name : String) :
    nameIn (opening ++ name) = name.toList := by
  rw [nameIn, String.toList_append, List.dropWhile_append, colon]
  rfl

theorem nameIn_message {problem : Problem} {name : String} (told : problem.name? = some name) :
    nameIn problem.message = name.toList := by
  cases problem <;> cases told <;> exact nameIn_append (by decide) name

def namingCodes : List String :=
  ["E001", "E002", "E003", "E005", "W001"]

theorem code_mem_namingCodes {problem : Problem} {name : String}
    (told : problem.name? = some name) : problem.code ∈ namingCodes := by
  cases problem <;> cases told <;> simp [Problem.code, namingCodes]

theorem frames_extentOf {cs : List Char} {name : Name} (stands : name.StandsIn 0 cs) :
    Frames cs (extentOf cs name.span) name.text.toList := by
  obtain ⟨identifier, front, rest, rfl, span⟩ := stands
  rw [extentOf_ofText, span]
  simp only [Nat.zero_add]
  exact frames_part front rest identifier.newline_not_mem

namespace Diagnostic

-- What a diagnostic on a text that is read marks: the name that its message tells, the name of what
-- lacks an initial state, or nothing at the start of the text.
inductive Fits (marks : Extent → List Char → Prop) (model : Model) (diagnostic : Diagnostic) :
    Prop where
  | name (code : diagnostic.code ∈ namingCodes)
      (marked : marks diagnostic.extent (nameIn diagnostic.message))
  | machine {machine : MachineDecl} (code : diagnostic.code = "E004")
      (named : model.machine = some machine)
      (marked : marks diagnostic.extent machine.name.text.toList)
  | state {state : StateDecl} (code : diagnostic.code = "E004") (unnamed : model.machine = none)
      (first : model.states.head? = some state)
      (marked : marks diagnostic.extent state.name.text.toList)
  | opening (code : diagnostic.code = "W002") (extent : diagnostic.extent = ⟨⟨0, 0⟩, ⟨0, 0⟩⟩)

theorem Fits.mono {marks marks' : Extent → List Char → Prop} {model : Model}
    {diagnostic : Diagnostic} (fits : diagnostic.Fits marks model)
    (each : ∀ extent part, marks extent part → marks' extent part) :
    diagnostic.Fits marks' model := by
  cases fits with
  | name code marked => exact .name code (each _ _ marked)
  | machine code named marked => exact .machine code named (each _ _ marked)
  | state code unnamed first marked => exact .state code unnamed first (each _ _ marked)
  | opening code extent => exact .opening code extent

theorem fits_ofIssue {text : String} {model : Model} (read : Model.parse text = .ok model)
    {issue : Issue} (concerns : model.Concerns issue) :
    (ofIssue text.toList issue).Fits (Frames text.toList) model := by
  have frames {name : Name} (member : name ∈ model.names.map Occurrence.name) :=
    frames_extentOf (Model.standsIn_of_parse read member)
  cases concerns with
  | name told member =>
    have message := nameIn_message told
    refine .name (code_mem_namingCodes told) ?_
    simp only [ofIssue, Issue.message, message]
    exact frames member
  | @headline name found =>
    have marked := frames (Model.name_mem_of_headline found)
    cases named : model.machine with
    | none =>
      simp only [Model.headline?, named] at found
      obtain ⟨state, first, rfl⟩ := Option.map_eq_some_iff.1 found
      exact .state rfl named first marked
    | some machine =>
      simp only [Model.headline?, named, Option.some.injEq] at found
      subst found
      exact .machine rfl named marked
  | opening => exact .opening rfl (by simp [ofIssue, extentOf])

end Diagnostic

theorem marking_exact :
    ∃ session, Session.start = .ok session ∧
      ∀ (digest : String → Digest) (history : List Request) (request : Request)
        (publication : Publication) (document : Document) (model : Model),
        ((session.hashing digest).run history).2.Publishes request publication document →
          Model.parse document.text = .ok model →
            ∀ diagnostic ∈ publication.diagnostics,
              diagnostic.Fits (Frames document.text.toList) model ∧
                (size document.text.toList < UInt32.size →
                  diagnostic.Fits (Marks document.text.toList) model) := by
  obtain ⟨session, started, -, fresh⟩ := Session.exists_fresh
  refine ⟨session, started, fun digest history request publication document model publishes => ?_⟩
  have made := Session.made_of_opened (fresh digest).documents publishes.opened
  rw [publishes.diagnostics, (fresh digest).diagnosticsOf_run history made]
  intro read diagnostic member
  rw [diagnosticsIn, read] at member
  obtain ⟨issue, kept, rfl⟩ := List.mem_map.1 member
  have fits := Diagnostic.fits_ofIssue read
    (Model.concerns_editorIssues issue (List.mem_filter.1 kept).1)
  exact ⟨fits, fun small => fits.mono fun _ _ frames => frames.marks small⟩

theorem marking_exact_second_state :
    let text := "machine M //é\nstate A initial state A"
    ∃ session publication document, Session.start = .ok session ∧
      (session.hashing Digest.mk).Publishes (.didOpen "a" 1 text) publication document ∧
      ∃ diagnostic ∈ publication.diagnostics, diagnostic.code = "E002" ∧
        diagnostic.extent = ⟨⟨1, 22⟩, ⟨1, 23⟩⟩ ∧ Marks text.toList diagnostic.extent ['A'] := by
  intro text
  obtain ⟨session, started, fits⟩ := marking_exact
  have fresh := Session.fresh_of_start started Digest.mk
  obtain ⟨publication, document, publishes, -, same⟩ :=
    (session.hashing Digest.mk).exists_publishes_didOpen "a" 1 text
  let repeated : Diagnostic := ⟨⟨⟨1, 22⟩, ⟨1, 23⟩⟩, .error, "E002", "Duplicate state: A"⟩
  let model : Model := ⟨some ⟨⟨"M", ⟨8, 9⟩⟩, ⟨0, 9⟩⟩,
    [⟨⟨"A", ⟨21, 22⟩⟩, true, ⟨15, 30⟩⟩, ⟨⟨"A", ⟨37, 38⟩⟩, false, ⟨31, 38⟩⟩], []⟩
  have read : Model.parse document.text = .ok model := by
    rw [same]
    decide +kernel
  have shown : publication.diagnostics = [repeated] := by
    have made := @Session.made_of_opened _ fresh.documents [] _ _ _ publishes.opened
    rw [publishes.diagnostics]
    refine (fresh.diagnosticsOf_run [] made).trans ?_
    rw [same]
    decide +kernel
  have member : repeated ∈ publication.diagnostics := by simp [shown]
  refine ⟨session, publication, document, started, publishes, repeated, member, rfl, rfl, ?_⟩
  have marked := (fits Digest.mk [] _ _ _ model publishes read repeated member).2
  rw [same] at marked
  cases marked (by decide +kernel) with
  | name _ marked => rwa [show nameIn repeated.message = ['A'] by decide] at marked
  | machine code | state code | opening code => exact absurd code (by decide)

end FsmWorkbench
