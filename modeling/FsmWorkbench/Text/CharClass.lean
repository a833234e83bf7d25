set_option autoImplicit false

namespace FsmWorkbench.Text

structure CharClass where
  runs : List (Nat × Nat)

namespace CharClass

def contains (members : CharClass) (c : Char) : Bool :=
  members.runs.any fun run => run.1 ≤ c.toNat && c.toNat ≤ run.2

theorem contains_iff {members : CharClass} {c : Char} :
    members.contains c = true ↔ ∃ run ∈ members.runs, run.1 ≤ c.toNat ∧ c.toNat ≤ run.2 := by
  simp [contains]

end CharClass

end FsmWorkbench.Text
