import FsmWorkbench.Model.Basic
import FsmWorkbench.Proofs.Notation.Expression

set_option autoImplicit false

namespace FsmWorkbench.Grammar

namespace Expression

def separator : Expression :=
  .choice (.text [' ']) (.choice (.text ['\t']) (.choice (.text ['\r']) (.text ['\n'])))

def comment : Expression :=
  .seq (.text ['/', '/']) (.many (.seq (.without (.text ['\n'])) .any))

def skip : Expression :=
  .seq (.many separator) (.many (.seq comment (.many separator)))

def andThen (first second : Expression) : Expression :=
  .seq first (.seq skip second)

def repeated (inner : Expression) : Expression :=
  .optional (.seq inner (.many (.seq skip inner)))

def letter : Expression :=
  .choice (.range 'a' 'z') (.range 'A' 'Z')

def wordChar : Expression :=
  .choice (.choice letter (.range '0' '9')) (.text ['_'])

def keyword (word : Keyword) : Expression :=
  .named (.keyword word) (.seq (.text word.text.toList) (.without wordChar))

def keywordText : Expression :=
  .choice (.text Keyword.machine.text.toList)
    (.choice (.text Keyword.state.text.toList)
      (.choice (.text Keyword.transition.text.toList)
        (.choice (.text Keyword.source.text.toList)
          (.choice (.text Keyword.target.text.toList)
            (.choice (.text Keyword.initial.text.toList)
              (.text Keyword.guard.text.toList))))))

def anyKeyword : Expression :=
  .seq keywordText (.without wordChar)

def name : Expression :=
  .named .name
    (.seq (.without anyKeyword) (.seq (.choice letter (.text ['_'])) (.many wordChar)))

def quotedInner : Expression :=
  .named .quotedInner (.many (.seq (.without (.choice (.text ['"']) (.text ['\n']))) .any))

def quoted : Expression :=
  .named .quoted (.seq (.text ['"']) (.seq quotedInner (.text ['"'])))

def machineDecl : Expression :=
  .named .machineDecl (andThen (keyword .machine) name)

def initialFlag : Expression :=
  .named .initialFlag (keyword .initial)

def stateDecl : Expression :=
  .named .stateDecl (andThen (keyword .state) (andThen name (.optional initialFlag)))

def guard : Expression :=
  .named .guard (andThen (keyword .guard) quoted)

def transitionDecl : Expression :=
  .named .transitionDecl
    (andThen (keyword .transition)
      (andThen name
        (andThen (keyword .source)
          (andThen name (andThen (keyword .target) (andThen name (.optional guard)))))))

def declaration : Expression :=
  .choice stateDecl transitionDecl

-- The start of the text takes nothing, and then there is skipping before the first part too.
def program : Expression :=
  .named .program
    (.seq skip
      (andThen (.optional machineDecl) (andThen (repeated declaration) (.named .endOfInput .stop))))

end Expression

namespace Tree

def name (tree : Tree) : Name :=
  ⟨tree.text, tree.span⟩

def names (tree : Tree) : List Name :=
  (tree.children.filter fun child => child.rule = .name).map name

-- The grammar leaves no tree without its names.
def nameAt (tree : Tree) (index : Nat) : Name :=
  tree.names[index]?.getD ⟨"", tree.span⟩

def machine (tree : Tree) : MachineDecl :=
  ⟨tree.nameAt 0, tree.span⟩

def state (tree : Tree) : StateDecl where
  name := tree.names.getLast?.getD ⟨"", tree.span⟩
  initial := tree.children.any fun child => child.rule = .initialFlag
  span := tree.span

def contents (tree : Tree) : Option String :=
  (tree.children.find? fun child => child.rule = .quoted).bind fun quoted =>
    quoted.children.head?.map text

def guard? (tree : Tree) : Option String :=
  (tree.children.find? fun child => child.rule = .guard).bind contents

def transition (tree : Tree) : TransitionDecl where
  name := tree.nameAt 0
  source := tree.nameAt 1
  target := tree.nameAt 2
  guard := tree.guard?
  span := tree.span

def addTo (model : Model) (tree : Tree) : Model :=
  match tree.rule with
  | .machineDecl => { model with machine := some tree.machine }
  | .stateDecl => { model with states := model.states ++ [tree.state] }
  | .transitionDecl => { model with transitions := model.transitions ++ [tree.transition] }
  | _ => model

end Tree

def parse? (text : String) : Option Model :=
  (Expression.program.run ⟨0, text.toList⟩).map fun (trees, _) =>
    match trees with
    | program :: _ => program.children.foldl Tree.addTo ⟨none, [], []⟩
    | [] => ⟨none, [], []⟩

end FsmWorkbench.Grammar
