set_option autoImplicit false

namespace FsmWorkbench

structure LanguageInfo where
  name : String
  languageId : String
  fileExtension : String
  version : String
  deriving DecidableEq, Repr, Inhabited

def LanguageInfo.standard : LanguageInfo where
  name := "FSM"
  languageId := "fsm"
  fileExtension := "fsm"
  version := "0.1.0"

end FsmWorkbench
