import QuickJSBridge.UnhandledRejections

/- JS exceptions that no Java exception reports. Some operations check what the engine
   answers and some do not, and making the text of a report calls the engine again. -/
namespace QuickJSBridge
open HostProgram ReentrantMachine

section Failures

def failed : BridgeItem → Bool
  | .call (.engine _) (.value v) _ => v.isException
  | .call (.engine _) (.int n) _ => n < 0
  | _ => false

/-- No failure is lost, and none is left behind. -/
def FailuresSurface (h : BridgeHistory) (out : Outcome Answer) (u : World) : Prop :=
  (h.any failed = true → (∃ a, out = .returned a) ∧ u.javaException.isSome = true) ∧
  ((∃ a, out = .returned a) → u.exception = .null)

def setsException : BridgeItem → Bool
  | .prim .getException _ _ | .call _ _ _ => true
  | _ => false

def setsJavaException : BridgeItem → Bool
  | .prim (.throw _ _) _ _ => true
  | item => runsJS item

/-- The JS exception that is pending after the last engine call, unless it was taken since. -/
def exceptionLeft (w : World) (h : BridgeHistory) : JSValue :=
  leftBy setsException World.exception w.exception h

end Failures

section Courses
variable {w s : World} {h : BridgeHistory} {φ : Phase}

theorem exception_alone {item : BridgeItem} (happens : Happens bridge.meaning s item)
    (other : setsException item = false) : item.after.exception = s.exception := by
  cases item with
  | prim c a u =>
    apply exception_exec happens
    rintro rfl
    cases other
  | call e a u => cases other

theorem javaException_alone {item : BridgeItem} (happens : Happens bridge.meaning s item)
    (other : setsJavaException item = false) : item.after.javaException = s.javaException := by
  cases item with
  | prim c a u =>
    have after := congrArg Agenda.javaException (agenda_exec happens)
    cases c with
    | throw env e => cases other
    | _ => exact after
  | call e a u =>
    cases e with
    | java f args => cases other
    | engine e => exact congrArg Agenda.javaException (reply_quiet other happens)

end Courses

end QuickJSBridge
