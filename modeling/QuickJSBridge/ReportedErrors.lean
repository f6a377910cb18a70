import QuickJSBridge.ThrownValues

/- Which exception an operation reports when its main evaluation throws. The engine has one
   slot for the exception that is pending: execute runs the pending jobs before it looks
   there, the other operations look at once. -/
namespace QuickJSBridge
open HostProgram ReentrantMachine

section Reports
variable {w u s : World} {h : BridgeHistory} {error : JSValue}

def beforeTaking (h : BridgeHistory) : BridgeHistory := h.takeWhile fun item => !takesException item

theorem beforeTaking_append {before during : BridgeHistory} {told : Thrown} {b : Bool}
    (none : before.any takesException = false) (report : ReportRun s told during b u) :
    beforeTaking (before ++ during) = before := by
  obtain ⟨v, rest, rfl, -⟩ := report.first
  unfold beforeTaking
  rw [List.takeWhile_append_of_pos]
  · simp [takesException]
  · simpa using none

theorem reported_taken {R : Type} {env : JNIEnv} {r : R} {out : Outcome R}
    (run : Exec bridge.meaning ((throwPendingJSException env).bind fun _ => .ret r) w h out u) :
    h.any takesException = true := by
  replace run : Exec bridge.meaning ((getPendingErrorStr.bind (throwJSException env)).bind
      fun _ => .ret r) w h out u := run
  rw [Prog.bind_assoc] at run
  exact taken_first run

end Reports
end QuickJSBridge
