import QuickJSBridge.RunToCompletion

/- The queue of pending jobs when an operation returns. The job loop empties it, where there is
   one and it comes to its end; everywhere else what the JS code enqueued stays. -/
namespace QuickJSBridge
open HostProgram ReentrantMachine

section Histories

def Shows (h : BridgeHistory) : Phase → Prop
  | .running | .jobTaken | .settled => h.any takesException = false
  | .reporting | .reported => h.any takesException = true

theorem shows_same {h : BridgeHistory} {φ : Phase} {item : BridgeItem} (shows : Shows h φ)
    (takes : takesException item = false) : Shows (h ++ [item]) φ := by
  cases φ <;> simp_all [Shows]

theorem path_shows {w s : World} {h : BridgeHistory} {φ : Phase}
    (path : Path bridge.meaning Moves .running w h φ s) : Shows h φ := by
  induction path with
  | nil => rfl
  | snoc path happens may ih =>
    cases may with
    | steady φ may => exact shows_same ih (steady_silent may)
    | quiet φ noJS => exact shows_same ih rfl
    | runsJS may other => exact shows_same ih rfl
    | moreJobs => exact shows_same ih rfl
    | noJobs => simpa [Shows, takesException] using ih
    | takeJob => simpa [Shows, takesException] using ih
    | runJob => simpa [Shows, takesException] using ih
    | getException may => simp [Shows, takesException]
    | alreadyPending => simpa [Shows, takesException] using ih
    | throw begins => simpa [Shows, takesException] using ih

end Histories

section Queue
variable {w s : World} {h : BridgeHistory} {φ : Phase}

end Queue

section Settling
variable {w s u : World} {h : BridgeHistory}

end Settling

section Operations

/-- Thread 0 enters the evaluation of an empty script. -/
def entersEvaluate (fuel : Nat) : List BridgeLabel :=
  constructing ++ [.event (.spawn 0 (.evaluate (some []) (some []) false fuel)), .call (.native 0)]

/-- Thread 0 enters an operation on the handle of the global object. -/
def entersOnGlobal (call : JavaObject → ApiCall) : List BridgeLabel :=
  constructing ++
  ([.event (.spawn 0 .getGlobalObject), .call (.native 0), .tau, .tau, .tau, .answer .unit, .tau,
    .event (.retire 0), .event (.spawn 0 (call (.handle 0 .jsObject 1 0))),
    .call (.native 0)] : List BridgeLabel)

end Operations
end QuickJSBridge
