import QuickJSBridge.ReportedErrors

/- References to counted allocations as the commands of a history move them: the engine hands
   some to the wrapper, and takes some back, when it stores or frees what it is given. -/
namespace QuickJSBridge
open HostProgram ReentrantMachine

def Item.given : BridgeItem → Option JSValue
  | .prim .getGlobalObject a _ | .prim .getException a _ | .prim (.dupValue _) a _ => some a.toValue
  | .call (.engine _) (.value v) _ => some v
  | _ => none

def Item.taken : BridgeItem → Option JSValue
  | .call (.engine e) _ _ => e.consumed
  | _ => none

def countAt (p : Addr) (v : Option JSValue) : Int := if v.bind JSValue.addr? = some p then 1 else 0

def Item.gained (item : BridgeItem) (p : Addr) : Int :=
  countAt p (Item.given item) - countAt p (Item.taken item)

def references (h : BridgeHistory) (p : Addr) : Int := (h.map fun item => Item.gained item p).sum

@[simp] theorem references_nil (p : Addr) : references [] p = 0 := rfl

@[simp] theorem references_cons (item : BridgeItem) (h : BridgeHistory) (p : Addr) :
    references (item :: h) p = Item.gained item p + references h p :=
  List.sum_cons

theorem references_append (h later : BridgeHistory) (p : Addr) :
    references (h ++ later) p = references h p + references later p := by
  unfold references
  rw [List.map_append, List.sum_append]

@[simp] theorem countAt_none (p : Addr) : countAt p none = 0 := rfl

theorem countAt_uncounted {v : JSValue} (uncounted : v.addr? = none) (p : Addr) :
    countAt p (some v) = 0 := by
  simp [countAt, uncounted]

theorem uncounted_of_countAt {v : JSValue} (uncounted : ∀ p, countAt p (some v) = 0) : v.addr? = none := by
  cases counted : v.addr? with
  | none => rfl
  | some p =>
    have here := uncounted p
    simp [countAt, counted] at here

section Neutral
variable {R S : Type}

abbrev Neutral (p : Program R) : Prop :=
  Ends bridge.meaning p fun h _ => ∀ q, references h q = 0

theorem neutral_ret (r : R) : Neutral (.ret r) := ends_ret fun _ => rfl
theorem neutral_crash : Neutral (.crash : Program R) := ends_crash fun _ => rfl

theorem neutral_prim {c : Prim} {next : Answer → Program R}
    (alone : ∀ a u q, Item.gained (.prim c a u) q = 0) (rest : ∀ a, Neutral (next a)) :
    Neutral (.prim c next) := by
  refine ends_prim fun w a u acts s h out t run q => ?_
  rw [references_cons, alone, rest a s h out t run q]
  rfl

theorem neutral_enter {e : ForeignCall} {next : Answer → Program R}
    (alone : ∀ w a u, bridge.Reply e w a u → ∀ q, Item.gained (.call e a u) q = 0)
    (rest : ∀ a, Neutral (next a)) : Neutral (.enter e next) := by
  refine ends_enter fun w a u answers s h out t run q => ?_
  rw [references_cons, alone w a u answers, rest a s h out t run q]
  rfl

theorem neutral_bind {p : Program R} {f : R → Program S} (first : Neutral p)
    (rest : ∀ r, Neutral (f r)) : Neutral (p.bind f) := by
  refine ends_bind first (fun _ balance => balance) fun r h balance s later out t run q => ?_
  rw [references_append, balance, rest r s later out t run q]
  rfl

end Neutral

section Commands
variable {w u : World} {h : BridgeHistory} {v : JSValue}

theorem references_freeValue {out : Outcome Unit}
    (run : Exec bridge.meaning (freeValue v) w h out u) (p : Addr) :
    references h p = -countAt p (some v) := by
  unfold freeValue at run
  cases counted : v.addr? with
  | none =>
    rw [counted] at run
    obtain ⟨rfl, -, -⟩ := exec_ret run
    rw [countAt_uncounted counted]
    rfl
  | some q =>
    rw [counted] at run
    obtain ⟨a, s, rest, answers, tail, rfl⟩ := exec_enter run
    obtain ⟨rfl, -, -⟩ := exec_ret tail
    obtain ⟨x, y, labels, -, -, back⟩ := answers
    replace back : deliverEngine (.freeValue v) a y = some s := back
    cases a with
    | unit => simp [Item.gained, Item.given, Item.taken, EngineCall.consumed]
    | _ => cases back

end Commands
end QuickJSBridge
